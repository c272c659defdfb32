/-!
# Ordered entries

A mapping is a list of entries in the order they were first written. Putting a key that is already
there keeps its place and takes the new value.
-/

namespace SceneScript

/-- Keyed values in their order. -/
abbrev Entries (α : Type) := List (String × α)

namespace Entries

variable {α : Type}

/-- The value under a key. -/
def get? : Entries α → String → Option α
  | [], _ => none
  | (k, v) :: rest, key => if k = key then some v else get? rest key

/-- Puts a value under a key: in the key's place, or at the end when the key is new. -/
def put : Entries α → String → α → Entries α
  | [], key, value => [(key, value)]
  | (k, v) :: rest, key, value =>
    if k = key then (k, value) :: rest else (k, v) :: put rest key value

/-- Leaves out a key and keeps the order of the others. -/
def without (entries : Entries α) (key : String) : Entries α :=
  entries.filter fun entry => entry.1 ≠ key

/-- The keys in order. -/
def keys (entries : Entries α) : List String :=
  entries.map Prod.fst

/-- Entries put one after the other: a repeated key keeps its first place and takes its last
value. -/
def ofList (entries : List (String × α)) : Entries α :=
  entries.foldl (fun acc entry => acc.put entry.1 entry.2) []

@[simp]
theorem get?_put_self (entries : Entries α) (key : String) (value : α) :
    (entries.put key value).get? key = some value := by
  fun_induction put entries key value <;> simp_all [get?]

theorem get?_put_of_ne (entries : Entries α) {key other : String} (value : α) (h : other ≠ key) :
    (entries.put key value).get? other = entries.get? other := by
  fun_induction put entries key value with
  | case1 => simp [get?, h.symm]
  | case2 => simp [get?, h.symm]
  | case3 k v rest key value _ ih => simp [get?, ih h]

/-- Leaving out one key hides no other. -/
theorem get?_without_of_ne (entries : Entries α) {key other : String} (h : other ≠ key) :
    (entries.without key).get? other = entries.get? other := by
  unfold without
  induction entries with
  | nil => rfl
  | cons entry rest ih =>
    by_cases hkey : entry.1 = key
    · rw [List.filter_cons_of_neg (by simpa using hkey), ih]
      simp [get?, hkey, h.symm]
    · rw [List.filter_cons_of_pos (by simpa using hkey)]
      simp only [get?, ih]

theorem get?_map {β : Type} (f : α → β) (entries : Entries α) (key : String) :
    get? (entries.map fun entry => (entry.1, f entry.2)) key = (entries.get? key).map f := by
  induction entries with
  | nil => rfl
  | cons entry rest ih =>
    simp only [List.map_cons, get?]
    split
    · rfl
    · exact ih

theorem mem_of_get? {entries : Entries α} {key : String} {value : α}
    (h : entries.get? key = some value) : (key, value) ∈ entries := by
  fun_induction get? entries key <;> simp_all

/-- Putting adds one entry at most. -/
theorem mem_of_mem_put {entries : Entries α} {key : String} {value : α} {entry : String × α}
    (h : entry ∈ entries.put key value) : entry = (key, value) ∨ entry ∈ entries := by
  fun_induction put entries key value with
  | case1 => simpa using h
  | case2 v rest value =>
    rcases List.mem_cons.1 h with h | h
    · exact .inl h
    · exact .inr (List.mem_cons_of_mem _ h)
  | case3 k v rest key value _ ih =>
    rcases List.mem_cons.1 h with h | h
    · exact .inr (h ▸ List.mem_cons_self)
    · exact (ih h).imp_right (List.mem_cons_of_mem _)

theorem get?_eq_none_iff {entries : Entries α} {key : String} :
    entries.get? key = none ↔ key ∉ entries.keys := by
  fun_induction get? entries key <;> simp_all [keys, eq_comm]

/-- A new key comes last; a key that is there keeps its place. -/
theorem keys_put (entries : Entries α) (key : String) (value : α) :
    (entries.put key value).keys =
      if key ∈ entries.keys then entries.keys else entries.keys ++ [key] := by
  fun_induction put entries key value with
  | case1 => simp [keys]
  | case2 => simp [keys]
  | case3 k v rest key value hne ih =>
    simp only [keys, List.map_cons, List.mem_cons, ne_comm.1 hne, false_or] at ih ⊢
    rw [ih]
    split <;> simp_all

theorem put_of_not_mem {entries : Entries α} {key : String} (value : α) (h : key ∉ entries.keys) :
    entries.put key value = entries ++ [(key, value)] := by
  fun_induction put entries key value with
  | case1 => rfl
  | case2 => simp [keys] at h
  | case3 k v rest key value hne ih =>
    simp only [keys, List.map_cons, List.mem_cons, not_or] at ih h
    rw [ih h.2, List.cons_append]

end Entries

end SceneScript
