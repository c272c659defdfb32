import Mathlib.Data.List.Infix
import SceneScript.Ini.Tree

/-!
# What sections build

Sections build a tree by events, one after the other: a header opens the mapping at its path, and
an assignment puts a value under a key of the mapping that is open (`Ini.events`, `Ini.build`).
`entriesOf_eq_build` says that this is the tree of the sections.

What one event leaves alone is said once for each kind of thing that may stand at a path: a value
stays unless an event disturbs it (`Event.keeps_value`), and a mapping stays a mapping, with its
keys in their places, unless an assignment replaces it (`Event.keeps_mapping`). Along a run of
events both follow by induction.

`Ini.walk?` is the same work on a tree whose keys can only be read and set in mappings. It never
stops at anything else (`walk?_eq`).
-/

namespace SceneScript

namespace Entries

variable {α : Type}

theorem put_put (entries : Entries α) (key : String) (a b : α) :
    (entries.put key a).put key b = entries.put key b := by
  fun_induction put entries key a with
  | case1 => simp [put]
  | case2 => simp [put]
  | case3 k v rest key a hne ih => simp [put, hne, ih]

/-- A key that is put keeps all others in their places. -/
theorem keys_prefix_keys_put (entries : Entries α) (key : String) (value : α) :
    entries.keys <+: (entries.put key value).keys := by
  rw [keys_put]
  split
  · exact List.prefix_rfl
  · exact List.prefix_append _ _

end Entries

namespace Value

/-- Whether a value is a mapping. -/
def isMapping (v : Value) : Bool :=
  v.mapping?.isSome

/-- What stands under a key of a mapping. -/
def child? (v : Value) (key : String) : Option Value := do
  let entries ← v.mapping?
  entries.get? key

/-- A mapping with a value under a key. -/
def setChild? (v : Value) (key : String) (child : Value) : Option Value := do
  let entries ← v.mapping?
  return .mapping (entries.put key child)

/-- What stands at a path, key by key. -/
def at? (v : Value) : List String → Option Value
  | [] => some v
  | key :: path => (v.child? key).bind (at? · path)

variable {entries : Entries Value} {key : String}

@[simp]
theorem child?_mapping : child? (.mapping entries) key = entries.get? key := rfl

@[simp]
theorem setChild?_mapping (child : Value) :
    setChild? (.mapping entries) key child = some (.mapping (entries.put key child)) := rfl

@[simp]
theorem at?_nil (v : Value) : v.at? [] = some v := rfl

@[simp]
theorem at?_mapping_cons (path : List String) :
    at? (.mapping entries) (key :: path) = (entries.get? key).bind (at? · path) := rfl

/-- Only in a mapping something stands at a longer path. -/
theorem exists_mapping_of_at? {v found : Value} {path : List String}
    (h : v.at? (key :: path) = some found) : ∃ entries, v = .mapping entries := by
  cases v with
  | mapping entries => exact ⟨entries, rfl⟩
  | _ => cases h

theorem exists_mapping_of_at?_mapping {v : Value} {path : List String} {found : Entries Value}
    (h : v.at? path = some (.mapping found)) : ∃ entries, v = .mapping entries := by
  cases path with
  | nil => exact ⟨found, Option.some.inj h⟩
  | cons key path => exact exists_mapping_of_at? h

end Value

namespace Ini

/-! ## The mapping at a path -/

variable {entries child : Entries Value} {key : String} {value : Value} {p r : List String}
  {change : Entries Value → Entries Value}

theorem childEntries_of_get? (h : entries.get? key = some (.mapping child)) :
    childEntries entries key = child := by
  rw [childEntries, h]

@[simp]
theorem childEntries_put_self :
    childEntries (entries.put key (.mapping child)) key = child :=
  childEntries_of_get? (Entries.get?_put_self _ _ _)

/-- Two changes at one path are one change. -/
theorem updateAt_updateAt (f g : Entries Value → Entries Value) (r : List String)
    (entries : Entries Value) :
    updateAt f r (updateAt g r entries) = updateAt (f ∘ g) r entries := by
  induction r generalizing entries with
  | nil => rfl
  | cons key r ih => simp only [updateAt, childEntries_put_self, Entries.put_put, ih]

/-- A change that keeps the keys in their places does so at every path. -/
theorem keys_prefix_updateAt (h : ∀ inner, inner.keys <+: (change inner).keys) (r : List String)
    (entries : Entries Value) : entries.keys <+: (updateAt change r entries).keys := by
  cases r with
  | nil => exact h entries
  | cons key r => exact Entries.keys_prefix_keys_put entries key _

/-- Below a key, a change is one of what stands there. -/
theorem at?_updateAt_cons (path : List String) :
    (Value.mapping (updateAt change (key :: r) entries)).at? (key :: path) =
      (Value.mapping (updateAt change r (childEntries entries key))).at? path := by
  rw [updateAt, Value.at?_mapping_cons, Entries.get?_put_self, Option.bind_some]

/-- Below other keys, a change is none. -/
theorem at?_updateAt_cons_of_ne {other : String} (h : other ≠ key) (path : List String) :
    (Value.mapping (updateAt change (key :: r) entries)).at? (other :: path) =
      (Value.mapping entries).at? (other :: path) := by
  rw [updateAt, Value.at?_mapping_cons, Entries.get?_put_of_ne _ _ h, Value.at?_mapping_cons]

/-- What stands at a path below a key stands in the mapping under the key. -/
theorem at?_childEntries {other : String} :
    (Value.mapping (childEntries entries key)).at? (other :: p) =
      (Value.mapping entries).at? (key :: other :: p) := by
  rw [Value.at?_mapping_cons (other :: p), childEntries]
  cases entries.get? key with
  | none => rfl
  | some found => cases found <;> rfl

/-- A change at a longer path changes the mapping that stands on the way. -/
theorem at?_updateAt_append (h : (Value.mapping entries).at? p = some (.mapping child)) :
    (Value.mapping (updateAt change (p ++ r) entries)).at? p =
      some (.mapping (updateAt change r child)) := by
  induction p generalizing entries with
  | nil =>
    cases h
    rfl
  | cons key p ih =>
    obtain ⟨found, hget, hfound⟩ := Option.bind_eq_some_iff.1 h
    obtain ⟨inner, rfl⟩ := Value.exists_mapping_of_at?_mapping hfound
    rw [List.cons_append, at?_updateAt_cons, childEntries_of_get? hget]
    exact ih hfound

/-- An opened mapping is there, whatever stood at its path. -/
theorem at?_updateAt_self (change : Entries Value → Entries Value) (r : List String)
    (entries : Entries Value) :
    ∃ inner,
      (Value.mapping (updateAt change r entries)).at? r = some (.mapping (change inner)) := by
  induction r generalizing entries with
  | nil => exact ⟨entries, rfl⟩
  | cons key r ih =>
    rw [at?_updateAt_cons]
    exact ih _

/-! ## Events -/

/-- What a section does to the tree, one thing after the other. -/
inductive Event where
  /-- Opens the mapping at a path. -/
  | header (path : List String)
  /-- Puts a value under a key of the mapping at a path. -/
  | assignment (folder : List String) (key : String) (value : Value)

namespace Event

/-- What an event does. -/
def apply (entries : Entries Value) : Event → Entries Value
  | .header path => updateAt id path entries
  | .assignment folder key value => updateAt (fun inner => inner.put key value) folder entries

/-- Whether an event may change a value that stands at a path: it assigns at, above or below the
path, or opens a mapping there or below. -/
def Disturbs (path : List String) : Event → Prop
  | .header opened => path <+: opened
  | .assignment folder key _ => folder ++ [key] <+: path ∨ path <+: folder ++ [key]

/-- Whether an event puts a value in the place of the mapping at a path or of one above. -/
def Replaces (path : List String) : Event → Prop
  | .header _ => False
  | .assignment folder key _ => folder ++ [key] <+: path

/-- Opening a mapping takes away nothing but what stands in its way. -/
theorem header_keeps {found : Value} (h : (Value.mapping entries).at? p = some found)
    (hp : ¬ p <+: r) : (Value.mapping (updateAt id r entries)).at? p = some found := by
  induction r generalizing p entries with
  | nil => exact h
  | cons key r ih =>
    cases p with
    | nil => exact absurd (List.nil_prefix) hp
    | cons other p =>
      by_cases hkey : other = key
      · subst hkey
        cases p with
        | nil => exact absurd (List.prefix_append [other] r) hp
        | cons next p =>
          rw [at?_updateAt_cons]
          refine ih (at?_childEntries.trans h) fun hprefix => hp ?_
          exact List.cons_prefix_cons.2 ⟨rfl, hprefix⟩
      · rw [at?_updateAt_cons_of_ne hkey]
        exact h

/-- An assignment changes nothing beside its path. -/
theorem assignment_keeps (hdown : ¬ r ++ [key] <+: p) (hup : ¬ p <+: r ++ [key]) :
    (Value.mapping (updateAt (fun inner => inner.put key value) r entries)).at? p =
      (Value.mapping entries).at? p := by
  induction r generalizing p entries with
  | nil =>
    cases p with
    | nil => exact absurd List.nil_prefix hup
    | cons other p =>
      have hne : other ≠ key := by
        rintro rfl
        exact hdown (List.prefix_append [other] p)
      rw [updateAt, Value.at?_mapping_cons, Entries.get?_put_of_ne _ _ hne, Value.at?_mapping_cons]
  | cons first r ih =>
    cases p with
    | nil => exact absurd List.nil_prefix hup
    | cons other p =>
      by_cases hkey : other = first
      · subst hkey
        rw [List.cons_append, List.cons_prefix_cons] at hdown hup
        simp only [true_and] at hdown hup
        cases p with
        | nil => exact absurd List.nil_prefix hup
        | cons next p => rw [at?_updateAt_cons, ih hdown hup, at?_childEntries]
      · rw [at?_updateAt_cons_of_ne hkey]

/-- A value stays where it is unless it is disturbed. -/
theorem keeps_value {e : Event} {found : Value}
    (h : (Value.mapping entries).at? p = some found) (he : ¬ e.Disturbs p) :
    (Value.mapping (e.apply entries)).at? p = some found := by
  cases e with
  | header opened => exact header_keeps h he
  | assignment folder key value =>
    rw [apply, assignment_keeps (fun hdown => he (.inl hdown)) fun hup => he (.inr hup)]
    exact h

/-- A mapping stays a mapping unless it is replaced, and its keys keep their places. -/
theorem keeps_mapping {e : Event} (h : (Value.mapping entries).at? p = some (.mapping child))
    (he : ¬ e.Replaces p) :
    ∃ later : Entries Value, (Value.mapping (e.apply entries)).at? p = some (.mapping later) ∧
      child.keys <+: later.keys := by
  cases e with
  | header opened =>
    by_cases hp : p <+: opened
    · obtain ⟨below, rfl⟩ := hp
      exact ⟨_, at?_updateAt_append h, keys_prefix_updateAt (fun _ => List.prefix_rfl) _ _⟩
    · exact ⟨child, header_keeps h hp, List.prefix_rfl⟩
  | assignment folder key value =>
    by_cases hp : p <+: folder
    · obtain ⟨below, rfl⟩ := hp
      refine ⟨_, at?_updateAt_append h, keys_prefix_updateAt (fun inner => ?_) _ _⟩
      exact Entries.keys_prefix_keys_put inner key value
    · have hup : ¬ p <+: folder ++ [key] := by
        intro hup
        rcases List.prefix_concat_iff.1 hup with rfl | hup
        · exact he List.prefix_rfl
        · exact hp hup
      exact ⟨child, (assignment_keeps he hup).trans h, List.prefix_rfl⟩

end Event

/-- The events of a section, where `parse` gives the value of a raw text. -/
def Section.events (parse : String → Value) (s : Section) : List Event :=
  .header s.path ::
    s.assignments.map fun (key, raw) => .assignment s.path (Text.trim key) (parse raw)

/-- The events of sections. -/
def events (parse : String → Value) (sections : List Section) : List Event :=
  sections.flatMap (Section.events parse)

/-- The entries that events make of others. -/
def run (entries : Entries Value) (es : List Event) : Entries Value :=
  es.foldl Event.apply entries

/-- The entries that events build. -/
def build (es : List Event) : Entries Value :=
  run [] es

/-! ## Runs -/

theorem run_cons (e : Event) (es : List Event) :
    run entries (e :: es) = run (e.apply entries) es := rfl

theorem run_append (es fs : List Event) : run entries (es ++ fs) = run (run entries es) fs :=
  List.foldl_append

theorem build_append (es fs : List Event) : build (es ++ fs) = run (build es) fs :=
  run_append es fs

/-- The assignments of a section change one mapping. -/
theorem run_assignments (parse : String → Value) (assignments : List (String × String)) :
    run (updateAt change r entries)
        (assignments.map fun (key, raw) => .assignment r (Text.trim key) (parse raw)) =
      updateAt (assignAll parse assignments ∘ change) r entries := by
  induction assignments generalizing change with
  | nil => rfl
  | cons assignment rest ih =>
    rw [List.map_cons, run_cons, Event.apply, updateAt_updateAt, ih]
    rfl

theorem run_section (parse : String → Value) (s : Section) :
    run entries (s.events parse) = updateAt (assignAll parse s.assignments) s.path entries :=
  run_assignments parse s.assignments

/-- The tree of sections is what their events build. -/
theorem entriesOf_eq_build (parse : String → Value) (sections : List Section) :
    entriesOf parse sections = build (events parse sections) := by
  have hrun (start : Entries Value) :
      sections.foldl (fun acc s => updateAt (assignAll parse s.assignments) s.path acc) start =
        run start (events parse sections) := by
    induction sections generalizing start with
    | nil => rfl
    | cons s rest ih =>
      have hevents : events parse (s :: rest) = s.events parse ++ events parse rest := rfl
      rw [List.foldl_cons, ih, hevents, run_append, run_section]
  exact hrun []

theorem run_keeps_value {es : List Event} {found : Value}
    (h : (Value.mapping entries).at? p = some found) (hes : ∀ e ∈ es, ¬ e.Disturbs p) :
    (Value.mapping (run entries es)).at? p = some found := by
  induction es generalizing entries with
  | nil => exact h
  | cons e es ih =>
    obtain ⟨he, hes⟩ := List.forall_mem_cons.1 hes
    exact ih (Event.keeps_value h he) hes

theorem run_keeps_mapping {es : List Event}
    (h : (Value.mapping entries).at? p = some (.mapping child)) (hes : ∀ e ∈ es, ¬ e.Replaces p) :
    ∃ later : Entries Value, (Value.mapping (run entries es)).at? p = some (.mapping later) ∧
      child.keys <+: later.keys := by
  induction es generalizing entries child with
  | nil => exact ⟨child, h, List.prefix_rfl⟩
  | cons e es ih =>
    obtain ⟨he, hes⟩ := List.forall_mem_cons.1 hes
    obtain ⟨next, hnext, hkeys⟩ := Event.keeps_mapping h he
    obtain ⟨later, hlater, hmore⟩ := ih hnext hes
    exact ⟨later, hlater, hkeys.trans hmore⟩

/-- An assigned value stands at its path. -/
theorem at?_assignment (entries : Entries Value) (folder : List String) (key : String)
    (value : Value) :
    (Value.mapping ((Event.assignment folder key value).apply entries)).at? (folder ++ [key]) =
      some value := by
  induction folder generalizing entries with
  | nil => simp [Event.apply, updateAt]
  | cons first folder ih =>
    rw [List.cons_append, Event.apply, at?_updateAt_cons]
    exact ih _

/-! ## The walk -/

/-- A value with a mapping under a key: the one that is there, or an empty one in the place of
whatever else is there. -/
def opened? (node : Value) (key : String) : Option Value :=
  if (node.child? key).any Value.isMapping then some node else node.setChild? key (.mapping [])

/-- Goes from a value along a path to the mapping that is opened there, and changes that. Every key
on the way is read and set as a key of a mapping. -/
def walk? (step : Value → Option Value) : List String → Value → Option Value
  | [], node => step node
  | key :: path, node => do
    let node ← opened? node key
    let child ← node.child? key
    node.setChild? key (← walk? step path child)

/-- Assigns values one after the other, each under a key of a mapping. -/
def assign? (parse : String → Value) (assignments : List (String × String)) (node : Value) :
    Option Value :=
  assignments.foldlM (fun node (key, raw) => node.setChild? (Text.trim key) (parse raw)) node

/-- The tree of sections, each of them walked to from the root. -/
def load? (parse : String → Value) (sections : List Section) : Option Value :=
  sections.foldlM (fun root s => walk? (assign? parse s.assignments) s.path root) (.mapping [])

theorem opened?_eq (entries : Entries Value) (key : String) :
    ∃ opened : Entries Value, opened? (.mapping entries) key = some (.mapping opened) ∧
      opened.get? key = some (.mapping (childEntries entries key)) ∧
      ∀ v, opened.put key v = entries.put key v := by
  by_cases hmapping : ∃ child, entries.get? key = some (.mapping child)
  · obtain ⟨child, hchild⟩ := hmapping
    refine ⟨entries, ?_, ?_, fun _ => rfl⟩
    · simp [opened?, hchild, Value.isMapping, Value.mapping?]
    · rw [childEntries_of_get? hchild]
      exact hchild
  · have hother : (entries.get? key).any Value.isMapping = false := by
      rw [Option.any_eq_false]
      intro v hv
      cases v with
      | mapping child => exact absurd ⟨child, hv⟩ hmapping
      | _ => rfl
    have hempty : childEntries entries key = [] := by
      unfold childEntries
      split
      · rename_i child hchild
        exact absurd ⟨child, hchild⟩ hmapping
      · rfl
    refine ⟨entries.put key (.mapping []), ?_, ?_, Entries.put_put entries key _⟩
    · rw [opened?, Value.child?_mapping, hother, if_neg (by decide), Value.setChild?_mapping]
    · rw [hempty]
      exact Entries.get?_put_self _ _ _

/-- The walk finds a mapping at each of its keys. -/
theorem walk?_eq {step : Value → Option Value}
    (h : ∀ inner, step (.mapping inner) = some (.mapping (change inner))) (r : List String)
    (entries : Entries Value) :
    walk? step r (.mapping entries) = some (.mapping (updateAt change r entries)) := by
  induction r generalizing entries with
  | nil => exact h entries
  | cons key r ih =>
    obtain ⟨opened, hopened, hchild, hput⟩ := opened?_eq entries key
    simp only [walk?, hopened, Option.bind_eq_bind, Option.bind_some, Value.child?_mapping, hchild,
      ih, Value.setChild?_mapping, hput, updateAt]

theorem assign?_eq (parse : String → Value) (assignments : List (String × String))
    (inner : Entries Value) :
    assign? parse assignments (.mapping inner) =
      some (.mapping (assignAll parse assignments inner)) := by
  induction assignments generalizing inner with
  | nil => rfl
  | cons assignment rest ih => exact ih _

/-- Walking to one section after the other builds their tree, and never comes to a value that is no
mapping. -/
theorem load?_eq (parse : String → Value) (sections : List Section) :
    load? parse sections = some (treeOf parse sections) := by
  have hwalks (start : Entries Value) :
      sections.foldlM (fun root s => walk? (assign? parse s.assignments) s.path root)
          (.mapping start) =
        some (.mapping (sections.foldl
          (fun acc s => updateAt (assignAll parse s.assignments) s.path acc) start)) := by
    induction sections generalizing start with
    | nil => rfl
    | cons s rest ih =>
      rw [List.foldlM_cons, walk?_eq (assign?_eq parse s.assignments), Option.bind_eq_bind,
        Option.bind_some, ih, List.foldl_cons]
  exact hwalks []

/-! ## The tree -/

/-- Sections build the tree that they describe, whatever order they come in.

* Walking from the root to each section and assigning there only ever reads and sets keys of
  mappings, and gives a mapping.
* An assigned value is found at its path, unless a later assignment is made at, above or below the
  path or a later section opens a mapping there or below.
* A section ends up as a mapping, whatever stood at its path before, unless a later assignment
  replaces it or a mapping above it.
* A mapping that is not replaced keeps its keys in their places: a key that is assigned again stays
  where it was first, and a new key comes behind. -/
theorem sections_build_tree (parse : String → Value) (sections : List Section) :
    load? parse sections = some (treeOf parse sections) ∧
    (∃ entries, treeOf parse sections = .mapping entries) ∧
    (∀ before folder key value after,
      events parse sections = before ++ .assignment folder key value :: after →
      (∀ e ∈ after, ¬ e.Disturbs (folder ++ [key])) →
        (treeOf parse sections).at? (folder ++ [key]) = some value) ∧
    (∀ before path after, events parse sections = before ++ .header path :: after →
      (∀ e ∈ after, ¬ e.Replaces path) →
        ∃ entries, (treeOf parse sections).at? path = some (.mapping entries)) ∧
    ∀ before after path (earlier : Entries Value), events parse sections = before ++ after →
      (Value.mapping (build before)).at? path = some (.mapping earlier) →
      (∀ e ∈ after, ¬ e.Replaces path) →
        ∃ later : Entries Value, (treeOf parse sections).at? path = some (.mapping later) ∧
          earlier.keys <+: later.keys := by
  refine ⟨load?_eq parse sections, ⟨_, rfl⟩, ?_, ?_, ?_⟩
  · intro before folder key value after hevents hafter
    rw [treeOf, entriesOf_eq_build, hevents, build_append, run_cons]
    exact run_keeps_value (at?_assignment _ folder key value) hafter
  · intro before path after hevents hafter
    rw [treeOf, entriesOf_eq_build, hevents, build_append, run_cons]
    obtain ⟨inner, hinner⟩ := at?_updateAt_self id path (build before)
    obtain ⟨later, hlater, -⟩ := run_keeps_mapping hinner hafter
    exact ⟨later, hlater⟩
  · intro before after path earlier hevents hearlier hafter
    rw [treeOf, entriesOf_eq_build, hevents, build_append]
    exact run_keeps_mapping hearlier hafter

-- a scalar gives way to a section, and a key that is assigned again keeps its place
example :
    (treeOf .string
      [⟨none, [("a", "0")]⟩, ⟨some " a .. b", [("x", "1"), ("y", "2"), ("x ", "3")]⟩]).at? ["a"] =
      some (.mapping [("b", .mapping [("x", .string "3"), ("y", .string "2")])]) := by
  rfl

end Ini

end SceneScript
