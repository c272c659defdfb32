import SceneScript.Json
import SceneScript.Proofs.Brackets
import SceneScript.Proofs.DataReading
import SceneScript.Value.Literal

/-!
# Reading literals back

Values without strings (`Value.IsPlain`) can be read back from the program: `Script.data?` recovers
the value with the order of its keys, where numbers are taken as they are printed
(`Value.outline`). No two values have one outline, so no two such values have one text. The texts
may have spaces between their tokens or not, and so any value at all is read back from its JSON
text, where strings and keys are quoted (`Json.data?_compact`).

The texts nest in each other, and a comma that separates the arguments of a call is one outside of
brackets. So the arguments are exactly the parts between these commas.
-/

namespace SceneScript

open Text Script

/-! ## Outlines -/

namespace Value

mutual

/-- A value as a program holds it: numbers become the texts that they are printed as. -/
def outline : Value → Data
  | .null => .null
  | .bool b => .bool b
  | .number n => .number n.text
  | .string s => .string s
  | .list items => .list (outlines items)
  | .mapping entries => .mapping (outlinesKeyed entries)

/-- The outlines of several values. -/
def outlines : List Value → List Data
  | [] => []
  | v :: vs => v.outline :: outlines vs

/-- The outlines of several entries. -/
def outlinesKeyed : List (String × Value) → List (String × Data)
  | [] => []
  | (k, v) :: entries => (k, v.outline) :: outlinesKeyed entries

end

theorem outlines_eq_map (items : List Value) : outlines items = items.map outline := by
  induction items with
  | nil => rfl
  | cons v vs ih => rw [outlines, ih, List.map_cons]

theorem outlinesKeyed_eq_map (entries : List (String × Value)) :
    outlinesKeyed entries = entries.map fun entry => (entry.1, entry.2.outline) := by
  induction entries with
  | nil => rfl
  | cons entry rest ih => rw [outlinesKeyed, ih, List.map_cons]

mutual

/-- Different values have different outlines. -/
theorem outline_injective : ∀ {v w : Value}, v.outline = w.outline → v = w
  | .null, w, h => by cases w <;> simp_all [outline]
  | .bool b, w, h => by cases w <;> simp_all [outline]
  | .number n, w, h => by
    cases w <;> simp only [outline, Data.number.injEq, reduceCtorEq] at h
    rw [Number.text_injective h]
  | .string s, w, h => by cases w <;> simp_all [outline]
  | .list items, w, h => by
    cases w <;> simp only [outline, Data.list.injEq, reduceCtorEq] at h
    rw [outlines_injective h]
  | .mapping entries, w, h => by
    cases w <;> simp only [outline, Data.mapping.injEq, reduceCtorEq] at h
    rw [outlinesKeyed_injective h]

theorem outlines_injective : ∀ {vs ws : List Value}, outlines vs = outlines ws → vs = ws
  | [], ws, h => by cases ws <;> simp_all [outlines]
  | v :: vs, [], h => by simp [outlines] at h
  | v :: vs, w :: ws, h => by
    obtain ⟨hfirst, hrest⟩ := List.cons.inj h
    rw [outline_injective hfirst, outlines_injective hrest]

theorem outlinesKeyed_injective :
    ∀ {vs ws : List (String × Value)}, outlinesKeyed vs = outlinesKeyed ws → vs = ws
  | [], ws, h => by cases ws <;> simp_all [outlinesKeyed]
  | v :: vs, [], h => by simp [outlinesKeyed] at h
  | (k, v) :: vs, (l, w) :: ws, h => by
    obtain ⟨hfirst, hrest⟩ := List.cons.inj h
    obtain ⟨rfl, hvalue⟩ := Prod.mk.inj hfirst
    rw [outline_injective hvalue, outlinesKeyed_injective hrest]

end

/-! ## Plain values -/

/-- A value without strings whose keys are names. -/
inductive IsPlain (a : Alphabet) : Value → Prop
  | null : IsPlain a .null
  | bool (b : Bool) : IsPlain a (.bool b)
  | number (n : Number) : IsPlain a (.number n)
  | list {items : List Value} (h : ∀ v ∈ items, IsPlain a v) : IsPlain a (.list items)
  | mapping {entries : List (String × Value)}
      (hkeys : ∀ entry ∈ entries, a.IsName entry.1.toList)
      (h : ∀ entry ∈ entries, IsPlain a entry.2) : IsPlain a (.mapping entries)

/-- The text of an entry. -/
def entryChars (entry : String × Value) : List Char :=
  entry.1.toList ++ ':' :: ' ' :: entry.2.literal.toList

theorem toList_literal_list (items : List Value) :
    (Value.list items).literal.toList =
      '[' :: ([',', ' '].intercalate (items.map fun v => v.literal.toList) ++ [']']) := by
  rw [literal, String.toList_append, String.toList_append, String.toList_intercalate,
    literals_eq_map, List.map_map]
  rfl

theorem toList_literal_mapping (entries : List (String × Value)) :
    (Value.mapping entries).literal.toList =
      '\x7b' :: ([','].intercalate (entries.map entryChars) ++ ['\x7d']) := by
  have hentries : (keyed entries).map String.toList = entries.map entryChars := by
    rw [keyed_eq_map, List.map_map]
    refine List.map_congr_left fun entry _ => ?_
    show (entry.1 ++ ": " ++ entry.2.literal).toList = _
    rw [String.toList_append, String.toList_append, List.append_assoc]
    rfl
  rw [literal, String.toList_append, String.toList_append, String.toList_intercalate, hentries]
  rfl

theorem toList_positionalText (items : List Value) :
    (positionalText items).toList = [','].intercalate (items.map fun v => v.literal.toList) := by
  rw [positionalText, String.toList_intercalate, literals_eq_map, List.map_map]
  rfl

end Value

/-! ## Reading texts in place -/

namespace Script

namespace Data

open Machine

/-- A machine that waits for a value, and its stack once the value is there. -/
inductive Awaits : Machine → List Frame → Prop
  | value (stack : List Frame) : Awaits ⟨.value, stack⟩ stack
  | firstItem (stack : List Frame) : Awaits ⟨.firstItem, stack⟩ (.list [] :: stack)

/-- Wherever a value is due, a text is read as the given one. -/
def Reads (a : Alphabet) (cs : List Char) (d : Data) : Prop :=
  ∀ m stack rest, Awaits m stack → delimits rest = true →
    run a m (cs ++ rest) = run a ⟨.complete d, stack⟩ rest

variable {a : Alphabet} {m : Machine} {stack : List Frame} {cs rest : List Char} {d : Data}

theorem Awaits.step {token : Token} (h : Awaits m stack) (htoken : token ≠ .mark ']') :
    m.step token = openWith stack token := by
  cases h with
  | value => rfl
  | firstItem => exact if_neg htoken

theorem reads_name (hname : a.IsName cs)
    (h : ∀ stack, openWith stack (.word cs) = some ⟨.complete d, stack⟩) : Reads a cs d := by
  intro m stack rest hm hrest
  have hstep : m.step (.word cs) = some ⟨.complete d, stack⟩ :=
    (hm.step (by simp)).trans (h stack)
  exact run_name hname hrest hstep

theorem reads_number (n : Number) : Reads a n.chars (.number n.text) :=
  fun _ _ _ hm hrest => run_number n hrest (hm.step (by simp))

theorem reads_quote (s : String) : Reads a (quote s).toList (.string s) := by
  intro m stack rest hm _
  refine run_quote ((hm.step (by simp)).trans ?_)
  rw [openWith, String.ofList_toList]

/-- Wherever a key is due, a text is read as the given one. -/
def ReadsKey (a : Alphabet) (cs : List Char) (key : String) : Prop :=
  ∀ done stack rest, delimits rest = true →
    run a ⟨.key done, stack⟩ (cs ++ rest) = run a ⟨.colon done key, stack⟩ rest

theorem readsKey_name {key : String} (h : a.IsName key.toList) : ReadsKey a key.toList key := by
  intro done stack rest hrest
  refine run_name h hrest ?_
  simp only [Machine.step, String.ofList_toList]

theorem readsKey_quote (key : String) : ReadsKey a (quote key).toList key := by
  intro done stack rest _
  refine run_quote ?_
  simp only [Machine.step, String.ofList_toList]

-- The members of an array or object are taken with their texts, since two layouts are read here.
-- They differ in the number of spaces behind the commas of an array and the colons of an object.
section

variable {α : Type} {text keyText : α → List Char} {key : α → String} {data : α → Data} (gap : ℕ)

theorem run_gap (m : Machine) (rest : List Char) :
    run a m (List.replicate gap ' ' ++ rest) = run a m rest := by
  induction gap with
  | zero => rfl
  | succ gap ih => rw [List.replicate_succ, List.cons_append, run_space, ih]

/-- The items of an array, and the bracket behind them. -/
theorem run_items (x : α) (xs : List α) (h : ∀ y ∈ x :: xs, Reads a (text y) (data y))
    {done : List Data} (hm : Awaits m (.list done :: stack)) (rest : List Char) :
    run a m ((',' :: List.replicate gap ' ').intercalate ((x :: xs).map text) ++ ']' :: rest) =
      run a ⟨.complete (.list (done.reverse ++ (x :: xs).map data)), stack⟩ rest := by
  induction xs generalizing x done m with
  | nil =>
    have hx := h x List.mem_cons_self
    rw [List.map_singleton, List.intercalate_singleton, hx m _ _ hm rfl]
    refine run_mark (by decide) ?_
    simp [Machine.step, closeWith]
  | cons y ys ih =>
    obtain ⟨hx, hys⟩ := List.forall_mem_cons.1 h
    rw [List.map_cons, List.map_cons, List.intercalate_cons_cons, List.append_assoc,
      List.append_assoc, hx m _ _ hm rfl]
    calc _ = run a ⟨.value, .list (data x :: done) :: stack⟩ (List.replicate gap ' ' ++
          ((',' :: List.replicate gap ' ').intercalate ((y :: ys).map text) ++ ']' :: rest)) :=
          run_mark (by decide) rfl
      _ = _ := run_gap gap _ _
      _ = _ := ih y hys (.value _)
      _ = _ := by simp

theorem reads_array {xs : List α} (h : ∀ x ∈ xs, Reads a (text x) (data x)) :
    Reads a ('[' :: ((',' :: List.replicate gap ' ').intercalate (xs.map text) ++ [']']))
      (.list (xs.map data)) := by
  intro m stack rest hm _
  rw [List.cons_append, List.append_assoc, run_mark (by decide) (hm.step (by decide))]
  cases xs with
  | nil => exact run_mark (by decide) rfl
  | cons x xs => exact run_items gap x xs h (.firstItem stack) rest

/-- An entry, up to the end of its value. -/
theorem run_entry {x : α} (hkey : ReadsKey a (keyText x) (key x)) (h : Reads a (text x) (data x))
    (done : List (String × Data)) (hrest : delimits rest = true) :
    run a ⟨.key done, stack⟩ (keyText x ++ ':' :: (List.replicate gap ' ' ++ text x) ++ rest) =
      run a ⟨.complete (data x), .mapping done (key x) :: stack⟩ rest := by
  rw [List.append_assoc, List.cons_append, List.append_assoc]
  calc _ = run a ⟨.colon done (key x), stack⟩ (':' :: (List.replicate gap ' ' ++
        (text x ++ rest))) := hkey _ _ _ rfl
    _ = run a ⟨.value, .mapping done (key x) :: stack⟩ (List.replicate gap ' ' ++
        (text x ++ rest)) := run_mark (by decide) rfl
    _ = run a ⟨.value, .mapping done (key x) :: stack⟩ (text x ++ rest) := run_gap gap _ _
    _ = _ := h _ _ _ (.value _) hrest

/-- The entries of an object, and the bracket behind them. -/
theorem run_entries (x : α) (xs : List α)
    (hkeys : ∀ y ∈ x :: xs, ReadsKey a (keyText y) (key y))
    (h : ∀ y ∈ x :: xs, Reads a (text y) (data y))
    (done : List (String × Data)) (stack : List Frame) (rest : List Char) :
    run a ⟨.key done, stack⟩ ([','].intercalate ((x :: xs).map fun y =>
        keyText y ++ ':' :: (List.replicate gap ' ' ++ text y)) ++ '\x7d' :: rest) =
      run a ⟨.complete (.mapping (done ++ (x :: xs).map fun y => (key y, data y))), stack⟩
        rest := by
  induction xs generalizing x done with
  | nil =>
    have hkey := hkeys x List.mem_cons_self
    have hvalue := h x List.mem_cons_self
    rw [List.map_singleton, List.intercalate_singleton, run_entry gap hkey hvalue done rfl]
    exact run_mark (by decide) rfl
  | cons y ys ih =>
    obtain ⟨hkey, hkeys⟩ := List.forall_mem_cons.1 hkeys
    obtain ⟨hvalue, hvalues⟩ := List.forall_mem_cons.1 h
    rw [List.map_cons, List.map_cons, List.intercalate_cons_cons, List.append_assoc,
      List.append_assoc, run_entry gap hkey hvalue done rfl]
    calc _ = run a ⟨.key (done ++ [(key x, data x)]), stack⟩ ([','].intercalate ((y :: ys).map
          fun y => keyText y ++ ':' :: (List.replicate gap ' ' ++ text y)) ++ '\x7d' :: rest) :=
          run_mark (by decide) rfl
      _ = _ := ih y hkeys hvalues _
      _ = _ := by simp

theorem reads_object {xs : List α} (hkeys : ∀ x ∈ xs, ReadsKey a (keyText x) (key x))
    (h : ∀ x ∈ xs, Reads a (text x) (data x)) :
    Reads a ('\x7b' :: ([','].intercalate (xs.map fun x =>
        keyText x ++ ':' :: (List.replicate gap ' ' ++ text x)) ++ ['\x7d']))
      (.mapping (xs.map fun x => (key x, data x))) := by
  intro m stack rest hm _
  rw [List.cons_append, List.append_assoc, run_mark (by decide) (hm.step (by decide))]
  cases xs with
  | nil => exact run_mark (by decide) rfl
  | cons x xs => exact run_entries gap x xs hkeys h [] stack rest

end

/-- A text that is read as a value wherever one is due is read as this value alone. -/
theorem Reads.data?_eq (h : Reads a cs d) : data? a cs = some d := by
  have hrun := h ⟨.value, []⟩ [] [] (.value []) rfl
  rw [List.append_nil] at hrun
  rw [data?, hrun, run_eq]
  rfl

end Data

end Script

namespace Value

variable {a : Alphabet} {v w : Value}

theorem IsPlain.reads (h : v.IsPlain a) : Data.Reads a v.literal.toList v.outline := by
  induction h with
  | null => exact Data.reads_name (a.isName_of_ascii (by decide) (by decide)) fun _ => rfl
  | bool b =>
    cases b
    · exact Data.reads_name (a.isName_of_ascii (by decide) (by decide)) fun _ => rfl
    · exact Data.reads_name (a.isName_of_ascii (by decide) (by decide)) fun _ => rfl
  | number n =>
    rw [literal, Number.text, String.toList_ofList]
    exact Data.reads_number n
  | list _ ih =>
    rw [toList_literal_list, outline, outlines_eq_map]
    exact Data.reads_array 1 ih
  | mapping hkeys _ ih =>
    rw [toList_literal_mapping, outline, outlinesKeyed_eq_map]
    exact Data.reads_object 1 (fun entry hentry => Data.readsKey_name (hkeys entry hentry)) ih

/-- A plain value is recovered from its text. -/
theorem IsPlain.data?_literal (h : v.IsPlain a) : data? a v.literal.toList = some v.outline :=
  h.reads.data?_eq

/-! ## Brackets of literals -/

theorem isPiece_of_isName {cs : List Char} (h : a.IsName cs) : IsPiece cs := by
  obtain ⟨first, rest, rfl, hfirst, hrest⟩ := h
  refine isPiece_of_not_mem fun c hc hmem => ?_
  have hcontinues : a.continues c = true := by
    rcases List.mem_cons.1 hc with rfl | hc
    · exact a.continues_of_starts c hfirst
    · exact hrest c hc
  simp only [List.mem_cons, List.not_mem_nil, or_false] at hmem
  rcases hmem with rfl | rfl | rfl | rfl | rfl | rfl | rfl <;>
    exact absurd hcontinues (by rw [a.continues_ascii] <;> decide)

theorem isPiece_chars (n : Number) : IsPiece n.chars := by
  refine isPiece_of_not_mem fun c hc hmem => ?_
  have hchar := n.mem_chars hc
  simp only [List.mem_cons, List.not_mem_nil, or_false] at hmem
  rcases hmem with rfl | rfl | rfl | rfl | rfl | rfl | rfl <;> exact absurd hchar (by decide)

theorem IsPlain.isPiece (h : v.IsPlain a) : IsPiece v.literal.toList := by
  induction h with
  | null => exact isPiece_of_isName (a.isName_of_ascii (by decide) (by decide))
  | bool b =>
    cases b
    · exact isPiece_of_isName (a.isName_of_ascii (by decide) (by decide))
    · exact isPiece_of_isName (a.isName_of_ascii (by decide) (by decide))
  | number n =>
    rw [literal, Number.text, String.toList_ofList]
    exact isPiece_chars n
  | list _ ih =>
    rw [toList_literal_list]
    refine (nested_intercalate (nested_of_flat rfl) ?_).isPiece (by decide)
    exact List.forall_mem_map.2 fun v hv => (ih v hv).toNested
  | mapping hkeys _ ih =>
    rw [toList_literal_mapping]
    refine (nested_intercalate (nested_of_flat rfl) ?_).isPiece (by decide)
    refine List.forall_mem_map.2 fun entry hentry => ?_
    have hkey := (isPiece_of_isName (hkeys entry hentry)).toNested
    have hcolon : Nested [':', ' '] := nested_of_flat rfl
    exact hkey.append (hcolon.append (ih entry hentry).toNested)

/-- Values without strings whose keys are names are recovered from their texts, with the order of
the keys and the texts of the numbers, which decide the value. So different ones have different
texts. The brackets of a text are balanced, and as arguments of a call such values are separated by
the commas outside of brackets. -/
theorem plain_literals_read_back (a : Alphabet) :
    (∀ v : Value, v.IsPlain a → data? a v.literal.toList = some v.outline) ∧
    (∀ v w : Value, v.outline = w.outline → v = w) ∧
    (∀ v w : Value, v.IsPlain a → w.IsPlain a → v.literal = w.literal → v = w) ∧
    (∀ v : Value, v.IsPlain a → Balanced v.literal.toList) ∧
    ∀ items : List Value, items ≠ [] → (∀ v ∈ items, v.IsPlain a) →
      outerCommas (positionalText items).toList = items.length - 1 ∧
        outerPieces (positionalText items).toList = items.map fun v => v.literal.toList := by
  refine ⟨fun _ hv => hv.data?_literal, fun _ _ => outline_injective, fun v w hv hw h => ?_,
    fun _ hv => hv.isPiece.balanced, fun items hne hitems => ?_⟩
  · have hread := hv.data?_literal
    rw [h, hw.data?_literal] at hread
    exact outline_injective (Option.some.inj hread).symm
  · have hpieces : ∀ text ∈ items.map fun v => v.literal.toList, IsPiece text :=
      List.forall_mem_map.2 fun v hv => (hitems v hv).isPiece
    have htexts : (items.map fun v => v.literal.toList) ≠ [] := by simpa using hne
    rw [toList_positionalText]
    refine ⟨?_, outerPieces_intercalate hpieces htexts⟩
    rw [outerCommas_intercalate hpieces, List.length_map]

theorem plain_literals_read_back_nested :
    data? .ascii "\x7bat: [-1, \x7b\x7d, []],on: true\x7d".toList =
        some (.mapping [("at", .list [.number "-1", .mapping [], .list []]), ("on", .bool true)]) ∧
      outerPieces "\x7bat: [-1, \x7b\x7d, []],on: true\x7d,null".toList =
        ["\x7bat: [-1, \x7b\x7d, []],on: true\x7d".toList, "null".toList] := by
  obtain ⟨hread, -, -, -, harguments⟩ := plain_literals_read_back .ascii
  have hat : IsPlain .ascii (.list [.number (.int (-1)), .mapping [], .list []]) :=
    .list (List.forall_mem_cons.2 ⟨.number _, List.forall_mem_cons.2
      ⟨.mapping (List.forall_mem_nil _) (List.forall_mem_nil _), List.forall_mem_singleton.2
        (.list (List.forall_mem_nil _))⟩⟩)
  have hplain : IsPlain .ascii (.mapping [("at", .list [.number (.int (-1)), .mapping [],
      .list []]), ("on", .bool true)]) :=
    .mapping
      (List.forall_mem_cons.2 ⟨Alphabet.ascii.isName_of_ascii rfl rfl,
        List.forall_mem_singleton.2 (Alphabet.ascii.isName_of_ascii rfl rfl)⟩)
      (List.forall_mem_cons.2 ⟨hat, List.forall_mem_singleton.2 (.bool true)⟩)
  have htext : literal (.mapping [("at", .list [.number (.int (-1)), .mapping [], .list []]),
      ("on", .bool true)]) = "\x7bat: [-1, \x7b\x7d, []],on: true\x7d" := by decide +kernel
  have hcall : positionalText [.mapping [("at", .list [.number (.int (-1)), .mapping [],
      .list []]), ("on", .bool true)], .null] =
        "\x7bat: [-1, \x7b\x7d, []],on: true\x7d,null" := by decide +kernel
  have hnumber : Number.text (.int (-1)) = "-1" := by decide +kernel
  have hdata := hread _ hplain
  have hpieces := (harguments _ (List.cons_ne_nil _ [.null])
    (List.forall_mem_cons.2 ⟨hplain, List.forall_mem_singleton.2 .null⟩)).2
  rw [hcall, List.map_cons, List.map_singleton, htext] at hpieces
  rw [htext] at hdata
  simp only [outline, outlines, outlinesKeyed, hnumber] at hdata
  exact ⟨hdata, hpieces⟩

end Value

/-! ## Compact JSON text -/

namespace Json

variable {a : Alphabet}

theorem toList_compact_list (items : List Value) :
    (compact (.list items)).toList =
      '[' :: ([','].intercalate (items.map fun v => (compact v).toList) ++ [']']) := by
  rw [compact, String.toList_append, String.toList_append, String.toList_intercalate,
    compactItems_eq_map, List.map_map]
  rfl

theorem toList_compact_mapping (entries : List (String × Value)) :
    (compact (.mapping entries)).toList =
      '\x7b' :: ([','].intercalate (entries.map fun entry =>
        (quote entry.1).toList ++ ':' :: (compact entry.2).toList) ++ ['\x7d']) := by
  have hentries : (compactEntries entries).map String.toList =
      entries.map fun entry => (quote entry.1).toList ++ ':' :: (compact entry.2).toList := by
    rw [compactEntries_eq_map, List.map_map]
    refine List.map_congr_left fun entry _ => ?_
    show (quote entry.1 ++ ":" ++ compact entry.2).toList = _
    rw [String.toList_append, String.toList_append, List.append_assoc]
    rfl
  rw [compact, String.toList_append, String.toList_append, String.toList_intercalate, hentries]
  rfl

mutual

/-- Strings and keys are quoted, so no value has to be plain. -/
theorem reads_compact : ∀ v : Value, Data.Reads a (compact v).toList v.outline
  | .null => Data.reads_name (a.isName_of_ascii (by decide) (by decide)) fun _ => rfl
  | .bool true => Data.reads_name (a.isName_of_ascii (by decide) (by decide)) fun _ => rfl
  | .bool false => Data.reads_name (a.isName_of_ascii (by decide) (by decide)) fun _ => rfl
  | .number n => by
    rw [compact, Number.text, String.toList_ofList]
    exact Data.reads_number n
  | .string s => by
    rw [compact]
    exact Data.reads_quote s
  | .list items => by
    rw [toList_compact_list, Value.outline, Value.outlines_eq_map]
    exact Data.reads_array 0 (reads_compactItems items)
  | .mapping entries => by
    rw [toList_compact_mapping, Value.outline, Value.outlinesKeyed_eq_map]
    exact Data.reads_object 0 (fun entry _ => Data.readsKey_quote entry.1)
      (reads_compactEntries entries)

theorem reads_compactItems :
    ∀ items : List Value, ∀ v ∈ items, Data.Reads a (compact v).toList v.outline
  | [] => List.forall_mem_nil _
  | v :: vs => List.forall_mem_cons.2 ⟨reads_compact v, reads_compactItems vs⟩

theorem reads_compactEntries : ∀ entries : List (String × Value), ∀ entry ∈ entries,
    Data.Reads a (compact entry.2).toList entry.2.outline
  | [] => List.forall_mem_nil _
  | (_, v) :: entries => List.forall_mem_cons.2 ⟨reads_compact v, reads_compactEntries entries⟩

end

/-- Every value is recovered from its JSON text without blanks. -/
theorem data?_compact (a : Alphabet) (v : Value) :
    data? a (compact v).toList = some v.outline :=
  (reads_compact v).data?_eq

end Json

end SceneScript
