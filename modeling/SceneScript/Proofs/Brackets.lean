/-!
# Brackets

Which brackets are open at each character of a text. They are kept as a stack of the brackets that
have to close them, innermost first, and there is none when a bracket has closed another one
(`nest`). A text is `Balanced` if it closes all brackets that it opens, each with its own kind, and
no others. A comma is outside of brackets if none is open there.

Texts in which every comma stands in brackets can be told apart when they are joined by commas:
`outerCommas_intercalate` counts these commas, and `outerPieces_intercalate` cuts the text at them.
-/

namespace SceneScript.Script

/-- The pairs of brackets. -/
def brackets : List (Char × Char) :=
  [('(', ')'), ('[', ']'), ('\x7b', '\x7d')]

/-- Whether a character is a closing bracket. -/
def isCloser (c : Char) : Bool :=
  (brackets.map Prod.snd).contains c

/-- The brackets that are open behind a character. -/
def nest (opened : Option (List Char)) (c : Char) : Option (List Char) :=
  opened.bind fun stack =>
    if isCloser c then
      if stack.head? = some c then some stack.tail else none
    else some ((brackets.lookup c).toList ++ stack)

/-- Whether a text closes the brackets that it opens, and no others. -/
def Balanced (cs : List Char) : Prop :=
  cs.foldl nest (some []) = some []

/-- The characters of a text, each with the brackets that are open before it. -/
def layered (opened : Option (List Char)) : List Char → List (Char × Option (List Char))
  | [] => []
  | c :: cs => (c, opened) :: layered (nest opened c) cs

/-- The number of commas outside of brackets. -/
def outerCommas (cs : List Char) : Nat :=
  (layered (some []) cs).count (',', some [])

/-- The parts of a text between the commas outside of brackets. -/
def outerPieces (cs : List Char) : List (List Char) :=
  ((layered (some []) cs).splitOn (',', some [])).map fun piece => piece.map Prod.fst

section

variable {cs ds : List Char} {stack : List Char}

theorem map_fst_layered (opened : Option (List Char)) (cs : List Char) :
    (layered opened cs).map Prod.fst = cs := by
  induction cs generalizing opened with
  | nil => rfl
  | cons c cs ih => exact congrArg (c :: ·) (ih (nest opened c))

theorem layered_append (opened : Option (List Char)) (cs ds : List Char) :
    layered opened (cs ++ ds) = layered opened cs ++ layered (cs.foldl nest opened) ds := by
  induction cs generalizing opened with
  | nil => rfl
  | cons c cs ih => exact congrArg ((c, opened) :: ·) (ih (nest opened c))

/-! ## Texts that leave the brackets around them open -/

/-- A text that closes all its brackets wherever it stands, and none of those around it. -/
structure Nested (cs : List Char) : Prop where
  closes : ∀ stack, cs.foldl nest (some stack) = some stack
  within : ∀ stack entry, entry ∈ layered (some stack) cs → ∃ inner, entry.2 = some (inner ++ stack)

theorem Nested.balanced (h : Nested cs) : Balanced cs :=
  h.closes []

theorem nested_nil : Nested [] :=
  ⟨fun _ => rfl, fun _ _ hentry => absurd hentry List.not_mem_nil⟩

theorem Nested.append (hcs : Nested cs) (hds : Nested ds) : Nested (cs ++ ds) := by
  constructor
  · intro stack
    rw [List.foldl_append, hcs.closes, hds.closes]
  · intro stack entry hentry
    rw [layered_append, hcs.closes, List.mem_append] at hentry
    exact hentry.elim (hcs.within stack entry) (hds.within stack entry)

/-- Whether a character is no bracket. -/
def isFlat (c : Char) : Bool :=
  !isCloser c && (brackets.lookup c).isNone

theorem nest_flat {c : Char} (h : isFlat c = true) : nest (some stack) c = some stack := by
  simp only [isFlat, Bool.and_eq_true, Bool.not_eq_true', Option.isNone_iff_eq_none] at h
  rw [nest, Option.bind_some, h.1, if_neg Bool.false_ne_true, h.2]
  rfl

theorem layered_flat (h : ∀ c ∈ cs, isFlat c = true) :
    cs.foldl nest (some stack) = some stack ∧
      ∀ entry ∈ layered (some stack) cs, entry.1 ∈ cs ∧ entry.2 = some stack := by
  induction cs with
  | nil => exact ⟨rfl, fun _ hentry => absurd hentry List.not_mem_nil⟩
  | cons c cs ih =>
    obtain ⟨hc, hcs⟩ := List.forall_mem_cons.1 h
    obtain ⟨hclosed, hlayers⟩ := ih hcs
    rw [List.foldl_cons, layered, nest_flat hc]
    refine ⟨hclosed, List.forall_mem_cons.2 ⟨⟨List.mem_cons_self, rfl⟩, fun entry hentry => ?_⟩⟩
    obtain ⟨hmem, hlayer⟩ := hlayers entry hentry
    exact ⟨List.mem_cons_of_mem c hmem, hlayer⟩

/-- A text without brackets. -/
theorem nested_of_flat (h : cs.all isFlat = true) : Nested cs := by
  have hflat := List.all_eq_true.1 h
  exact ⟨fun _ => (layered_flat hflat).1,
    fun _ entry hentry => ⟨[], ((layered_flat hflat).2 entry hentry).2⟩⟩

theorem nested_intercalate {separator : List Char} {texts : List (List Char)}
    (hseparator : Nested separator) (h : ∀ text ∈ texts, Nested text) :
    Nested (separator.intercalate texts) := by
  induction texts with
  | nil => exact nested_nil
  | cons text texts ih =>
    obtain ⟨htext, htexts⟩ := List.forall_mem_cons.1 h
    cases texts with
    | nil =>
      rw [List.intercalate_singleton]
      exact htext
    | cons next texts =>
      rw [List.intercalate_cons_cons]
      exact (htext.append hseparator).append (ih htexts)

/-! ## Texts that can be joined by commas -/

/-- A nested text whose commas all stand in brackets. -/
structure IsPiece (cs : List Char) : Prop extends Nested cs where
  commas : ∀ stack, (',', some stack) ∉ layered (some stack) cs

/-- A text with neither brackets nor commas. -/
theorem isPiece_of_not_mem
    (h : ∀ c ∈ cs, c ∉ ['(', ')', '[', ']', '\x7b', '\x7d', ',']) : IsPiece cs := by
  have hflat : ∀ c ∈ cs, isFlat c = true := by
    intro c hc
    have hne := h c hc
    simp only [List.mem_cons, List.not_mem_nil, or_false, not_or, ← beq_eq_false_iff_ne] at hne
    simp only [isFlat, isCloser, brackets, List.map_cons, List.map_nil, List.contains_cons, hne,
      List.lookup_cons]
    rfl
  refine ⟨nested_of_flat (List.all_eq_true.2 hflat), fun stack hmem => ?_⟩
  obtain ⟨hcomma, -⟩ := (layered_flat hflat).2 _ hmem
  exact h ',' hcomma (by decide)

/-- A nested text in a pair of brackets. -/
theorem Nested.isPiece {c d : Char} (h : Nested cs) (hpair : (c, d) ∈ brackets) :
    IsPiece (c :: (cs ++ [d])) := by
  have hfacts : brackets.lookup c = some d ∧ isCloser c = false ∧ isCloser d = true ∧
      c ≠ ',' ∧ d ≠ ',' := by
    simp only [brackets, List.mem_cons, Prod.mk.injEq, List.not_mem_nil, or_false] at hpair
    rcases hpair with ⟨rfl, rfl⟩ | ⟨rfl, rfl⟩ | ⟨rfl, rfl⟩ <;> decide
  obtain ⟨hlookup, hopens, hcloses, hcomma, hcomma'⟩ := hfacts
  have hopen (stack : List Char) : nest (some stack) c = some (d :: stack) := by
    rw [nest, Option.bind_some, hopens, if_neg Bool.false_ne_true, hlookup]
    rfl
  have hclose (stack : List Char) : nest (some (d :: stack)) d = some stack := by
    rw [nest, Option.bind_some, if_pos hcloses, List.head?_cons, if_pos rfl, List.tail_cons]
  have hlayers (stack : List Char) : layered (some stack) (c :: (cs ++ [d])) =
      (c, some stack) :: (layered (some (d :: stack)) cs ++ [(d, some (d :: stack))]) := by
    rw [layered, hopen, layered_append, h.closes]
    rfl
  refine { closes := fun stack => ?_, within := fun stack entry hentry => ?_,
           commas := fun stack hmem => ?_ }
  · rw [List.foldl_cons, hopen, List.foldl_append, h.closes]
    exact hclose stack
  · rw [hlayers, List.mem_cons, List.mem_append, List.mem_singleton] at hentry
    rcases hentry with rfl | hentry | rfl
    · exact ⟨[], rfl⟩
    · obtain ⟨inner, hinner⟩ := h.within _ entry hentry
      exact ⟨inner ++ [d], by rw [hinner, List.append_assoc]; rfl⟩
    · exact ⟨[d], rfl⟩
  · rw [hlayers, List.mem_cons, List.mem_append, List.mem_singleton] at hmem
    rcases hmem with heq | hmem | heq
    · exact hcomma (congrArg Prod.fst heq).symm
    · -- inside the pair one bracket more is open
      obtain ⟨inner, hinner⟩ := h.within _ _ hmem
      have hlength := congrArg List.length (Option.some.inj hinner)
      simp only [List.length_append, List.length_cons] at hlength
      omega
    · exact hcomma' (congrArg Prod.fst heq).symm

theorem layered_intercalate {texts : List (List Char)} (h : ∀ text ∈ texts, Nested text) :
    layered (some []) ([','].intercalate texts) =
      [(',', some [])].intercalate (texts.map (layered (some []))) := by
  induction texts with
  | nil => rfl
  | cons text texts ih =>
    obtain ⟨htext, htexts⟩ := List.forall_mem_cons.1 h
    cases texts with
    | nil => simp only [List.map_cons, List.map_nil, List.intercalate_singleton]
    | cons next texts =>
      have hcomma : nest (some []) ',' = some [] := nest_flat rfl
      rw [List.intercalate_cons_cons, layered_append, layered_append, List.foldl_append,
        htext.closes, List.foldl_cons, List.foldl_nil, hcomma, ih htexts]
      simp only [List.map_cons, List.intercalate_cons_cons]
      rfl

theorem outerPieces_intercalate {texts : List (List Char)} (h : ∀ text ∈ texts, IsPiece text)
    (hne : texts ≠ []) : outerPieces ([','].intercalate texts) = texts := by
  have hpieces : ∀ piece ∈ texts.map (layered (some [])), (',', some []) ∉ piece := by
    rw [List.forall_mem_map]
    exact fun text htext => (h text htext).commas []
  rw [outerPieces, layered_intercalate fun text htext => (h text htext).toNested,
    List.splitOn_intercalate _ hpieces (by simpa using hne), List.map_map]
  calc texts.map _ = texts.map id := List.map_congr_left fun text _ => map_fst_layered _ text
    _ = texts := List.map_id texts

theorem outerCommas_intercalate {texts : List (List Char)} (h : ∀ text ∈ texts, IsPiece text) :
    outerCommas ([','].intercalate texts) = texts.length - 1 := by
  rw [outerCommas, layered_intercalate fun text htext => (h text htext).toNested]
  induction texts with
  | nil => rfl
  | cons text texts ih =>
    obtain ⟨htext, htexts⟩ := List.forall_mem_cons.1 h
    have hnone := List.count_eq_zero.2 (htext.commas [])
    cases texts with
    | nil => rw [List.map_cons, List.map_nil, List.intercalate_singleton, hnone]; rfl
    | cons next texts =>
      have hrest := ih htexts
      rw [List.map_cons] at hrest
      rw [List.map_cons, List.map_cons, List.intercalate_cons_cons, List.count_append,
        List.count_append, hnone, hrest, List.count_singleton_self]
      simp only [List.length_cons]
      omega

end

end SceneScript.Script
