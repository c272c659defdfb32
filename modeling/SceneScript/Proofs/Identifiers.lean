import SceneScript.Proofs.ScriptTokens

/-!
# Identifiers of names

Every name has an identifier, which is a word of the program (`IsWord`), and the names that are words
already are those that keep theirs. The identifier is made in two steps: what cannot stand in a word
is replaced (`underscored`), and a word that cannot start as it does gets an underscore in front
(`fronted`). Both steps lose something, so names clash: those with the same word, and those of which
one has the other's word behind an underscore that the other one lacks.
-/

namespace SceneScript.Text

/-- The digits from `0` to `9`. -/
def InDigits (c : Char) : Prop :=
  '0' ≤ c ∧ c ≤ '9'

/-- The letters from `A` to `Z` and from `a` to `z`, the digits, `_` and `$`. -/
def InWord (c : Char) : Prop :=
  ('A' ≤ c ∧ c ≤ 'Z') ∨ ('a' ≤ c ∧ c ≤ 'z') ∨ InDigits c ∨ c = '_' ∨ c = '$'

instance : DecidablePred InDigits :=
  fun _ => inferInstanceAs (Decidable (_ ∧ _))

instance : DecidablePred InWord :=
  fun _ => inferInstanceAs (Decidable (_ ∨ _))

/-- A text that may stand for a name in a program. -/
structure IsWord (w : String) : Prop where
  nonempty : w ≠ ""
  letters : ∀ c ∈ w.toList, InWord c
  first : ∀ c ∈ w.toList.head?, ¬ InDigits c

/-- A text with an underscore for each character that cannot stand in a word. -/
def underscored (s : String) : String :=
  s.map fun c => if InWord c then c else '_'

/-- A text that cannot start a word. -/
def LacksFront (w : String) : Prop :=
  w = "" ∨ ∃ c ∈ w.toList.head?, InDigits c

instance : DecidablePred LacksFront :=
  fun _ => inferInstanceAs (Decidable (_ ∨ _))

/-- A text with an underscore in front if it needs one. -/
def fronted (w : String) : String :=
  if LacksFront w then "_" ++ w else w

/-! ## The two steps -/

theorem isDigit_iff {c : Char} : c.isDigit = true ↔ InDigits c := by
  simp only [Char.isDigit, Bool.and_eq_true, decide_eq_true_eq]
  rfl

theorem isWordChar_iff {c : Char} : isWordChar c = true ↔ InWord c := by
  have hupper : c.isUpper = true ↔ 'A' ≤ c ∧ c ≤ 'Z' := decide_eq_true_iff
  have hlower : c.isLower = true ↔ 'a' ≤ c ∧ c ≤ 'z' := by
    show (decide ('a' ≤ c) && decide (c ≤ 'z')) = true ↔ _
    rw [Bool.and_eq_true, decide_eq_true_iff, decide_eq_true_iff]
  have halpha : c.isAlpha = (c.isUpper || c.isLower) := rfl
  simp only [isWordChar, Char.isAlphanum, halpha, Bool.or_eq_true, decide_eq_true_eq, isDigit_iff,
    hupper, hlower, InWord, or_assoc]

theorem toList_underscored (s : String) : (underscored s).toList = toWord s.toList := by
  simp only [underscored, String.toList_map, toWord, isWordChar_iff]

theorem toList_fronted (w : String) : (fronted w).toList = guardStart w.toList := by
  cases hw : w.toList with
  | nil =>
    have hempty : w = "" := String.toList_eq_nil_iff.1 hw
    rw [fronted, if_pos (.inl hempty), hempty]
    rfl
  | cons c cs =>
    have hfront : LacksFront w ↔ c.isDigit = true := by
      have hne : w ≠ "" := fun hempty => by simp [hempty] at hw
      simp [LacksFront, hne, hw, isDigit_iff]
    simp only [fronted, hfront, guardStart]
    split
    · rw [String.toList_append, hw]
      rfl
    · exact hw

/-- The identifier of a name. -/
theorem identifier_eq (s : String) : identifier s = fronted (underscored s) := by
  rw [← String.toList_inj, toList_fronted, toList_underscored, identifier, String.toList_ofList,
    identifierChars]

/-! ## Words -/

theorem isWord_iff {w : String} : IsWord w ↔ Script.IsName w.toList := by
  constructor
  · intro h
    cases hw : w.toList with
    | nil => exact absurd (String.toList_eq_nil_iff.1 hw) h.nonempty
    | cons c cs =>
      have hfirst : ¬ InDigits c := h.first c (by rw [hw]; rfl)
      refine ⟨c, cs, rfl, Bool.eq_false_iff.2 (mt isDigit_iff.1 hfirst), fun d hd => ?_⟩
      exact isWordChar_iff.2 (h.letters d (hw ▸ hd))
  · rintro ⟨c, cs, hw, hdigit, hword⟩
    refine ⟨fun hempty => ?_, fun d hd => isWordChar_iff.1 (hword d (hw ▸ hd)), fun d hd => ?_⟩
    · simp [hempty] at hw
    · rw [hw] at hd
      cases hd
      exact mt isDigit_iff.2 (Bool.eq_false_iff.1 hdigit)

theorem isWord_identifier (s : String) : IsWord (identifier s) :=
  isWord_iff.2 (Script.isName_identifier s)

/-- A word has nothing to replace. -/
theorem IsWord.underscored_eq {w : String} (h : IsWord w) : underscored w = w := by
  rw [← String.toList_inj, underscored, String.toList_map]
  have hsame : ∀ c ∈ w.toList, (if InWord c then c else '_') = id c :=
    fun c hc => if_pos (h.letters c hc)
  rw [List.map_congr_left hsame, List.map_id]

theorem IsWord.not_lacksFront {w : String} (h : IsWord w) : ¬ LacksFront w := by
  rintro (hempty | ⟨c, hc, hdigit⟩)
  · exact h.nonempty hempty
  · exact h.first c hc hdigit

/-- A word is its own identifier. -/
theorem IsWord.identifier_eq {w : String} (h : IsWord w) : identifier w = w := by
  rw [Text.identifier_eq, h.underscored_eq, fronted, if_neg h.not_lacksFront]

/-! ## Clashes -/

theorem not_lacksFront_append (w : String) : ¬ LacksFront ("_" ++ w) := by
  have hchars : ("_" ++ w).toList = '_' :: w.toList := String.toList_append
  rintro (hempty | ⟨c, hc, hdigit⟩)
  · simp [hempty] at hchars
  · rw [hchars] at hc
    cases hc
    exact absurd hdigit (by decide)

/-- Two texts become equal in front of an underscore or without one: they are equal, or one is the
other behind the underscore that the other lacks. -/
theorem fronted_eq_iff {v w : String} :
    fronted v = fronted w ↔
      v = w ∨ (LacksFront v ∧ w = "_" ++ v) ∨ (LacksFront w ∧ v = "_" ++ w) := by
  constructor
  · intro h
    unfold fronted at h
    split at h <;> split at h
    · exact .inl (String.append_right_inj _ |>.1 h)
    · exact .inr (.inl ⟨‹_›, h.symm⟩)
    · exact .inr (.inr ⟨‹_›, h⟩)
    · exact .inl h
  · rintro (rfl | ⟨hv, rfl⟩ | ⟨hw, rfl⟩)
    · rfl
    · rw [fronted, fronted, if_pos hv, if_neg (not_lacksFront_append v)]
    · rw [fronted, fronted, if_pos hw, if_neg (not_lacksFront_append w)]

/-- Every name has a word as its identifier, and it has itself exactly if it is a word; so the
identifier of an identifier is the same one. Two names have the same identifier exactly if their
words are equal once what cannot stand in a word is replaced, or become equal with an underscore in
front of those that cannot start as they do; and then one of them is the other behind that
underscore. -/
theorem identifiers_are_words :
    (∀ s, IsWord (identifier s)) ∧
    (∀ s, identifier s = s ↔ IsWord s) ∧
    (∀ s, identifier (identifier s) = identifier s) ∧
    ∀ a b, (identifier a = identifier b ↔
        underscored a = underscored b ∨ fronted (underscored a) = fronted (underscored b)) ∧
      (identifier a = identifier b ↔ underscored a = underscored b ∨
        (LacksFront (underscored a) ∧ underscored b = "_" ++ underscored a) ∨
        (LacksFront (underscored b) ∧ underscored a = "_" ++ underscored b)) := by
  refine ⟨isWord_identifier, fun s => ⟨fun h => ?_, IsWord.identifier_eq⟩,
    fun s => (isWord_identifier s).identifier_eq, fun a b => ⟨⟨fun h => .inr ?_, ?_⟩, ?_⟩⟩
  · rw [← h]
    exact isWord_identifier s
  · rwa [identifier_eq, identifier_eq] at h
  · rintro (h | h)
    · rw [identifier_eq, identifier_eq, h]
    · rw [identifier_eq, identifier_eq, h]
  · rw [identifier_eq, identifier_eq, fronted_eq_iff]

/-- A digit at the start, and a sign in its place. -/
example : identifier "2a" = "_2a" ∧ identifier "-2a" = "_2a" := by
  decide +kernel

end SceneScript.Text
