import Mathlib.Data.List.Basic
import SceneScript.Module.Mtl

/-!
# Texture lines

What a line of a material library says, in terms of the line alone. `Mtl.IsTextureLine` is the
pattern of a texture directive, `Mtl.IsLastWord` marks the last word of a line, and `Mtl.Names` is a
directive that names a file there. `neededImage?_eq_some_iff` says that these are the lines for
which an image is needed.

The parts of a line are found by cutting it where a property begins or ends to hold (`CutsFront`,
`CutsEnd`). Such a cut is unique, so the ways of cutting in different orders agree. `Text.AreLines`
are the texts of lines, which joining and cutting again gives back, so a text has the lines that
`Text.LinesOf` relates to it and no others.
-/

namespace SceneScript

namespace Text

/-! ## Cuts -/

section

variable {p : Char → Bool} {cs front rest : List Char}

/-- Characters cut behind the longest front on which a property holds. -/
structure CutsFront (p : Char → Bool) (cs front rest : List Char) : Prop where
  eq : cs = front ++ rest
  holds : ∀ c ∈ front, p c = true
  fails : ∀ c, rest.head? = some c → p c = false

theorem cutsFront_self (p : Char → Bool) (cs : List Char) :
    CutsFront p cs (cs.takeWhile p) (cs.dropWhile p) where
  eq := List.takeWhile_append_dropWhile.symm
  holds := List.all_eq_true.1 List.all_takeWhile
  fails c hc := by
    have h := List.head?_dropWhile_not p cs
    rwa [hc] at h

/-- There is one such cut. -/
theorem CutsFront.unique (h : CutsFront p cs front rest) :
    cs.takeWhile p = front ∧ cs.dropWhile p = rest := by
  have hrest : rest.takeWhile p = [] ∧ rest.dropWhile p = rest := by
    cases rest with
    | nil => exact ⟨rfl, rfl⟩
    | cons c rest =>
      have hc : ¬ p c = true := by simp [h.fails c rfl]
      exact ⟨List.takeWhile_cons_of_neg hc, List.dropWhile_cons_of_neg hc⟩
  rw [h.eq, List.takeWhile_append_of_pos h.holds, List.dropWhile_append_of_pos h.holds, hrest.1,
    hrest.2, List.append_nil]
  exact ⟨rfl, rfl⟩

/-- Characters cut before the longest end on which a property holds. -/
structure CutsEnd (p : Char → Bool) (cs front rest : List Char) : Prop where
  eq : cs = front ++ rest
  holds : ∀ c ∈ rest, p c = true
  fails : ∀ c, front.getLast? = some c → p c = false

theorem cutsEnd_iff :
    CutsEnd p cs front rest ↔ CutsFront p cs.reverse rest.reverse front.reverse := by
  constructor
  · rintro ⟨rfl, hrest, hfront⟩
    exact ⟨List.reverse_append, by simpa using hrest, by simpa using hfront⟩
  · rintro ⟨heq, hrest, hfront⟩
    refine ⟨?_, by simpa using hrest, by simpa using hfront⟩
    rw [← List.reverse_append] at heq
    exact List.reverse_injective heq

theorem cutsEnd_self (p : Char → Bool) (cs : List Char) :
    CutsEnd p cs (cs.reverse.dropWhile p).reverse (cs.reverse.takeWhile p).reverse := by
  rw [cutsEnd_iff, List.reverse_reverse, List.reverse_reverse]
  exact cutsFront_self p cs.reverse

theorem CutsEnd.unique (h : CutsEnd p cs front rest) :
    (cs.reverse.dropWhile p).reverse = front ∧ (cs.reverse.takeWhile p).reverse = rest := by
  obtain ⟨htake, hdrop⟩ := (cutsEnd_iff.1 h).unique
  rw [htake, hdrop, List.reverse_reverse, List.reverse_reverse]
  exact ⟨rfl, rfl⟩

end

/-- Characters without a blank among them. -/
def IsSolid (cs : List Char) : Prop :=
  ∀ c ∈ cs, isBlank c = false

instance (cs : List Char) : Decidable (IsSolid cs) :=
  decidable_of_iff (cs.all fun c => !isBlank c) (by simp [IsSolid])

theorem isSolid_append {cs ds : List Char} : IsSolid (cs ++ ds) ↔ IsSolid cs ∧ IsSolid ds :=
  List.forall_mem_append

/-- Neither the letters of ASCII nor the signs between them are blank. -/
theorem isBlank_of_letter {c : Char} (hlow : 65 ≤ c.toNat) (hhigh : c.toNat ≤ 122) :
    isBlank c = false := by
  have hall : ∀ n < 123, 65 ≤ n → isBlank (Char.ofNat n) = false := by decide
  have hletter := hall c.toNat (Nat.lt_succ_of_le hhigh) hlow
  rwa [Char.ofNat_toNat] at hletter

/-! ## Lines -/

/-- The lines of a text: each ends with its only line feed, but the last may lack one. -/
inductive AreLines : List (List Char) → Prop
  | nil : AreLines []
  | last {cs : List Char} (ne : cs ≠ []) (free : '\n' ∉ cs) : AreLines [cs]
  | cons (cs : List Char) {lines : List (List Char)} (free : '\n' ∉ cs) (rest : AreLines lines) :
    AreLines ((cs ++ ['\n']) :: lines)

theorem areLines_linesChars (cs : List Char) : AreLines (linesChars cs) := by
  induction cs with
  | nil => exact .nil
  | cons c cs ih =>
    rw [linesChars]
    by_cases hc : c = '\n'
    · rw [if_pos hc, hc]
      exact .cons [] List.not_mem_nil ih
    · rw [if_neg hc]
      generalize linesChars cs = lines at ih ⊢
      cases ih with
      | nil => exact .last (List.cons_ne_nil _ _) (by simpa using Ne.symm hc)
      | last _ free => exact .last (List.cons_ne_nil _ _) (by simpa [free] using Ne.symm hc)
      | cons cs free rest => exact .cons (c :: cs) (by simpa [free] using Ne.symm hc) rest

theorem linesChars_append {cs : List Char} (h : '\n' ∉ cs) (rest : List Char) :
    linesChars (cs ++ '\n' :: rest) = (cs ++ ['\n']) :: linesChars rest := by
  induction cs with
  | nil => rw [List.nil_append, linesChars, if_pos rfl, List.nil_append]
  | cons c cs ih =>
    obtain ⟨hc, hcs⟩ := not_or.1 (mt List.mem_cons.2 h)
    rw [List.cons_append, linesChars, if_neg (Ne.symm hc), ih hcs]
    rfl

theorem linesChars_of_free {cs : List Char} (hne : cs ≠ []) (h : '\n' ∉ cs) :
    linesChars cs = [cs] := by
  induction cs with
  | nil => exact absurd rfl hne
  | cons c cs ih =>
    obtain ⟨hc, hcs⟩ := not_or.1 (mt List.mem_cons.2 h)
    rw [linesChars, if_neg (Ne.symm hc)]
    cases cs with
    | nil => rfl
    | cons next cs => rw [ih (List.cons_ne_nil _ _) hcs]

/-- Lines can be joined and cut apart again. -/
theorem AreLines.linesChars_flatten {lines : List (List Char)} (h : AreLines lines) :
    linesChars lines.flatten = lines := by
  induction h with
  | nil => rfl
  | last ne free => rw [List.flatten_singleton, linesChars_of_free ne free]
  | cons cs free _ ih =>
    rw [List.flatten_cons, List.append_assoc, List.singleton_append, linesChars_append free, ih]

/-- The lines that a text is made of. -/
structure LinesOf (text : String) (lines : List (List Char)) : Prop where
  are : AreLines lines
  join : lines.flatten = text.toList

/-- There is one way to cut a text into lines. -/
theorem linesOf_iff {text : String} {lines : List (List Char)} :
    LinesOf text lines ↔ linesChars text.toList = lines := by
  constructor
  · intro h
    rw [← h.join, h.are.linesChars_flatten]
  · rintro rfl
    exact ⟨areLines_linesChars _, flatten_linesChars _⟩

end Text

namespace Mtl

open Text

/-! ## Directives -/

/-- The keywords of a texture directive, whatever the case of their letters: `map_` with more
letters, or one of a few words. -/
def IsKeyword (word : List Char) : Prop :=
  (∃ letters, letters ≠ [] ∧ (∀ c ∈ letters, 'a' ≤ c ∧ c ≤ 'z') ∧
    word.map foldCase = "map_".toList ++ letters) ∨
  word.map foldCase ∈ ["bump".toList, "disp".toList, "decal".toList, "refl".toList, "norm".toList]

/-- The pattern of a texture directive: blanks, a keyword, a blank, and anything. -/
inductive IsTextureLine : List Char → Prop
  | mk {lead word rest : List Char} {c : Char} (blank : ∀ b ∈ lead, isBlank b = true)
    (keyword : IsKeyword word) (space : isBlank c = true) :
    IsTextureLine (lead ++ word ++ c :: rest)

theorem isDirectiveWord_iff {word : List Char} : isDirectiveWord word = true ↔ IsKeyword word := by
  have hlower (c : Char) : c.isLower = true ↔ 'a' ≤ c ∧ c ≤ 'z' := by
    change (decide (c.val ≥ 'a'.val) && decide (c.val ≤ 'z'.val)) = true ↔ _
    rw [Bool.and_eq_true, decide_eq_true_iff, decide_eq_true_iff]
    exact Iff.rfl
  unfold isDirectiveWord IsKeyword
  generalize word.map foldCase = folded
  dsimp only
  split
  · simp [hlower]
  · rename_i hother
    have hmap : ¬ ∃ letters, letters ≠ [] ∧ (∀ c ∈ letters, 'a' ≤ c ∧ c ≤ 'z') ∧
        folded = "map_".toList ++ letters := by
      rintro ⟨letters, -, -, h⟩
      exact hother letters h
    rw [or_iff_right hmap]
    simp only [List.any_cons, List.any_nil, Bool.or_false, Bool.or_eq_true, decide_eq_true_eq,
      List.mem_cons, List.not_mem_nil, or_false]

/-- A blank has no other case. -/
theorem foldCase_of_isBlank {c : Char} (h : isBlank c = true) : foldCase c = c := by
  have hs : c ≠ '\u017f' := by
    rintro rfl
    cases h
  have hk : c ≠ '\u212a' := by
    rintro rfl
    cases h
  rw [foldCase, if_neg hs, if_neg hk]
  refine dif_neg ?_
  rintro ⟨hlow, hhigh⟩
  have hletter : isBlank c = false := isBlank_of_letter hlow (Nat.le_trans hhigh (by decide))
  exact Bool.false_ne_true (hletter.symm.trans h)

/-- A keyword is one word. -/
theorem IsKeyword.solid {word : List Char} (h : IsKeyword word) : word ≠ [] ∧ IsSolid word := by
  have hletter {c : Char} (hc : 'a' ≤ c ∧ c ≤ 'z') : isBlank c = false :=
    isBlank_of_letter (Nat.le_trans (by decide) hc.1) hc.2
  have hfolded : word.map foldCase ≠ [] ∧ IsSolid (word.map foldCase) := by
    rcases h with ⟨letters, -, hletters, h⟩ | h
    · rw [h, isSolid_append]
      exact ⟨List.cons_ne_nil _ _, by decide, fun c hc => hletter (hletters c hc)⟩
    · have hall : ∀ keyword ∈ ["bump".toList, "disp".toList, "decal".toList, "refl".toList,
          "norm".toList], keyword ≠ [] ∧ IsSolid keyword := by decide
      exact hall _ h
  refine ⟨fun hnil => hfolded.1 (by rw [hnil, List.map_nil]), fun c hc => ?_⟩
  cases hblank : isBlank c with
  | false => rfl
  | true =>
    have hmem : foldCase c ∈ word.map foldCase := List.mem_map_of_mem hc
    rw [foldCase_of_isBlank hblank] at hmem
    exact hblank.symm.trans (hfolded.2 c hmem)

theorem isDirective_iff {line : List Char} : isDirective line = true ↔ IsTextureLine line := by
  unfold isDirective
  dsimp only
  rw [Bool.and_eq_true, isDirectiveWord_iff]
  have hlead := cutsFront_self isBlank line
  have hword := cutsFront_self (fun c => !isBlank c) (line.dropWhile isBlank)
  constructor
  · rintro ⟨hkeyword, hrest⟩
    generalize line.takeWhile isBlank = lead at hlead
    generalize line.dropWhile isBlank = text at hlead hword hkeyword hrest
    generalize text.takeWhile _ = word at hword hkeyword
    generalize text.dropWhile _ = rest at hword hrest
    cases rest with
    | nil => simp at hrest
    | cons c rest =>
      rw [hlead.eq, hword.eq, ← List.append_assoc]
      exact .mk hlead.holds hkeyword (by simpa using hword.fails c rfl)
  · rintro @⟨lead, word, rest, c, blank, keyword, space⟩
    obtain ⟨hne, hsolid⟩ := keyword.solid
    have hlead : CutsFront isBlank (lead ++ word ++ c :: rest) lead (word ++ c :: rest) := by
      refine ⟨List.append_assoc .., blank, fun b hb => ?_⟩
      rw [List.head?_append_of_ne_nil _ hne] at hb
      exact hsolid b (List.mem_of_head? hb)
    have hword : CutsFront (fun c => !isBlank c) (word ++ c :: rest) word (c :: rest) := by
      refine ⟨rfl, fun b hb => by simp [hsolid b hb], fun b hb => ?_⟩
      obtain rfl := Option.some.inj hb
      simp [space]
    rw [hlead.unique.2, hword.unique.1, hword.unique.2]
    exact ⟨keyword, rfl⟩

/-! ## The last word -/

/-- A line cut around its last word: no blank is in the word, only blanks are behind it, and a blank
is right before it, unless the line begins there. -/
structure IsLastWord (line before word after : List Char) : Prop where
  eq : line = before ++ word ++ after
  ne : word ≠ []
  solid : IsSolid word
  behind : ∀ c ∈ after, isBlank c = true
  ahead : ∀ c, before.getLast? = some c → isBlank c = true

theorem isLastWord_iff {line before word after : List Char} :
    IsLastWord line before word after ↔
      CutsEnd isBlank line (before ++ word) after ∧
        CutsEnd (fun c => !isBlank c) (before ++ word) before word ∧ word ≠ [] := by
  constructor
  · intro h
    refine ⟨⟨h.eq, h.behind, fun c hc => ?_⟩, ⟨rfl, fun c hc => ?_, fun c hc => ?_⟩, h.ne⟩
    · rw [List.getLast?_append_of_ne_nil _ h.ne] at hc
      exact h.solid c (List.mem_of_getLast? hc)
    · simp [h.solid c hc]
    · simp [h.ahead c hc]
  · rintro ⟨hline, hfront, hne⟩
    refine ⟨hline.eq, hne, fun c hc => ?_, hline.holds, fun c hc => ?_⟩
    · simpa using hfront.holds c hc
    · simpa using hfront.fails c hc

/-- There is one last word at most, and it is the one that is looked for. -/
theorem isLastWord_iff_of {line before word after : List Char} :
    IsLastWord line before word after ↔ LastWord.of line = ⟨before, word, after⟩ ∧ word ≠ [] := by
  rw [isLastWord_iff]
  constructor
  · rintro ⟨hline, hfront, hne⟩
    obtain ⟨hdrop, htake⟩ := hline.unique
    obtain ⟨hdrop', htake'⟩ := hfront.unique
    rw [← hdrop, List.reverse_reverse] at hdrop' htake'
    refine ⟨?_, hne⟩
    rw [LastWord.of, hdrop', htake', htake]
  · rintro ⟨h, hne⟩
    simp only [LastWord.of, LastWord.mk.injEq] at h
    obtain ⟨rfl, rfl, rfl⟩ := h
    have hline := cutsEnd_self isBlank line
    have hfront := cutsEnd_self (fun c => !isBlank c) (line.reverse.dropWhile isBlank).reverse
    rw [List.reverse_reverse] at hfront
    rw [← hfront.eq]
    exact ⟨hline, hfront, hne⟩

/-- A texture directive that names a file: its last word is not a data URL yet. -/
structure Names (line before file after : List Char) : Prop where
  directive : IsTextureLine line
  last : IsLastWord line before file after
  fresh : ¬ "data:".toList <+: file

theorem isDataUrl_iff {word : List Char} : isDataUrl word = true ↔ "data:".toList <+: word :=
  List.isPrefixOf_iff_prefix

theorem neededImage?_eq_some_iff {line : List Char} {file : String} :
    neededImage? line = some file ↔ ∃ before after, Names line before file.toList after := by
  unfold neededImage?
  constructor
  · intro h
    dsimp only at h
    split_ifs at h with hneeds
    obtain rfl := Option.some.inj h
    simp only [Bool.and_eq_true, Bool.not_eq_true', List.isEmpty_eq_false_iff] at hneeds
    obtain ⟨⟨hdirective, hne⟩, hurl⟩ := hneeds
    rw [String.toList_ofList]
    refine ⟨_, _, isDirective_iff.1 hdirective, isLastWord_iff_of.2 ⟨rfl, hne⟩, ?_⟩
    rw [← isDataUrl_iff, hurl]
    exact Bool.false_ne_true
  · rintro ⟨before, after, hnames⟩
    obtain ⟨hof, hne⟩ := isLastWord_iff_of.1 hnames.last
    have hurl : isDataUrl file.toList = false := by
      rw [← Bool.not_eq_true, isDataUrl_iff]
      exact hnames.fresh
    simp [hof, isDirective_iff.2 hnames.directive, hne, hurl]

/-- A line without its ending: the carriage returns and line feeds at its end. -/
theorem cutsEnd_body (line : List Char) : CutsEnd isEnding line (body line) (ending line) :=
  cutsEnd_self isEnding line

end Mtl

end SceneScript
