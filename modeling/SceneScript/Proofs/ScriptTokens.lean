import SceneScript.Proofs.TextureModules
import SceneScript.Text.Identifier

/-!
# Tokens of programs

A reader for the tokens of programs, as far as the programs of scenes need it: words, hexadecimal
numbers, string literals in quotes of either kind, and signs. It takes the longest token, skips the
spaces before it, and refuses what it does not know, so a token that it reads is one of the
language.

`Script.string?` reads literals in either kind of quotes and agrees with `Script.literal?` on double
ones. Between single quotes a text stands for itself exactly if it holds neither such a quote, a
backslash nor a line feed or carriage return (`string?_single_iff`): every escape is longer than
what it stands for (`length_quotedBody?`).
-/

namespace SceneScript.Script

open Text

/-! ## Literals in either kind of quotes -/

/-- Reads what follows the opening quote of a literal: its units up to the same quote, and what
follows that. -/
def quotedBody? (delimiter : Char) (cs : List Char) : Option (List Nat × List Char) :=
  match cs with
  | [] => none
  | c :: rest =>
    if c = delimiter then some ([], rest)
    else if c = '\\' then
      match _h : escape? rest with
      | none => none
      | some (us, after) =>
        (quotedBody? delimiter after).map fun (more, after) => (us ++ more, after)
    else if c = '\n' || c = '\r' then none
    else (quotedBody? delimiter rest).map fun (more, after) => (units c.toNat ++ more, after)
termination_by cs.length
decreasing_by
  · have := length_escape? _h
    simp only [List.length_cons]
    omega
  · simp

/-- Reads a literal in quotes of either kind at the start of a text: its value and the text behind
it. -/
def string? : List Char → Option (List Char × List Char)
  | [] => none
  | c :: rest =>
    if c = '"' || c = '\'' then do
      let (us, after) ← quotedBody? c rest
      let text ← text? us
      return (text, after)
    else none

section

variable {delimiter c : Char} {cs rest after : List Char} {us : List Nat}

theorem quotedBody?_escape (hdelimiter : delimiter ≠ '\\') (h : escape? cs = some (us, after)) :
    quotedBody? delimiter ('\\' :: cs) =
      (quotedBody? delimiter after).map fun result => (us ++ result.1, result.2) := by
  rw [quotedBody?, if_neg hdelimiter.symm, if_pos rfl]
  split
  · rename_i hnone
    cases h.symm.trans hnone
  · rename_i hsome
    cases h.symm.trans hsome
    rfl

theorem quotedBody?_escape_none (hdelimiter : delimiter ≠ '\\') (h : escape? cs = none) :
    quotedBody? delimiter ('\\' :: cs) = none := by
  rw [quotedBody?, if_neg hdelimiter.symm, if_pos rfl]
  split
  · rfl
  · rename_i hsome
    cases h.symm.trans hsome

theorem quotedBody?_plain (hdelimiter : c ≠ delimiter) (hescape : c ≠ '\\')
    (hline : (c = '\n' || c = '\r') = false) (rest : List Char) :
    quotedBody? delimiter (c :: rest) =
      (quotedBody? delimiter rest).map fun result => (units c.toNat ++ result.1, result.2) := by
  rw [quotedBody?, if_neg hdelimiter, if_neg hescape, hline, if_neg (by decide)]

/-- On double quotes both readers agree. -/
theorem quotedBody?_double (cs : List Char) : quotedBody? '"' cs = literalBody? cs := by
  fun_induction literalBody? cs with
  | case1 => rw [quotedBody?]
  | case2 rest => rw [quotedBody?, if_pos rfl]
  | case3 rest hescape => rw [quotedBody?_escape_none (by decide) hescape]
  | case4 rest us after hescape _ ih => rw [quotedBody?_escape (by decide) hescape, ih]
  | case5 c rest hquote hescape hline =>
    rw [quotedBody?, if_neg hquote, if_neg hescape, if_pos hline]
  | case6 c rest hquote hescape hline ih =>
    rw [quotedBody?_plain hquote hescape (Bool.eq_false_iff.2 hline), ih]

theorem string?_double (rest : List Char) : string? ('"' :: rest) = literal? ('"' :: rest) := by
  rw [string?, if_pos (by decide), literal?, quotedBody?_double]

/-- A quoted text is a literal with the text as its value. -/
theorem string?_quote (s : String) (rest : List Char) :
    string? ((quote s).toList ++ rest) = some (s.toList, rest) := by
  rw [← literal?_quote s rest, quote_append, string?_double]

/-! ## What escapes cost -/

/-- The number of units that are no second half of a pair. -/
def characters (us : List Nat) : Nat :=
  us.countP fun unit => !isLowSurrogate unit

@[simp]
theorem characters_append (us vs : List Nat) :
    characters (us ++ vs) = characters us + characters vs :=
  List.countP_append

/-- A text has one character for each unit that is no second half. -/
theorem length_text? {text : List Char} (h : text? us = some text) :
    text.length = characters us := by
  fun_induction text? us generalizing text with
  | case1 =>
    cases h
    rfl
  | case2 => cases h
  | case3 unit hhigh low rest hlow ih =>
    obtain ⟨more, hmore, rfl⟩ := Option.map_eq_some_iff.1 h
    have hunit : isLowSurrogate unit = false := by
      simp [isHighSurrogate] at hhigh
      simp [isLowSurrogate]
      omega
    simp [characters, hunit, hlow, ih hmore]
  | case4 => cases h
  | case5 => cases h
  | case6 unit rest hhigh hlow ih =>
    obtain ⟨more, hmore, rfl⟩ := Option.map_eq_some_iff.1 h
    simp [characters, hlow, ih hmore]

theorem characters_singleton_le (unit : Nat) : characters [unit] ≤ 1 :=
  List.countP_le_length

theorem characters_pair_le {unit low : Nat} (h : isLowSurrogate low = true) :
    characters [unit, low] ≤ 1 := by
  have hlow : characters [low] = 0 := by simp [characters, h]
  have hpair := characters_append [unit] [low]
  rw [hlow] at hpair
  exact hpair.trans_le (characters_singleton_le unit)

theorem characters_units_le (n : Nat) : characters (units n) ≤ 1 := by
  unfold units
  split
  · exact characters_singleton_le n
  · refine characters_pair_le ?_
    simp [isLowSurrogate]
    omega

theorem characters_units_char (c : Char) : characters (units c.toNat) = 1 := by
  have hlength := length_text? (text?_units_append c [])
  simpa using hlength.symm

theorem characters_single? (h : single? c rest = some us) : characters us ≤ 1 := by
  unfold single? at h
  split_ifs at h
  · cases h
    exact Nat.zero_le 1
  · cases h
    exact List.countP_le_length
  · cases h
    exact characters_units_le _

/-- An escape stands for one character at most. -/
theorem characters_escape? (h : escape? cs = some (us, after)) : characters us ≤ 1 := by
  unfold escape? at h
  split at h
  · cases h
  · obtain ⟨⟨n, rest⟩, -, hresult⟩ := Option.map_eq_some_iff.1 h
    cases hresult
    exact characters_units_le n
  · obtain ⟨n, -, hresult⟩ := Option.map_eq_some_iff.1 h
    cases hresult
    exact characters_singleton_le n
  · obtain ⟨n, -, hresult⟩ := Option.map_eq_some_iff.1 h
    cases hresult
    exact characters_singleton_le n
  · cases h
    exact Nat.zero_le 1
  · obtain ⟨units, hsingle, hresult⟩ := Option.map_eq_some_iff.1 h
    cases hresult
    exact characters_single? hsingle

/-- A literal is longer than the text that it stands for. -/
theorem length_quotedBody? (h : quotedBody? delimiter cs = some (us, after)) :
    characters us + after.length < cs.length := by
  fun_induction quotedBody? delimiter cs generalizing us after with
  | case1 => cases h
  | case2 rest =>
    cases h
    simp [characters]
  | case3 => cases h
  | case4 rest us next hescape _ ih =>
    obtain ⟨⟨more, last⟩, hmore, hresult⟩ := Option.map_eq_some_iff.1 h
    have hone := characters_escape? hescape
    have hnext := length_escape? hescape
    have hlast := ih hmore
    cases hresult
    simp only [characters_append, List.length_cons]
    omega
  | case5 => cases h
  | case6 c rest _ _ _ ih =>
    obtain ⟨⟨more, last⟩, hmore, hresult⟩ := Option.map_eq_some_iff.1 h
    have hone := characters_units_char c
    have hlast := ih hmore
    cases hresult
    simp only [characters_append, List.length_cons]
    omega

/-- With an escape at its start it is longer by one more. -/
theorem length_quotedBody?_escape (hdelimiter : delimiter ≠ '\\')
    (h : quotedBody? delimiter ('\\' :: cs) = some (us, after)) :
    characters us + after.length < cs.length := by
  cases hescape : escape? cs with
  | none => rw [quotedBody?_escape_none hdelimiter hescape] at h; cases h
  | some result =>
    obtain ⟨first, next⟩ := result
    rw [quotedBody?_escape hdelimiter hescape] at h
    obtain ⟨⟨more, last⟩, hmore, hresult⟩ := Option.map_eq_some_iff.1 h
    have hone := characters_escape? hescape
    have hnext := length_escape? hescape
    have hlast := length_quotedBody? hmore
    cases hresult
    simp only [characters_append]
    omega

/-- The characters that stand for themselves between quotes. -/
def isPlain (delimiter c : Char) : Bool :=
  c ≠ delimiter && c ≠ '\\' && c ≠ '\n' && c ≠ '\r'

theorem quotedBody?_of_isPlain (h : isPlain delimiter c = true) (rest : List Char) :
    quotedBody? delimiter (c :: rest) =
      (quotedBody? delimiter rest).map fun result => (units c.toNat ++ result.1, result.2) := by
  simp only [isPlain, Bool.and_eq_true, decide_eq_true_eq] at h
  obtain ⟨⟨⟨hdelimiter, hescape⟩, hline⟩, hreturn⟩ := h
  exact quotedBody?_plain hdelimiter hescape (by simp [hline, hreturn]) rest

/-- Characters that stand for themselves are read one by one. -/
theorem quotedBody?_of_forall_isPlain {text : List Char}
    (h : ∀ c ∈ text, isPlain delimiter c = true) (rest : List Char) :
    quotedBody? delimiter (text ++ delimiter :: rest) =
      some (text.flatMap fun c => units c.toNat, rest) := by
  induction text with
  | nil => rw [List.nil_append, quotedBody?, if_pos rfl, List.flatMap_nil]
  | cons c text ih =>
    obtain ⟨hc, htext⟩ := List.forall_mem_cons.1 h
    rw [List.cons_append, quotedBody?_of_isPlain hc, ih htext, Option.map_some, List.flatMap_cons]

/-- If a literal is no longer than its text, then all its characters stand for themselves: a quote
ends it too early, and an escape makes it longer. -/
theorem forall_isPlain_of_quotedBody? {text : List Char}
    (h : quotedBody? '\'' (text ++ '\'' :: rest) = some (us, rest))
    (hlength : characters us = text.length) : ∀ c ∈ text, isPlain '\'' c = true := by
  induction text generalizing us with
  | nil => exact List.forall_mem_nil _
  | cons c text ih =>
    rw [List.cons_append] at h
    have hc : isPlain '\'' c = true := by
      by_contra hc
      simp only [isPlain, Bool.and_eq_true, decide_eq_true_eq, not_and_or, not_not] at hc
      rcases hc with ((rfl | rfl) | rfl) | rfl
      · rw [quotedBody?, if_pos rfl] at h
        have hrest := congrArg (fun result => result.2.length) (Option.some.inj h)
        simp only [List.length_append, List.length_cons] at hrest
        omega
      · have hescape := length_quotedBody?_escape (by decide) h
        simp only [List.length_append, List.length_cons] at hescape hlength
        omega
      · rw [quotedBody?, if_neg (by decide), if_neg (by decide), if_pos (by decide)] at h
        cases h
      · rw [quotedBody?, if_neg (by decide), if_neg (by decide), if_pos (by decide)] at h
        cases h
    rw [quotedBody?_of_isPlain hc] at h
    obtain ⟨⟨more, last⟩, hmore, hresult⟩ := Option.map_eq_some_iff.1 h
    cases hresult
    have hone := characters_units_char c
    simp only [characters_append, List.length_cons] at hlength
    exact List.forall_mem_cons.2 ⟨hc, ih hmore (by omega)⟩

/-- Between single quotes a text stands for itself exactly if all its characters do. -/
theorem string?_single_iff (text rest : List Char) :
    string? ('\'' :: (text ++ '\'' :: rest)) = some (text, rest) ↔
      ∀ c ∈ text, isPlain '\'' c = true := by
  rw [string?, if_pos (by decide)]
  constructor
  · intro h
    obtain ⟨⟨us, after⟩, hbody, h⟩ := Option.bind_eq_some_iff.1 h
    obtain ⟨text, htext, hresult⟩ := Option.bind_eq_some_iff.1 h
    cases hresult
    exact forall_isPlain_of_quotedBody? hbody (length_text? htext).symm
  · intro h
    simp only [quotedBody?_of_forall_isPlain h, Option.bind_eq_bind, Option.bind_some,
      text?_flatMap_units, Option.pure_def]

end

/-! ## Tokens -/

/-- A token of a program. -/
inductive Token where
  /-- A name or a keyword. -/
  | word (name : List Char)
  /-- A number, as it is written. -/
  | number (digits : List Char)
  /-- A string literal, by its value. -/
  | text (value : List Char)
  /-- A sign. -/
  | mark (sign : Char)
  deriving DecidableEq, Repr

/-- Whether a run of word characters is a hexadecimal number. -/
def isHexNumber : List Char → Bool
  | '0' :: x :: digits =>
    (x = 'x' || x = 'X') && !digits.isEmpty && digits.all fun c => (hexValue? c).isSome
  | _ => false

/-- Whether a word may end before a text: no character that could go on with a name starts it. -/
def endsWord (rest : List Char) : Bool :=
  rest.head?.all fun c => !isWordChar c && c ≠ '\\' && c.toNat < 0x80

/-- Whether a character is a sign of its own before a text. -/
def isMark (c : Char) (rest : List Char) : Bool :=
  ['(', ')', '[', ']', '\x7b', '\x7d', ';', ','].contains c ||
    (['.', '*', '='].contains c &&
      rest.head?.all fun d => !d.isDigit && !(['.', '*', '=', '>'].contains d))

/-- Reads a token behind spaces at the start of a text: the token and the text behind it. -/
def token? (cs : List Char) : Option (Token × List Char) :=
  match skipSpaces cs with
  | [] => none
  | c :: rest =>
    if c = '"' || c = '\'' then
      (string? (c :: rest)).map fun (value, after) => (.text value, after)
    else if isWordChar c then
      let name := (c :: rest).takeWhile isWordChar
      let after := (c :: rest).dropWhile isWordChar
      if !endsWord after then none
      else if !c.isDigit then some (.word name, after)
      else if isHexNumber name then some (.number name, after)
      else none
    else if isMark c rest then some (.mark c, rest)
    else none

/-- Reads as many tokens at the start of a text: the tokens and the text behind them. -/
def tokens? : Nat → List Char → Option (List Token × List Char)
  | 0, cs => some ([], cs)
  | n + 1, cs => do
    let (token, rest) ← token? cs
    let (tokens, rest) ← tokens? n rest
    return (token :: tokens, rest)

theorem tokens?_succ {n : Nat} {cs rest after : List Char} {token : Token} {tokens : List Token}
    (h : token? cs = some (token, rest)) (hmore : tokens? n rest = some (tokens, after)) :
    tokens? (n + 1) cs = some (token :: tokens, after) := by
  simp only [tokens?, h, hmore, Option.bind_eq_bind, Option.bind_some, Option.pure_def]

/-- A quoted text is one token. -/
theorem token?_quote (s : String) (rest : List Char) :
    token? ((quote s).toList ++ rest) = some (.text s.toList, rest) := by
  have hstring := string?_quote s rest
  rw [quote_append] at hstring ⊢
  rw [token?, skipSpaces_cons (by decide)]
  simp only [Char.reduceEq, decide_true, Bool.true_or, ↓reduceIte, hstring, Option.map_some]

/-- A word character is neither a space nor a quote. -/
theorem word_start {c : Char} (h : isWordChar c = true) :
    (c = ' ' || c = '\t' || isLineEnd c) = false ∧ (c = '"' || c = '\'') = false := by
  constructor
  · by_contra hspace
    simp only [isLineEnd, Bool.not_eq_false, Bool.or_eq_true, decide_eq_true_eq] at hspace
    rcases hspace with (rfl | rfl) | ((rfl | rfl) | rfl) | rfl <;> exact absurd h (by decide)
  · by_contra hquote
    simp only [Bool.not_eq_false, Bool.or_eq_true, decide_eq_true_eq] at hquote
    rcases hquote with rfl | rfl <;> exact absurd h (by decide)

/-- A run of word characters is one token, unless more of a name follows. -/
theorem token?_run {c : Char} {name rest : List Char} (hname : ∀ d ∈ c :: name, isWordChar d = true)
    (hrest : endsWord rest = true) :
    token? (c :: name ++ rest) =
      if !c.isDigit then some (.word (c :: name), rest)
      else if isHexNumber (c :: name) then some (.number (c :: name), rest)
      else none := by
  have hc := hname c List.mem_cons_self
  obtain ⟨hspace, hquote⟩ := word_start hc
  have hcut : CutsFront isWordChar (c :: name ++ rest) (c :: name) rest := by
    refine ⟨rfl, hname, fun d hd => ?_⟩
    simp only [endsWord, hd, Option.all_some, Bool.and_eq_true, Bool.not_eq_true'] at hrest
    exact hrest.1.1
  obtain ⟨htake, hdrop⟩ := hcut.unique
  rw [List.cons_append] at htake hdrop ⊢
  rw [token?, skipSpaces_cons hspace]
  simp only [hquote, hc, htake, hdrop, hrest, ↓reduceIte, Bool.not_true, Bool.false_eq_true]

/-! ## Names -/

/-- A run of word characters that does not start with a digit. -/
def IsName (cs : List Char) : Prop :=
  ∃ c rest, cs = c :: rest ∧ c.isDigit = false ∧ ∀ d ∈ c :: rest, isWordChar d = true

theorem IsName.isWordChar {cs : List Char} (h : IsName cs) {c : Char} (hc : c ∈ cs) :
    isWordChar c = true := by
  obtain ⟨first, rest, rfl, -, hword⟩ := h
  exact hword c hc

theorem IsName.append {cs more : List Char} (h : IsName cs)
    (hmore : ∀ c ∈ more, Text.isWordChar c = true) : IsName (cs ++ more) := by
  obtain ⟨first, rest, rfl, hdigit, hword⟩ := h
  exact ⟨first, rest ++ more, rfl, hdigit, List.forall_mem_append.2 ⟨hword, hmore⟩⟩

/-- A name is one word. -/
theorem IsName.token? {cs rest : List Char} (h : IsName cs) (hrest : endsWord rest = true) :
    token? (cs ++ rest) = some (.word cs, rest) := by
  obtain ⟨first, more, rfl, hdigit, hword⟩ := h
  rw [token?_run hword hrest, hdigit, Bool.not_false, if_pos rfl]

theorem isName_identifier (name : String) : IsName (identifier name).toList := by
  have hword : ∀ d ∈ toWord name.toList, Text.isWordChar d = true := by
    intro d hd
    obtain ⟨c, -, rfl⟩ := List.mem_map.1 hd
    split
    · assumption
    · decide
  rw [identifier, String.toList_ofList, identifierChars, guardStart.eq_def]
  split
  · exact ⟨'_', [], rfl, by decide, List.forall_mem_singleton.2 (by decide)⟩
  · rename_i c cs hchars
    rw [hchars] at hword
    split
    · exact ⟨'_', c :: cs, rfl, by decide, List.forall_mem_cons.2 ⟨by decide, hword⟩⟩
    · exact ⟨c, cs, rfl, Bool.eq_false_iff.2 ‹_›, hword⟩

end SceneScript.Script
