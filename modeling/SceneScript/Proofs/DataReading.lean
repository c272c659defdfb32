import SceneScript.Proofs.Numerals
import SceneScript.Proofs.ScriptTokens

/-!
# Reading data in programs

A reader for the literals of data in programs: null, the truth values, numbers, strings, and arrays
and objects of them. Numbers are kept as they are written, and so is the order of the keys. The
tokens drive a machine with a stack, one step a token, so the reader does not depend on the spaces
between them. It refuses what it does not know, such as a comma behind the last item.

Which characters beyond ASCII may stand in names is a table of its own (`Alphabet`).
-/

namespace SceneScript.Script

open Text

/-! ## Names -/

/-- The characters of names. Of those beyond ASCII it matters only that none is a space. -/
structure Alphabet where
  /-- Whether a name may start with a character. -/
  starts : Char → Bool
  /-- Whether a name may go on with a character. -/
  continues : Char → Bool
  starts_ascii : ∀ c, c.toNat < 128 → starts c = (c.isAlpha || c = '_' || c = '$')
  continues_ascii : ∀ c, c.toNat < 128 → continues c = isWordChar c
  continues_of_starts : ∀ c, starts c = true → continues c = true
  continues_space : ∀ c, continues c = true → (c = ' ' || c = '\t' || isLineEnd c) = false

namespace Alphabet

/-- The names that have ASCII characters only. -/
def ascii : Alphabet where
  starts c := c.isAlpha || c = '_' || c = '$'
  continues := isWordChar
  starts_ascii _ _ := rfl
  continues_ascii _ _ := rfl
  continues_of_starts c h := by
    simp only [isWordChar, Char.isAlphanum, Bool.or_eq_true] at h ⊢
    tauto
  continues_space c h := (word_start h).1

/-- A character that starts a name and others that go on with it. -/
def IsName (a : Alphabet) (cs : List Char) : Prop :=
  ∃ c rest, cs = c :: rest ∧ a.starts c = true ∧ ∀ d ∈ rest, a.continues d = true

/-- A word of ASCII characters is a name in every alphabet. -/
theorem isName_of_ascii (a : Alphabet) {c : Char} {rest : List Char}
    (hc : (decide (c.toNat < 128) && (c.isAlpha || c = '_' || c = '$')) = true)
    (hrest : rest.all (fun d => decide (d.toNat < 128) && isWordChar d) = true) :
    a.IsName (c :: rest) := by
  rw [Bool.and_eq_true, decide_eq_true_eq] at hc
  refine ⟨c, rest, rfl, (a.starts_ascii c hc.1).trans hc.2, fun d hd => ?_⟩
  have hd := List.all_eq_true.1 hrest d hd
  rw [Bool.and_eq_true, decide_eq_true_eq] at hd
  exact (a.continues_ascii d hd.1).trans hd.2

/-- Whether a name or a number may end before a text. -/
def ends (a : Alphabet) (rest : List Char) : Bool :=
  rest.head?.all fun c => !a.continues c && c ≠ '\\'

end Alphabet

/-! ## Lexemes -/

/-- Reads a number behind its sign. -/
def number? (a : Alphabet) (sign cs : List Char) : Option (Token × List Char) :=
  (numeral? cs).bind fun (n, after) =>
    if a.ends after then some (.number (sign ++ n.text), after) else none

/-- Reads a token that starts with a character: the token and the text behind it. -/
def lexeme? (a : Alphabet) (c : Char) (rest : List Char) : Option (Token × List Char) :=
  if c = '"' || c = '\'' then
    (string? (c :: rest)).map fun (value, after) => (.text value, after)
  else if a.starts c then
    if a.ends (rest.dropWhile a.continues) then
      some (.word (c :: rest.takeWhile a.continues), rest.dropWhile a.continues)
    else none
  else if c = '-' then number? a ['-'] rest
  else if c.isDigit then number? a [] (c :: rest)
  else if ['[', ']', '\x7b', '\x7d', ',', ':'].contains c then some (.mark c, rest)
  else none

section

variable {a : Alphabet} {c : Char} {cs rest after : List Char}

theorem length_string? {value : List Char} (h : string? (c :: rest) = some (value, after)) :
    after.length < rest.length := by
  rw [string?] at h
  split at h
  · obtain ⟨⟨us, last⟩, hbody, h⟩ := Option.bind_eq_some_iff.1 h
    obtain ⟨text, -, hresult⟩ := Option.bind_eq_some_iff.1 h
    cases hresult
    have hlength := length_quotedBody? hbody
    omega
  · cases h

theorem length_fraction (cs : List Char) : (fraction cs).2.length ≤ cs.length := by
  unfold fraction
  split
  · exact (List.dropWhile_suffix _).length_le.trans (Nat.le_succ _)
  · exact le_rfl

theorem length_sign (cs : List Char) : (sign cs).2.length ≤ cs.length := by
  unfold sign
  split
  · exact Nat.le_succ _
  · exact Nat.le_succ _
  · exact le_rfl

theorem length_exponent? {e : Option (List Char × List Char)}
    (h : exponent? cs = some (e, after)) : after.length ≤ cs.length := by
  unfold exponent? at h
  split at h
  · rename_i rest
    dsimp only at h
    split_ifs at h
    cases h
    have hdigits := (List.dropWhile_suffix (l := (sign rest).2) Char.isDigit).length_le
    exact (hdigits.trans (length_sign rest)).trans (Nat.le_succ _)
  · cases h
    exact le_rfl

theorem length_numeral? {n : Numeral} (h : numeral? cs = some (n, after)) :
    after.length < cs.length := by
  unfold numeral? at h
  dsimp only at h
  split_ifs at h with hwhole
  obtain ⟨⟨e, last⟩, hexponent, hresult⟩ := Option.map_eq_some_iff.1 h
  cases hresult
  have hcut := congrArg List.length (List.takeWhile_append_dropWhile (p := Char.isDigit) (l := cs))
  have hpositive : 0 < (cs.takeWhile Char.isDigit).length := by
    simp only [Bool.or_eq_true, not_or, Bool.not_eq_true, List.isEmpty_eq_false_iff] at hwhole
    exact List.length_pos_iff.2 hwhole.1
  have hfraction := length_fraction (cs.dropWhile Char.isDigit)
  have hlast := length_exponent? hexponent
  rw [List.length_append] at hcut
  show last.length < cs.length
  omega

theorem length_number? {sign : List Char} {token : Token}
    (h : number? a sign cs = some (token, after)) : after.length < cs.length := by
  obtain ⟨⟨n, last⟩, hnumeral, hresult⟩ := Option.bind_eq_some_iff.1 h
  dsimp only at hresult
  split_ifs at hresult
  cases hresult
  exact length_numeral? hnumeral

theorem length_lexeme? {token : Token} (h : lexeme? a c rest = some (token, after)) :
    after.length ≤ rest.length := by
  unfold lexeme? at h
  split_ifs at h
  · obtain ⟨⟨value, last⟩, hstring, hresult⟩ := Option.map_eq_some_iff.1 h
    cases hresult
    exact (length_string? hstring).le
  · cases h
    exact (List.dropWhile_suffix _).length_le
  · exact (length_number? h).le
  · exact Nat.le_of_lt_succ (length_number? h)
  · cases h
    exact le_rfl

end

/-! ## The machine -/

/-- A value of a program, with its numbers as they are written. -/
inductive Data where
  | null
  | bool (b : Bool)
  | number (text : String)
  | string (s : String)
  | list (items : List Data)
  | mapping (entries : List (String × Data))
  deriving Inhabited

namespace Data

/-- An array or object whose current member is being read. Items are held last first. -/
inductive Frame where
  | list (items : List Data)
  | mapping (entries : List (String × Data)) (key : String)

/-- What the machine waits for, or the value that it has just completed. -/
inductive Phase where
  | value
  | firstItem
  | key (entries : List (String × Data))
  | colon (entries : List (String × Data)) (key : String)
  | complete (d : Data)

/-- The machine. -/
structure Machine where
  phase : Phase
  stack : List Frame

namespace Machine

/-- A token where a value may start, with `stack` as the surroundings. -/
def openWith (stack : List Frame) : Token → Option Machine
  | .word name =>
    if name = ['n', 'u', 'l', 'l'] then some ⟨.complete .null, stack⟩
    else if name = ['t', 'r', 'u', 'e'] then some ⟨.complete (.bool true), stack⟩
    else if name = ['f', 'a', 'l', 's', 'e'] then some ⟨.complete (.bool false), stack⟩
    else none
  | .number text => some ⟨.complete (.number (String.ofList text)), stack⟩
  | .text value => some ⟨.complete (.string (String.ofList value)), stack⟩
  | .mark sign =>
    if sign = '[' then some ⟨.firstItem, stack⟩
    else if sign = '\x7b' then some ⟨.key [], stack⟩
    else none

/-- A token behind a completed value. -/
def closeWith (d : Data) (stack : List Frame) (token : Token) : Option Machine :=
  match stack with
  | [] => none
  | .list items :: rest =>
    if token = .mark ',' then some ⟨.value, .list (d :: items) :: rest⟩
    else if token = .mark ']' then some ⟨.complete (.list (d :: items).reverse), rest⟩
    else none
  | .mapping entries key :: rest =>
    if token = .mark ',' then some ⟨.key (entries ++ [(key, d)]), rest⟩
    else if token = .mark '\x7d' then some ⟨.complete (.mapping (entries ++ [(key, d)])), rest⟩
    else none

/-- One token. An object may close where its first key is due, but not behind a comma. -/
def step (m : Machine) (token : Token) : Option Machine :=
  match m.phase with
  | .value => openWith m.stack token
  | .firstItem =>
    if token = .mark ']' then some ⟨.complete (.list []), m.stack⟩
    else openWith (.list [] :: m.stack) token
  | .key entries =>
    match token with
    | .word name => some ⟨.colon entries (String.ofList name), m.stack⟩
    | .text value => some ⟨.colon entries (String.ofList value), m.stack⟩
    | .mark sign =>
      if sign = '\x7d' && entries.isEmpty then some ⟨.complete (.mapping []), m.stack⟩ else none
    | .number _ => none
  | .colon entries key =>
    if token = .mark ':' then some ⟨.value, .mapping entries key :: m.stack⟩ else none
  | .complete d => closeWith d m.stack token

/-- Reads tokens up to the end of a text. -/
def run (a : Alphabet) (m : Machine) (cs : List Char) : Option Machine :=
  match _hstart : skipSpaces cs with
  | [] => some m
  | c :: rest =>
    match _htoken : lexeme? a c rest with
    | none => none
    | some (token, after) =>
      match m.step token with
      | none => none
      | some m' => run a m' after
termination_by cs.length
decreasing_by
  have hstart := length_skipSpaces cs
  have htoken := length_lexeme? _htoken
  simp only [_hstart, List.length_cons] at hstart
  omega

/-- The value of a machine that has read a whole text. -/
def result (m : Machine) : Option Data :=
  match m.phase, m.stack with
  | .complete d, [] => some d
  | _, _ => none

end Machine

end Data

/-- Reads a text that is the literal of a value. -/
def data? (a : Alphabet) (cs : List Char) : Option Data :=
  (Data.Machine.run a ⟨.value, []⟩ cs).bind Data.Machine.result

/-! ## Reading one token -/

/-- Whether a text is empty or starts with a sign that may stand behind a value or a key. -/
def delimits (rest : List Char) : Bool :=
  rest.head?.all fun c => [',', ':', ']', '\x7d'].contains c

section

variable {a : Alphabet} {cs rest : List Char}

theorem delimits_head {c : Char} (h : delimits rest = true) (hc : c ∈ rest.head?) :
    c ∈ [',', ':', ']', '\x7d'] := by
  rw [delimits, Option.mem_def.1 hc] at h
  simpa using h

/-- Such a sign is neither part of a name nor of a number. -/
theorem delimiter_facts (a : Alphabet) {c : Char} (hc : c ∈ [',', ':', ']', '\x7d']) :
    a.continues c = false ∧ c ≠ '\\' ∧ c.isDigit = false ∧ c ≠ '.' ∧ c ≠ 'e' := by
  simp only [List.mem_cons, List.not_mem_nil, or_false] at hc
  rcases hc with rfl | rfl | rfl | rfl <;>
    exact ⟨(a.continues_ascii _ (by decide)).trans (by decide), by decide⟩

theorem ends_of_delimits (a : Alphabet) (h : delimits rest = true) : a.ends rest = true := by
  cases rest with
  | nil => rfl
  | cons c rest =>
    obtain ⟨hcontinues, hescape, -⟩ := delimiter_facts a (delimits_head h rfl)
    simp [Alphabet.ends, hcontinues, hescape]

theorem endsNumeral_of_delimits (h : delimits rest = true) : endsNumeral rest = true := by
  cases rest with
  | nil => rfl
  | cons c rest =>
    obtain ⟨-, -, hdigit, hpoint, he⟩ := delimiter_facts .ascii (delimits_head h rfl)
    simp [endsNumeral, hdigit, hpoint, he]

end

namespace Data.Machine

variable {a : Alphabet} {m m' : Machine} {cs rest : List Char}

/-- Spaces are skipped, a token is read and the machine takes a step. -/
theorem run_eq (a : Alphabet) (m : Machine) (cs : List Char) :
    run a m cs = (skipSpaces cs).head?.elim (some m) fun c =>
      (lexeme? a c (skipSpaces cs).tail).bind fun result =>
        (m.step result.1).bind fun m' => run a m' result.2 := by
  rw [run]
  split
  · rename_i hstart
    rw [hstart]
    rfl
  · rename_i c rest hstart
    rw [hstart]
    show _ = (lexeme? a c rest).bind _
    split
    · rename_i hnone
      rw [hnone]
      rfl
    · rename_i token after hsome
      rw [hsome]
      show _ = (m.step token).bind _
      cases m.step token <;> rfl

/-- A token takes the machine from one state to another. -/
theorem run_of_lexeme? {c : Char} {after : List Char} {token : Token}
    (hspace : (c = ' ' || c = '\t' || isLineEnd c) = false)
    (htoken : lexeme? a c rest = some (token, after)) (hstep : m.step token = some m') :
    run a m (c :: rest) = run a m' after := by
  rw [run_eq, skipSpaces_cons hspace, List.head?_cons, Option.elim_some, List.tail_cons, htoken,
    Option.bind_some, hstep, Option.bind_some]

theorem run_space (m : Machine) (rest : List Char) : run a m (' ' :: rest) = run a m rest := by
  have hspace : skipSpaces (' ' :: rest) = skipSpaces rest := rfl
  rw [run_eq, hspace, ← run_eq]

/-- A name is one token. -/
theorem run_name (hname : a.IsName cs) (hrest : delimits rest = true)
    (hstep : m.step (.word cs) = some m') : run a m (cs ++ rest) = run a m' rest := by
  obtain ⟨c, name, rfl, hstarts, hcontinues⟩ := hname
  have hquote : (c = '"' || c = '\'') = false := by
    by_contra hquote
    simp only [Bool.not_eq_false, Bool.or_eq_true, decide_eq_true_eq] at hquote
    rcases hquote with rfl | rfl <;> exact absurd hstarts (by rw [a.starts_ascii] <;> decide)
  have hcut : CutsFront a.continues (name ++ rest) name rest :=
    ⟨rfl, hcontinues, fun d hd => (delimiter_facts a (delimits_head hrest hd)).1⟩
  refine run_of_lexeme? (a.continues_space c (a.continues_of_starts c hstarts)) ?_ hstep
  show lexeme? a c (name ++ rest) = _
  rw [lexeme?, hquote, if_neg Bool.false_ne_true, if_pos hstarts, hcut.unique.1, hcut.unique.2,
    if_pos (ends_of_delimits a hrest)]

/-- The characters that start a number start no name and no string, and are no spaces. -/
theorem number_start (a : Alphabet) {c : Char} (hc : c.isDigit = true ∨ c = '-') :
    (c = ' ' || c = '\t' || isLineEnd c) = false ∧ (c = '"' || c = '\'') = false ∧
      a.starts c = false := by
  rcases hc with hc | rfl
  · have hword : isWordChar c = true := by
      rw [isWordChar, Char.isAlphanum, hc, Bool.or_true, Bool.true_or, Bool.true_or]
    have hrange : 48 ≤ c.toNat ∧ c.toNat ≤ 57 := by
      simp only [Char.isDigit, Bool.and_eq_true, decide_eq_true_eq] at hc
      exact hc
    have hall : ∀ n < 58, 48 ≤ n → ((Char.ofNat n).isAlpha || Char.ofNat n = '_' ||
        Char.ofNat n = '$') = false := by decide
    have hstarts := hall c.toNat (Nat.lt_succ_of_le hrange.2) hrange.1
    rw [Char.ofNat_toNat, ← a.starts_ascii c (by omega)] at hstarts
    exact ⟨(word_start hword).1, (word_start hword).2, hstarts⟩
  · exact ⟨rfl, rfl, by rw [a.starts_ascii] <;> decide⟩

theorem number?_text {n : Numeral} (h : n.Proper) (hrest : delimits rest = true)
    (sign : List Char) :
    number? a sign (n.text ++ rest) = some (.number (sign ++ n.text), rest) := by
  rw [number?, numeral?_text h (endsNumeral_of_delimits hrest), Option.bind_some]
  exact if_pos (ends_of_delimits a hrest)

/-- A number is one token. -/
theorem run_number (n : Number) (hrest : delimits rest = true)
    (hstep : m.step (.number n.chars) = some m') : run a m (n.chars ++ rest) = run a m' rest := by
  obtain ⟨numeral, hproper, -, -, htext⟩ := n.exists_numeral
  rw [htext] at hstep ⊢
  have hnumber := number?_text (a := a) hproper hrest n.minus
  by_cases hnegative : n.isNegative = true
  · rw [Number.minus, if_pos hnegative] at hstep hnumber ⊢
    obtain ⟨hspace, hquote, hstarts⟩ := number_start a (c := '-') (.inr rfl)
    refine run_of_lexeme? hspace ?_ hstep
    rw [lexeme?, hquote, hstarts, if_neg Bool.false_ne_true, if_neg Bool.false_ne_true, if_pos rfl]
    exact hnumber
  · rw [Number.minus, if_neg hnegative] at hstep hnumber ⊢
    obtain ⟨c, ds, hwhole⟩ := List.exists_cons_of_ne_nil hproper.nonempty
    have hdigit : c.isDigit = true := hproper.digits c (hwhole ▸ List.mem_cons_self)
    obtain ⟨hspace, hquote, hstarts⟩ := number_start a (.inl hdigit)
    have hminus : c ≠ '-' := by
      rintro rfl
      exact absurd hdigit (by decide)
    obtain ⟨text, hcons⟩ : ∃ text, numeral.text = c :: text :=
      ⟨_, by rw [Numeral.text, hwhole]; rfl⟩
    rw [hcons] at hstep hnumber ⊢
    refine run_of_lexeme? hspace ?_ hstep
    rw [lexeme?, hquote, hstarts, if_neg Bool.false_ne_true, if_neg Bool.false_ne_true,
      if_neg hminus, if_pos hdigit]
    exact hnumber

/-- A quoted text is one token. -/
theorem run_quote {s : String} (hstep : m.step (.text s.toList) = some m') :
    run a m ((quote s).toList ++ rest) = run a m' rest := by
  have hstring := string?_quote s rest
  rw [quote_append] at hstring ⊢
  refine run_of_lexeme? (by decide) ?_ hstep
  rw [lexeme?, if_pos (by decide), hstring]
  rfl

/-- A sign is one token. -/
theorem run_mark {c : Char} (hc : c ∈ ['[', ']', '\x7b', '\x7d', ',', ':'])
    (hstep : m.step (.mark c) = some m') : run a m (c :: rest) = run a m' rest := by
  simp only [List.mem_cons, List.not_mem_nil, or_false] at hc
  have hstarts : a.starts c = false := by
    rcases hc with rfl | rfl | rfl | rfl | rfl | rfl <;> rw [a.starts_ascii] <;> decide
  have hlexeme : lexeme? a c rest = some (.mark c, rest) := by
    rw [lexeme?, hstarts]
    rcases hc with rfl | rfl | rfl | rfl | rfl | rfl <;> rfl
  refine run_of_lexeme? ?_ hlexeme hstep
  rcases hc with rfl | rfl | rfl | rfl | rfl | rfl <;> rfl

end Data.Machine

end SceneScript.Script
