/-!
# Quoted text

A text as a string literal between double quotes, and the reading of such a literal. Written
literals escape the quote, the backslash and the characters below U+0020, and nothing else, so a
literal never spans lines. The reader takes every escape of the data format: the short ones and
`\u` with four hexadecimal digits, where two surrogates make one character.
-/

namespace SceneScript.Text

/-! ## Writing -/

/-- A hexadecimal digit in lower case. -/
def hexDigit (n : Nat) : Char :=
  if n < 10 then Char.ofNat (48 + n) else Char.ofNat (87 + n)

/-- A character as a literal holds it. -/
def quoteChar (c : Char) : List Char :=
  if c = '"' then ['\\', '"']
  else if c = '\\' then ['\\', '\\']
  else if c = '\x08' then ['\\', 'b']
  else if c = '\t' then ['\\', 't']
  else if c = '\n' then ['\\', 'n']
  else if c = '\x0c' then ['\\', 'f']
  else if c = '\r' then ['\\', 'r']
  else if c.toNat < 0x20 then
    ['\\', 'u', '0', '0', hexDigit (c.toNat / 16), hexDigit (c.toNat % 16)]
  else [c]

/-- A text as a literal, quotes included. -/
def quoteChars (cs : List Char) : List Char :=
  '"' :: (cs.flatMap quoteChar ++ ['"'])

/-- A text as a literal, quotes included. -/
def quote (s : String) : String :=
  String.ofList (quoteChars s.toList)

/-! ## Reading -/

/-- The value of a hexadecimal digit in either case. -/
def hexValue? (c : Char) : Option Nat :=
  if '0' ≤ c && c ≤ '9' then some (c.toNat - 48)
  else if 'a' ≤ c && c ≤ 'f' then some (c.toNat - 87)
  else if 'A' ≤ c && c ≤ 'F' then some (c.toNat - 55)
  else none

/-- The number that four hexadecimal digits write. -/
def hexQuad? (a b c d : Char) : Option Nat := do
  let a ← hexValue? a
  let b ← hexValue? b
  let c ← hexValue? c
  let d ← hexValue? d
  return ((a * 16 + b) * 16 + c) * 16 + d

/-- The character that an escape letter stands for. -/
def shortEscape? (c : Char) : Option Char :=
  if c = '"' then some '"'
  else if c = '\\' then some '\\'
  else if c = '/' then some '/'
  else if c = 'b' then some '\x08'
  else if c = 'f' then some '\x0c'
  else if c = 'n' then some '\n'
  else if c = 'r' then some '\r'
  else if c = 't' then some '\t'
  else none

/-- The first half of a pair of surrogates. -/
def isHighSurrogate (n : Nat) : Bool :=
  0xD800 ≤ n && n ≤ 0xDBFF

/-- The second half of a pair of surrogates. -/
def isLowSurrogate (n : Nat) : Bool :=
  0xDC00 ≤ n && n ≤ 0xDFFF

/-- Reads what follows the opening quote: the text up to the closing quote, and what follows that.
A raw character below U+0020, an unknown escape and an unpaired surrogate are refused. -/
def unquoteBody : List Char → Option (List Char × List Char)
  | [] => none
  | '"' :: rest => some ([], rest)
  | '\\' :: 'u' :: a :: b :: c :: d :: rest =>
    match hexQuad? a b c d with
    | none => none
    | some unit =>
      if isHighSurrogate unit then
        match rest with
        | '\\' :: 'u' :: a' :: b' :: c' :: d' :: rest' =>
          match hexQuad? a' b' c' d' with
          | none => none
          | some low =>
            if isLowSurrogate low then
              (unquoteBody rest').map fun (text, after) =>
                (Char.ofNat (0x10000 + (unit - 0xD800) * 0x400 + (low - 0xDC00)) :: text, after)
            else none
        | _ => none
      else if isLowSurrogate unit then none
      else (unquoteBody rest).map fun (text, after) => (Char.ofNat unit :: text, after)
  | '\\' :: e :: rest =>
    match shortEscape? e with
    | none => none
    | some c => (unquoteBody rest).map fun (text, after) => (c :: text, after)
  | c :: rest =>
    if c = '\\' || c.toNat < 0x20 then none
    else (unquoteBody rest).map fun (text, after) => (c :: text, after)

/-- Reads a literal at the start of a text: its value and the text behind it. -/
def unquote : List Char → Option (List Char × List Char)
  | '"' :: rest => unquoteBody rest
  | _ => none

theorem length_unquoteBody {cs text rest : List Char} (h : unquoteBody cs = some (text, rest)) :
    rest.length < cs.length := by
  fun_induction unquoteBody cs generalizing text rest <;>
    simp only [Option.map_eq_some_iff, Prod.exists, Prod.mk.injEq, reduceCtorEq, Option.some.injEq,
      List.length_cons] at h ⊢
  case case2 => rw [h.2]; omega
  all_goals
    obtain ⟨_, _, hr, -, rfl⟩ := h
    have := (by assumption : ∀ {text rest : List Char}, _ = some (text, rest) → _) hr
    omega

end SceneScript.Text
