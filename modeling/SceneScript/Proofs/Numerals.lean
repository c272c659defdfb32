import SceneScript.Proofs.ShortestDecimals
import SceneScript.Proofs.TextureLines
import SceneScript.Value

/-!
# Numbers in programs

The text of a number is a decimal literal of the language, with a minus sign if the number is
negative (`Number.exists_numeral`). The literal is read back part by part (`numeral?_text`), its
value is the shortest decimal of the number, and only whole numbers are written without a point and
without an exponent. So the text decides the number (`Number.text_injective`).
-/

namespace SceneScript

namespace Script

/-! ## Decimal literals -/

/-- The parts of a decimal literal: the digits before the point, those behind it if there is one,
and the sign and the digits of the exponent if there is one. -/
structure Numeral where
  whole : List Char
  fraction : Option (List Char)
  exponent : Option (List Char × List Char)
  deriving DecidableEq, Repr

namespace Numeral

/-- The text of an exponent. -/
def exponentText : Option (List Char × List Char) → List Char
  | none => []
  | some (sign, digits) => 'e' :: (sign ++ digits)

/-- The text of a fraction. -/
def fractionText : Option (List Char) → List Char
  | none => []
  | some digits => '.' :: digits

/-- The text of a literal. -/
def text (n : Numeral) : List Char :=
  n.whole ++ (fractionText n.fraction ++ exponentText n.exponent)

/-- Whether a literal has neither a point nor an exponent. -/
def isWhole (n : Numeral) : Bool :=
  n.fraction.isNone && n.exponent.isNone

/-- The number of an exponent. -/
def exponentValue : Option (List Char × List Char) → ℤ
  | none => 0
  | some (sign, digits) =>
    if sign = ['-'] then -Nat.ofDigitChars 10 digits 0 else Nat.ofDigitChars 10 digits 0

/-- The number of a literal. -/
def toRat (n : Numeral) : ℚ :=
  Nat.ofDigitChars 10 (n.whole ++ n.fraction.getD []) 0 *
    10 ^ (exponentValue n.exponent - (n.fraction.getD []).length)

/-- The literals of the language: digits where there must be some, and no zero in front of others. -/
structure Proper (n : Numeral) : Prop where
  nonempty : n.whole ≠ []
  digits : ∀ c ∈ n.whole, c.isDigit = true
  start : n.whole.head? = some '0' → n.whole = ['0']
  fraction : ∀ ds ∈ n.fraction, ∀ c ∈ ds, c.isDigit = true
  exponent : ∀ e ∈ n.exponent, e.1 ∈ [[], ['+'], ['-']] ∧ e.2 ≠ [] ∧ ∀ c ∈ e.2, c.isDigit = true

end Numeral

/-- Reads a point with the digits behind it, if there is one. -/
def fraction : List Char → Option (List Char) × List Char
  | '.' :: rest => (some (rest.takeWhile Char.isDigit), rest.dropWhile Char.isDigit)
  | cs => (none, cs)

/-- Reads a sign, if there is one. -/
def sign : List Char → List Char × List Char
  | '+' :: rest => (['+'], rest)
  | '-' :: rest => (['-'], rest)
  | cs => ([], cs)

/-- Reads an exponent, if there is one. It must have digits. -/
def exponent? : List Char → Option (Option (List Char × List Char) × List Char)
  | 'e' :: rest =>
    let (minus, rest) := sign rest
    let digits := rest.takeWhile Char.isDigit
    if digits.isEmpty then none else some (some (minus, digits), rest.dropWhile Char.isDigit)
  | cs => some (none, cs)

/-- Reads a decimal literal at the start of a text: its parts and the text behind it. -/
def numeral? (cs : List Char) : Option (Numeral × List Char) :=
  let whole := cs.takeWhile Char.isDigit
  if whole.isEmpty || (whole.head? = some '0' && whole ≠ ['0']) then none
  else
    let (digits, rest) := fraction (cs.dropWhile Char.isDigit)
    (exponent? rest).map fun (exponent, rest) => (⟨whole, digits, exponent⟩, rest)

/-- Whether a literal may end before a text. -/
def endsNumeral (rest : List Char) : Bool :=
  rest.head?.all fun c => !c.isDigit && c ≠ '.' && c ≠ 'e'

section

variable {rest : List Char}

theorem endsNumeral_head {c : Char} (h : endsNumeral rest = true) (hc : c ∈ rest.head?) :
    c.isDigit = false ∧ c ≠ '.' ∧ c ≠ 'e' := by
  rw [endsNumeral, Option.mem_def.1 hc] at h
  simpa [and_assoc] using h

theorem fraction_append {digits : Option (List Char)}
    (h : ∀ ds ∈ digits, ∀ c ∈ ds, c.isDigit = true)
    (hrest : ∀ c ∈ rest.head?, c.isDigit = false ∧ c ≠ '.') :
    fraction (Numeral.fractionText digits ++ rest) = (digits, rest) := by
  cases digits with
  | none =>
    cases rest with
    | nil => rfl
    | cons c rest =>
      have hc : c ≠ '.' := (hrest c rfl).2
      show fraction (c :: rest) = _
      unfold fraction
      split
      · rename_i heq
        cases heq
        exact absurd rfl hc
      · rfl
  | some ds =>
    have hcut : Text.CutsFront Char.isDigit (ds ++ rest) ds rest :=
      ⟨rfl, h ds rfl, fun c hc => (hrest c hc).1⟩
    show (some ((ds ++ rest).takeWhile Char.isDigit), (ds ++ rest).dropWhile Char.isDigit) = _
    rw [hcut.unique.1, hcut.unique.2]

/-- A sign is one of two characters or missing, and no digit is taken for one. -/
theorem sign_append {minus digits : List Char} (hminus : minus ∈ [[], ['+'], ['-']])
    (hne : digits ≠ []) (hdigits : ∀ c ∈ digits, c.isDigit = true) :
    sign (minus ++ (digits ++ rest)) = (minus, digits ++ rest) := by
  simp only [List.mem_cons, List.not_mem_nil, or_false] at hminus
  rcases hminus with rfl | rfl | rfl
  · obtain ⟨c, ds, rfl⟩ := List.exists_cons_of_ne_nil hne
    have hc := hdigits c List.mem_cons_self
    show sign (c :: (ds ++ rest)) = _
    unfold sign
    split
    · rename_i heq
      cases heq
      exact absurd hc (by decide)
    · rename_i heq
      cases heq
      exact absurd hc (by decide)
    · rfl
  · rfl
  · rfl

theorem exponent?_append {e : Option (List Char × List Char)}
    (h : ∀ part ∈ e, part.1 ∈ [[], ['+'], ['-']] ∧ part.2 ≠ [] ∧ ∀ c ∈ part.2, c.isDigit = true)
    (hrest : ∀ c ∈ rest.head?, c.isDigit = false ∧ c ≠ 'e') :
    exponent? (Numeral.exponentText e ++ rest) = some (e, rest) := by
  cases e with
  | none =>
    cases rest with
    | nil => rfl
    | cons c rest =>
      have hc : c ≠ 'e' := (hrest c rfl).2
      show exponent? (c :: rest) = _
      unfold exponent?
      split
      · rename_i heq
        cases heq
        exact absurd rfl hc
      · rfl
  | some part =>
    obtain ⟨minus, digits⟩ := part
    obtain ⟨hminus, hne, hdigits⟩ := h _ rfl
    have hcut : Text.CutsFront Char.isDigit (digits ++ rest) digits rest :=
      ⟨rfl, hdigits, fun c hc => (hrest c hc).1⟩
    show exponent? ('e' :: (minus ++ digits ++ rest)) = _
    rw [List.append_assoc]
    unfold exponent?
    simp only [sign_append hminus hne hdigits, hcut.unique.1, hcut.unique.2, List.isEmpty_iff, hne,
      if_false]

/-- A decimal literal is read back part by part. -/
theorem numeral?_text {n : Numeral} (h : n.Proper) (hrest : endsNumeral rest = true) :
    numeral? (n.text ++ rest) = some (n, rest) := by
  have hexponent : exponent? (Numeral.exponentText n.exponent ++ rest) = some (n.exponent, rest) := by
    refine exponent?_append h.exponent fun c hc => ?_
    obtain ⟨hdigit, -, he⟩ := endsNumeral_head hrest hc
    exact ⟨hdigit, he⟩
  have hpoint : ∀ c ∈ (Numeral.exponentText n.exponent ++ rest).head?,
      c.isDigit = false ∧ c ≠ '.' := by
    intro c hc
    cases he : n.exponent with
    | none =>
      rw [he] at hc
      obtain ⟨hdigit, hpoint, -⟩ := endsNumeral_head hrest hc
      exact ⟨hdigit, hpoint⟩
    | some part =>
      rw [he] at hc
      cases hc
      decide
  have hfraction := fraction_append h.fraction hpoint
  have hcut : Text.CutsFront Char.isDigit (n.text ++ rest) n.whole
      (Numeral.fractionText n.fraction ++ (Numeral.exponentText n.exponent ++ rest)) := by
    refine ⟨by simp only [Numeral.text, List.append_assoc], h.digits, fun c hc => ?_⟩
    cases hf : n.fraction with
    | none =>
      rw [hf] at hc
      exact (hpoint c hc).1
    | some ds =>
      rw [hf] at hc
      cases hc
      decide
  have hwhole : (n.whole.isEmpty || (n.whole.head? = some '0' && n.whole ≠ ['0'])) = false := by
    simp only [Bool.or_eq_false_iff, Bool.and_eq_false_imp, decide_eq_true_eq,
      decide_eq_false_iff_not, not_not]
    exact ⟨List.isEmpty_eq_false_iff.2 h.nonempty, h.start⟩
  unfold numeral?
  simp only [hcut.unique.1, hcut.unique.2, hwhole, hfraction, hexponent, Option.map_some,
    Bool.false_eq_true, if_false]

theorem Numeral.Proper.mem_text {n : Numeral} (h : n.Proper) {c : Char} (hc : c ∈ n.text) :
    c.isDigit = true ∨ c ∈ ['-', '.', 'e', '+'] := by
  obtain ⟨whole, fraction, exponent⟩ := n
  simp only [Numeral.text, List.mem_append] at hc
  rcases hc with hc | hc | hc
  · exact .inl (h.digits c hc)
  · cases fraction with
    | none => cases hc
    | some ds =>
      rcases List.mem_cons.1 hc with rfl | hc
      · exact .inr (by decide)
      · exact .inl (h.fraction ds rfl c hc)
  · cases exponent with
    | none => cases hc
    | some e =>
      obtain ⟨hsign, -, hdigits⟩ := h.exponent e rfl
      rcases List.mem_cons.1 hc with rfl | hc
      · exact .inr (by decide)
      rcases List.mem_append.1 hc with hc | hc
      · simp only [List.mem_cons, List.not_mem_nil, or_false] at hsign
        rcases hsign with hsign | hsign | hsign <;> rw [hsign] at hc
        · cases hc
        · obtain rfl := List.mem_singleton.1 hc
          exact .inr (by decide)
        · obtain rfl := List.mem_singleton.1 hc
          exact .inr (by decide)
      · exact .inl (hdigits c hc)

/-- A text is the text of one literal at most. -/
theorem Numeral.Proper.eq_of_text_eq {m n : Numeral} (hm : m.Proper) (hn : n.Proper)
    (h : m.text = n.text) : m = n := by
  have hread : numeral? (m.text ++ []) = some (m, []) := numeral?_text hm rfl
  rw [h, numeral?_text hn rfl] at hread
  cases hread
  rfl

end

end Script

/-! ## Decimals laid out -/

namespace Decimal

open Script

theorem isDigit_toDigits {n : ℕ} {c : Char} (h : c ∈ Nat.toDigits 10 n) : c.isDigit = true :=
  Nat.isDigit_of_mem_toDigits (by decide) (by decide) h

/-- The digits of a number other than zero do not start with a zero. -/
theorem head?_toDigits_ne {n : ℕ} (h : n ≠ 0) : (Nat.toDigits 10 n).head? ≠ some '0' := by
  induction n using Nat.strongRecOn with
  | ind n ih =>
    rw [Nat.toDigits_eq_if (by decide)]
    split
    · have hall : ∀ m < 10, m ≠ 0 → [m.digitChar].head? ≠ some '0' := by decide
      exact hall n ‹_› h
    · rw [List.head?_append_of_ne_nil _ Nat.toDigits_ne_nil]
      exact ih (n / 10) (by omega) (by omega)

/-- The exponent of a layout. -/
def exponentParts (layout : Layout) (m : ℤ) : List Char × List Char :=
  (if m < 0 then ['-'] else if layout.plusSign then ['+'] else [], Nat.toDigits 10 m.natAbs)

theorem exponentParts_proper (layout : Layout) (m : ℤ) :
    (exponentParts layout m).1 ∈ [[], ['+'], ['-']] ∧ (exponentParts layout m).2 ≠ [] ∧
      ∀ c ∈ (exponentParts layout m).2, c.isDigit = true := by
  refine ⟨?_, Nat.toDigits_ne_nil, fun c hc => isDigit_toDigits hc⟩
  unfold exponentParts
  dsimp only
  split_ifs <;> simp

theorem exponentValue_exponentParts (layout : Layout) (m : ℤ) :
    Numeral.exponentValue (some (exponentParts layout m)) = m := by
  unfold exponentParts Numeral.exponentValue
  dsimp only
  rw [Nat.ofDigitChars_ten_toDigits]
  by_cases hm : m < 0
  · rw [if_pos hm, if_pos rfl]
    omega
  · have hplus : (if layout.plusSign = true then ['+'] else []) ≠ ['-'] := by split_ifs <;> decide
    rw [if_neg hm, if_neg hplus]
    omega

section

variable {s : ℕ} {e : Option (List Char × List Char)}

/-- Digits with a point among them or behind them. -/
theorem proper_pointAfter (hs : s ≠ 0) {w : ℕ} (hw : 0 < w) {digits : Option (List Char)}
    (hdigits : ∀ ds ∈ digits, ds = (Nat.toDigits 10 s).drop w)
    (he : ∀ part ∈ e, ∃ layout m, part = exponentParts layout m) :
    (⟨(Nat.toDigits 10 s).take w, digits, e⟩ : Numeral).Proper where
  nonempty := by
    rw [Ne, List.take_eq_nil_iff, not_or]
    exact ⟨hw.ne', Nat.toDigits_ne_nil⟩
  digits c hc := isDigit_toDigits (List.mem_of_mem_take hc)
  start h := by
    rw [List.head?_take, if_neg hw.ne'] at h
    exact absurd h (head?_toDigits_ne hs)
  fraction ds hds c hc := by
    rw [hdigits ds hds] at hc
    exact isDigit_toDigits (List.mem_of_mem_drop hc)
  exponent part hpart := by
    obtain ⟨layout, m, rfl⟩ := he part hpart
    exact exponentParts_proper layout m

/-- Digits with zeros behind them. -/
theorem exists_numeral_zerosBehind (hs : s ≠ 0) (k : ℕ) :
    ∃ n : Numeral, n.Proper ∧ n.isWhole = false ∧ n.toRat = s * 10 ^ k ∧
      Nat.toDigits 10 s ++ List.replicate k '0' ++ ['.', '0'] = n.text := by
  refine ⟨⟨Nat.toDigits 10 s ++ List.replicate k '0', some ['0'], none⟩,
    ⟨?_, ?_, ?_, ?_, ?_⟩, rfl, ?_, rfl⟩
  · exact List.append_ne_nil_of_left_ne_nil Nat.toDigits_ne_nil _
  · refine List.forall_mem_append.2 ⟨fun c hc => isDigit_toDigits hc, fun c hc => ?_⟩
    rw [List.eq_of_mem_replicate hc]
    decide
  · intro h
    rw [List.head?_append_of_ne_nil _ Nat.toDigits_ne_nil] at h
    exact absurd h (head?_toDigits_ne hs)
  · rintro ds ⟨⟩
    exact List.forall_mem_singleton.2 (by decide)
  · rintro part ⟨⟩
  · have hdigits : Nat.ofDigitChars 10 (Nat.toDigits 10 s ++ List.replicate k '0' ++ ['0']) 0 =
        10 ^ k * s * 10 := by
      rw [Nat.ofDigitChars_append, Nat.ofDigitChars_append, Nat.ofDigitChars_ten_toDigits,
        Nat.ofDigitChars_replicate_zero, mul_comm _ 10]
      rfl
    show (Nat.ofDigitChars 10 (Nat.toDigits 10 s ++ List.replicate k '0' ++ ['0']) 0 : ℚ) *
      10 ^ (0 - (1 : ℕ) : ℤ) = _
    rw [hdigits, Nat.cast_mul, Nat.cast_mul, Nat.cast_pow, Nat.cast_ofNat, Nat.cast_one, zero_sub,
      zpow_neg_one, mul_assoc, mul_inv_cancel₀ (by norm_num), mul_one, mul_comm]

/-- Digits with a point before the last `k` of them. -/
theorem exists_numeral_pointAfter (hs : s ≠ 0) {k : ℕ} (hk : k < (Nat.toDigits 10 s).length) :
    ∃ n : Numeral, n.Proper ∧ n.isWhole = false ∧ n.toRat = s * 10 ^ (-k : ℤ) ∧
      pointAfter ((Nat.toDigits 10 s).length - k) (Nat.toDigits 10 s) = n.text := by
  have hlength : ((Nat.toDigits 10 s).drop ((Nat.toDigits 10 s).length - k)).length = k := by
    rw [List.length_drop]
    omega
  refine ⟨⟨_, some _, none⟩, proper_pointAfter hs (Nat.sub_pos_of_lt hk) (by rintro _ ⟨⟩; rfl)
    (by rintro _ ⟨⟩), rfl, ?_, ?_⟩
  · simp only [Numeral.toRat, Option.getD_some, List.take_append_drop, hlength,
      Nat.ofDigitChars_ten_toDigits, Numeral.exponentValue, zero_sub]
  · simp only [pointAfter, Numeral.text, Numeral.fractionText, Numeral.exponentText,
      List.append_nil]

/-- Digits behind the point, with zeros before them. -/
theorem exists_numeral_zerosBefore {k : ℕ} (hk : (Nat.toDigits 10 s).length ≤ k) :
    ∃ n : Numeral, n.Proper ∧ n.isWhole = false ∧ n.toRat = s * 10 ^ (-k : ℤ) ∧
      '0' :: '.' :: List.replicate (k - (Nat.toDigits 10 s).length) '0' ++ Nat.toDigits 10 s =
        n.text := by
  refine ⟨⟨['0'], some (List.replicate (k - (Nat.toDigits 10 s).length) '0' ++ Nat.toDigits 10 s),
    none⟩, ⟨List.cons_ne_nil _ _, ?_, fun _ => rfl, ?_, ?_⟩, rfl, ?_, ?_⟩
  · exact List.forall_mem_singleton.2 (by decide)
  · rintro ds ⟨⟩
    refine List.forall_mem_append.2 ⟨fun c hc => ?_, fun c hc => isDigit_toDigits hc⟩
    rw [List.eq_of_mem_replicate hc]
    decide
  · rintro part ⟨⟩
  · have hlength : (List.replicate (k - (Nat.toDigits 10 s).length) '0' ++
        Nat.toDigits 10 s).length = k := by
      rw [List.length_append, List.length_replicate]
      omega
    have hdigits : Nat.ofDigitChars 10 (['0'] ++ (List.replicate
        (k - (Nat.toDigits 10 s).length) '0' ++ Nat.toDigits 10 s)) 0 = s := by
      rw [Nat.ofDigitChars_append, Nat.ofDigitChars_append]
      show Nat.ofDigitChars 10 _ (Nat.ofDigitChars 10 _ 0) = s
      rw [Nat.ofDigitChars_replicate_zero, mul_zero, Nat.ofDigitChars_ten_toDigits]
    simp only [Numeral.toRat, Option.getD_some, hlength, hdigits, Numeral.exponentValue, zero_sub]
  · simp only [Numeral.text, Numeral.fractionText, Numeral.exponentText, List.append_nil]
    rfl

theorem exists_numeral_positional (hs : s ≠ 0) (e : ℤ) :
    ∃ n : Numeral, n.Proper ∧ n.isWhole = false ∧ n.toRat = s * 10 ^ e ∧
      positional (Nat.toDigits 10 s) e = n.text := by
  unfold positional
  dsimp only
  split_ifs with he hfraction
  · obtain ⟨n, hn, hwhole, hvalue, htext⟩ := exists_numeral_zerosBehind hs e.toNat
    refine ⟨n, hn, hwhole, ?_, htext⟩
    rw [hvalue, ← zpow_natCast, Int.toNat_of_nonneg he]
  · obtain ⟨n, hn, hwhole, hvalue, htext⟩ := exists_numeral_pointAfter hs hfraction
    refine ⟨n, hn, hwhole, ?_, htext⟩
    rw [hvalue, Int.toNat_of_nonneg (by omega), neg_neg]
  · obtain ⟨n, hn, hwhole, hvalue, htext⟩ := exists_numeral_zerosBefore (Nat.not_lt.1 hfraction)
    refine ⟨n, hn, hwhole, ?_, htext⟩
    rw [hvalue, Int.toNat_of_nonneg (by omega), neg_neg]

theorem exists_numeral_scientific (layout : Layout) (hs : s ≠ 0) (e : ℤ) :
    ∃ n : Numeral, n.Proper ∧ n.isWhole = false ∧ n.toRat = s * 10 ^ e ∧
      scientific layout (Nat.toDigits 10 s) ((Nat.toDigits 10 s).length - 1 + e) = n.text := by
  generalize hm : ((Nat.toDigits 10 s).length : ℤ) - 1 + e = m
  have hpart : ∀ part ∈ some (exponentParts layout m),
      ∃ layout m, part = exponentParts layout m := by
    rintro _ ⟨⟩
    exact ⟨layout, m, rfl⟩
  have hpositive : 0 < (Nat.toDigits 10 s).length := Nat.length_toDigits_pos
  have htext : scientific layout (Nat.toDigits 10 s) m =
      (if (Nat.toDigits 10 s).length ≤ 1 then Nat.toDigits 10 s
        else pointAfter 1 (Nat.toDigits 10 s)) ++
        Numeral.exponentText (some (exponentParts layout m)) := by
    simp only [scientific, exponentParts, Numeral.exponentText, List.append_assoc,
      List.cons_append]
  rw [htext]
  split_ifs with hlength
  · have htake : (Nat.toDigits 10 s).take 1 = Nat.toDigits 10 s := List.take_of_length_le hlength
    refine ⟨⟨_, none, some _⟩, proper_pointAfter hs one_pos (by rintro _ ⟨⟩) hpart, rfl, ?_, ?_⟩
    · simp only [Numeral.toRat, htake, Option.getD_none, List.append_nil, List.length_nil,
        Nat.ofDigitChars_ten_toDigits, exponentValue_exponentParts]
      congr 2
      omega
    · simp only [Numeral.text, htake, Numeral.fractionText, List.nil_append]
  · refine ⟨⟨_, some _, some _⟩, proper_pointAfter hs one_pos (by rintro _ ⟨⟩; rfl) hpart, rfl,
      ?_, ?_⟩
    · simp only [Numeral.toRat, Option.getD_some, List.take_append_drop, List.length_drop,
        Nat.ofDigitChars_ten_toDigits, exponentValue_exponentParts]
      congr 2
      omega
    · simp only [Numeral.text, pointAfter, Numeral.fractionText, List.append_assoc,
        List.cons_append]

end

/-- A decimal other than zero is laid out as a literal with the same value. -/
theorem exists_numeral (layout : Layout) {d : Decimal} (h : d.significand ≠ 0) :
    ∃ n : Numeral, n.Proper ∧ n.isWhole = false ∧ n.toRat = d.toRat ∧ d.chars layout = n.text := by
  unfold chars
  dsimp only
  split
  · exact exists_numeral_positional h d.exponent
  · exact exists_numeral_scientific layout h d.exponent

end Decimal

/-! ## Numbers -/

namespace Number

open Script

/-- Whether a number has a minus sign. -/
def isNegative : Number → Bool
  | .int n => n < 0
  | .float x => x.toBits.toNat / 2 ^ 63 % 2 = 1

/-- The sign of a number. -/
def minus (n : Number) : List Char :=
  if n.isNegative then ['-'] else []

/-- Whether a number is whole, as a configuration distinguishes it. -/
def isInt : Number → Bool
  | .int _ => true
  | .float _ => false

/-- The number that is written behind the sign. -/
def size : Number → ℚ
  | .int n => n.natAbs
  | .float x => if x == 0.0 then 0 else (Decimal.ofFloat x).toRat

theorem exists_numeral_int (n : ℤ) :
    ∃ numeral : Numeral, numeral.Proper ∧ numeral.isWhole = true ∧ numeral.toRat = size (.int n) ∧
      chars (.int n) = minus (.int n) ++ numeral.text := by
  refine ⟨⟨Nat.toDigits 10 n.natAbs, none, none⟩, ⟨Nat.toDigits_ne_nil,
    fun c hc => Decimal.isDigit_toDigits hc, fun hzero => ?_, ?_, ?_⟩, rfl, ?_, ?_⟩
  · by_cases hn : n.natAbs = 0
    · show Nat.toDigits 10 n.natAbs = ['0']
      rw [hn]
      rfl
    · exact absurd hzero (Decimal.head?_toDigits_ne hn)
  · rintro ds ⟨⟩
  · rintro part ⟨⟩
  · simp only [Numeral.toRat, Numeral.exponentValue, Option.getD_none, List.append_nil,
      List.length_nil, Nat.ofDigitChars_ten_toDigits, Nat.cast_zero, sub_zero, zpow_zero, mul_one,
      size]
  · simp only [chars, intChars, minus, isNegative, Numeral.text, Numeral.fractionText,
      Numeral.exponentText, List.append_nil, decide_eq_true_eq]
    split <;> rfl

theorem chars_float (x : Float) :
    chars (.float x) = minus (.float x) ++
      if x == 0.0 then ['0', '.', '0'] else (Decimal.ofFloat x).chars layout := by
  have hminus : (if x.toBits.toNat / Nat.pow 2 63 % 2 = 1 then ['-'] else []) =
      minus (.float x) := by
    simp only [minus, isNegative, decide_eq_true_eq]
    rfl
  rw [chars, floatChars, hminus]
  split <;> rfl

theorem exists_numeral_zero {x : Float} (hx : (x == 0.0) = true) :
    ∃ numeral : Numeral, numeral.Proper ∧ numeral.isWhole = false ∧
      numeral.toRat = size (.float x) ∧ chars (.float x) = minus (.float x) ++ numeral.text := by
  refine ⟨⟨['0'], some ['0'], none⟩, ⟨List.cons_ne_nil _ _, ?_, fun _ => rfl, ?_, ?_⟩, rfl, ?_, ?_⟩
  · exact List.forall_mem_singleton.2 (by decide)
  · rintro ds ⟨⟩
    exact List.forall_mem_singleton.2 (by decide)
  · rintro part ⟨⟩
  · have hdigits : Nat.ofDigitChars 10 ['0', '0'] 0 = 0 := rfl
    show (Nat.ofDigitChars 10 ['0', '0'] 0 : ℚ) * _ = _
    rw [hdigits, Nat.cast_zero, zero_mul, size, if_pos hx]
  · rw [chars_float, if_pos hx]
    rfl

theorem exists_numeral_ne_zero {x : Float} (hx : ¬ (x == 0.0) = true) :
    ∃ numeral : Numeral, numeral.Proper ∧ numeral.isWhole = false ∧
      numeral.toRat = size (.float x) ∧ chars (.float x) = minus (.float x) ++ numeral.text := by
  have hpositive := Decimal.toRat_pos (mt (Decimal.beq_zero_iff x).2 hx)
  have hsignificand : (Decimal.ofFloat x).significand ≠ 0 := by
    intro hzero
    rw [Decimal.toRat, hzero, Nat.cast_zero, zero_mul] at hpositive
    exact lt_irrefl _ hpositive
  obtain ⟨numeral, hproper, hwhole, hvalue, htext⟩ := Decimal.exists_numeral layout hsignificand
  refine ⟨numeral, hproper, hwhole, ?_, ?_⟩
  · rw [hvalue, size, if_neg hx]
  · rw [chars_float, if_neg hx, htext]

/-- A number is written as a literal behind its sign. -/
theorem exists_numeral (n : Number) :
    ∃ numeral : Numeral, numeral.Proper ∧ numeral.isWhole = n.isInt ∧ numeral.toRat = n.size ∧
      n.chars = n.minus ++ numeral.text := by
  cases n with
  | int n => exact exists_numeral_int n
  | float x =>
    by_cases hx : (x == 0.0) = true
    · exact exists_numeral_zero hx
    · exact exists_numeral_ne_zero hx

/-- A number is given by its kind, its sign and its size. -/
theorem eq_of_size_eq {m n : Number} (hint : m.isInt = n.isInt)
    (hnegative : m.isNegative = n.isNegative) (hsize : m.size = n.size) : m = n := by
  cases m with
  | int a =>
    cases n with
    | int b =>
      have habs : a.natAbs = b.natAbs := Nat.cast_injective hsize
      simp only [isNegative, decide_eq_decide] at hnegative
      congr 1
      omega
    | float y => cases hint
  | float x =>
    cases n with
    | int b => cases hint
    | float y =>
      have hplace : Decimal.place x = Decimal.place y := by
        simp only [size] at hsize
        split_ifs at hsize with hx hy hy
        · rw [(Decimal.beq_zero_iff x).1 hx, (Decimal.beq_zero_iff y).1 hy]
        · have hpositive := Decimal.toRat_pos (mt (Decimal.beq_zero_iff y).2 hy)
          exact absurd hsize hpositive.ne
        · have hpositive := Decimal.toRat_pos (mt (Decimal.beq_zero_iff x).2 hx)
          exact absurd hsize hpositive.ne'
        · exact Decimal.place_eq_of_toRat_eq (mt (Decimal.beq_zero_iff x).2 hx)
            (mt (Decimal.beq_zero_iff y).2 hy) hsize
      simp only [isNegative, decide_eq_decide] at hnegative
      have hx := x.toBits.toNat_lt
      have hy := y.toBits.toNat_lt
      simp only [Decimal.place] at hplace
      rw [← Float.toBits_inj.1 (UInt64.toNat_inj.1 (by omega : x.toBits.toNat = y.toBits.toNat))]

/-- A literal starts with a digit, so the sign before it can be told from it. -/
theorem minus_append_inj {m n : Number} {k l : Numeral} (hk : k.Proper) (hl : l.Proper)
    (h : m.minus ++ k.text = n.minus ++ l.text) :
    m.isNegative = n.isNegative ∧ k.text = l.text := by
  have hstart {k : Numeral} (hk : k.Proper) {rest : List Char} : k.text ≠ '-' :: rest := by
    intro heq
    obtain ⟨c, ds, hwhole⟩ := List.exists_cons_of_ne_nil hk.nonempty
    have hc : c.isDigit = true := hk.digits c (hwhole ▸ List.mem_cons_self)
    rw [Numeral.text, hwhole, List.cons_append] at heq
    cases heq
    exact absurd hc (by decide)
  unfold minus at h
  cases hm : m.isNegative <;> cases hn : n.isNegative <;> rw [hm, hn] at h
  · exact ⟨rfl, h⟩
  · exact absurd h (hstart hk)
  · exact absurd h.symm (hstart hl)
  · exact ⟨rfl, List.cons.inj h |>.2⟩

/-- Different numbers have different texts. -/
theorem chars_injective {m n : Number} (h : m.chars = n.chars) : m = n := by
  obtain ⟨k, hk, hkwhole, hksize, hktext⟩ := m.exists_numeral
  obtain ⟨l, hl, hlwhole, hlsize, hltext⟩ := n.exists_numeral
  rw [hktext, hltext] at h
  obtain ⟨hnegative, htext⟩ := minus_append_inj hk hl h
  obtain rfl := hk.eq_of_text_eq hl htext
  exact eq_of_size_eq (hkwhole.symm.trans hlwhole) hnegative (hksize.symm.trans hlsize)

/-- The characters of a number. -/
theorem mem_chars {n : Number} {c : Char} (hc : c ∈ n.chars) :
    c.isDigit = true ∨ c ∈ ['-', '.', 'e', '+'] := by
  obtain ⟨k, hk, -, -, htext⟩ := n.exists_numeral
  rw [htext, List.mem_append] at hc
  rcases hc with hc | hc
  · unfold minus at hc
    split at hc
    · exact .inr (List.mem_singleton.1 hc ▸ List.mem_cons_self)
    · cases hc
  · exact hk.mem_text hc

theorem text_injective {m n : Number} (h : m.text = n.text) : m = n :=
  chars_injective (String.ofList_injective h)

end Number

end SceneScript
