import Mathlib.Data.List.TakeWhile
import SceneScript.Proofs.JsonText
import SceneScript.Proofs.Literals

/-!
# The arguments of colors

A color that a scene gives as a text becomes the argument of a constructor call, and no text can
become more than that: it is one token, which depends on the text without the blanks around it
(`Text.Trims`). A hexadecimal literal stands as it is (`Color.IsHex`), and any other text becomes a
string literal with the text as its value.
-/

namespace SceneScript

namespace Text

/-- A text without the blanks around it. -/
structure Trims (s t : String) : Prop where
  around : ∃ before after : List Char, s.toList = before ++ t.toList ++ after ∧
    (∀ c ∈ before, isBlank c = true) ∧ ∀ c ∈ after, isBlank c = true
  first : ∀ c, t.toList.head? = some c → isBlank c = false
  last : ∀ c, t.toList.getLast? = some c → isBlank c = false

theorem trims_trim (s : String) : Trims s (trim s) := by
  have hfront := cutsFront_self isBlank s.toList
  have hback := cutsEnd_self isBlank (s.toList.dropWhile isBlank)
  have htrim : (trim s).toList = ((s.toList.dropWhile isBlank).reverse.dropWhile isBlank).reverse :=
    String.toList_ofList
  refine ⟨⟨_, _, ?_, hfront.holds, hback.holds⟩, fun c hc => ?_, fun c hc => ?_⟩
  · rw [htrim, List.append_assoc, ← hback.eq]
    exact hfront.eq
  · -- the first character is the first one behind the blanks
    refine hfront.fails c ?_
    rw [hback.eq, ← htrim, List.head?_append, hc, Option.some_or]
  · rw [htrim] at hc
    exact hback.fails c hc

/-- There is one such text. -/
theorem Trims.eq_trim {s t : String} (h : Trims s t) : t = trim s := by
  obtain ⟨⟨before, after, heq, hbefore, hafter⟩, hfirst, hlast⟩ := h
  have hback : CutsEnd isBlank (t.toList ++ after) t.toList after := ⟨rfl, hafter, hlast⟩
  have hchars : trimChars s.toList = t.toList := by
    cases ht : t.toList with
    | nil =>
      have hblank : ∀ c ∈ s.toList, isBlank c = true := by
        rw [heq, ht, List.append_nil]
        exact List.forall_mem_append.2 ⟨hbefore, hafter⟩
      rw [trimChars, List.dropWhile_eq_nil_iff.2 hblank]
      rfl
    | cons c cs =>
      have hfront : CutsFront isBlank s.toList before (t.toList ++ after) := by
        refine ⟨by rw [heq, List.append_assoc], hbefore, fun d hd => hfirst d ?_⟩
        rw [ht] at hd ⊢
        exact hd
      rw [trimChars, hfront.unique.2, trimEndChars, hback.unique.1, ht]
  rw [trim, hchars, String.ofList_toList]

end Text

namespace Color

/-! ## Hexadecimal literals -/

/-- `0x` or `0X` and exactly six hexadecimal digits. -/
def IsHex (cs : List Char) : Prop :=
  ∃ x digits, cs = '0' :: x :: digits ∧ (x = 'x' ∨ x = 'X') ∧ digits.length = 6 ∧
    digits ⊆ "0123456789abcdefABCDEF".toList

theorem isHexDigit_iff {c : Char} :
    isHexDigit c = true ↔ c ∈ "0123456789abcdefABCDEF".toList := by
  constructor
  · intro h
    have hbound : c.toNat < 103 := by
      have hval : c.toNat = c.val.toNat := rfl
      simp [isHexDigit, Char.isDigit, Char.le_def, UInt32.le_iff_toNat_le] at h
      omega
    have hall : ∀ n < 103, isHexDigit (Char.ofNat n) = true →
        Char.ofNat n ∈ "0123456789abcdefABCDEF".toList := by decide +kernel
    have hc := hall c.toNat hbound
    rw [Char.ofNat_toNat] at hc
    exact hc h
  · have hall : "0123456789abcdefABCDEF".toList.all isHexDigit = true := by decide +kernel
    exact List.all_eq_true.1 hall c

theorem isHexLiteral_iff {cs : List Char} : isHexLiteral cs = true ↔ IsHex cs := by
  constructor
  · intro h
    unfold isHexLiteral at h
    split at h
    · rename_i x digits
      simp only [Bool.and_eq_true, Bool.or_eq_true, decide_eq_true_eq, beq_iff_eq,
        List.all_eq_true] at h
      exact ⟨x, digits, rfl, h.1.1, h.1.2, fun d hd => isHexDigit_iff.1 (h.2 d hd)⟩
    · cases h
  · rintro ⟨x, digits, rfl, hx, hlength, hdigits⟩
    have hall : digits.all isHexDigit = true :=
      List.all_eq_true.2 fun d hd => isHexDigit_iff.2 (hdigits hd)
    simp [isHexLiteral, hx, hlength, hall]

/-- A hexadecimal digit has a value, and may stand in a word. -/
theorem isHexDigit_facts {c : Char} (h : isHexDigit c = true) :
    Text.isWordChar c = true ∧ (Text.hexValue? c).isSome = true := by
  have hall : "0123456789abcdefABCDEF".toList.all (fun c =>
      Text.isWordChar c && (Text.hexValue? c).isSome) = true := by decide +kernel
  exact (Bool.and_eq_true _ _).mp (List.all_eq_true.1 hall c (isHexDigit_iff.1 h))

/-- A hexadecimal literal is one token. -/
theorem IsHex.token? {cs rest : List Char} (h : IsHex cs) (hrest : Script.endsWord rest = true) :
    Script.token? (cs ++ rest) = some (.number cs, rest) := by
  obtain ⟨x, digits, rfl, hx, hlength, hdigits⟩ := h
  have hfacts : ∀ d ∈ digits, Text.isWordChar d = true ∧ (Text.hexValue? d).isSome = true :=
    fun d hd => isHexDigit_facts (isHexDigit_iff.2 (hdigits hd))
  have hword : ∀ d ∈ '0' :: x :: digits, Text.isWordChar d = true := by
    refine List.forall_mem_cons.2
      ⟨by decide, List.forall_mem_cons.2 ⟨?_, fun d hd => (hfacts d hd).1⟩⟩
    rcases hx with rfl | rfl <;> decide
  have hnumber : Script.isHexNumber ('0' :: x :: digits) = true := by
    have hne : digits.isEmpty = false := by
      cases digits with
      | nil => cases hlength
      | cons => rfl
    have hall : (digits.all fun c => (Text.hexValue? c).isSome) = true :=
      List.all_eq_true.2 fun d hd => (hfacts d hd).2
    simp [Script.isHexNumber, hx, hne, hall]
  rw [Script.token?_run hword hrest, hnumber]
  rfl

/-! ## Colors of texts -/

/-- The token that a text becomes. -/
def tokenOf (t : String) : Script.Token :=
  if isHexLiteral t.toList then .number t.toList else .text t.toList

theorem token?_ofText (s : String) {rest : List Char} (hrest : Script.endsWord rest = true) :
    Script.token? ((ofText s).arguments.toList ++ rest) = some (tokenOf (Text.trim s), rest) := by
  unfold ofText tokenOf
  dsimp only
  split
  · rename_i hhex
    exact (isHexLiteral_iff.1 hhex).token? hrest
  · exact Script.token?_quote _ rest

/-- The tokens of a constructor call with one argument. -/
def callTokens (argument : Script.Token) : List Script.Token :=
  [.word ['n', 'e', 'w'], .word ['T', 'H', 'R', 'E', 'E'], .mark '.',
    .word ['C', 'o', 'l', 'o', 'r'], .mark '(', argument, .mark ')']

/-- A call has the tokens of its argument and no others. -/
theorem tokens?_text {c : Color} {argument : Script.Token}
    (h : ∀ rest, Script.endsWord rest = true →
      Script.token? (c.arguments.toList ++ rest) = some (argument, rest)) (rest : List Char) :
    Script.tokens? 7 (c.text.toList ++ rest) = some (callTokens argument, rest) := by
  have htext : c.text.toList ++ rest =
      "new THREE.Color(".toList ++ (c.arguments.toList ++ ')' :: rest) := by
    show ("new THREE.Color(" ++ c.arguments ++ ")").toList ++ rest = _
    rw [String.toList_append, String.toList_append, List.append_assoc, List.append_assoc]
    rfl
  have hstart (more : List Char) : "new THREE.Color(".toList ++ more =
      'n' :: 'e' :: 'w' :: ' ' :: 'T' :: 'H' :: 'R' :: 'E' :: 'E' :: '.' :: 'C' :: 'o' :: 'l' ::
        'o' :: 'r' :: '(' :: more := rfl
  rw [htext, hstart]
  refine Script.tokens?_succ rfl ?_
  refine Script.tokens?_succ rfl ?_
  refine Script.tokens?_succ rfl ?_
  refine Script.tokens?_succ rfl ?_
  refine Script.tokens?_succ rfl ?_
  refine Script.tokens?_succ (h (')' :: rest) rfl) ?_
  exact Script.tokens?_succ rfl rfl

/-- Exactly the lists of three, the texts and the numbers are colors. -/
theorem ofValue_isOk_iff (v : Value) :
    (∃ c, ofValue v = .ok c) ↔
      (∃ items, v = .list items ∧ items.length = 3) ∨ (∃ s, v = .string s) ∨
        ∃ n, v = .number n := by
  constructor
  · rintro ⟨c, h⟩
    unfold ofValue at h
    split at h
    · exact .inl ⟨_, rfl, rfl⟩
    · cases h
    · exact .inr (.inl ⟨_, rfl⟩)
    · exact .inr (.inr ⟨_, rfl⟩)
    · cases h
  · rintro (⟨items, rfl, hlength⟩ | ⟨s, rfl⟩ | ⟨n, rfl⟩)
    · obtain ⟨r, g, b, rfl⟩ := List.length_eq_three.1 hlength
      exact ⟨_, rfl⟩
    · exact ⟨_, rfl⟩
    · exact ⟨_, rfl⟩

/-- What is no color is reported with the value itself. -/
theorem ofValue_error {v : Value} {e : Error} (h : ofValue v = .error e) :
    ∃ fault, e = .invalidColor v fault := by
  unfold ofValue at h
  split at h
  · cases h
  · cases h
    exact ⟨_, rfl⟩
  · cases h
  · cases h
  · cases h
    exact ⟨_, rfl⟩

/-- A color is a list of three, a text or a number, and nothing else can be written for a text than
the one token that it means.

* Every other value is refused by an error that quotes it: the JSON text in its message is read back
  as this value, in a program with the numbers as they are printed, and by the reader of JSON if the
  numbers are read back and no key is repeated.
* A text gives the same color as any other that differs from it only in the blanks around it. As the
  argument of the constructor, a hexadecimal literal stands as it is, and any other text becomes a
  literal whose value is the text without those blanks. Either is one token, before anything that
  does not go on with a name.
* So the constructor call, whatever follows it, has seven tokens, of which the text gives one. -/
theorem colors_are_arguments :
    (∀ v, (∃ c, ofValue v = .ok c) ↔
      (∃ items, v = .list items ∧ items.length = 3) ∨ (∃ s, v = .string s) ∨ ∃ n, v = .number n) ∧
    (∀ v e, ofValue v = .error e → ∃ fault, e = .invalidColor v fault ∧
      e.message = "invalid color " ++ Json.compact v ++ ": " ++ fault.message ∧
      (∀ a, Script.data? a (Json.compact v).toList = some v.outline) ∧
      (v.Readable → ∀ limit, v.height ≤ limit →
        Json.readNested limit (Json.compact v) = .ok v)) ∧
    ∀ s, ∃ t c token, Text.Trims s t ∧
      (∀ s', Text.Trims s' t → ofValue (.string s') = .ok c) ∧
      (IsHex t.toList → c.arguments = t ∧ token = .number t.toList) ∧
      (¬ IsHex t.toList → token = .text t.toList ∧
        ∀ rest, Script.literal? (c.arguments.toList ++ rest) = some (t.toList, rest)) ∧
      (∀ rest, Script.endsWord rest = true →
        Script.token? (c.arguments.toList ++ rest) = some (token, rest)) ∧
      ∀ rest, Script.tokens? 7 (c.text.toList ++ rest) =
        some ([.word "new".toList, .word "THREE".toList, .mark '.', .word "Color".toList,
          .mark '(', token, .mark ')'], rest) := by
  refine ⟨ofValue_isOk_iff, fun v e h => ?_, fun s => ?_⟩
  · obtain ⟨fault, rfl⟩ := ofValue_error h
    exact ⟨fault, rfl, rfl, fun a => Json.data?_compact a v,
      fun hreadable _ => Json.readNested_compact hreadable⟩
  · have htoken (rest : List Char) (hrest : Script.endsWord rest = true) := token?_ofText s hrest
    refine ⟨Text.trim s, ofText s, tokenOf (Text.trim s), Text.trims_trim s, fun s' hs' => ?_,
      fun hhex => ?_, fun hhex => ?_, htoken, tokens?_text htoken⟩
    · rw [ofValue, ofText, ofText, hs'.eq_trim]
    · have hliteral := isHexLiteral_iff.2 hhex
      exact ⟨by rw [ofText, if_pos hliteral]; rfl, if_pos hliteral⟩
    · have hliteral := mt isHexLiteral_iff.1 hhex
      refine ⟨if_neg hliteral, fun rest => ?_⟩
      rw [ofText, if_neg hliteral]
      exact Script.literal?_quote _ rest

/-- A mapping is no color, and it is read back from the message. -/
theorem colors_are_arguments_mapping :
    let v : Value :=
      .mapping [("r", .number (.int 255)), ("note", .list [.string "a \"b\"", .null])]
    let text := "\x7b\"r\":255,\"note\":[\"a \\\"b\\\"\",null]\x7d"
    (∃ e, ofValue v = .error e ∧ e.message = "invalid color " ++ text ++
      ": expected an RGB triple, a 0xRRGGBB literal or a color name") ∧
      Json.read text = .ok v := by
  intro v text
  obtain ⟨-, hrefused, -⟩ := colors_are_arguments
  have htext : Json.compact v = text := by decide +kernel
  obtain ⟨fault, he, hmessage, -, hread⟩ := hrefused v (.invalidColor v .kind) rfl
  cases he
  rw [htext] at hmessage hread
  have hreadable : v.Readable :=
    ⟨by decide, Json.readNumber_int (by decide) (by decide), ⟨trivial, trivial, trivial⟩, trivial⟩
  exact ⟨⟨_, rfl, hmessage⟩, hread hreadable Json.depthLimit (by decide +kernel)⟩

end Color

end SceneScript
