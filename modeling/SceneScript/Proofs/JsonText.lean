import SceneScript.Json
import SceneScript.Json.Reader
import SceneScript.Proofs.Numerals

/-!
# Reading what was written as JSON

A value is read back from its indented text (`read_pretty`) and from its text without blanks
(`readNested_compact`), provided that no mapping repeats a key and that its numbers are read back
from theirs (`Value.Readable`), as whole numbers of 64 bits are (`readNumber_int`).

A text is cut into its tokens piece by piece (`Tokenizes`, and `TokenizesApart` for a piece that may
end in a word). A quoted text is read back character by character (`unquoteBody_quote`), and the
machine that reads the tokens of a value ends with this value wherever it starts (`runs_value`).
-/

namespace SceneScript

/-! ## Quoted texts -/

namespace Text

theorem hexValue?_hexDigit : ∀ n < 16, hexValue? (hexDigit n) = some n := by
  decide

/-- A control character is written with two digits that give its number back. -/
theorem hexQuad?_of_lt {n : Nat} (h : n < 32) :
    hexQuad? '0' '0' (hexDigit (n / 16)) (hexDigit (n % 16)) = some n := by
  have hhigh := hexValue?_hexDigit (n / 16) (by omega)
  have hlow := hexValue?_hexDigit (n % 16) (by omega)
  have hzero : hexValue? '0' = some 0 := by decide
  have hsum : (0 * 16 + 0) * 16 + n / 16 = n / 16 := by omega
  simp only [hexQuad?, hzero, hhigh, hlow, bind, Option.bind, pure, hsum]
  congr 1
  omega

/-- A character is escaped by a letter or by its number, or stands for itself. -/
theorem quoteChar_cases (c : Char) :
    (∃ e, e ≠ 'u' ∧ shortEscape? e = some c ∧ quoteChar c = ['\\', e]) ∨
      (c.toNat < 32 ∧ quoteChar c =
        ['\\', 'u', '0', '0', hexDigit (c.toNat / 16), hexDigit (c.toNat % 16)]) ∨
      (c ≠ '"' ∧ c ≠ '\\' ∧ 32 ≤ c.toNat ∧ quoteChar c = [c]) := by
  unfold quoteChar
  split_ifs with hquote hbackslash hback htab hline hpage hreturn hcontrol
  · exact .inl ⟨'"', by decide, by rw [hquote]; rfl, rfl⟩
  · exact .inl ⟨'\\', by decide, by rw [hbackslash]; rfl, rfl⟩
  · exact .inl ⟨'b', by decide, by rw [hback]; rfl, rfl⟩
  · exact .inl ⟨'t', by decide, by rw [htab]; rfl, rfl⟩
  · exact .inl ⟨'n', by decide, by rw [hline]; rfl, rfl⟩
  · exact .inl ⟨'f', by decide, by rw [hpage]; rfl, rfl⟩
  · exact .inl ⟨'r', by decide, by rw [hreturn]; rfl, rfl⟩
  · exact .inr (.inl ⟨hcontrol, rfl⟩)
  · exact .inr (.inr ⟨hquote, hbackslash, Nat.not_lt.1 hcontrol, rfl⟩)

theorem unquoteBody_quoteChar (c : Char) (rest : List Char) :
    unquoteBody (quoteChar c ++ rest) =
      (unquoteBody rest).map fun result => (c :: result.1, result.2) := by
  rcases quoteChar_cases c with
    ⟨e, hu, hescape, hc⟩ | ⟨hcontrol, hc⟩ | ⟨hquote, hbackslash, hplain, hc⟩
  · rw [hc]
    show unquoteBody ('\\' :: e :: rest) = _
    rw [unquoteBody.eq_def]
    simp [hu, hescape]
  · have hquad := hexQuad?_of_lt hcontrol
    have hhigh : isHighSurrogate c.toNat = false := by
      simp [isHighSurrogate]
      omega
    have hlow : isLowSurrogate c.toNat = false := by
      simp [isLowSurrogate]
      omega
    rw [hc]
    simp only [List.cons_append, List.nil_append]
    rw [unquoteBody]
    simp only [hquad, hhigh, hlow, Char.ofNat_toNat, Bool.false_eq_true, ↓reduceIte]
  · rw [hc]
    show unquoteBody (c :: rest) = _
    have hnot : ¬ c.toNat < 32 := Nat.not_lt.2 hplain
    rw [unquoteBody.eq_def]
    simp [hbackslash, hnot]

/-- A quoted text is read back up to its closing quote. -/
theorem unquoteBody_quote (cs rest : List Char) :
    unquoteBody (cs.flatMap quoteChar ++ '"' :: rest) = some (cs, rest) := by
  induction cs with
  | nil => rfl
  | cons c cs ih =>
    rw [List.flatMap_cons, List.append_assoc, unquoteBody_quoteChar, ih]
    rfl

theorem quote_append (s : String) (rest : List Char) :
    (quote s).toList ++ rest = '"' :: (s.toList.flatMap quoteChar ++ '"' :: rest) := by
  simp [quote, quoteChars]

end Text

namespace Json

/-! ## Tokens -/

/-- Characters give tokens, whatever follows them. -/
def Tokenizes (cs : List Char) (ts : List Token) : Prop :=
  ∀ rest, tokens (cs ++ rest) = (tokens rest).map (ts ++ ·)

/-- Whether no word goes on at the start of a text. -/
def endsWord (rest : List Char) : Bool :=
  rest.head?.all fun c => !isWordChar c

/-- Characters give tokens where no word goes on behind them. -/
def TokenizesApart (cs : List Char) (ts : List Token) : Prop :=
  ∀ rest, endsWord rest = true → tokens (cs ++ rest) = (tokens rest).map (ts ++ ·)

section

variable {cs ds rest : List Char} {ts us : List Token}

theorem tokens_append (hcs : tokens (cs ++ (ds ++ rest)) = (tokens (ds ++ rest)).map (ts ++ ·))
    (hds : tokens (ds ++ rest) = (tokens rest).map (us ++ ·)) :
    tokens (cs ++ ds ++ rest) = (tokens rest).map (ts ++ us ++ ·) := by
  rw [List.append_assoc, hcs, hds]
  cases tokens rest with
  | error defect => rfl
  | ok more => simp [Except.map]

theorem Tokenizes.append (hcs : Tokenizes cs ts) (hds : Tokenizes ds us) :
    Tokenizes (cs ++ ds) (ts ++ us) :=
  fun rest => tokens_append (hcs _) (hds rest)

theorem Tokenizes.append_apart (hcs : Tokenizes cs ts) (hds : TokenizesApart ds us) :
    TokenizesApart (cs ++ ds) (ts ++ us) :=
  fun rest hrest => tokens_append (hcs _) (hds rest hrest)

/-- A mark or a blank ends the word before it. -/
theorem TokenizesApart.append {c : Char} (hcs : TokenizesApart cs ts)
    (hds : Tokenizes (c :: ds) us) (hc : isWordChar c = false) :
    Tokenizes (cs ++ c :: ds) (ts ++ us) := by
  intro rest
  refine tokens_append (hcs _ ?_) (hds rest)
  simp [endsWord, hc]

theorem Tokenizes.apart (h : Tokenizes cs ts) : TokenizesApart cs ts :=
  fun rest _ => h rest

end

/-- The characters of words are no blanks, no quotes and no marks. -/
theorem word_start {c : Char} (h : isWordChar c = true) :
    isSpace c = false ∧ c ≠ '"' ∧ punctuation? c = none := by
  have hne {d : Char} (hd : isWordChar d = false) : c ≠ d := by
    rintro rfl
    rw [h] at hd
    cases hd
  have hspace : isSpace c = false := by
    simp only [isSpace, Bool.or_eq_false_iff, decide_eq_false_iff_not]
    exact ⟨⟨⟨hne (by decide), hne (by decide)⟩, hne (by decide)⟩, hne (by decide)⟩
  have hmark : punctuation? c = none := by
    unfold punctuation?
    rw [if_neg (hne (by decide)), if_neg (hne (by decide)), if_neg (hne (by decide)),
      if_neg (hne (by decide)), if_neg (hne (by decide)), if_neg (hne (by decide))]
  exact ⟨hspace, hne (by decide), hmark⟩

namespace TokenizesApart

/-- A word is one token. -/
theorem word {cs : List Char} {v : Value} (hne : cs ≠ []) (hcs : ∀ c ∈ cs, isWordChar c = true)
    (hread : readWord cs = .ok v) : TokenizesApart cs [.leaf v] := by
  obtain ⟨c, cs, rfl⟩ := List.exists_cons_of_ne_nil hne
  obtain ⟨hc, hcs⟩ := List.forall_mem_cons.1 hcs
  obtain ⟨hspace, hquote, hmark⟩ := word_start hc
  intro rest hrest
  have hcut : Text.CutsFront isWordChar (cs ++ rest) cs rest := by
    refine ⟨rfl, hcs, fun d hd => ?_⟩
    rw [endsWord, hd] at hrest
    exact Bool.not_eq_true' _ ▸ hrest
  rw [List.cons_append, tokens]
  simp only [hspace, hquote, hmark, hc, hcut.unique.1, hcut.unique.2, hread, Bool.false_eq_true,
    ↓reduceIte]
  cases tokens rest <;> rfl

theorem null : TokenizesApart "null".toList [.leaf .null] :=
  word (by decide) (List.all_eq_true.1 rfl) rfl

theorem bool (b : Bool) :
    TokenizesApart (if b then "true" else "false").toList [.leaf (.bool b)] := by
  cases b
  · exact word (by decide) (List.all_eq_true.1 rfl) rfl
  · exact word (by decide) (List.all_eq_true.1 rfl) rfl

/-- A number that is read back from its text. -/
theorem number {n : Number} (h : readNumber n.chars = .ok n) :
    TokenizesApart n.text.toList [.leaf (.number n)] := by
  have hletter {c : Char} (hc : (c.isDigit || ['-', '.', 'e', '+'].contains c) = false) :
      c ∉ n.chars := by
    intro hmem
    have hchar := n.mem_chars hmem
    simp only [Bool.or_eq_false_iff, List.contains_eq_mem, decide_eq_false_iff_not] at hc
    rcases hchar with hdigit | hsign
    · rw [hc.1] at hdigit
      cases hdigit
    · exact hc.2 hsign
  rw [Number.text, String.toList_ofList]
  refine word ?_ (fun c hc => ?_) ?_
  · intro hnil
    rw [hnil] at h
    cases h
  · rcases n.mem_chars hc with hdigit | hsign
    · rw [isWordChar, Char.isAlphanum, hdigit, Bool.or_true, Bool.true_or, Bool.true_or,
        Bool.true_or]
    · simp only [List.mem_cons, List.not_mem_nil, or_false] at hsign
      rcases hsign with rfl | rfl | rfl | rfl <;> decide
  · have hnull : n.chars ≠ "null".toList := fun heq => hletter (c := 'n') rfl (heq ▸ by decide)
    have htrue : n.chars ≠ "true".toList := fun heq => hletter (c := 't') rfl (heq ▸ by decide)
    have hfalse : n.chars ≠ "false".toList := fun heq => hletter (c := 'f') rfl (heq ▸ by decide)
    rw [readWord, if_neg hnull, if_neg htrue, if_neg hfalse, h]
    rfl

end TokenizesApart

namespace Tokenizes

theorem quote (s : String) : Tokenizes (Text.quote s).toList [.leaf (.string s)] := by
  intro rest
  have hbody := Text.unquoteBody_quote s.toList rest
  have hspace : isSpace '"' = false := by decide
  rw [Text.quote_append, tokens]
  simp only [hspace, Bool.false_eq_true, ↓reduceIte]
  split
  · rename_i hnone
    rw [hbody] at hnone
    cases hnone
  · rename_i text more hsome
    rw [hbody] at hsome
    cases hsome
    rw [String.ofList_toList]
    cases tokens rest <;> rfl

theorem spaces {cs : List Char} (h : ∀ c ∈ cs, isSpace c = true) : Tokenizes cs [] := by
  induction cs with
  | nil =>
    intro rest
    rw [List.nil_append]
    cases tokens rest <;> rfl
  | cons c cs ih =>
    obtain ⟨hc, hcs⟩ := List.forall_mem_cons.1 h
    intro rest
    rw [List.cons_append, tokens]
    simp only [hc, ↓reduceIte]
    exact ih hcs rest

theorem indentation (depth : Nat) : Tokenizes (Json.indentation depth).toList [] := by
  apply spaces
  rw [Json.indentation, String.toList_ofList]
  intro c hc
  rcases List.mem_cons.1 hc with rfl | hc
  · decide
  · rw [List.eq_of_mem_replicate hc]
    decide

theorem punctuation (mark : String) {c : Char} {t : Token} (hmark : mark.toList = [c])
    (hspace : isSpace c = false) (hquote : c ≠ '"') (ht : punctuation? c = some t) :
    Tokenizes mark.toList [t] := by
  intro rest
  rw [hmark]
  show tokens (c :: rest) = _
  rw [tokens]
  simp only [hspace, hquote, ht, Bool.false_eq_true, ↓reduceIte]
  cases tokens rest <;> rfl

/-- Pieces with commas between them, and what stands before and behind them. -/
theorem bracketed {opening closing : List Char} {c : Char} {pieces : List (List Char)}
    {first last : Token} {tss : List (List Token)} (hopening : Tokenizes opening [first])
    (hclosing : Tokenizes (c :: closing) [last]) (hc : isWordChar c = false)
    (h : List.Forall₂ TokenizesApart pieces tss) :
    Tokenizes (opening ++ List.intercalate [','] pieces ++ c :: closing)
      ([first] ++ List.intercalate [.comma] tss ++ [last]) := by
  have hinside : TokenizesApart (List.intercalate [','] pieces)
      (List.intercalate [.comma] tss) := by
    induction h with
    | nil => exact (spaces (List.forall_mem_nil _)).apart
    | @cons piece ts pieces tss hpiece hrest ih =>
      cases hrest with
      | nil =>
        rw [List.intercalate_singleton, List.intercalate_singleton]
        exact hpiece
      | cons _ _ =>
        rw [List.intercalate_cons_cons, List.intercalate_cons_cons]
        have hcomma : Tokenizes [','] [.comma] := punctuation "," rfl (by decide) (by decide) rfl
        exact (hpiece.append hcomma (by decide)).append_apart ih
  exact (hopening.append_apart hinside).append hclosing hc

/-- Texts between two brackets, on lines of their own. -/
theorem block {opening closing : String} {texts : List String} {first last : Token}
    {tss : List (List Token)} (hopening : Tokenizes opening.toList [first])
    (hclosing : Tokenizes closing.toList [last]) (depth : Nat)
    (h : List.Forall₂ (fun text ts => TokenizesApart text.toList ts) texts tss) :
    Tokenizes (Json.block opening closing depth texts).toList
      ([first] ++ List.intercalate [.comma] tss ++ [last]) := by
  unfold Json.block
  split
  · rename_i hempty
    obtain rfl := List.isEmpty_iff.1 hempty
    cases h
    rw [String.toList_append]
    exact hopening.append hclosing
  · have hpieces : List.Forall₂ TokenizesApart
        ((texts.map (Json.indentation (depth + 1) ++ ·)).map String.toList) tss := by
      rw [List.map_map, List.forall₂_map_left_iff]
      refine h.imp fun text ts htext => ?_
      rw [Function.comp_apply, String.toList_append]
      exact (indentation (depth + 1)).append_apart htext
    have hline : (Json.indentation depth).toList = '\n' :: List.replicate (2 * depth) ' ' :=
      String.toList_ofList
    have hend := (indentation depth).append hclosing
    rw [hline, List.cons_append] at hend
    rw [String.toList_append, String.toList_append, String.toList_append,
      String.toList_intercalate, List.append_assoc, hline, List.cons_append]
    exact bracketed hopening hend (by decide) hpieces

end Tokenizes

mutual

/-- The tokens of a value. -/
def tokensOf : Value → List Token
  | .list items => [.openList] ++ List.intercalate [.comma] (tokensOfItems items) ++ [.closeList]
  | .mapping entries =>
    [.openMapping] ++ List.intercalate [.comma] (tokensOfEntries entries) ++ [.closeMapping]
  | v => [.leaf v]

/-- The tokens of several values. -/
def tokensOfItems : List Value → List (List Token)
  | [] => []
  | v :: vs => tokensOf v :: tokensOfItems vs

/-- The tokens of several entries. -/
def tokensOfEntries : List (String × Value) → List (List Token)
  | [] => []
  | (key, v) :: entries =>
    ([.leaf (.string key), .colon] ++ tokensOf v) :: tokensOfEntries entries

end

end Json

namespace Value

mutual

/-- A value that its JSON text tells: its numbers are read back from theirs, and no mapping repeats
a key. -/
def Readable : Value → Prop
  | .number n => Json.readNumber n.chars = .ok n
  | .list items => ReadableItems items
  | .mapping entries => (Entries.keys entries).Nodup ∧ ReadableEntries entries
  | _ => True

/-- Several such values. -/
def ReadableItems : List Value → Prop
  | [] => True
  | v :: vs => v.Readable ∧ ReadableItems vs

/-- Several entries with such values. -/
def ReadableEntries : List (String × Value) → Prop
  | [] => True
  | (_, v) :: entries => v.Readable ∧ ReadableEntries entries

end

mutual

/-- How deep lists and mappings are nested. -/
def height : Value → Nat
  | .list items => heightItems items + 1
  | .mapping entries => heightEntries entries + 1
  | _ => 0

/-- How deep several values are nested. -/
def heightItems : List Value → Nat
  | [] => 0
  | v :: vs => max v.height (heightItems vs)

/-- How deep the values of several entries are nested. -/
def heightEntries : List (String × Value) → Nat
  | [] => 0
  | (_, v) :: entries => max v.height (heightEntries entries)

end

end Value

namespace Json

mutual

theorem tokenizes_prettyAt (depth : Nat) : ∀ v : Value, v.Readable →
    TokenizesApart (prettyAt depth v).toList (tokensOf v)
  | .null, _ => .null
  | .bool true, _ => .bool true
  | .bool false, _ => .bool false
  | .number _, h => .number h
  | .string s, _ => (Tokenizes.quote s).apart
  | .list items, h => by
    simp only [prettyAt, tokensOf]
    simp only [Value.Readable] at h
    exact (Tokenizes.block (.punctuation "[" rfl (by decide) (by decide) rfl)
      (.punctuation "]" rfl (by decide) (by decide) rfl) depth
      (tokenizes_prettyItems (depth + 1) items h)).apart
  | .mapping entries, h => by
    simp only [prettyAt, tokensOf]
    simp only [Value.Readable] at h
    exact (Tokenizes.block (.punctuation "\x7b" rfl (by decide) (by decide) rfl)
      (.punctuation "\x7d" rfl (by decide) (by decide) rfl) depth
      (tokenizes_prettyEntries (depth + 1) entries h.2)).apart

theorem tokenizes_prettyItems (depth : Nat) : ∀ items : List Value, Value.ReadableItems items →
    List.Forall₂ (fun text ts => TokenizesApart text.toList ts) (prettyItems depth items)
      (tokensOfItems items)
  | [], _ => by
    simp only [prettyItems, tokensOfItems]
    exact .nil
  | v :: vs, h => by
    simp only [prettyItems, tokensOfItems]
    simp only [Value.ReadableItems] at h
    exact .cons (tokenizes_prettyAt depth v h.1) (tokenizes_prettyItems depth vs h.2)

theorem tokenizes_prettyEntries (depth : Nat) : ∀ entries : List (String × Value),
    Value.ReadableEntries entries →
    List.Forall₂ (fun text ts => TokenizesApart text.toList ts) (prettyEntries depth entries)
      (tokensOfEntries entries)
  | [], _ => by
    simp only [prettyEntries, tokensOfEntries]
    exact .nil
  | (key, v) :: entries, h => by
    simp only [prettyEntries, tokensOfEntries]
    simp only [Value.ReadableEntries] at h
    refine .cons ?_ (tokenizes_prettyEntries depth entries h.2)
    have hspace : Tokenizes [' '] [] := .spaces (List.forall_mem_singleton.2 rfl)
    have hcolon : Tokenizes ": ".toList [.colon] :=
      (Tokenizes.punctuation ":" rfl (by decide) (by decide) rfl).append hspace
    rw [String.toList_append, String.toList_append]
    exact ((Tokenizes.quote key).append hcolon).append_apart (tokenizes_prettyAt depth v h.1)

end

mutual

theorem tokenizes_compact : ∀ v : Value, v.Readable →
    TokenizesApart (compact v).toList (tokensOf v)
  | .null, _ => .null
  | .bool true, _ => .bool true
  | .bool false, _ => .bool false
  | .number _, h => .number h
  | .string s, _ => (Tokenizes.quote s).apart
  | .list items, h => by
    simp only [compact, tokensOf, String.toList_append, String.toList_intercalate]
    simp only [Value.Readable] at h
    have hitems := List.forall₂_map_left_iff.2 (tokenizes_compactItems items h)
    exact (Tokenizes.bracketed (.punctuation "[" rfl (by decide) (by decide) rfl)
      (.punctuation "]" rfl (by decide) (by decide) rfl) (by decide) hitems).apart
  | .mapping entries, h => by
    simp only [compact, tokensOf, String.toList_append, String.toList_intercalate]
    simp only [Value.Readable] at h
    have hentries := List.forall₂_map_left_iff.2 (tokenizes_compactEntries entries h.2)
    exact (Tokenizes.bracketed (.punctuation "\x7b" rfl (by decide) (by decide) rfl)
      (.punctuation "\x7d" rfl (by decide) (by decide) rfl) (by decide) hentries).apart

theorem tokenizes_compactItems : ∀ items : List Value, Value.ReadableItems items →
    List.Forall₂ (fun text ts => TokenizesApart text.toList ts) (compactItems items)
      (tokensOfItems items)
  | [], _ => by
    simp only [compactItems, tokensOfItems]
    exact .nil
  | v :: vs, h => by
    simp only [compactItems, tokensOfItems]
    simp only [Value.ReadableItems] at h
    exact .cons (tokenizes_compact v h.1) (tokenizes_compactItems vs h.2)

theorem tokenizes_compactEntries : ∀ entries : List (String × Value),
    Value.ReadableEntries entries →
    List.Forall₂ (fun text ts => TokenizesApart text.toList ts) (compactEntries entries)
      (tokensOfEntries entries)
  | [], _ => by
    simp only [compactEntries, tokensOfEntries]
    exact .nil
  | (key, v) :: entries, h => by
    simp only [compactEntries, tokensOfEntries]
    simp only [Value.ReadableEntries] at h
    refine .cons ?_ (tokenizes_compactEntries entries h.2)
    have hcolon : Tokenizes ":".toList [.colon] := .punctuation ":" rfl (by decide) (by decide) rfl
    rw [String.toList_append, String.toList_append]
    exact ((Tokenizes.quote key).append hcolon).append_apart (tokenizes_compact v h.1)

end

/-! ## Reading the tokens -/

namespace Machine

/-- The machine gets from one state to another over tokens. -/
def Runs (limit : Nat) (m : Machine) (ts : List Token) (m' : Machine) : Prop :=
  ts.foldlM (step limit) m = .ok m'

variable {limit : Nat} {m m' m'' : Machine} {ts us : List Token}

theorem Runs.append (h : Runs limit m ts m') (h' : Runs limit m' us m'') :
    Runs limit m (ts ++ us) m'' := by
  unfold Runs at h h' ⊢
  rw [List.foldlM_append, h]
  exact h'

theorem Runs.single {t : Token} (h : step limit m t = .ok m') : Runs limit m [t] m' := by
  unfold Runs
  rw [List.foldlM_cons, h]
  rfl

/-- A list may start with an item where it may also end. -/
theorem runs_firstItem {stack : List Frame} {depth : Nat} {v : Value}
    (h : Runs limit ⟨.value, .list [] :: stack, depth⟩ (tokensOf v ++ ts) m') :
    Runs limit ⟨.firstItem, stack, depth⟩ (tokensOf v ++ ts) m' := by
  cases v with
  | list items => exact h
  | mapping entries => exact h
  | null => exact h
  | bool b => exact h
  | number n => exact h
  | string s => exact h

/-- The first of several pieces with commas between them. -/
theorem exists_intercalate (ts : List Token) (tss : List (List Token)) (last : List Token) :
    ∃ us, List.intercalate [.comma] (ts :: tss) ++ last = ts ++ us := by
  cases tss with
  | nil => exact ⟨last, by rw [List.intercalate_singleton]⟩
  | cons us tss =>
    rw [List.intercalate_cons_cons, List.append_assoc, List.append_assoc]
    exact ⟨_, rfl⟩

theorem runs_open {t : Token} {phase : Phase} {stack : List Frame} {depth : Nat}
    (hdepth : depth < limit) (h : openWith limit stack depth t =
      if depth < limit then .ok ⟨phase, stack, depth + 1⟩ else .error .depth) :
    Runs limit ⟨.value, stack, depth⟩ [t] ⟨phase, stack, depth + 1⟩ := by
  apply Runs.single
  show openWith limit stack depth t = _
  rw [h, if_pos hdepth]

/-- A key with its colon opens the value of an entry. -/
theorem runs_key {done : Entries Value} {key : String} {stack : List Frame} {depth : Nat} :
    Runs limit ⟨.key done, stack, depth⟩ [.leaf (.string key), .colon]
      ⟨.value, .mapping done key :: stack, depth⟩ :=
  rfl

theorem key_not_mem {done entries : Entries Value} {key : String} {v : Value}
    (h : (Entries.keys (done ++ (key, v) :: entries)).Nodup) : key ∉ done.keys := by
  simp only [Entries.keys, List.map_append, List.map_cons] at h
  intro hmem
  exact (List.nodup_append.1 h).2.2 key hmem key List.mem_cons_self rfl

mutual

/-- Over the tokens of a value the machine completes this value. -/
theorem runs_value : ∀ (v : Value) (stack : List Frame) (depth : Nat), v.Readable →
    depth + v.height ≤ limit →
    Runs limit ⟨.value, stack, depth⟩ (tokensOf v) ⟨.complete v, stack, depth⟩
  | .null, stack, depth, _, _ => .single rfl
  | .bool b, stack, depth, _, _ => .single rfl
  | .number n, stack, depth, _, _ => .single rfl
  | .string s, stack, depth, _, _ => .single rfl
  | .list [], stack, depth, _, hheight => by
    simp only [Value.height] at hheight
    have hopen : Runs limit ⟨.value, stack, depth⟩ [.openList] ⟨.firstItem, stack, depth + 1⟩ :=
      runs_open (by omega) rfl
    exact hopen.append (.single rfl)
  | .list (v :: vs), stack, depth, h, hheight => by
    simp only [Value.height] at hheight
    simp only [Value.Readable] at h
    have hopen : Runs limit ⟨.value, stack, depth⟩ [.openList] ⟨.firstItem, stack, depth + 1⟩ :=
      runs_open (by omega) rfl
    have hitems := runs_items (v :: vs) (List.cons_ne_nil _ _) [] stack (depth + 1) h (by omega)
    simp only [tokensOf, tokensOfItems] at hitems ⊢
    obtain ⟨us, hus⟩ := exists_intercalate (tokensOf v) (tokensOfItems vs) [.closeList]
    rw [List.append_assoc, hus]
    rw [hus] at hitems
    exact hopen.append (runs_firstItem hitems)
  | .mapping [], stack, depth, _, hheight => by
    simp only [Value.height] at hheight
    have hopen : Runs limit ⟨.value, stack, depth⟩ [.openMapping] ⟨.key [], stack, depth + 1⟩ :=
      runs_open (by omega) rfl
    exact hopen.append (.single rfl)
  | .mapping (entry :: entries), stack, depth, h, hheight => by
    simp only [Value.height] at hheight
    simp only [Value.Readable] at h
    have hopen : Runs limit ⟨.value, stack, depth⟩ [.openMapping] ⟨.key [], stack, depth + 1⟩ :=
      runs_open (by omega) rfl
    have hentries := runs_entries (entry :: entries) (List.cons_ne_nil _ _) [] stack (depth + 1)
      h.1 h.2 (by omega)
    rw [tokensOf, List.append_assoc]
    exact hopen.append hentries

/-- The items of a list behind those that are read. -/
theorem runs_items : ∀ (items : List Value) (_ : items ≠ []) (acc : List Value)
    (stack : List Frame) (depth : Nat), Value.ReadableItems items →
    depth + Value.heightItems items ≤ limit →
    Runs limit ⟨.value, .list acc :: stack, depth⟩
      (List.intercalate [.comma] (tokensOfItems items) ++ [.closeList])
      ⟨.complete (.list (acc.reverse ++ items)), stack, depth - 1⟩
  | [v], _, acc, stack, depth, h, hheight => by
    simp only [Value.ReadableItems, and_true] at h
    simp only [Value.heightItems, Nat.max_zero] at hheight
    have hvalue := runs_value v (.list acc :: stack) depth h hheight
    have hclose : step limit ⟨.complete v, .list acc :: stack, depth⟩ .closeList =
        .ok ⟨.complete (.list (v :: acc).reverse), stack, depth - 1⟩ := rfl
    rw [List.reverse_cons] at hclose
    simp only [tokensOfItems, List.intercalate_singleton]
    exact hvalue.append (.single hclose)
  | v :: w :: vs, _, acc, stack, depth, h, hheight => by
    rw [Value.ReadableItems] at h
    rw [Value.heightItems] at hheight
    have hvalue := runs_value v (.list acc :: stack) depth h.1 (by omega)
    have hcomma : step limit ⟨.complete v, .list acc :: stack, depth⟩ .comma =
        .ok ⟨.value, .list (v :: acc) :: stack, depth⟩ := rfl
    have hrest := runs_items (w :: vs) (List.cons_ne_nil _ _) (v :: acc) stack depth h.2 (by omega)
    have hall := (hvalue.append (.single hcomma)).append hrest
    simp only [tokensOfItems, List.intercalate_cons_cons, List.reverse_cons,
      List.append_assoc] at hall ⊢
    exact hall

/-- The entries of a mapping behind those that are read. -/
theorem runs_entries : ∀ (entries : List (String × Value)) (_ : entries ≠ []) (done : Entries Value)
    (stack : List Frame) (depth : Nat), (Entries.keys (done ++ entries)).Nodup →
    Value.ReadableEntries entries → depth + Value.heightEntries entries ≤ limit →
    Runs limit ⟨.key done, stack, depth⟩
      (List.intercalate [.comma] (tokensOfEntries entries) ++ [.closeMapping])
      ⟨.complete (.mapping (done ++ entries)), stack, depth - 1⟩
  | [(key, v)], _, done, stack, depth, hkeys, h, hheight => by
    simp only [Value.ReadableEntries, and_true] at h
    simp only [Value.heightEntries, Nat.max_zero] at hheight
    have hvalue := runs_value v (.mapping done key :: stack) depth h hheight
    have hclose : step limit ⟨.complete v, .mapping done key :: stack, depth⟩ .closeMapping =
        .ok ⟨.complete (.mapping (done.put key v)), stack, depth - 1⟩ := rfl
    rw [Entries.put_of_not_mem v (key_not_mem hkeys)] at hclose
    simp only [tokensOfEntries, List.intercalate_singleton]
    exact (runs_key.append hvalue).append (.single hclose)
  | (key, v) :: entry :: entries, _, done, stack, depth, hkeys, h, hheight => by
    rw [Value.ReadableEntries] at h
    rw [Value.heightEntries] at hheight
    have hvalue := runs_value v (.mapping done key :: stack) depth h.1 (by omega)
    have hcomma : step limit ⟨.complete v, .mapping done key :: stack, depth⟩ .comma =
        .ok ⟨.key (done.put key v), stack, depth⟩ := rfl
    rw [Entries.put_of_not_mem v (key_not_mem hkeys)] at hcomma
    rw [List.append_cons] at hkeys
    have hrest := runs_entries (entry :: entries) (List.cons_ne_nil _ _) (done ++ [(key, v)]) stack
      depth hkeys h.2 (by omega)
    have hall := ((runs_key.append hvalue).append (.single hcomma)).append hrest
    rw [← List.append_cons] at hall
    simp only [tokensOfEntries, List.intercalate_cons_cons, List.append_assoc] at hall ⊢
    exact hall

end

end Machine

/-- A text with the tokens of a value is read as this value. -/
theorem readNested_of_tokenizes {text : String} {v : Value} {limit : Nat}
    (htext : TokenizesApart text.toList (tokensOf v)) (h : v.Readable)
    (hheight : v.height ≤ limit) : readNested limit text = .ok v := by
  have htokens : tokens text.toList = .ok (tokensOf v) := by
    have htext := htext [] rfl
    have hend : tokens [] = .ok [] := by rw [tokens]
    rw [hend, List.append_nil] at htext
    rw [htext, Except.map, List.append_nil]
  have hruns : Machine.Runs limit Machine.start (tokensOf v) ⟨.complete v, [], 0⟩ :=
    Machine.runs_value v [] 0 h (by omega)
  unfold Machine.Runs at hruns
  show (tokens text.toList >>= fun ts => ts.foldlM (Machine.step limit) Machine.start >>=
    Machine.result) = _
  rw [htokens]
  show (tokensOf v).foldlM (Machine.step limit) Machine.start >>= Machine.result = _
  rw [hruns]
  rfl

/-- A value reads back from its indented text. -/
theorem read_pretty (v : Value) (h : v.Readable) (hheight : v.height ≤ depthLimit) :
    read (pretty v) = .ok v :=
  readNested_of_tokenizes (tokenizes_prettyAt 0 v h) h hheight

/-- A value reads back from its text without blanks. -/
theorem readNested_compact {v : Value} (h : v.Readable) {limit : Nat} (hheight : v.height ≤ limit) :
    readNested limit (compact v) = .ok v :=
  readNested_of_tokenizes (tokenizes_compact v h) h hheight

/-! ## Whole numbers -/

theorem digitsValue_toDigits (n : Nat) : digitsValue (Nat.toDigits 10 n) = n := by
  have hvalue (cs : List Char) : digitsValue cs = Nat.ofDigitChars 10 cs 0 := by
    unfold digitsValue Nat.ofDigitChars
    congr 1
    funext acc c
    rw [Nat.mul_comm]
    rfl
  rw [hvalue, Nat.ofDigitChars_ten_toDigits]

theorem readUnsigned_toDigits (negative : Bool) (n : Nat) :
    readUnsigned negative (Nat.toDigits 10 n) = readWhole negative (Nat.toDigits 10 n) := by
  have hcut : Text.CutsFront Char.isDigit (Nat.toDigits 10 n) (Nat.toDigits 10 n) [] :=
    ⟨(List.append_nil _).symm, fun c hc => Decimal.isDigit_toDigits hc, by simp⟩
  have hzero : ¬ ((Nat.toDigits 10 n).head? = some '0' ∧ 1 < (Nat.toDigits 10 n).length) := by
    rintro ⟨hhead, hlength⟩
    by_cases hn : n = 0
    · subst hn
      exact absurd hlength (by decide)
    · exact Decimal.head?_toDigits_ne hn hhead
  simp only [readUnsigned, hcut.unique.1, hcut.unique.2, Nat.toDigits_ne_nil, hzero, or_self,
    ↓reduceIte]

/-- A whole number of 64 bits, with or without a sign, is read back from its text. -/
theorem readNumber_int {i : Int} (hleast : -2 ^ 63 ≤ i) (hgreatest : i ≤ wholeLimit) :
    readNumber (Number.int i).chars = .ok (.int i) := by
  have hlimit : wholeLimit = 2 ^ 64 - 1 := rfl
  by_cases hi : i < 0
  · have hchars : (Number.int i).chars = '-' :: Nat.toDigits 10 i.natAbs := if_pos hi
    have hsize : 0 < i.natAbs ∧ i.natAbs ≤ Nat.pow 2 63 := by
      have hpow : Nat.pow 2 63 = 2 ^ 63 := rfl
      omega
    rw [hchars, readNumber, readUnsigned_toDigits, readWhole, digitsValue_toDigits, if_pos rfl,
      if_pos hsize]
    congr 2
    omega
  · have hchars : (Number.int i).chars = Nat.toDigits 10 i.natAbs := if_neg hi
    have hsign (rest : List Char) : Nat.toDigits 10 i.natAbs ≠ '-' :: rest := by
      intro heq
      have hdigit : '-'.isDigit = true := Decimal.isDigit_toDigits (heq ▸ List.mem_cons_self)
      cases hdigit
    have hread : readNumber (Nat.toDigits 10 i.natAbs) =
        readUnsigned false (Nat.toDigits 10 i.natAbs) := by
      unfold readNumber
      split
      · exact absurd ‹_› (hsign _)
      · rfl
    rw [hchars, hread, readUnsigned_toDigits, readWhole, digitsValue_toDigits,
      if_neg Bool.false_ne_true, if_pos (by omega)]
    congr 2
    omega

end Json

end SceneScript
