import SceneScript.Proofs.Deliveries
import SceneScript.Proofs.JsonText

/-!
# Quoted texts in programs

A quoted text can be read by two languages: by that of the data files, for which `Text.unquote` is
the reader, and by that of the programs. The reader for the latter is `Script.literal?`. It knows
more escapes, and its literals stand for sequences of 16-bit units, of which two may make one
character.

Both readers give a quoted text back and stop behind it, whatever follows (`unquote_quote`,
`Script.literal?_quote`). Each character is written as one of three forms (`quoteChar_cases`), and
both languages agree on these. So the module of an embedded file, which is one constant, gives the
text of the file back, however a session goes on (`embedded_texts`).
-/

namespace SceneScript

open Text

namespace Script

/-! ## Units and characters -/

/-- The 16-bit units of a code point. -/
def units (n : Nat) : List Nat :=
  if n < 0x10000 then [n]
  else [0xD800 + (n - 0x10000) / 0x400, 0xDC00 + (n - 0x10000) % 0x400]

/-- The text that units stand for, unless one half of a pair stands without the other. -/
def text? : List Nat → Option (List Char)
  | [] => some []
  | unit :: rest =>
    if isHighSurrogate unit then
      match rest with
      | [] => none
      | low :: rest =>
        if isLowSurrogate low then
          (text? rest).map
            (Char.ofNat (0x10000 + (unit - 0xD800) * 0x400 + (low - 0xDC00)) :: ·)
        else none
    else if isLowSurrogate unit then none
    else (text? rest).map (Char.ofNat unit :: ·)

theorem text?_units_append (c : Char) (us : List Nat) :
    text? (units c.toNat ++ us) = (text? us).map (c :: ·) := by
  have hvalid : c.toNat < 0xD800 ∨ 0xDFFF < c.toNat ∧ c.toNat < 0x110000 := c.valid
  unfold units
  split
  · have hhigh : isHighSurrogate c.toNat = false := by
      simp [isHighSurrogate]
      omega
    have hlow : isLowSurrogate c.toNat = false := by
      simp [isLowSurrogate]
      omega
    rw [List.singleton_append, text?.eq_def]
    simp [hhigh, hlow]
  · rename_i hlarge
    have hhigh : isHighSurrogate (0xD800 + (c.toNat - 0x10000) / 0x400) = true := by
      simp [isHighSurrogate]
      omega
    have hlow : isLowSurrogate (0xDC00 + (c.toNat - 0x10000) % 0x400) = true := by
      simp [isLowSurrogate]
      omega
    have hpair : 0x10000 + (0xD800 + (c.toNat - 0x10000) / 0x400 - 0xD800) * 0x400 +
        (0xDC00 + (c.toNat - 0x10000) % 0x400 - 0xDC00) = c.toNat := by omega
    simp only [List.cons_append, List.nil_append, text?, hhigh, hlow, hpair, ↓reduceIte,
      Char.ofNat_toNat]

/-- A text is told by its units. -/
theorem text?_flatMap_units (cs : List Char) :
    text? (cs.flatMap fun c => units c.toNat) = some cs := by
  induction cs with
  | nil => rfl
  | cons c cs ih => rw [List.flatMap_cons, text?_units_append, ih, Option.map_some]

/-! ## Literals -/

/-- Whether a character ends a line. -/
def isLineEnd (c : Char) : Bool :=
  c = '\n' || c = '\r' || c = '\u2028' || c = '\u2029'

/-- The number that one or more hexadecimal digits write. -/
def hexNumber? (digits : List Char) : Option Nat :=
  if digits.isEmpty then none
  else digits.foldlM (fun n c => (hexValue? c).map (n * 16 + ·)) 0

/-- Reads a code point in hexadecimal digits up to a closing brace. -/
def braced? (cs : List Char) : Option (Nat × List Char) := do
  let n ← hexNumber? (cs.takeWhile (· ≠ '\x7d'))
  match cs.dropWhile (· ≠ '\x7d') with
  | [] => none
  | _ :: rest => if n < 0x110000 then some (n, rest) else none

/-- The character that a letter stands for behind a backslash. -/
def letter (c : Char) : Char :=
  if c = 'b' then '\x08'
  else if c = 't' then '\t'
  else if c = 'n' then '\n'
  else if c = 'v' then '\x0b'
  else if c = 'f' then '\x0c'
  else if c = 'r' then '\r'
  else c

/-- The units of a character behind a backslash. A line end stands for nothing, a digit other than a
lone zero for an error, and a character that is no escape for itself. -/
def single? (c : Char) (rest : List Char) : Option (List Nat) :=
  if isLineEnd c then some []
  else if c = '0' then if rest.head?.any Char.isDigit then none else some [0]
  else if c = 'u' || c = 'x' || c.isDigit then none
  else some (units (letter c).toNat)

/-- Reads what follows a backslash: the units that it stands for, and what is left. -/
def escape? : List Char → Option (List Nat × List Char)
  | [] => none
  | 'u' :: '\x7b' :: rest => (braced? rest).map fun (n, after) => (units n, after)
  | 'u' :: a :: b :: c :: d :: rest => (hexQuad? a b c d).map fun n => ([n], rest)
  | 'x' :: a :: b :: rest => (hexQuad? '0' '0' a b).map fun n => ([n], rest)
  | '\r' :: '\n' :: rest => some ([], rest)
  | c :: rest => (single? c rest).map fun us => (us, rest)

theorem length_braced? {cs after : List Char} {n : Nat} (h : braced? cs = some (n, after)) :
    after.length < cs.length := by
  obtain ⟨_, -, h⟩ := Option.bind_eq_some_iff.1 h
  have hle := (List.dropWhile_suffix (p := (· ≠ '\x7d')) (l := cs)).length_le
  split at h
  · cases h
  · rename_i hdrop
    split at h <;> cases h
    rw [hdrop, List.length_cons] at hle
    omega

theorem length_escape? {cs after : List Char} {us : List Nat} (h : escape? cs = some (us, after)) :
    after.length < cs.length := by
  unfold escape? at h
  split at h
  · cases h
  · obtain ⟨⟨n, rest⟩, hbraced, hrest⟩ := Option.map_eq_some_iff.1 h
    have hlt := length_braced? hbraced
    cases hrest
    simp only [List.length_cons]
    omega
  · obtain ⟨_, -, hrest⟩ := Option.map_eq_some_iff.1 h
    cases hrest
    simp only [List.length_cons]
    omega
  · obtain ⟨_, -, hrest⟩ := Option.map_eq_some_iff.1 h
    cases hrest
    simp only [List.length_cons]
    omega
  · cases h
    simp only [List.length_cons]
    omega
  · obtain ⟨_, -, hrest⟩ := Option.map_eq_some_iff.1 h
    cases hrest
    exact Nat.lt_succ_self _

/-- Reads what follows the opening quote of a literal: its units up to the closing quote, and what
follows that. -/
def literalBody? (cs : List Char) : Option (List Nat × List Char) :=
  match cs with
  | [] => none
  | c :: rest =>
    if c = '"' then some ([], rest)
    else if c = '\\' then
      match _h : escape? rest with
      | none => none
      | some (us, after) => (literalBody? after).map fun (more, after) => (us ++ more, after)
    else if c = '\n' || c = '\r' then none
    else (literalBody? rest).map fun (more, after) => (units c.toNat ++ more, after)
termination_by cs.length
decreasing_by
  · have := length_escape? _h
    simp only [List.length_cons]
    omega
  · simp

/-- Reads a literal at the start of a text: its value and the text behind it. -/
def literal? : List Char → Option (List Char × List Char)
  | '"' :: rest => do
    let (us, after) ← literalBody? rest
    let text ← text? us
    return (text, after)
  | _ => none

theorem length_literalBody? {cs after : List Char} {us : List Nat}
    (h : literalBody? cs = some (us, after)) : after.length < cs.length := by
  fun_induction literalBody? cs generalizing us after with
  | case1 => cases h
  | case2 rest =>
    cases h
    exact Nat.lt_succ_self _
  | case3 => cases h
  | case4 rest us next hescape _ ih =>
    obtain ⟨⟨_, _⟩, hmore, hresult⟩ := Option.map_eq_some_iff.1 h
    have hnext := length_escape? hescape
    have hafter := ih hmore
    cases hresult
    simp only [List.length_cons]
    omega
  | case5 => cases h
  | case6 c rest _ _ _ ih =>
    obtain ⟨⟨_, _⟩, hmore, hresult⟩ := Option.map_eq_some_iff.1 h
    have hafter := ih hmore
    cases hresult
    simp only [List.length_cons]
    omega

theorem length_literal? {cs after text : List Char} (h : literal? cs = some (text, after)) :
    after.length < cs.length := by
  unfold literal? at h
  split at h
  · obtain ⟨⟨us, rest⟩, hbody, h⟩ := Option.bind_eq_some_iff.1 h
    obtain ⟨_, -, h⟩ := Option.bind_eq_some_iff.1 h
    have hrest := length_literalBody? hbody
    cases h
    simp only [List.length_cons]
    omega
  · cases h

/-- The letters of the data format mean the same here. -/
theorem escape?_of_shortEscape? {e c : Char} (h : shortEscape? e = some c) (rest : List Char) :
    escape? (e :: rest) = some (units c.toNat, rest) := by
  unfold shortEscape? at h
  split_ifs at h with h₁ h₂ h₃ h₄ h₅ h₆ h₇ h₈
  all_goals
    cases h
    subst_vars
    rfl

theorem literalBody?_escape {cs after : List Char} {us : List Nat}
    (h : escape? cs = some (us, after)) :
    literalBody? ('\\' :: cs) =
      (literalBody? after).map fun result => (us ++ result.1, result.2) := by
  rw [literalBody?]
  simp only [Char.reduceEq, ↓reduceIte]
  split
  · rename_i hnone
    rw [h] at hnone
    cases hnone
  · rename_i us' after' hsome
    rw [h] at hsome
    cases hsome
    rfl

theorem literalBody?_quoteChar (c : Char) (rest : List Char) :
    literalBody? (quoteChar c ++ rest) =
      (literalBody? rest).map fun result => (units c.toNat ++ result.1, result.2) := by
  rcases quoteChar_cases c with
    ⟨e, -, hescape, hc⟩ | ⟨hcontrol, hc⟩ | ⟨hquote, hbackslash, hplain, hc⟩
  · rw [hc]
    exact literalBody?_escape (escape?_of_shortEscape? hescape rest)
  · have hread : escape? ('u' :: '0' :: '0' :: hexDigit (c.toNat / 16) :: hexDigit (c.toNat % 16) ::
        rest) = some ([c.toNat], rest) := by
      rw [escape?, hexQuad?_of_lt hcontrol, Option.map_some]
      exact fun h => absurd h (by decide)
    have hunits : units c.toNat = [c.toNat] := if_pos (by omega)
    rw [hc, hunits]
    exact literalBody?_escape hread
  · have hline : c ≠ '\n' := by
      rintro rfl
      exact absurd hplain (by decide)
    have hreturn : c ≠ '\r' := by
      rintro rfl
      exact absurd hplain (by decide)
    rw [hc, List.singleton_append, literalBody?]
    simp [hquote, hbackslash, hline, hreturn]

/-- The units of a quoted text are read up to its closing quote. -/
theorem literalBody?_quote (cs rest : List Char) :
    literalBody? (cs.flatMap quoteChar ++ '"' :: rest) =
      some (cs.flatMap fun c => units c.toNat, rest) := by
  induction cs with
  | nil =>
    rw [List.flatMap_nil, List.nil_append, literalBody?]
    rfl
  | cons c cs ih =>
    rw [List.flatMap_cons, List.append_assoc, literalBody?_quoteChar, ih, List.flatMap_cons,
      Option.map_some]

/-- A quoted text is a literal of programs with the text as its value. -/
theorem literal?_quote (s : String) (rest : List Char) :
    literal? ((quote s).toList ++ rest) = some (s.toList, rest) := by
  rw [quote_append]
  simp only [literal?, literalBody?_quote, text?_flatMap_units, Option.bind_eq_bind,
    Option.bind_some, Option.pure_def]

-- the reader takes the other spellings of a character, too
example : literal? "\"\\x41\\u\x7b1F600\x7d\\\n\\uD83D\\uDE00\\0\\q\";".toList =
    some ("A😀😀\x00q".toList, ";".toList) := by
  decide +kernel

/-! ## Constants -/

/-- Reads the start of an exported constant: its name, and what follows the equals sign. -/
def declaration? (cs : List Char) : Option (List Char × List Char) := do
  let cs ← cs.dropPrefix? "export const ".toList
  let value ← (cs.dropWhile (· ≠ ' ')).dropPrefix? " = ".toList
  return (cs.takeWhile (· ≠ ' '), value)

/-- Reads a module that is one constant, whose value is a literal of some language: the name of the
constant and its value. -/
def constant? (read : List Char → Option (List Char × List Char)) (cs : List Char) :
    Option (List Char × List Char) := do
  let (name, value) ← declaration? cs
  let (text, rest) ← read value
  if rest = ";\n".toList then some (name, text) else none

theorem declaration?_append {name : List Char} (hname : ' ' ∉ name) (value : List Char) :
    declaration? ("export const ".toList ++ (name ++ (" = ".toList ++ value))) =
      some (name, value) := by
  have hcut (front rest : List Char) : (front ++ rest).dropPrefix? front = some rest :=
    List.dropPrefix?_append_of_beq rest (beq_self_eq_true front)
  have hblank : ∀ c ∈ name, (decide (c ≠ ' ')) = true := by
    intro c hc
    exact decide_eq_true fun e => hname (e ▸ hc)
  have htake : (name ++ (" = ".toList ++ value)).takeWhile (· ≠ ' ') = name := by
    rw [List.takeWhile_append_of_pos hblank]
    simp
  have hdrop : (name ++ (" = ".toList ++ value)).dropWhile (· ≠ ' ') = " = ".toList ++ value := by
    rw [List.dropWhile_append_of_pos hblank]
    simp
  unfold declaration?
  rw [hcut, Option.bind_eq_bind, Option.bind_some, hdrop, hcut, htake]
  rfl

end Script

/-! ## Quoted texts in both languages -/

/-- A quoted text is a literal of the data format with the text as its value. -/
theorem Text.unquote_quote (s : String) (rest : List Char) :
    unquote ((quote s).toList ++ rest) = some (s.toList, rest) := by
  rw [quote_append]
  exact unquoteBody_quote s.toList rest

theorem Text.le_of_mem_quoteChar {c x : Char} (h : x ∈ quoteChar c) : 0x20 ≤ x.toNat := by
  have hdigit : ∀ n < 16, 0x20 ≤ (hexDigit n).toNat := by decide
  have hletter {e : Char} (hescape : shortEscape? e = some c) : 0x20 ≤ e.toNat := by
    unfold shortEscape? at hescape
    split_ifs at hescape <;> (subst_vars; decide)
  rcases quoteChar_cases c with
    ⟨e, -, hescape, hc⟩ | ⟨hcontrol, hc⟩ | ⟨-, -, hplain, hc⟩
  · rw [hc] at h
    rcases List.mem_pair.1 h with rfl | rfl
    · decide
    · exact hletter hescape
  · have hhigh := hdigit (c.toNat / 16) (by omega)
    have hlow := hdigit (c.toNat % 16) (by omega)
    rw [hc] at h
    simp only [List.mem_cons, List.not_mem_nil, or_false] at h
    rcases h with rfl | rfl | rfl | rfl | rfl | rfl
    · decide
    · decide
    · decide
    · decide
    · exact hhigh
    · exact hlow
  · rw [hc] at h
    rw [List.mem_singleton.1 h]
    exact hplain

/-- A quoted text holds no raw control character. -/
theorem Text.le_of_mem_quote {s : String} {c : Char} (h : c ∈ (quote s).toList) :
    0x20 ≤ c.toNat := by
  rw [← List.append_nil (quote s).toList, quote_append, List.mem_cons, List.mem_append,
    List.mem_singleton, List.mem_flatMap] at h
  rcases h with rfl | ⟨x, -, hx⟩ | rfl
  · decide
  · exact le_of_mem_quoteChar hx
  · decide

/-! ## Embedded files -/

namespace Embedder

/-- The module of a file is one constant, whichever language reads its literal. -/
theorem constant?_moduleText {read : List Char → Option (List Char × List Char)}
    (hread : ∀ (s : String) (rest : List Char),
      read ((Text.quote s).toList ++ rest) = some (s.toList, rest))
    (name : ModuleName) (text : String) :
    Script.constant? read (moduleText name.text text).toList =
      some (name.text.toList, text.toList) := by
  have hblank : ' ' ∉ name.text.toList := name.not_mem_text (by decide) (by decide)
  have hparts : (moduleText name.text text).toList = "export const ".toList ++
      (name.text.toList ++ (" = ".toList ++ ((Text.quote text).toList ++ ";\n".toList))) := by
    show ("export const " ++ name.text ++ " = " ++ Text.quote text ++ ";\n").toList = _
    simp only [String.toList_append, List.append_assoc]
  unfold Script.constant?
  rw [hparts, Script.declaration?_append hblank, Option.bind_eq_bind, Option.bind_some]
  dsimp only
  rw [hread, Option.bind_some]
  exact if_pos rfl

end Embedder

namespace Store

/-- A file that has a module in a store has got it by a request on the way to the store, from the
text that the file had then. The module still holds this text. -/
structure Embedded (start : Store) (out : Path) (l : Location) (name : ModuleName) (text : String)
    (s : Store) : Prop where
  request : ∃ before u v after, start.DeliversAll before u ∧ u.embedder.find? l = none ∧
    u.Delivers (.asset l) name v ∧ v.DeliversAll after s ∧ Embedder.content u.disk l = .ok text
  holds : s.disk.read (name.path out) = .ok (Embedder.moduleText name.text text).toUTF8

/-- Further requests leave the modules of the files as they are. -/
theorem Embedded.snoc {start s t : Store} {out : Path} {l : Location} {name other : ModuleName}
    {text : String} {x : Delivery} (h : start.Embedded out l name text s) (hout : s.At out)
    (hname : name ∈ s.modules) (hx : s.Delivers x other t) :
    start.Embedded out l name text t := by
  obtain ⟨⟨before, u, v, after, hbefore, hnew, hl, hafter, htext⟩, hholds⟩ := h
  refine ⟨⟨before, u, v, after ++ [x], hbefore, hnew, hl, hafter.snoc hx, htext⟩, ?_⟩
  rcases hx.found_or_made hout with rfl | hmakes
  · exact hholds
  · obtain ⟨_, -, hwrite⟩ := hmakes.written
    exact ModuleName.read_path_of_write (ne_of_mem_of_not_mem hname hmakes.fresh) hholds hwrite

end Store

/-- The module of an embedded file is among those of the store. -/
theorem Stocked.mem_modules {start s : Store} {out : Path} {ds : List Delivery} {l : Location}
    {name : ModuleName} (h : Stocked start out ds s) (hl : s.embedder.find? l = some name) :
    name ∈ s.modules := by
  have hmem := mem_of_lookup hl
  have hsize : s.embedder.size = (assetsOf ds).eraseDups.length := by
    simp [Embedder.size, h.assets, numbering]
  rw [h.assets] at hmem
  obtain ⟨⟨_, k⟩, hk, hname⟩ := List.mem_map.1 hmem
  have hlt := List.snd_lt_of_mem_zipIdx hk
  cases hname
  exact List.mem_append_left _ (List.mem_map_of_mem (List.mem_range.2 (hsize ▸ hlt)))

/-- Every module of a file holds the text that the file had when the module was made. -/
theorem Store.DeliversAll.exists_embedded {base out : Path} {d : Disk} {ds : List Delivery}
    {s : Store} (h : (Store.new base out d).DeliversAll ds s) {l : Location} {name : ModuleName}
    (hl : s.embedder.find? l = some name) :
    ∃ text, (Store.new base out d).Embedded out l name text s := by
  induction h with
  | nil => cases hl
  | @snoc ds s t x other hall hx ih =>
    have hstocked := Stocked.of_deliversAll hall
    have hbefore (hfound : s.embedder.find? l = some name) :
        ∃ text, (Store.new base out d).Embedded out l name text t := by
      obtain ⟨text, htext⟩ := ih hfound
      exact ⟨text, htext.snoc hstocked.out_eq (hstocked.mem_modules hfound) hx⟩
    cases hx with
    | images => exact hbefore hl
    | @asset file _ e d place hplace hembed =>
      obtain ⟨place', hplace', hcases⟩ := Embedder.embed_cases hembed
      obtain rfl : place = place' := Except.ok.inj (hplace.symm.trans hplace')
      rcases hcases with ⟨-, rfl, -⟩ | ⟨hnew, -, text, htext, hwrite, rfl⟩
      · exact hbefore hl
      · -- the file had its module before this request, or it is the file of the request
        cases hfound : s.embedder.find? l with
        | some found =>
          rw [Embedder.find?, List.lookup_append, ← Embedder.find?, hfound, Option.some_or] at hl
          exact hbefore (hfound.trans hl)
        | none =>
          rw [Embedder.find?, List.lookup_append, ← Embedder.find?, hfound, Option.none_or] at hl
          obtain ⟨⟩ := List.mem_singleton.1 (mem_of_lookup hl)
          rw [hstocked.out_eq.embedder] at hwrite
          exact ⟨text, ⟨ds, s, _, [], hall, hnew, .asset hplace hembed, .nil, htext⟩,
            Disk.read_of_write hwrite⟩

/-- Quoting a text loses nothing, and nothing that follows is taken for a part of it.

* From the start of a quoted text, the readers of both languages give exactly the text and leave
  exactly what follows. A quoted text holds no raw control character, so it stays on its line.
* However a session is used, and whichever of its steps fail: each embedded file has got its module
  by one request, at which it was new. The module is one constant, of which both readers give back
  exactly the text that the file had at that request, with the images inlined if the file is a
  material library. -/
theorem quoted_texts_read_back :
    (∀ (s : String) (rest : List Char),
      Text.unquote ((Text.quote s).toList ++ rest) = some (s.toList, rest) ∧
        Script.literal? ((Text.quote s).toList ++ rest) = some (s.toList, rest) ∧
        ∀ c ∈ (Text.quote s).toList, 0x20 ≤ c.toNat) ∧
      ∀ (base out : Path) (d : Disk) (steps : List Emit.Step) (l : Location) (name : ModuleName),
        let start := Session.new base out d
        let s := Emit.perform start steps
        s.embedder.find? l = some name →
          ∃ before u v after, start.store.DeliversAll before u ∧ u.embedder.find? l = none ∧
            u.Delivers (.asset l) name v ∧ v.DeliversAll after s.store ∧
            ∃ raw text script, u.disk.readTextAt l = .ok raw ∧
              (if Embedder.isMtl l then Mtl.inlineImages u.disk l.up.path raw = .ok text
                else text = raw) ∧
              s.disk.readText (name.path out) = .ok script ∧
              ∀ read ∈ [Text.unquote, Script.literal?],
                Script.constant? read script.toList = some (name.text.toList, text.toList) := by
  refine ⟨fun s rest => ⟨Text.unquote_quote s rest, Script.literal?_quote s rest,
    fun c hc => Text.le_of_mem_quote hc⟩, ?_⟩
  intro base out d steps l name start s hl
  obtain ⟨ds, hds⟩ : Emit.Delivered start.store s :=
    Emit.perform_delivered ⟨[], .nil⟩ steps
  obtain ⟨text, ⟨before, u, v, after, hbefore, hnew, hmade, hafter, htext⟩, hholds⟩ :=
    Store.DeliversAll.exists_embedded hds hl
  obtain ⟨raw, hraw, htext⟩ := Embedder.content_eq_ok_iff.1 htext
  refine ⟨before, u, v, after, hbefore, hnew, hmade, hafter, raw, text, _, hraw, htext,
    Disk.readText_of_read hholds, fun read hread => ?_⟩
  refine Embedder.constant?_moduleText (fun s rest => ?_) name text
  rcases List.mem_pair.1 hread with rfl | rfl
  · exact Text.unquote_quote s rest
  · exact Script.literal?_quote s rest

end SceneScript
