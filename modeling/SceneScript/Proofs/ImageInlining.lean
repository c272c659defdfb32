import Mathlib.Data.List.Forall2
import SceneScript.Proofs.Disk
import SceneScript.Proofs.TextureLines

/-!
# Inlining images

What happens to the text of a material library. `inlineImages_by_lines` says it line by line: in a
texture directive that names a file just the name is replaced, by the data URL of the file, every
other line stays as it is, and the first line whose file cannot be read decides on the error.
`inlineImages_settled` says that the result needs no files any more.

Both rest on the data URL being one word (`Image.dataUrl_solid`): its media type may come from the
extension of the file, but the name of the file was a word already.
-/

namespace SceneScript

open Text

/-! ## Data URLs are words -/

theorem Text.subset_of_mem_splitChars {sep : Char} {cs piece : List Char}
    (h : piece ∈ splitChars sep cs) : piece ⊆ cs := by
  induction cs generalizing piece with
  | nil =>
    rw [splitChars, List.mem_singleton] at h
    simp [h]
  | cons c cs ih =>
    obtain ⟨first, pieces, hp⟩ := List.exists_cons_of_ne_nil (splitChars_ne_nil sep cs)
    rw [hp] at ih
    simp only [splitChars, hp] at h
    have hrest {piece : List Char} (h : piece ∈ first :: pieces) : piece ⊆ c :: cs :=
      fun x hx => List.mem_cons_of_mem _ (ih h hx)
    split at h
    · rcases List.mem_cons.1 h with rfl | h
      · exact List.nil_subset _
      · exact hrest h
    · rcases List.mem_cons.1 h with rfl | h
      · exact List.cons_subset.2 ⟨List.mem_cons_self, hrest List.mem_cons_self⟩
      · exact hrest (List.mem_cons_of_mem _ h)

theorem Text.IsSolid.of_subset {cs ds : List Char} (h : IsSolid ds) (hsubset : cs ⊆ ds) :
    IsSolid cs :=
  fun c hc => h c (hsubset hc)

namespace Path

/-- A joined path ends as the path that is joined to it does. -/
theorem getLast?_segments_join (q child : Path) :
    (q.join child).segments.getLast? = child.segments.getLast? := by
  have hne : child.segments ≠ [] := by
    simp [segments, Text.split, splitChars_ne_nil]
  cases habsolute : child.isAbsolute with
  | true => rw [join, if_pos habsolute]
  | false =>
    obtain ⟨before, hbefore⟩ := q.exists_segments_join_relative
    rw [hbefore child habsolute, List.getLast?_append_of_ne_nil _ hne]

/-- An extension is a part of its name. -/
theorem subset_of_cutName {name extension : String} (h : (cutName name).2 = some extension) :
    extension.toList ⊆ name.toList := by
  unfold cutName at h
  dsimp only at h
  split at h
  · cases h
  · cases h
  · obtain rfl := Option.some.inj h
    rw [String.toList_ofList]
    intro c hc
    exact List.mem_reverse.1 (List.takeWhile_sublist _ |>.subset (List.mem_reverse.1 hc))

end Path

/-- A file that can be read under a word has a word for an extension. -/
theorem Disk.extension_solid {d : Disk} {q : Path} {file extension : String} {bytes : ByteArray}
    (hread : d.read (q.join ⟨file⟩) = .ok bytes) (hfile : IsSolid file.toList)
    (h : (q.join ⟨file⟩).extension? = some extension) : IsSolid extension.toList := by
  obtain ⟨name, hname, hcut⟩ := Option.bind_eq_some_iff.1 h
  -- A word like `.` leaves the name to the directory before it, but then there is no file to read.
  obtain ⟨before, hends⟩ := endsWith_of_read hread hname
  have hlast := Path.getLast?_segments_join q ⟨file⟩
  rw [hends.segments, List.getLast?_append_of_ne_nil _ (List.cons_ne_nil _ _),
    List.getLast?_singleton] at hlast
  obtain ⟨piece, hpiece, rfl⟩ := List.mem_map.1 (List.mem_of_getLast? hlast.symm)
  have hsubset := Path.subset_of_cutName hcut
  rw [String.toList_ofList] at hsubset
  exact hfile.of_subset (fun c hc => subset_of_mem_splitChars hpiece (hsubset hc))

/-- A letter in lower case is not blank unless it was. -/
theorem isBlank_toLower {c : Char} (h : isBlank c = false) : isBlank c.toLower = false := by
  have hall : ∀ n < 91, 65 ≤ n → isBlank (Char.ofNat n).toLower = false := by decide
  by_cases hupper : c.val ≥ 'A'.val ∧ c.val ≤ 'Z'.val
  · have hletter := hall c.toNat (Nat.lt_succ_of_le hupper.2) hupper.1
    rwa [Char.ofNat_toNat] at hletter
  · have hsame : c.toLower = c := dif_neg hupper
    rwa [hsame]

/-- Bytes are written with the 64 digits and the padding. -/
theorem Text.Base64.forall_mem_encode {P : Char → Prop} (hdigit : ∀ n < 64, P (digit n))
    (hpad : P '=') (bytes : List UInt8) : ∀ c ∈ encode bytes, P c := by
  fun_induction encode bytes with
  | case1 => exact List.forall_mem_nil _
  | case2 a n =>
    have hn : n = a.toNat * 16 := rfl
    have ha := a.toNat_lt
    have hfirst := hdigit (n / 64) (by omega)
    have hsecond := hdigit (n % 64) (by omega)
    simp [hfirst, hsecond, hpad]
  | case3 a b n =>
    have hn : n = (a.toNat * 256 + b.toNat) * 4 := rfl
    have ha := a.toNat_lt
    have hb := b.toNat_lt
    have hfirst := hdigit (n / 4096) (by omega)
    have hsecond := hdigit (n / 64 % 64) (by omega)
    have hthird := hdigit (n % 64) (by omega)
    simp [hfirst, hsecond, hthird, hpad]
  | case4 a b c rest n ih =>
    have hn : n = (a.toNat * 256 + b.toNat) * 256 + c.toNat := rfl
    have ha := a.toNat_lt
    have hb := b.toNat_lt
    have hc := c.toNat_lt
    have hfirst := hdigit (n / 262144) (by omega)
    have hsecond := hdigit (n / 4096 % 64) (by omega)
    have hthird := hdigit (n / 64 % 64) (by omega)
    have hfourth := hdigit (n % 64) (by omega)
    simpa [hfirst, hsecond, hthird, hfourth] using ih

theorem Text.Base64.encode_solid (bytes : List UInt8) : IsSolid (encode bytes) :=
  forall_mem_encode (P := fun c => isBlank c = false) (by decide) rfl bytes

namespace Image

/-- The media type of a file that can be read under a word is a word. -/
theorem mediaType_solid {d : Disk} {q : Path} {file : String} {bytes : ByteArray}
    (hread : d.read (q.join ⟨file⟩) = .ok bytes) (hfile : IsSolid file.toList) :
    IsSolid (mediaType (q.join ⟨file⟩)).toList := by
  unfold mediaType
  split
  · rename_i type htype
    have hall : ∀ format ∈ formats, IsSolid format.2.toList := by decide +kernel
    obtain ⟨key, -, hlookup⟩ := Option.bind_eq_some_iff.1 htype
    obtain ⟨before, after, hformats, -⟩ := List.lookup_eq_some_iff.1 hlookup
    exact hall (key, type) (by simp [hformats])
  · rw [String.toList_append, isSolid_append]
    refine ⟨by decide, ?_⟩
    unfold Path.lowerExtension?
    cases hextension : (q.join ⟨file⟩).extension? with
    | none => decide
    | some extension =>
      have hsolid := Disk.extension_solid hread hfile hextension
      rw [Option.map_some, Option.getD_some, String.toList_map]
      exact List.forall_mem_map.2 fun c hc => isBlank_toLower (hsolid c hc)

theorem dataUrl_solid {type : String} (h : IsSolid type.toList) (bytes : ByteArray) :
    IsSolid (dataUrl type bytes).toList := by
  simp only [dataUrl, String.toList_append, isSolid_append, String.toList_ofList]
  exact ⟨⟨⟨by decide, h⟩, by decide⟩, Base64.encode_solid _⟩

theorem data_prefix_dataUrl (type : String) (bytes : ByteArray) :
    "data:".toList <+: (dataUrl type bytes).toList := by
  simp only [dataUrl, String.toList_append, List.append_assoc]
  exact List.prefix_append _ _

end Image

namespace Mtl

variable {d : Disk} {directory : Path} {line before file after ending : List Char}

/-! ## Single lines -/

/-- The path of a file that a line names. -/
def imageAt (directory : Path) (file : List Char) : Path :=
  directory.join ⟨String.ofList file⟩

/-- The data URL that is put in place of the name of a file. -/
def imageUrl (directory : Path) (file : List Char) (bytes : ByteArray) : List Char :=
  (Image.dataUrl (Image.mediaType (imageAt directory file)) bytes).toList

/-- A line that needs a file: it is a directive that names the file, before its ending. -/
structure Needs (line before file after ending : List Char) : Prop where
  ends : CutsEnd isEnding line (before ++ file ++ after) ending
  names : Names (before ++ file ++ after) before file after

/-- A line and the line it becomes. The name of a file is replaced by a data URL, and what stands
around it stays, the ending included. -/
inductive Inlined (d : Disk) (directory : Path) (line : List Char) : List Char → Prop
  | kept (idle : ∀ before file after ending, ¬ Needs line before file after ending) :
    Inlined d directory line line
  | replaced {before file after ending : List Char} {bytes : ByteArray}
    (needs : Needs line before file after ending)
    (read : d.read (imageAt directory file) = .ok bytes)
    (ends : CutsEnd isEnding (before ++ imageUrl directory file bytes ++ after ++ ending)
      (before ++ imageUrl directory file bytes ++ after) ending) :
    Inlined d directory line (before ++ imageUrl directory file bytes ++ after ++ ending)

/-- A line that needs a file which cannot be read, and the error it causes. -/
inductive Misses (d : Disk) (directory : Path) (line : List Char) : Error → Prop
  | mk {before file after ending : List Char} {fault : Fault}
    (needs : Needs line before file after ending)
    (unread : d.read (imageAt directory file) = .error fault) :
    Misses d directory line (.assetRead (imageAt directory file) fault)

theorem needs_iff : Needs line before file after ending ↔
    Names (body line) before file after ∧ Mtl.ending line = ending := by
  constructor
  · rintro ⟨ends, names⟩
    obtain ⟨hbody, hending⟩ := ends.unique
    rw [body, hbody]
    exact ⟨names, hending⟩
  · rintro ⟨names, rfl⟩
    have ends := cutsEnd_body line
    rw [names.last.eq] at ends
    exact ⟨ends, names.last.eq ▸ names⟩

/-- The data URL of a file that a line names is one word. -/
theorem Names.url_solid {bytes : ByteArray} (h : Names line before file after)
    (hread : d.read (imageAt directory file) = .ok bytes) :
    IsSolid (imageUrl directory file bytes) := by
  refine Image.dataUrl_solid (Image.mediaType_solid hread ?_) bytes
  rw [String.toList_ofList]
  exact h.last.solid

theorem imageUrl_ne_nil (directory : Path) (file : List Char) (bytes : ByteArray) :
    imageUrl directory file bytes ≠ [] :=
  (Image.data_prefix_dataUrl ..).ne_nil (List.cons_ne_nil _ _)

theorem Names.inlineBody_eq (h : Names line before file after) (d : Disk) (directory : Path) :
    inlineBody d directory line =
      (Image.fileDataUrl d (imageAt directory file)).map fun url =>
        before ++ url.toList ++ after := by
  have hneeded : neededImage? line = some (String.ofList file) :=
    neededImage?_eq_some_iff.2 ⟨before, after, by rwa [String.toList_ofList]⟩
  rw [inlineBody, hneeded, (isLastWord_iff_of.1 h.last).1]
  rfl

theorem inlineBody_eq_self (h : ∀ before file after, ¬ Names line before file after) (d : Disk)
    (directory : Path) : inlineBody d directory line = .ok line := by
  cases hneeded : neededImage? line with
  | none => rw [inlineBody, hneeded]
  | some file =>
    obtain ⟨before, after, hnames⟩ := neededImage?_eq_some_iff.1 hneeded
    exact absurd hnames (h before file.toList after)

/-- The ending of a line stays when its last word is replaced. -/
theorem IsLastWord.cutsEnd_replace {url : List Char} (h : IsLastWord line before file after)
    (hends : ∀ c, line.getLast? = some c → isEnding c = false) (hne : url ≠ [])
    (hurl : IsSolid url) (hending : ∀ c ∈ ending, isEnding c = true) :
    CutsEnd isEnding (before ++ url ++ after ++ ending) (before ++ url ++ after) ending := by
  refine ⟨rfl, hending, fun c hc => ?_⟩
  by_cases hafter : after = []
  · rw [hafter, List.append_nil, List.getLast?_append_of_ne_nil _ hne] at hc
    have hsolid := hurl c (List.mem_of_getLast? hc)
    have hblank : isEnding c = true → isBlank c = true := by
      simp only [isEnding, Bool.or_eq_true, decide_eq_true_eq]
      rintro (rfl | rfl) <;> rfl
    exact Bool.eq_false_iff.2 fun hc => by simp [hblank hc] at hsolid
  · rw [List.getLast?_append_of_ne_nil _ hafter] at hc
    refine hends c ?_
    rwa [h.eq, List.getLast?_append_of_ne_nil _ hafter]

theorem Inlined.inlineBody_eq {line' : List Char} (h : Inlined d directory line line') :
    ∃ cs, inlineBody d directory (body line) = .ok cs ∧ line' = cs ++ Mtl.ending line := by
  cases h with
  | kept idle =>
    refine ⟨body line, inlineBody_eq_self (fun before file after names => ?_) d directory,
      (cutsEnd_body line).eq⟩
    exact idle before file after _ (needs_iff.2 ⟨names, rfl⟩)
  | replaced needs read _ =>
    obtain ⟨names, rfl⟩ := needs_iff.1 needs
    rw [names.inlineBody_eq, Image.fileDataUrl, read]
    exact ⟨_, rfl, rfl⟩

theorem Misses.inlineBody_eq {e : Error} (h : Misses d directory line e) :
    inlineBody d directory (body line) = .error e := by
  obtain ⟨needs, unread⟩ := h
  obtain ⟨names, -⟩ := needs_iff.1 needs
  rw [names.inlineBody_eq, Image.fileDataUrl, unread]
  rfl

theorem inlined_or_misses (d : Disk) (directory : Path) (line : List Char) :
    (∃ line', Inlined d directory line line') ∨ ∃ e, Misses d directory line e := by
  by_cases hneeds : ∃ before file after, Names (body line) before file after
  · obtain ⟨before, file, after, names⟩ := hneeds
    have needs : Needs line before file after (Mtl.ending line) := needs_iff.2 ⟨names, rfl⟩
    cases hread : d.read (imageAt directory file) with
    | error fault => exact .inr ⟨_, needs, hread⟩
    | ok bytes =>
      have hends := cutsEnd_body line
      exact .inl ⟨_, .replaced needs hread (names.last.cutsEnd_replace hends.fails
        (imageUrl_ne_nil directory file bytes) (names.url_solid hread) hends.holds)⟩
  · refine .inl ⟨line, .kept fun before file after ending needs => hneeds ?_⟩
    exact ⟨before, file, after, (needs_iff.1 needs).1⟩

theorem inlined_iff {line' : List Char} : Inlined d directory line line' ↔
    ∃ cs, inlineBody d directory (body line) = .ok cs ∧ line' = cs ++ Mtl.ending line := by
  refine ⟨Inlined.inlineBody_eq, ?_⟩
  rintro ⟨cs, hcs, rfl⟩
  rcases inlined_or_misses d directory line with ⟨line', h⟩ | ⟨e, h⟩
  · obtain ⟨cs', hcs', rfl⟩ := h.inlineBody_eq
    obtain rfl := Except.ok.inj (hcs.symm.trans hcs')
    exact h
  · cases hcs.symm.trans h.inlineBody_eq

theorem misses_iff {e : Error} :
    Misses d directory line e ↔ inlineBody d directory (body line) = .error e := by
  refine ⟨Misses.inlineBody_eq, fun he => ?_⟩
  rcases inlined_or_misses d directory line with ⟨line', h⟩ | ⟨e', h⟩
  · obtain ⟨cs, hcs, -⟩ := h.inlineBody_eq
    cases he.symm.trans hcs
  · obtain rfl := Except.error.inj (he.symm.trans h.inlineBody_eq)
    exact h

/-! ## All lines -/

theorem inlineLines_eq_ok_iff {lines lines' : List (List Char)} :
    inlineLines d directory lines = .ok lines' ↔
      List.Forall₂ (Inlined d directory) lines lines' := by
  induction lines generalizing lines' with
  | nil => simp [inlineLines, eq_comm]
  | cons line lines ih =>
    rw [inlineLines, except_bind_eq_ok]
    constructor
    · rintro ⟨cs, hcs, hrest⟩
      obtain ⟨more, hmore, hdone⟩ := except_bind_eq_ok.1 hrest
      cases hdone
      exact .cons (inlined_iff.2 ⟨cs, hcs, rfl⟩) (ih.1 hmore)
    · intro h
      cases h with
      | cons hline hlines =>
        obtain ⟨cs, hcs, rfl⟩ := inlined_iff.1 hline
        exact ⟨cs, hcs, except_bind_eq_ok.2 ⟨_, ih.2 hlines, rfl⟩⟩

theorem inlineLines_cons_eq_error_iff {lines : List (List Char)} {e : Error} :
    inlineLines d directory (line :: lines) = .error e ↔ Misses d directory line e ∨
      (∀ e', ¬ Misses d directory line e') ∧ inlineLines d directory lines = .error e := by
  simp only [misses_iff, inlineLines]
  cases inlineBody d directory (body line) with
  | error fault => simp [bind, Except.bind]
  | ok cs => cases inlineLines d directory lines <;> simp [bind, Except.bind, pure, Except.pure]

/-- The first line that misses its file decides on the error. -/
theorem inlineLines_eq_error_iff {lines : List (List Char)} {e : Error} :
    inlineLines d directory lines = .error e ↔
      ∃ earlier line later, lines = earlier ++ line :: later ∧
        (∀ l ∈ earlier, ∀ e', ¬ Misses d directory l e') ∧ Misses d directory line e := by
  induction lines with
  | nil => simp [inlineLines]
  | cons line lines ih =>
    rw [inlineLines_cons_eq_error_iff, ih]
    constructor
    · rintro (h | ⟨hline, earlier, l, later, rfl, hearlier, hl⟩)
      · exact ⟨[], line, lines, rfl, List.forall_mem_nil _, h⟩
      · exact ⟨line :: earlier, l, later, rfl, List.forall_mem_cons.2 ⟨hline, hearlier⟩, hl⟩
    · rintro ⟨earlier, l, later, hlines, hearlier, hl⟩
      cases earlier with
      | nil =>
        obtain ⟨rfl, -⟩ := List.cons.inj hlines
        exact .inl hl
      | cons first earlier =>
        obtain ⟨rfl, rfl⟩ := List.cons.inj hlines
        obtain ⟨hfirst, hearlier⟩ := List.forall_mem_cons.1 hearlier
        exact .inr ⟨hfirst, earlier, l, later, rfl, hearlier, hl⟩

/-- What becomes of a line, seen as the replacement of one word by another, at most. -/
theorem Inlined.swap {line' : List Char} (h : Inlined d directory line line') :
    line' = line ∨ ∃ front word url rest,
      line = front ++ word ++ rest ∧ line' = front ++ url ++ rest ∧
        (word ≠ [] ∧ IsSolid word) ∧ url ≠ [] ∧ IsSolid url := by
  cases h with
  | kept _ => exact .inl rfl
  | @replaced before file after ending bytes needs read _ =>
    refine .inr ⟨before, file, imageUrl directory file bytes, after ++ ending, ?_, ?_,
      ⟨needs.names.last.ne, needs.names.last.solid⟩, imageUrl_ne_nil directory file bytes,
      needs.names.url_solid read⟩
    · rw [needs.ends.eq, List.append_assoc]
    · rw [List.append_assoc]

theorem Inlined.last {line' : List Char} (h : Inlined d directory line line') (hne : line ≠ [])
    (hfree : '\n' ∉ line) : line' ≠ [] ∧ '\n' ∉ line' := by
  rcases h.swap with rfl | ⟨front, word, url, rest, rfl, rfl, -, hurl, hsolid⟩
  · exact ⟨hne, hfree⟩
  · have hnewline : '\n' ∉ url := fun h => by cases hsolid _ h
    simp only [List.mem_append, not_or] at hfree ⊢
    exact ⟨by simp [hurl], ⟨hfree.1.1, hnewline⟩, hfree.2⟩

theorem Inlined.terminated {cs line' : List Char}
    (h : Inlined d directory (cs ++ ['\n']) line') (hfree : '\n' ∉ cs) :
    ∃ cs', '\n' ∉ cs' ∧ line' = cs' ++ ['\n'] := by
  rcases h.swap with rfl | ⟨front, word, url, rest, hline, rfl, ⟨hword, hsolid⟩, -, hurl⟩
  · exact ⟨cs, hfree, rfl⟩
  · have hnewline : '\n' ∉ url := fun h => by cases hurl _ h
    rcases rest.eq_nil_or_concat with rfl | ⟨rest, c, rfl⟩
    · have hlast := congrArg List.getLast? hline
      rw [List.append_nil, List.getLast?_append_of_ne_nil _ hword, List.getLast?_concat] at hlast
      cases hsolid _ (List.mem_of_getLast? hlast.symm)
    · rw [List.concat_eq_append, ← List.append_assoc, List.append_singleton_inj] at hline
      obtain ⟨rfl, rfl⟩ := hline
      simp only [List.mem_append, not_or] at hfree
      refine ⟨front ++ url ++ rest, ?_, by rw [List.concat_eq_append, ← List.append_assoc]⟩
      simp only [List.mem_append, not_or]
      exact ⟨⟨hfree.1.1, hnewline⟩, hfree.2⟩

/-- The lines of a text become the lines of another. -/
theorem areLines_of_inlined {lines lines' : List (List Char)} (h : AreLines lines)
    (hinlined : List.Forall₂ (Inlined d directory) lines lines') : AreLines lines' := by
  induction h generalizing lines' with
  | nil =>
    cases hinlined
    exact .nil
  | last ne free =>
    obtain _ | ⟨hline, hrest⟩ := hinlined
    cases hrest
    obtain ⟨ne', free'⟩ := hline.last ne free
    exact .last ne' free'
  | cons cs free _ ih =>
    obtain _ | ⟨hline, hrest⟩ := hinlined
    obtain ⟨cs', free', rfl⟩ := hline.terminated free
    exact .cons cs' free' (ih hrest)

/-! ## Whole texts -/

theorem inlineImages_eq_ok_iff {text r : String} {lines : List (List Char)}
    (hlines : LinesOf text lines) :
    inlineImages d directory text = .ok r ↔
      ∃ lines', LinesOf r lines' ∧ List.Forall₂ (Inlined d directory) lines lines' := by
  rw [inlineImages, linesOf_iff.1 hlines, except_bind_eq_ok]
  simp only [inlineLines_eq_ok_iff]
  constructor
  · rintro ⟨lines', hinlined, hr⟩
    obtain rfl := Except.ok.inj hr
    exact ⟨lines', ⟨areLines_of_inlined hlines.are hinlined, String.toList_ofList.symm⟩, hinlined⟩
  · rintro ⟨lines', hlines', hinlined⟩
    refine ⟨lines', hinlined, congrArg Except.ok ?_⟩
    rw [hlines'.join, String.ofList_toList]

theorem inlineImages_eq_error_iff {text : String} {lines : List (List Char)} {e : Error}
    (hlines : LinesOf text lines) :
    inlineImages d directory text = .error e ↔ inlineLines d directory lines = .error e := by
  rw [inlineImages, linesOf_iff.1 hlines]
  cases inlineLines d directory lines <;> simp [bind, Except.bind, pure, Except.pure]

theorem exists_inlineLines_error_iff {lines : List (List Char)} :
    (∃ e, inlineLines d directory lines = .error e) ↔
      ∃ line ∈ lines, ∃ e, Misses d directory line e := by
  induction lines with
  | nil => simp [inlineLines]
  | cons line lines ih =>
    simp only [inlineLines_cons_eq_error_iff, exists_or, exists_and_left, ih,
      List.exists_mem_cons_iff, ← not_exists]
    by_cases hline : ∃ e, Misses d directory line e <;> simp [hline]

/-- Inlining fails where a line needs a file that cannot be read, with the error of the first such
line. Otherwise every line that needs a file has the data URL in its place, and nothing else
changes. -/
theorem inlineImages_by_lines (d : Disk) (directory : Path) (text : String) :
    ∃ lines, LinesOf text lines ∧
      ((∃ e, inlineImages d directory text = .error e) ↔
        ∃ line ∈ lines, ∃ e, Misses d directory line e) ∧
      (∀ e, inlineImages d directory text = .error e ↔
        ∃ earlier line later, lines = earlier ++ line :: later ∧
          (∀ l ∈ earlier, ∀ e', ¬ Misses d directory l e') ∧ Misses d directory line e) ∧
      ∀ r, inlineImages d directory text = .ok r ↔
        ∃ lines', LinesOf r lines' ∧ List.Forall₂ (Inlined d directory) lines lines' := by
  have hlines : LinesOf text (linesChars text.toList) := linesOf_iff.2 rfl
  refine ⟨_, hlines, ?_, fun e => ?_, fun r => inlineImages_eq_ok_iff hlines⟩
  · simp only [inlineImages_eq_error_iff hlines]
    exact exists_inlineLines_error_iff
  · rw [inlineImages_eq_error_iff hlines]
    exact inlineLines_eq_error_iff

/-! ## Inlining again -/

/-- A line needs no file once it has its data URL. -/
theorem Inlined.idle {line' : List Char} (h : Inlined d directory line line')
    (before file after ending : List Char) : ¬ Needs line' before file after ending := by
  cases h with
  | kept idle => exact idle before file after ending
  | @replaced front name rest _ bytes needs read ends =>
    intro again
    have hbody : front ++ imageUrl directory name bytes ++ rest = before ++ file ++ after :=
      ends.unique.1.symm.trans again.ends.unique.1
    have hlast : IsLastWord (before ++ file ++ after) front (imageUrl directory name bytes) rest :=
      { needs.names.last with
        eq := hbody.symm
        ne := imageUrl_ne_nil directory name bytes
        solid := needs.names.url_solid read }
    obtain ⟨-, rfl, -⟩ := LastWord.mk.inj
      ((isLastWord_iff_of.1 hlast).1.symm.trans (isLastWord_iff_of.1 again.names.last).1)
    exact again.names.fresh (Image.data_prefix_dataUrl ..)

theorem forall_idle_of_inlined {lines lines' : List (List Char)}
    (h : List.Forall₂ (Inlined d directory) lines lines') :
    ∀ line ∈ lines', ∀ before file after ending, ¬ Needs line before file after ending := by
  induction h with
  | nil => exact List.forall_mem_nil _
  | cons hline _ ih => exact List.forall_mem_cons.2 ⟨hline.idle, ih⟩

/-- The result of inlining needs no file, so inlining again changes nothing, whatever is on the
disk. -/
theorem inlineImages_settled {d : Disk} {directory : Path} {text r : String}
    (h : inlineImages d directory text = .ok r) :
    (∀ d' directory', inlineImages d' directory' r = .ok r) ∧
      ∀ lines, LinesOf r lines → ∀ line ∈ lines, ∀ before file after ending,
        ¬ Needs line before file after ending := by
  obtain ⟨lines', hlines', hinlined⟩ := (inlineImages_eq_ok_iff (linesOf_iff.2 rfl)).1 h
  have hidle := forall_idle_of_inlined hinlined
  refine ⟨fun d' directory' => ?_, fun lines hlines => ?_⟩
  · refine (inlineImages_eq_ok_iff hlines').2 ⟨lines', hlines', ?_⟩
    exact List.forall₂_same.2 fun line hline => .kept (hidle line hline)
  · rwa [← linesOf_iff.1 hlines, linesOf_iff.1 hlines']

/-- A disk with an image under the name of a directive, and one of an unknown kind. -/
def swatches : Disk where
  cwd := .root
  nodes := [(⟨["bump"]⟩, .file "A".toUTF8), (⟨["a.X"]⟩, .file "B".toUTF8)]

/-- A directive whose only word is its keyword, and one that has the name of its file twice. -/
def swatchText : String :=
  "bump \r\nmap_Kd a.X a.X"

/-- The first line is no directive any more. -/
def swatchResult : String :=
  "data:image/octet-stream;base64,QQ== \r\nmap_Kd a.X data:image/x;base64,Qg=="

/-- Neither line needs a file of an empty disk. -/
theorem inlineImages_settled_swatches :
    inlineImages swatches ⟨"."⟩ swatchText = .ok swatchResult ∧
      inlineImages ⟨.root, []⟩ ⟨"elsewhere"⟩ swatchResult = .ok swatchResult ∧
      ∀ lines, LinesOf swatchResult lines → ∀ line ∈ lines, ∀ before file after ending,
        ¬ Needs line before file after ending := by
  have h : inlineImages swatches ⟨"."⟩ swatchText = .ok swatchResult :=
    except_toOption_eq_some.1 (by decide +kernel)
  obtain ⟨hagain, hidle⟩ := inlineImages_settled h
  exact ⟨h, hagain _ _, hidle⟩

end Mtl

end SceneScript
