import SceneScript.Proofs.TextureKeys

/-!
# The output directory

Everything that a run makes goes to the directory of its output. Making this directory adds
directories and changes no file (`makeDirectories_adds`). What is joined to the directory of a path
stands next to what the path leads to (`leadsInto_directory_join`).
-/

namespace SceneScript

namespace Disk

/-! ## Files and directories -/

/-- The contents of the file at a place. -/
def file? (d : Disk) (l : Location) : Option ByteArray :=
  match d.node? l with
  | some (.file contents) => some contents
  | _ => none

theorem file?_of_node? {d d' : Disk} {l : Location} (h : d'.node? l = d.node? l) :
    d'.file? l = d.file? l := by
  simp only [file?, h]

/-- Where a directory stands there has been no file before. -/
theorem Grows.file?_of_directory {d d' : Disk} (h : Grows d d') {l : Location}
    (hl : d'.node? l = some .directory) : d'.file? l = d.file? l := by
  have hnone : d'.file? l = none := by simp only [file?, hl]
  rw [hnone]
  cases hold : d.node? l with
  | none => simp only [file?, hold]
  | some n =>
    cases n with
    | directory => simp only [file?, hold]
    | file c =>
      obtain ⟨c', hc⟩ := h.file hold
      rw [hl] at hc
      cases hc

/-- The second disk has more directories, perhaps, but the same files. -/
structure AddsDirectories (d d' : Disk) : Prop where
  grows : Grows d d'
  file? (l : Location) : d'.file? l = d.file? l

namespace AddsDirectories

variable {d d' d'' : Disk}

theorem refl (d : Disk) : AddsDirectories d d :=
  ⟨.refl d, fun _ => rfl⟩

theorem trans (h : AddsDirectories d d') (h' : AddsDirectories d' d'') : AddsDirectories d d'' :=
  ⟨h.grows.trans h'.grows, fun l => (h'.file? l).trans (h.file? l)⟩

end AddsDirectories

/-- A directory may be put where nothing stands. -/
theorem addsDirectories_set {d : Disk} {l : Location} (h : d.node? l = none) :
    AddsDirectories d (d.set l .directory) := by
  have hroot : l ≠ .root := by
    rintro rfl
    simp [node?] at h
  have hother {other : Location} {n : Node} (ho : d.node? other = some n) : other ≠ l := by
    rintro rfl
    rw [h] at ho
    cases ho
  have hkept {other : Location} {n : Node} (ho : d.node? other = some n) :
      (d.set l .directory).node? other = some n := by
    rw [node?_set_of_ne d _ (hother ho), ho]
  refine ⟨⟨rfl, hkept, fun ho => ⟨_, hkept ho⟩⟩, fun other => ?_⟩
  · by_cases ho : other = l
    · rw [ho]
      simp only [file?, h, node?_set_self d .directory hroot]
    · exact file?_of_node? (node?_set_of_ne d _ ho)

theorem makeDirectory_adds {d d' : Disk} {p : Path} (h : d.makeDirectory p = .ok d') :
    AddsDirectories d d' := by
  obtain ⟨_ | ⟨l, slash⟩, -, h⟩ := except_bind_eq_ok.1 h
  · cases h
  dsimp only at h
  split at h <;> [cases h; skip]
  split at h <;> [cases h; skip]
  rename_i hnone
  cases h
  exact addsDirectories_set hnone

/-- Directories that are made before a refusal stay, and nothing else has changed. -/
theorem makeDirectoriesFrom_adds (d : Disk) (ps : List Path) :
    AddsDirectories d (d.makeDirectoriesFrom ps).2 := by
  induction ps with
  | nil => exact .refl d
  | cons p parents ih =>
    have there {d' : Disk} (hd : AddsDirectories d d') (fault : Fault) :
        AddsDirectories d (if d'.isDirectory p then (.ok (), d') else (.error fault, d') :
          Except Fault Unit × Disk).2 := by
      split <;> exact hd
    unfold makeDirectoriesFrom
    split
    · exact .refl d
    split
    · rename_i hmake
      exact makeDirectory_adds hmake
    · -- the parents are made first
      split
      · rename_i hparents
        rwa [hparents] at ih
      · rename_i d' hparents
        rw [hparents] at ih
        split
        · rename_i hmake
          exact ih.trans (makeDirectory_adds hmake)
        · exact there ih _
    · exact there (.refl d) _

theorem makeDirectories_adds (d : Disk) (p : Path) : AddsDirectories d (d.makeDirectories p).2 :=
  makeDirectoriesFrom_adds d p.ancestors

theorem segments_of_cutLast {p : Path} {before : List String} {last : String} {slash : Bool}
    (h : cutLast p = some (before, last, slash)) :
    ∃ rest, p.segments = before ++ last :: rest ∧ last ≠ "" := by
  unfold cutLast at h
  cases hkept : p.segments.reverse.dropWhile (· = "") with
  | nil => simp [hkept] at h
  | cons name kept =>
    simp only [hkept, Option.some.injEq, Prod.mk.injEq] at h
    obtain ⟨rfl, rfl, -⟩ := h
    have hsplit := List.takeWhile_append_dropWhile (p := fun x => decide (x = ""))
      (l := p.segments.reverse)
    rw [hkept] at hsplit
    have hname := List.head?_dropWhile_not (fun x => decide (x = "")) p.segments.reverse
    refine ⟨(p.segments.reverse.takeWhile (· = "")).reverse, ?_, by simpa [hkept] using hname⟩
    have hreverse := congrArg List.reverse hsplit
    rw [List.reverse_reverse] at hreverse
    simpa using hreverse.symm

/-- Where a path leads to a directory, none is made. -/
theorem makeDirectory_of_isDirectory {d : Disk} {p : Path} (h : d.isDirectory p = true) :
    ∃ fault, d.makeDirectory p = .error fault ∧ fault ≠ .notFound := by
  obtain ⟨l, hreach, -⟩ := isDirectory_iff.1 h
  obtain ⟨u, hcheck, hlocate⟩ := except_bind_eq_ok.1 hreach
  obtain ⟨-, -, hwalk⟩ := except_bind_eq_ok.1 hlocate
  simp only [makeDirectory, target, hcheck, bind, Except.bind]
  cases hcut : cutLast p with
  | none => exact ⟨_, rfl, by decide⟩
  | some cut =>
    obtain ⟨before, last, slash⟩ := cut
    obtain ⟨rest, hsegments, hlast⟩ := segments_of_cutLast hcut
    rw [hsegments, walk_append] at hwalk
    obtain ⟨parent, hparent, hwalk⟩ := except_bind_eq_ok.1 hwalk
    simp only [walk] at hwalk
    simp only [hparent]
    cases hnode : d.node? parent with
    | none => simp [hnode] at hwalk
    | some n =>
      cases n with
      | file c => simp [hnode] at hwalk
      | directory =>
        simp only [hnode] at hwalk ⊢
        by_cases hdots : last = "." ∨ last = ".."
        · simp only [Bool.or_eq_true, decide_eq_true_eq, hdots, ↓reduceIte]
          exact ⟨_, rfl, by decide⟩
        · obtain ⟨hdot, hup⟩ := not_or.1 hdots
          have hvoid : Path.isVoid last = false := by simp [Path.isVoid, hlast, hdot]
          simp only [hvoid, hup, Bool.false_eq_true, ↓reduceIte] at hwalk
          simp only [hdot, hup, decide_false, Bool.or_self, Bool.false_eq_true, ↓reduceIte]
          split_ifs at hwalk with hlong
          cases hchild : d.node? (parent.child last) with
          | none => simp [hchild] at hwalk
          | some n =>
            have hname : ((parent.child last).names.getLast?.getD "") = last := by
              simp [Location.child]
            simp only [hlong, decide_false, Bool.false_and, Bool.false_eq_true, ↓reduceIte, hname,
              hchild]
            exact ⟨_, rfl, by decide⟩

/-- A directory that exists is left alone, and so is all else. -/
theorem makeDirectories_of_isDirectory {d : Disk} {p : Path} (h : d.isDirectory p = true) :
    d.makeDirectories p = (.ok (), d) := by
  obtain ⟨fault, hfault, hne⟩ := makeDirectory_of_isDirectory h
  simp only [makeDirectories, Path.ancestors, makeDirectoriesFrom, hfault]
  split
  · rfl
  · cases fault <;> simp_all

/-- The second disk has the same files, but perhaps at the places of some paths. -/
structure ChangesOnly (ps : List Path) (d d' : Disk) : Prop where
  grows : Grows d d'
  changed (l : Location) : d'.file? l ≠ d.file? l → ∃ p ∈ ps, d'.reach p = .ok l

/-- The place where a path makes or replaces a file has the same contents on both disks. -/
def Untouched (p : Path) (d d' : Disk) : Prop :=
  ∀ l, d'.target p = .ok (some (l, false)) → d'.file? l = d.file? l

namespace ChangesOnly

variable {ps qs : List Path} {d d' d'' : Disk}

theorem of_adds (h : AddsDirectories d d') : ChangesOnly [] d d' :=
  ⟨h.grows, fun l hl => absurd (h.file? l) hl⟩

theorem of_write {p : Path} {contents : ByteArray} (h : d.write p contents = .ok d') :
    ChangesOnly [p] d d' := by
  refine ⟨write_grows h, fun l hl => ⟨p, List.mem_singleton_self p, ?_⟩⟩
  obtain ⟨place, -, hset, -, hreach⟩ := write_spec h
  by_cases hplace : l = place
  · rw [hplace, hreach]
  · rw [hset] at hl
    exact absurd (file?_of_node? (node?_set_of_ne d _ hplace)) hl

theorem mono (h : ChangesOnly ps d d') (hps : ps ⊆ qs) : ChangesOnly qs d d' := by
  refine ⟨h.grows, fun l hl => ?_⟩
  obtain ⟨p, hp, hreach⟩ := h.changed l hl
  exact ⟨p, hps hp, hreach⟩

theorem trans (h : ChangesOnly ps d d') (h' : ChangesOnly qs d' d'') :
    ChangesOnly (ps ++ qs) d d'' := by
  refine ⟨h.grows.trans h'.grows, fun l hl => ?_⟩
  by_cases hlater : d''.file? l = d'.file? l
  · rw [hlater] at hl
    obtain ⟨p, hp, hreach⟩ := h.changed l hl
    exact ⟨p, List.mem_append_left _ hp, h'.grows.reach hreach⟩
  · obtain ⟨p, hp, hreach⟩ := h'.changed l hlater
    exact ⟨p, List.mem_append_right _ hp, hreach⟩

end ChangesOnly

/-! ## Names at the end of paths -/

theorem EndsWith.essential {p : Path} {before : List String} {last : String}
    (h : EndsWith p before last) : p.essential = last :: before.reverse := by
  have hreverse : p.segments.reverse = last :: before.reverse := by simp [h.segments]
  rw [Path.essential, hreverse, List.dropWhile_cons_of_neg (by simp [h.not_void])]

theorem EndsWith.fileName? {p : Path} {before : List String} {last : String}
    (h : EndsWith p before last) : p.fileName? = some last := by
  simp only [Path.fileName?, h.essential, h.not_up, ↓reduceIte]

/-- What is written under a name does not change when only files of other names do. -/
theorem ChangesOnly.untouched {ps : List Path} {d d' : Disk} (h : ChangesOnly ps d d') {p : Path}
    (hps : ∀ q ∈ ps, ∃ before name, EndsWith q before name ∧ p.fileName? ≠ some name) :
    Untouched p d d' := by
  intro l htarget
  obtain ⟨parent, last, hleads, rfl⟩ := leadsInto_of_target htarget
  obtain ⟨before, hp, -⟩ := hleads.walk
  by_contra hchanged
  obtain ⟨q, hq, hreach⟩ := h.changed _ hchanged
  obtain ⟨before', name, hname, hne⟩ := hps q hq
  obtain ⟨parent', -, hplace, -⟩ := leadsInto_of_reach hname hreach
  rw [hp.fileName?, (child_inj hplace).2] at hne
  exact hne rfl

theorem EndsWith.join (q : Path) {name : String} (hslash : '/' ∉ name.toList)
    (hvoid : Path.isVoid name = false) (hup : name ≠ "..") :
    ∃ before, EndsWith (q.join ⟨name⟩) before name := by
  obtain ⟨before, hsegments⟩ := q.exists_segments_join hslash
  exact ⟨before, hsegments, hvoid, hup⟩

theorem endsWith_of_write {d d' : Disk} {p : Path} {contents : ByteArray}
    (h : d.write p contents = .ok d') :
    ∃ before last, EndsWith p before last := by
  obtain ⟨parent, last, hleads, -⟩ := write_eq_ok_iff.1 h
  obtain ⟨before, hends, -⟩ := hleads.walk
  exact ⟨before, last, hends⟩

/-- Where a path leads to a name, only a directory of this name keeps a file from being written. -/
theorem directory_of_write_error {d : Disk} {p : Path} {contents : ByteArray} {fault : Fault}
    {l : Location} (h : d.write p contents = .error fault)
    (htarget : d.target p = .ok (some (l, false))) : d.node? l = some .directory := by
  obtain ⟨parent, last, hleads, rfl⟩ := leadsInto_of_target htarget
  by_contra hnode
  rw [write_eq_ok_iff.2 ⟨parent, last, hleads, hnode, rfl⟩] at h
  cases h

end Disk

/-! ## Next to a file -/

namespace Path

theorem slash_not_mem_segments {p : Path} {segment : String} (h : segment ∈ p.segments) :
    '/' ∉ segment.toList := by
  obtain ⟨piece, hpiece, rfl⟩ := List.mem_map.1 h
  rw [String.toList_ofList]
  exact Text.not_mem_of_mem_splitChars hpiece

theorem segments_ofSegments {segments : List String} (hne : segments ≠ [])
    (h : ∀ segment ∈ segments, '/' ∉ segment.toList) :
    (ofSegments segments).segments = segments := by
  have hpieces : ∀ piece ∈ segments.map String.toList, '/' ∉ piece := by
    intro piece hpiece
    obtain ⟨segment, hsegment, rfl⟩ := List.mem_map.1 hpiece
    exact h segment hsegment
  have hsplit := Text.splitChars_intercalate (by simpa using hne) hpieces
  rw [Path.segments, ofSegments, Text.split, String.toList_intercalate]
  show (Text.splitChars '/' (List.intercalate ['/'] _)).map String.ofList = segments
  rw [hsplit, List.map_map]
  simp

/-- A path starts at the root just if nothing stands before its first slash. -/
theorem isAbsolute_iff (p : Path) :
    p.isAbsolute = true ↔ ∃ rest, rest ≠ [] ∧ p.segments = "" :: rest := by
  constructor
  · intro h
    obtain ⟨cs, hcs⟩ := List.head?_eq_some_iff.1 (of_decide_eq_true h)
    refine ⟨(Text.splitChars '/' cs).map String.ofList, ?_, ?_⟩
    · simpa using Text.splitChars_ne_nil '/' cs
    · rw [Path.segments, Text.split, hcs, ← List.nil_append ('/' :: cs),
        Text.splitChars_append_cons]
      rfl
  · rintro ⟨rest, hne, hsegments⟩
    obtain ⟨piece, pieces, hsplit, hpiece, hrest⟩ := List.map_eq_cons_iff.1 hsegments
    have hempty : piece = [] := by simpa using congrArg String.toList hpiece
    cases hcs : p.text.toList with
    | nil =>
      rw [hcs] at hsplit
      obtain ⟨-, rfl⟩ := List.cons.inj hsplit
      exact absurd hrest.symm hne
    | cons c cs =>
      rw [hcs, hempty] at hsplit
      simp only [Text.splitChars] at hsplit
      split at hsplit
      · rename_i hslash
        simp [isAbsolute, hcs, hslash]
      · split at hsplit <;> cases hsplit

/-- What is joined to a path follows its segments, of which an empty one at the end is lost. -/
theorem exists_join {q : Path} (hq : q.text ≠ "") {name : String} (hslash : '/' ∉ name.toList) :
    ∃ before, (q.join ⟨name⟩).segments = before ++ [name] ∧
      (q.join ⟨name⟩).isAbsolute = q.isAbsolute ∧
      (q.segments = before ∨ q.segments = before ++ [""]) := by
  have relative : (Path.mk name).isAbsolute = false := by
    have : name.toList.head? ≠ some '/' := fun e => hslash (List.mem_of_head? e)
    simpa [isAbsolute] using this
  obtain ⟨c, cs, hcs⟩ : ∃ c cs, q.text.toList = c :: cs :=
    List.exists_cons_of_ne_nil fun e => hq (String.toList_inj.1 e)
  have hname : Text.splitChars '/' name.toList = [name.toList] := Text.splitChars_of_not_mem hslash
  simp only [join, relative, hq, decide_false, Bool.false_or, Bool.false_eq_true, ↓reduceIte]
  split
  · rename_i hend
    obtain ⟨front, hfront⟩ := List.getLast?_eq_some_iff.1 (of_decide_eq_true hend)
    refine ⟨(Text.splitChars '/' front).map String.ofList, ?_, ?_, .inr ?_⟩
    · rw [Path.segments, Text.split, String.toList_append, hfront, List.append_assoc,
        List.singleton_append, Text.splitChars_append_cons, List.map_append, hname]
      simp
    · simp [isAbsolute, hcs]
    · rw [Path.segments, Text.split, hfront, Text.splitChars_append_cons, List.map_append]
      rfl
  · refine ⟨q.segments, ?_, ?_, .inl rfl⟩
    · rw [Path.segments, Text.split, String.toList_append, String.toList_append, List.append_assoc]
      show (Text.splitChars '/' (q.text.toList ++ '/' :: name.toList)).map String.ofList = _
      rw [Text.splitChars_append_cons, List.map_append, hname]
      simp [Path.segments, Text.split]
    · simp [isAbsolute, hcs]

end Path

namespace Disk

variable {d : Disk} {p : Path} {before : List String} {last : String}

/-- Segments that stand for nothing lead nowhere else. -/
theorem walk_of_void {l : Location} {segments : List String}
    (h : ∀ segment ∈ segments, Path.isVoid segment = true) (hl : d.node? l = some .directory) :
    d.walk l segments = .ok l := by
  induction segments with
  | nil => rfl
  | cons segment rest ih =>
    obtain ⟨hsegment, hrest⟩ := List.forall_mem_cons.1 h
    simp only [walk, hl, hsegment, ↓reduceIte]
    exact ih hrest

theorem eq_of_walk_void {l m : Location} {segments : List String}
    (h : ∀ segment ∈ segments, Path.isVoid segment = true) (hw : d.walk l segments = .ok m) :
    m = l := by
  induction segments with
  | nil =>
    cases hw
    rfl
  | cons segment rest ih =>
    obtain ⟨hsegment, hrest⟩ := List.forall_mem_cons.1 h
    simp only [walk, hsegment, ↓reduceIte] at hw
    split at hw <;> [cases hw; cases hw; skip]
    exact ih hrest hw

namespace EndsWith

/-- Where all other segments stand for nothing, the directory is the root or the current one. -/
theorem directory_of_void (h : EndsWith p before last)
    (hvoid : before.reverse.dropWhile Path.isVoid = []) :
    p.directory = if p.isAbsolute then ⟨"/"⟩ else ⟨"."⟩ := by
  simp only [Path.directory, Path.parent?, h.essential, hvoid]
  by_cases habsolute : p.isAbsolute = true
  · rw [if_pos habsolute, if_pos habsolute]
    rfl
  · rw [if_neg habsolute, if_neg habsolute]
    by_cases hdot : before.reverse.getLast? = some "."
    · rw [if_pos hdot]
      rfl
    · rw [if_neg hdot]
      rfl

/-- Otherwise it has the segments up to the last that stands for something. -/
theorem directory_of_kept (h : EndsWith p before last) {name : String} {kept : List String}
    (hkept : before.reverse.dropWhile Path.isVoid = name :: kept) :
    p.directory.segments = (name :: kept).reverse ∧ p.directory.text ≠ "" ∧
      p.directory.isAbsolute = p.isAbsolute := by
  have hname : Path.isVoid name = false := by
    have := List.head?_dropWhile_not Path.isVoid before.reverse
    simpa [hkept] using this
  have hsplit : before = (name :: kept).reverse ++
      (before.reverse.takeWhile Path.isVoid).reverse := by
    rw [← hkept, ← List.reverse_append, List.takeWhile_append_dropWhile, List.reverse_reverse]
  have hparent : p.parent? = some (.ofSegments (name :: kept).reverse) := by
    simp only [Path.parent?, h.essential, hkept]
  generalize hks : (name :: kept).reverse = ks at hsplit hparent ⊢
  have hnotVoid : ks ≠ [""] := by
    rintro rfl
    obtain ⟨rfl, -⟩ := List.cons.inj (List.reverse_eq_iff.1 hks)
    exact absurd hname (by decide)
  obtain ⟨first, more, rfl⟩ : ∃ first more, ks = first :: more := by
    apply List.exists_cons_of_ne_nil
    rintro rfl
    simp at hks
  have hsegments : (Path.ofSegments (first :: more)).segments = first :: more := by
    refine Path.segments_ofSegments (List.cons_ne_nil _ _) fun segment hsegment => ?_
    apply Path.slash_not_mem_segments (p := p)
    rw [h.segments, hsplit]
    exact List.mem_append_left _ (List.mem_append_left _ hsegment)
  have htext : (Path.ofSegments (first :: more)).text ≠ "" := by
    intro e
    have hempty : (Path.ofSegments (first :: more)).segments = [""] := by
      rw [Path.segments, e]
      decide +kernel
    exact hnotVoid (hsegments.symm.trans hempty)
  have hdirectory : p.directory = Path.ofSegments (first :: more) := by
    simp only [Path.directory, hparent, htext, ↓reduceIte]
  rw [hdirectory]
  refine ⟨hsegments, htext, ?_⟩
  rw [Bool.eq_iff_iff, Path.isAbsolute_iff, Path.isAbsolute_iff, hsegments, h.segments, hsplit]
  simp only [List.cons_append, List.cons.injEq]
  constructor
  · rintro ⟨rest, -, rfl, rfl⟩
    exact ⟨_, by simp, rfl, rfl⟩
  · rintro ⟨rest, -, rfl, -⟩
    exact ⟨more, fun e => hnotVoid (by rw [e]), rfl, rfl⟩

end EndsWith

/-- The directory of a path leads to where the path leads without its last name. -/
theorem walk_directory {parent : Location} (hends : EndsWith p before last)
    (hwalk : d.walk (d.origin p) before = .ok parent)
    (hparent : d.node? parent = some .directory) :
    p.directory.text ≠ "" ∧ d.walk (d.origin p.directory) p.directory.segments = .ok parent := by
  have hvoid : ∀ segment ∈ (before.reverse.takeWhile Path.isVoid).reverse,
      Path.isVoid segment = true := by
    intro segment hsegment
    exact List.all_eq_true.1 List.all_takeWhile segment (List.mem_reverse.1 hsegment)
  have hsplit : before = (before.reverse.dropWhile Path.isVoid).reverse ++
      (before.reverse.takeWhile Path.isVoid).reverse := by
    rw [← List.reverse_append, List.takeWhile_append_dropWhile, List.reverse_reverse]
  cases hkept : before.reverse.dropWhile Path.isVoid with
  | nil =>
    rw [hkept, List.reverse_nil, List.nil_append] at hsplit
    rw [hsplit] at hwalk
    obtain rfl : parent = d.origin p := eq_of_walk_void hvoid hwalk
    have hdirectory := hends.directory_of_void hkept
    by_cases habsolute : p.isAbsolute = true
    · rw [if_pos habsolute] at hdirectory
      have horigin : d.origin p = d.origin ⟨"/"⟩ := by
        rw [origin, origin, if_pos habsolute, if_pos (by decide +kernel)]
      rw [hdirectory, horigin]
      exact ⟨by decide, walk_of_void (by decide +kernel) (horigin ▸ hparent)⟩
    · rw [if_neg habsolute] at hdirectory
      have horigin : d.origin p = d.origin ⟨"."⟩ := by
        rw [origin, origin, if_neg habsolute, if_neg (by decide +kernel)]
      rw [hdirectory, horigin]
      exact ⟨by decide, walk_of_void (by decide +kernel) (horigin ▸ hparent)⟩
  | cons name kept =>
    obtain ⟨hsegments, htext, habsolute⟩ := hends.directory_of_kept hkept
    have horigin : d.origin p.directory = d.origin p := by
      simp only [origin, habsolute]
    rw [hkept] at hsplit
    rw [hsplit, walk_append] at hwalk
    obtain ⟨m, hm, hrest⟩ := except_bind_eq_ok.1 hwalk
    obtain rfl : parent = m := eq_of_walk_void hvoid hrest
    rw [hsegments, horigin]
    exact ⟨htext, hm⟩

/-- What is joined to the directory of a path stands next to where the path leads. -/
theorem leadsInto_directory_join {parent parent' : Location} {last name : String}
    (h : d.LeadsInto p parent last) (hslash : '/' ∉ name.toList)
    (h' : d.LeadsInto (p.directory.join ⟨name⟩) parent' name) : parent' = parent := by
  obtain ⟨before, hends, hwalk⟩ := h.walk
  obtain ⟨htext, hdirectory⟩ := walk_directory hends hwalk h.directory
  obtain ⟨front, hsegments, habsolute, hfront⟩ := Path.exists_join htext hslash
  obtain ⟨before', hends', hwalk'⟩ := h'.walk
  obtain rfl : before' = front := by
    have := hends'.segments.symm.trans hsegments
    exact List.append_cancel_right this
  have horigin : d.origin (p.directory.join ⟨name⟩) = d.origin p.directory := by
    simp only [origin, habsolute]
  rw [horigin] at hwalk'
  rcases hfront with hfront | hfront
  · rw [hfront, hwalk'] at hdirectory
    exact Except.ok.inj hdirectory
  · rw [hfront, walk_append, hwalk'] at hdirectory
    have hvoid : ∀ segment ∈ [""], Path.isVoid segment = true := by decide
    exact (eq_of_walk_void hvoid hdirectory).symm

/-- A file written next to another one. -/
theorem exists_reach_directory_join {d' d'' : Disk} {contents contents' : ByteArray} {name : String}
    (hslash : '/' ∉ name.toList) (hvoid : Path.isVoid name = false) (hup : name ≠ "..")
    (h : d.write p contents = .ok d')
    (h' : d'.write (p.directory.join ⟨name⟩) contents' = .ok d'') :
    ∃ (parent : Location) (last : String), d''.reach p = .ok (parent.child last) ∧
      d''.reach (p.directory.join ⟨name⟩) = .ok (parent.child name) := by
  obtain ⟨before, last, hends⟩ := endsWith_of_write h
  obtain ⟨before', hends'⟩ := EndsWith.join p.directory hslash hvoid hup
  obtain ⟨l, -, -, -, hl⟩ := write_spec h
  obtain ⟨l', -, -, -, hl'⟩ := write_spec h'
  have hl := (write_grows h').reach hl
  obtain ⟨parent, hleads, rfl, -⟩ := leadsInto_of_reach hends hl
  obtain ⟨parent', hleads', rfl, -⟩ := leadsInto_of_reach hends' hl'
  obtain rfl := leadsInto_directory_join hleads hslash hleads'
  exact ⟨_, last, hl, hl'⟩

end Disk

end SceneScript
