import Mathlib.Tactic.Common
import SceneScript.Disk

/-!
# Writing to the disk

A file can be written where a path leads to a name in a directory (`write_eq_ok_iff`), and then it
stands where its path leads (`write_spec`). Writing takes nothing away: directories stay directories
and files stay files (`Grows`). Hence a path that leads somewhere leads to the same place on a disk
that has grown (`Grows.reach`), and a file that exists goes on existing (`Grows.isFile`).
-/

namespace SceneScript

/-- A computation that succeeds after another. -/
theorem except_bind_eq_ok {ε α β : Type} {x : Except ε α} {f : α → Except ε β} {b : β} :
    (x >>= f) = .ok b ↔ ∃ a, x = .ok a ∧ f a = .ok b := by
  cases x <;> simp [bind, Except.bind]

theorem except_toOption_eq_some {ε α : Type} {x : Except ε α} {a : α} :
    x.toOption = some a ↔ x = .ok a := by
  cases x <;> simp [Except.toOption]

namespace Disk

theorem isFile_iff {d : Disk} {p : Path} :
    d.isFile p = true ↔ ∃ l c, d.reach p = .ok l ∧ d.node? l = some (.file c) := by
  simp only [isFile, find, bind, Except.bind]
  cases d.reach p with
  | error fault => simp
  | ok l =>
    cases hl : d.node? l with
    | none => simp [hl]
    | some n => cases n <;> simp [hl]

theorem isDirectory_iff {d : Disk} {p : Path} :
    d.isDirectory p = true ↔ ∃ l, d.reach p = .ok l ∧ d.node? l = some .directory := by
  simp only [isDirectory, find, bind, Except.bind]
  cases d.reach p with
  | error fault => simp
  | ok l =>
    cases hl : d.node? l with
    | none => simp [hl]
    | some n => cases n <;> simp [hl]

/-- All that stood on the first disk stands on the second, though files may have other contents. -/
structure Grows (d d' : Disk) : Prop where
  cwd : d'.cwd = d.cwd
  directory {l : Location} : d.node? l = some .directory → d'.node? l = some .directory
  file {l : Location} {c : ByteArray} :
    d.node? l = some (.file c) → ∃ c', d'.node? l = some (.file c')

namespace Grows

variable {d d' : Disk}

theorem refl (d : Disk) : Grows d d where
  cwd := rfl
  directory h := h
  file h := ⟨_, h⟩

theorem trans {d'' : Disk} (h : Grows d d') (h' : Grows d' d'') : Grows d d'' where
  cwd := h'.cwd.trans h.cwd
  directory hl := h'.directory (h.directory hl)
  file hl := by
    obtain ⟨c, hc⟩ := h.file hl
    exact h'.file hc

theorem exists_node (h : Grows d d') {l : Location} {n : Node} (hl : d.node? l = some n) :
    ∃ n', d'.node? l = some n' := by
  cases n with
  | directory => exact ⟨_, h.directory hl⟩
  | file c =>
    obtain ⟨c', hc⟩ := h.file hl
    exact ⟨_, hc⟩

/-- A walk only needs what stands on its way. -/
theorem walk (h : Grows d d') {segments : List String} {l l' : Location}
    (hw : d.walk l segments = .ok l') : d'.walk l segments = .ok l' := by
  induction segments generalizing l with
  | nil => exact hw
  | cons segment rest ih =>
    simp only [Disk.walk] at hw ⊢
    cases hl : d.node? l with
    | none => simp [hl] at hw
    | some n =>
      cases n with
      | file c => simp [hl] at hw
      | directory =>
        simp only [hl] at hw
        simp only [h.directory hl]
        split_ifs at hw ⊢
        · exact ih hw
        · exact ih hw
        · cases hc : d.node? (l.child segment) with
          | none => simp [hc] at hw
          | some n =>
            obtain ⟨n', hn'⟩ := h.exists_node hc
            simp only [hc] at hw
            simp only [hn']
            exact ih hw

theorem origin (h : Grows d d') (p : Path) : d'.origin p = d.origin p := by
  simp only [Disk.origin, h.cwd]

theorem locate (h : Grows d d') {p : Path} {l : Location} (hl : d.locate p = .ok l) :
    d'.locate p = .ok l := by
  simp only [Disk.locate, except_bind_eq_ok, h.origin] at hl ⊢
  obtain ⟨u, hpath, hw⟩ := hl
  exact ⟨u, hpath, h.walk hw⟩

/-- A path leads to the same place as before. -/
theorem reach (h : Grows d d') {p : Path} {l : Location} (hr : d.reach p = .ok l) :
    d'.reach p = .ok l := by
  obtain ⟨u, hwhole, hl⟩ := except_bind_eq_ok.1 hr
  exact except_bind_eq_ok.2 ⟨u, hwhole, h.locate hl⟩

theorem isFile (h : Grows d d') {p : Path} (hp : d.isFile p = true) : d'.isFile p = true := by
  obtain ⟨l, c, hl, hnode⟩ := isFile_iff.1 hp
  obtain ⟨c', hc'⟩ := h.file hnode
  exact isFile_iff.2 ⟨l, c', h.reach hl, hc'⟩

theorem isDirectory (h : Grows d d') {p : Path} (hp : d.isDirectory p = true) :
    d'.isDirectory p = true := by
  obtain ⟨l, hl, hnode⟩ := isDirectory_iff.1 hp
  exact isDirectory_iff.2 ⟨l, h.reach hl, h.directory hnode⟩

end Grows

/-- A file may be put wherever no directory stands. -/
theorem set_grows {d : Disk} {l : Location} (h : d.node? l ≠ some .directory) (c : ByteArray) :
    Grows d (d.set l (.file c)) where
  cwd := rfl
  directory := by
    intro other ho
    rw [node?_set_of_ne _ _ (by rintro rfl; exact h ho), ho]
  file := by
    intro other c' ho
    by_cases e : other = l
    · subst e
      refine ⟨c, node?_set_self _ _ ?_⟩
      rintro rfl
      simp [node?] at ho
    · exact ⟨c', by rw [node?_set_of_ne _ _ e, ho]⟩

/-! ## Where a file is written -/

/-- A path with a name at its end is cut before that name. -/
theorem cutLast_eq_some {p : Path} {before : List String} {last : String}
    (h : cutLast p = some (before, last, false)) :
    p.segments = before ++ [last] ∧ last ≠ "" := by
  unfold cutLast at h
  split at h <;> [cases h; skip]
  rename_i last' before' hd
  simp only [Option.some.injEq, Prod.mk.injEq, decide_eq_false_iff_not] at h
  obtain ⟨rfl, rfl, hslash⟩ := h
  cases hr : p.segments.reverse with
  | nil => simp [hr] at hd
  | cons segment rest =>
    have hs : p.segments = rest.reverse ++ [segment] := by
      simpa using congrArg List.reverse hr
    have hne : segment ≠ "" := fun e => hslash (by simp [hs, e])
    rw [hr, List.dropWhile_cons_of_neg (by simpa using hne)] at hd
    obtain ⟨rfl, rfl⟩ := List.cons.inj hd
    exact ⟨hs, hne⟩

/-- A walk over two stretches is one over the first and then one over the second. -/
theorem walk_append (d : Disk) (l : Location) (before rest : List String) :
    d.walk l (before ++ rest) = (do d.walk (← d.walk l before) rest) := by
  induction before generalizing l with
  | nil => rfl
  | cons segment before ih =>
    simp only [List.cons_append, Disk.walk]
    cases d.node? l with
    | none => rfl
    | some n =>
      cases n with
      | file c => rfl
      | directory =>
        dsimp only
        split_ifs
        · exact ih l
        · exact ih l.up
        · rfl
        · cases d.node? (l.child segment) with
          | none => rfl
          | some n => exact ih (l.child segment)

/-- A path ends with a name, behind other segments. -/
structure EndsWith (p : Path) (before : List String) (last : String) : Prop where
  segments : p.segments = before ++ [last]
  not_void : Path.isVoid last = false
  not_up : last ≠ ".."

/-- A path leads to a name in a directory, whether anything stands there or not. -/
structure LeadsInto (d : Disk) (p : Path) (parent : Location) (last : String) : Prop where
  check : checkWholePath p = .ok ()
  walk : ∃ before, EndsWith p before last ∧ d.walk (d.origin p) before = .ok parent
  directory : d.node? parent = some .directory
  short : last.utf8ByteSize ≤ nameLimit

theorem leadsInto_of_target {d : Disk} {p : Path} {l : Location}
    (h : d.target p = .ok (some (l, false))) :
    ∃ parent last, d.LeadsInto p parent last ∧ l = parent.child last := by
  simp only [target, except_bind_eq_ok] at h
  obtain ⟨u, hcheck, h⟩ := h
  split at h <;> [cases h; skip]
  rename_i before last slash hcut
  obtain ⟨parent, hwalk, h⟩ := except_bind_eq_ok.1 h
  split at h <;> [cases h; cases h; skip]
  rename_i hparent
  split at h <;> [cases h; skip]
  rename_i hlast
  split at h <;> [cases h; skip]
  rename_i hsize
  simp only [Except.ok.injEq, Option.some.injEq, Prod.mk.injEq] at h
  obtain ⟨rfl, rfl⟩ := h
  obtain ⟨hsegments, hempty⟩ := cutLast_eq_some hcut
  simp only [Bool.or_eq_true, decide_eq_true_eq, not_or] at hlast
  simp only [Bool.not_false, Bool.and_true, decide_eq_true_eq, Nat.not_lt] at hsize
  have hvoid : Path.isVoid last = false := by simp [Path.isVoid, hempty, hlast.1]
  exact ⟨parent, last, ⟨hcheck, ⟨before, ⟨hsegments, hvoid, hlast.2⟩, hwalk⟩, hparent, hsize⟩, rfl⟩

namespace LeadsInto

variable {d : Disk} {p : Path} {parent : Location} {last : String}

theorem of_grows {d' : Disk} (h : d.LeadsInto p parent last) (hgrows : Grows d d') :
    d'.LeadsInto p parent last := by
  obtain ⟨before, hends, hwalk⟩ := h.walk
  refine ⟨h.check, ⟨before, hends, ?_⟩, hgrows.directory h.directory, h.short⟩
  rw [hgrows.origin]
  exact hgrows.walk hwalk

/-- The step over the last name. -/
theorem walk_last (h : d.LeadsInto p parent last) {n : Node}
    (hl : d.node? (parent.child last) = some n) :
    d.walk parent [last] = .ok (parent.child last) := by
  obtain ⟨before, hends, -⟩ := h.walk
  have hshort : ¬ nameLimit < last.utf8ByteSize := Nat.not_lt.2 h.short
  simp [Disk.walk, h.directory, hends.not_void, hends.not_up, hshort, hl]

/-- A path leads to its name in its directory if something stands there. -/
theorem reach (h : d.LeadsInto p parent last) {n : Node}
    (hl : d.node? (parent.child last) = some n) : d.reach p = .ok (parent.child last) := by
  obtain ⟨before, hends, hwalk⟩ := h.walk
  have hlocate : d.locate p = .ok (parent.child last) := by
    obtain ⟨u, hpath, -⟩ := except_bind_eq_ok.1 h.check
    refine except_bind_eq_ok.2 ⟨u, hpath, ?_⟩
    rw [hends.segments, walk_append, hwalk]
    exact h.walk_last hl
  exact except_bind_eq_ok.2 ⟨(), h.check, hlocate⟩

end LeadsInto

/-- A path that ends with a name and leads somewhere leads to that name in some directory. -/
theorem leadsInto_of_reach {d : Disk} {p : Path} {before : List String} {last : String}
    {l : Location} (hends : EndsWith p before last) (h : d.reach p = .ok l) :
    ∃ parent, d.LeadsInto p parent last ∧ l = parent.child last ∧ ∃ n, d.node? l = some n := by
  obtain ⟨u, hcheck, hlocate⟩ := except_bind_eq_ok.1 h
  obtain ⟨-, -, hwalk⟩ := except_bind_eq_ok.1 hlocate
  rw [hends.segments, walk_append] at hwalk
  obtain ⟨parent, hparent, hlast⟩ := except_bind_eq_ok.1 hwalk
  simp only [Disk.walk, hends.not_void, hends.not_up, Bool.false_eq_true, ↓reduceIte] at hlast
  cases hnode : d.node? parent with
  | none => simp [hnode] at hlast
  | some n =>
    cases n with
    | file c => simp [hnode] at hlast
    | directory =>
      simp only [hnode] at hlast
      split_ifs at hlast with hlong
      cases hc : d.node? (parent.child last) with
      | none => simp [hc] at hlast
      | some n =>
        rw [hc] at hlast
        cases hlast
        exact ⟨parent, ⟨hcheck, ⟨before, hends, hparent⟩, hnode, Nat.not_lt.1 hlong⟩, rfl, n, hc⟩

theorem EndsWith.cutLast {p : Path} {before : List String} {last : String}
    (h : EndsWith p before last) : cutLast p = some (before, last, false) := by
  have hempty : last ≠ "" := by
    rintro rfl
    exact absurd h.not_void (by decide)
  have hreverse : p.segments.reverse = last :: before.reverse := by simp [h.segments]
  unfold Disk.cutLast
  rw [hreverse, List.dropWhile_cons_of_neg (by simpa using hempty)]
  simp [h.segments, hempty]

theorem LeadsInto.target {d : Disk} {p : Path} {parent : Location} {last : String}
    (h : d.LeadsInto p parent last) : d.target p = .ok (some (parent.child last, false)) := by
  obtain ⟨before, hends, hwalk⟩ := h.walk
  have hdot : last ≠ "." := by
    rintro rfl
    exact absurd hends.not_void (by decide)
  have hshort : ¬ nameLimit < last.utf8ByteSize := Nat.not_lt.2 h.short
  refine except_bind_eq_ok.2 ⟨(), h.check, ?_⟩
  rw [hends.cutLast]
  refine except_bind_eq_ok.2 ⟨parent, hwalk, ?_⟩
  simp [h.directory, hdot, hends.not_up, hshort]

/-- A file can be written just if its path leads to a name in a directory and no directory has this
name. -/
theorem write_eq_ok_iff {d d' : Disk} {p : Path} {contents : ByteArray} :
    d.write p contents = .ok d' ↔
      ∃ parent last, d.LeadsInto p parent last ∧ d.node? (parent.child last) ≠ some .directory ∧
        d' = d.set (parent.child last) (.file contents) := by
  constructor
  · intro h
    obtain ⟨_ | ⟨l, slash⟩, ht, h⟩ := except_bind_eq_ok.1 h
    · cases h
    dsimp only at h
    split at h <;> [cases h; skip]
    rename_i hslash
    split at h <;> [cases h; skip]
    rename_i hdir
    cases h
    obtain rfl : slash = false := by simpa using hslash
    obtain ⟨parent, last, hleads, rfl⟩ := leadsInto_of_target ht
    exact ⟨parent, last, hleads, fun e => hdir e, rfl⟩
  · rintro ⟨parent, last, hleads, hdir, rfl⟩
    refine except_bind_eq_ok.2 ⟨_, hleads.target, ?_⟩
    dsimp only
    rw [if_neg Bool.false_ne_true]
    split
    · rename_i hnode
      exact absurd hnode hdir
    · rfl

/-- Writing puts the contents where the path leads afterwards. No directory stood there. -/
theorem write_spec {d d' : Disk} {p : Path} {contents : ByteArray}
    (h : d.write p contents = .ok d') :
    ∃ l, d.node? l ≠ some .directory ∧ d' = d.set l (.file contents) ∧
      d'.node? l = some (.file contents) ∧ d'.reach p = .ok l := by
  obtain ⟨parent, last, hleads, hdir, rfl⟩ := write_eq_ok_iff.1 h
  have hroot : parent.child last ≠ .root := by
    intro e
    exact hdir (by simp [node?, e])
  have hl := node?_set_self d (.file contents) hroot
  exact ⟨_, hdir, rfl, hl, (hleads.of_grows (set_grows hdir contents)).reach hl⟩

/-- Writing changes nothing but the place that the path leads to afterwards. -/
theorem node?_of_write {d d' : Disk} {p : Path} {contents : ByteArray} {l : Location}
    (h : d.write p contents = .ok d') (hl : d'.reach p = .ok l) :
    d'.node? l = some (.file contents) ∧ ∀ m ≠ l, d'.node? m = d.node? m := by
  obtain ⟨place, -, hset, hnode, hreach⟩ := write_spec h
  obtain rfl := Except.ok.inj (hl.symm.trans hreach)
  refine ⟨hnode, fun m hm => ?_⟩
  rw [hset, node?_set_of_ne d _ hm]

theorem write_grows {d d' : Disk} {p : Path} {contents : ByteArray}
    (h : d.write p contents = .ok d') : Grows d d' := by
  obtain ⟨l, hd, rfl, -⟩ := write_spec h
  exact set_grows hd contents

/-- A file that has been written exists. -/
theorem isFile_of_write {d d' : Disk} {p : Path} {contents : ByteArray}
    (h : d.write p contents = .ok d') : d'.isFile p = true := by
  obtain ⟨l, -, -, hl, hr⟩ := write_spec h
  exact isFile_iff.2 ⟨l, contents, hr, hl⟩

/-- A file that exists under a name can be written again. -/
theorem exists_write_of_isFile {d : Disk} {p : Path} {before : List String} {last : String}
    (hends : EndsWith p before last) (h : d.isFile p = true) (contents : ByteArray) :
    ∃ d', d.write p contents = .ok d' := by
  obtain ⟨l, c, hreach, hnode⟩ := isFile_iff.1 h
  obtain ⟨parent, hleads, rfl, -⟩ := leadsInto_of_reach hends hreach
  refine ⟨_, write_eq_ok_iff.2 ⟨parent, last, hleads, fun hdirectory => ?_, rfl⟩⟩
  rw [hnode] at hdirectory
  cases hdirectory

theorem readAt_eq_ok {d : Disk} {l : Location} {c : ByteArray} :
    d.readAt l = .ok c ↔ d.node? l = some (.file c) := by
  unfold readAt
  cases d.node? l with
  | none => simp
  | some n => cases n <;> simp

theorem read_eq_ok {d : Disk} {p : Path} {c : ByteArray} :
    d.read p = .ok c ↔ ∃ l, d.reach p = .ok l ∧ d.node? l = some (.file c) := by
  simp only [read, except_bind_eq_ok, readAt_eq_ok]

/-- A file is read under its name: nothing follows the name in the path. -/
theorem endsWith_of_read {d : Disk} {p : Path} {c : ByteArray} {name : String}
    (hread : d.read p = .ok c) (hname : p.fileName? = some name) :
    ∃ before, EndsWith p before name := by
  obtain ⟨l, hreach, hnode⟩ := read_eq_ok.1 hread
  obtain ⟨-, -, hlocate⟩ := except_bind_eq_ok.1 hreach
  obtain ⟨-, -, hwalk⟩ := except_bind_eq_ok.1 hlocate
  obtain hnil | ⟨front, last, hsegments⟩ := List.eq_nil_or_concat p.segments
  · simp [Path.segments, Text.split, Text.splitChars_ne_nil] at hnil
  rw [hsegments, List.concat_eq_append, walk_append] at hwalk
  obtain ⟨m, -, hlast⟩ := except_bind_eq_ok.1 hwalk
  rw [List.concat_eq_append] at hsegments
  cases hvoid : Path.isVoid last with
  | true =>
    -- a segment that stands for nothing is passed in a directory only
    simp only [Disk.walk, hvoid, ↓reduceIte] at hlast
    split at hlast <;> cases hlast
    rename_i hdirectory
    rw [hnode] at hdirectory
    cases hdirectory
  | false =>
    have hessential : p.essential = last :: front.reverse := by
      simp [Path.essential, hsegments, hvoid]
    simp only [Path.fileName?, hessential] at hname
    split_ifs at hname with hup
    cases hname
    exact ⟨front, hsegments, hvoid, hup⟩

/-- What has been written can be read. -/
theorem read_of_write {d d' : Disk} {p : Path} {contents : ByteArray}
    (h : d.write p contents = .ok d') : d'.read p = .ok contents := by
  obtain ⟨l, -, -, hl, hr⟩ := write_spec h
  exact except_bind_eq_ok.2 ⟨l, hr, readAt_eq_ok.2 hl⟩

/-- A file stays as it is when a file at another place is written. -/
theorem read_write_of_ne {d d' : Disk} {p q : Path} {contents c : ByteArray}
    (hq : d.read q = .ok c) (h : d.write p contents = .ok d')
    (hne : ∀ l, d'.reach p = .ok l → d'.reach q ≠ .ok l) : d'.read q = .ok c := by
  obtain ⟨m, hm, hc⟩ := except_bind_eq_ok.1 hq
  have hm' := (write_grows h).reach hm
  obtain ⟨l, -, rfl, -, hl⟩ := write_spec h
  have hml : m ≠ l := fun e => hne l hl (e ▸ hm')
  refine except_bind_eq_ok.2 ⟨m, hm', readAt_eq_ok.2 ?_⟩
  rw [node?_set_of_ne d _ hml]
  exact readAt_eq_ok.1 hc

theorem child_inj {l m : Location} {a b : String} (h : l.child a = m.child b) : l = m ∧ a = b := by
  obtain ⟨ls⟩ := l
  obtain ⟨ms⟩ := m
  simp only [Location.child, Location.mk.injEq] at h ⊢
  exact List.append_inj' h rfl |>.imp id (List.cons.inj · |>.1)

/-- Two paths that end with different names lead to different places. -/
theorem reach_ne_of_last_ne {d : Disk} {p q : Path} {before before' : List String} {a b : String}
    (hp : EndsWith p before a) (hq : EndsWith q before' b) (hne : a ≠ b) {l : Location}
    (hl : d.reach p = .ok l) : d.reach q ≠ .ok l := by
  intro hl'
  obtain ⟨m, -, rfl, -⟩ := leadsInto_of_reach hp hl
  obtain ⟨m', -, hm', -⟩ := leadsInto_of_reach hq hl'
  exact hne (child_inj hm').2

/-- Writing a file of one name leaves a file of another name as it is. -/
theorem read_write_of_last_ne {d d' : Disk} {p q : Path} {before before' : List String}
    {a b : String} {contents c : ByteArray} (hp : EndsWith p before a) (hq : EndsWith q before' b)
    (hne : a ≠ b) (hread : d.read q = .ok c) (hwrite : d.write p contents = .ok d') :
    d'.read q = .ok c :=
  read_write_of_ne hread hwrite fun _ hl => reach_ne_of_last_ne hp hq hne hl

/-- A text can be read as it was written. -/
theorem readText_of_read {d : Disk} {p : Path} {text : String}
    (h : d.read p = .ok text.toUTF8) : d.readText p = .ok text := by
  obtain ⟨l, hl, hc⟩ := except_bind_eq_ok.1 h
  have decoded : String.fromUTF8? text.toUTF8 = some text := by
    unfold String.fromUTF8?
    exact dif_pos text.isValidUTF8
  refine except_bind_eq_ok.2 ⟨l, hl, except_bind_eq_ok.2 ⟨_, hc, ?_⟩⟩
  simp only [decoded]

end Disk

end SceneScript
