import SceneScript.Proofs.Undisturbed

/-!
# Running again

A run that does not read what it writes can be repeated. On the disk that it has left it finds its
files as before, and the files that it is to write exist (`Shelf.Draws.serves_again`). So it makes
the same modules and writes the same program and the same manifest over the old ones: `second_run`
says that the second run gives the same report and changes nothing.
-/

namespace SceneScript

/-- Picks from an old disk are served on a later one where the files of the new modules exist and
no ask finds a written file. -/
theorem Shelf.Draws.serves_again {base out : Path} {d final : Disk} {W : Location → Prop}
    {c c' : Shelf} {asks : List Ask} {picks : List (Option Pick)} {t : Store}
    (h : Draws base d c asks picks c') (hfirst : Disk.Edits W d final)
    (hexists : ∀ l, W l → ∃ n, final.node? l = some n)
    (hmodules : ∀ k text, some k ∈ picks → k.made = some text →
      ∃ l, final.isFile (k.name.path out) = true ∧ final.reach (k.name.path out) = .ok l ∧ W l)
    (hclear : ∀ a ∈ asks, ∀ p ∈ a.lookups base d, ∀ l, final.locate p = .ok l → ¬ W l)
    (ht : t.Rooted base out) (hshelf : t.shelf = c) (hlater : Disk.Edits W final t.disk) :
    ∃ v, t.Serves base asks picks v ∧ v.shelf = c' := by
  -- the places of the files exist already, so no path leads further than it did
  have hback {e : Disk} (he : Disk.Edits W final e) {p : Path} {l : Location}
      (hl : e.locate p = .ok l) : final.locate p = .ok l := by
    refine he.locate hl fun n hn => ?_
    by_cases hW : W l
    · exact hexists l hW
    · exact ⟨n, he.node?_eq hW ▸ hn⟩
  induction h generalizing t with
  | nil => exact ⟨t, .nil t, hshelf⟩
  | skip horder _ ih =>
    obtain ⟨ha, hclear⟩ := List.forall_mem_cons.1 hclear
    obtain ⟨v, hv, hshelf'⟩ := ih (fun k text hk => hmodules k text (List.mem_cons_of_mem _ hk))
      hclear ht hshelf hlater
    have hedits := hfirst.trans hlater
    rw [← hedits.order?_eq fun p hp l hl => ha p hp l (hback hlater hl)] at horder
    exact ⟨v, .skip horder hv, hshelf'⟩
  | @draw c c' a o k asks picks horder hpick _ ih =>
    obtain ⟨ha, hclear⟩ := List.forall_mem_cons.1 hclear
    have hedits := hfirst.trans hlater
    have ha' := fun p hp l hl => ha p hp l (hback hlater hl)
    rw [← hedits.pick_iff horder ha', ← hshelf] at hpick
    rw [← hedits.order?_eq ha'] at horder
    obtain ⟨t', hdeliver⟩ := Store.deliver_of_pick ht hpick fun text hmade => by
      obtain ⟨l, hfile, -⟩ := hmodules k text List.mem_cons_self hmade
      obtain ⟨before, hends⟩ := k.name.endsWith_path out
      exact Disk.exists_write_of_isFile hends (hlater.grows.isFile hfile) _
    obtain ⟨k', hk', -, ht', hshelf', hcases⟩ := Store.deliver_eq_ok ht hdeliver
    obtain rfl := Except.ok.inj (hpick.symm.trans hk')
    have hlater' : Disk.Edits W final t'.disk := by
      rcases hcases with ⟨-, rfl⟩ | ⟨text, hmade, hwrite, -⟩
      · exact hlater
      · obtain ⟨m, -, hm, hW⟩ := hmodules k text List.mem_cons_self hmade
        have hm' := (hlater.grows.trans (Disk.write_grows hwrite)).reach hm
        exact hlater.write hwrite fun l hl => Except.ok.inj (hm'.symm.trans hl) ▸ hW
    obtain ⟨v, hv, hv'⟩ := ih (fun k text hk => hmodules k text (List.mem_cons_of_mem _ hk)) hclear
      ht' hshelf' hlater'
    exact ⟨v, .serve horder hpick hdeliver hv, hv'⟩

/-! ## Writing again -/

namespace Disk

variable {d d' e e' : Disk} {p : Path} {c : ByteArray} {l : Location}

/-- What has been written can be written again later. -/
theorem exists_write_again (h : d.write p c = .ok d') (hgrows : d'.Grows e) :
    ∃ e', e.write p c = .ok e' := by
  obtain ⟨before, last, hends⟩ := endsWith_of_write h
  exact exists_write_of_isFile hends (hgrows.isFile (isFile_of_write h)) c

/-- Writing again does the same to its own place, and to one that the disks agree on. -/
theorem node?_of_write_again (h : d.write p c = .ok d') (h' : e.write p c = .ok e')
    (hgrows : d'.Grows e') (hl : d'.node? l = d.node? l → e.node? l = d.node? l) :
    e'.node? l = d'.node? l := by
  obtain ⟨place, -, -, -, hplace⟩ := write_spec h
  obtain ⟨hnode, hother⟩ := node?_of_write h hplace
  obtain ⟨hnode', hother'⟩ := node?_of_write h' (hgrows.reach hplace)
  by_cases hm : l = place
  · rw [hm, hnode, hnode']
  · rw [hother l hm, hother' l hm, hl (hother l hm)]

end Disk

/-- Modules that are made again, on a later disk, change nothing. -/
theorem Store.Serves.node?_again {base out : Path} {s s' u v : Store} {asks : List Ask}
    {picks : List (Option Pick)} {l : Location} (h : s.Serves base asks picks u)
    (h' : s'.Serves base asks picks v) (hs : s.Rooted base out) (hs' : s'.Rooted base out)
    (hnew : ∀ name, name ∉ s'.modules) (hgrows : u.disk.Grows s'.disk)
    (hl : s'.disk.node? l = u.disk.node? l) : v.disk.node? l = u.disk.node? l := by
  by_cases hmodule : ∃ name ∈ v.modules, v.disk.reach (name.path out) = .ok l
  · -- both runs have written the text of the same pick there
    obtain ⟨name, hname, hreach⟩ := hmodule
    obtain ⟨k, text, hk, hmade, rfl⟩ := h'.exists_made hs' hname (hnew name)
    obtain ⟨m, hm, hnode⟩ := Disk.read_eq_ok.1 (h.read_of_made hs hk hmade).2
    obtain ⟨m', hm', hnode'⟩ := Disk.read_eq_ok.1 (h'.read_of_made hs' hk hmade).2
    obtain rfl := Except.ok.inj (hreach.symm.trans hm')
    obtain rfl := Except.ok.inj (hreach.symm.trans ((hgrows.trans (h'.keeps hs').grows).reach hm))
    rw [hnode, hnode']
  · have hedits := h'.edits hs' (W := fun l => ∃ name ∈ v.modules,
      v.disk.reach (name.path out) = .ok l) fun name hname l hl => ⟨name, hname, hl⟩
    rw [hedits.node?_eq hmodule, hl]

/-- A configuration is loaded alike where its file reads alike. -/
theorem Config.loadScene_congr {d e : Disk} {p : Path} (h : d.SameAt e p) :
    loadScene e p = loadScene d p := by
  simp only [loadScene, loadTree, h.readText]

theorem Config.locate_of_loadScene {d : Disk} {p : Path} {scene : Scene}
    (h : loadScene d p = .ok scene) : ∃ l, d.locate p = .ok l := by
  obtain ⟨tree, htree, -⟩ := except_bind_eq_ok.1 h
  unfold loadTree at htree
  cases htext : d.readText p with
  | error fault => simp [htext] at htree
  | ok text =>
    obtain ⟨l, hl, -⟩ := except_bind_eq_ok.1 htext
    exact ⟨l, Disk.locate_of_reach hl⟩

namespace Request.Completes

variable {r : Request} {d d₂ d₃ : Disk} {scene : Scene} {program : String} {s : Session}
  {picks : List (Option Pick)}

theorem isFile_of_mem_writes (h : r.Completes d scene program s d₂ d₃)
    (hdirectory : d.isDirectory r.outputDirectory = true)
    (hserves : (r.session d).store.Serves r.baseDirectory scene.asks picks s.store) {q : Path}
    (hq : q ∈ r.writes d) : d₃.isFile q = true := by
  rw [h.writes_eq hdirectory] at hq
  rcases List.mem_cons.1 hq with rfl | hq
  · exact (Disk.write_grows h.manifest).isFile (Disk.isFile_of_write h.program)
  rcases List.mem_cons.1 hq with rfl | hq
  · exact Disk.isFile_of_write h.manifest
  · obtain ⟨name, hname, rfl⟩ := List.mem_map.1 hq
    obtain ⟨k, text, hk, hmade, rfl⟩ :=
      hserves.exists_made (Store.rooted_new _ _ d) hname (Store.not_mem_modules_new _ _ _ _)
    obtain ⟨l, hl, hnode⟩ :=
      Disk.read_eq_ok.1 (hserves.read_of_made (Store.rooted_new _ _ d) hk hmade).2
    exact h.grows.isFile (Disk.isFile_iff.2 ⟨l, _, hl, hnode⟩)

/-- The whole run changes the disk at most at the places that it has written to. -/
theorem edits (h : r.Completes d scene program s d₂ d₃)
    (hdirectory : d.isDirectory r.outputDirectory = true)
    (hserves : (r.session d).store.Serves r.baseDirectory scene.asks picks s.store) :
    Disk.Edits (r.Written d) d d₃ := by
  have hwrites := h.writes_eq hdirectory
  have hmodules := hserves.edits (W := r.Written d) (Store.rooted_new _ _ d)
    fun name hname l hl => h.written hdirectory hname hl
  refine (hmodules.write h.program fun l hl => ?_).write h.manifest fun l hl => ?_
  · exact h.written_of_reach hdirectory (by simp [hwrites])
      ((Disk.write_grows h.manifest).reach hl)
  · exact h.written_of_reach hdirectory (by simp [hwrites]) hl

/-- The disk that an undisturbed run has left gives it all picks once more. -/
theorem serves_again (h : r.Completes d scene program s d₂ d₃)
    (hdirectory : d.isDirectory r.outputDirectory = true)
    (hclear : ∀ p ∈ r.lookups d, r.overwrites d p = false)
    (hserves : (r.session d).store.Serves r.baseDirectory scene.asks picks s.store) :
    ∃ v, (r.session d₃).store.Serves r.baseDirectory scene.asks picks v ∧
      v.shelf = s.store.shelf := by
  have hfile {q : Path} := h.isFile_of_mem_writes hdirectory hserves (q := q)
  have hexists (l : Location) (hl : r.Written d l) : ∃ n, d₃.node? l = some n := by
    obtain ⟨q, hq, hlocate⟩ := hl
    obtain ⟨m, c, hm, hnode⟩ := Disk.isFile_iff.1 (hfile hq)
    rw [(h.eq hdirectory).2, Disk.locate_of_reach hm] at hlocate
    exact ⟨_, Except.ok.inj hlocate ▸ hnode⟩
  have hmodules (k : Pick) (text : String) (hk : some k ∈ picks) (hmade : k.made = some text) :
      ∃ l, d₃.isFile (k.name.path r.outputDirectory) = true ∧
        d₃.reach (k.name.path r.outputDirectory) = .ok l ∧ r.Written d l := by
    have hmem := h.path_mem_writes hdirectory
      (hserves.read_of_made (Store.rooted_new _ _ d) hk hmade).1
    obtain ⟨m, -, hm, -⟩ := Disk.isFile_iff.1 (hfile hmem)
    exact ⟨m, hfile hmem, hm, h.written_of_reach hdirectory hmem hm⟩
  exact (h.draws hdirectory hclear hserves).serves_again (h.edits hdirectory hserves) hexists
    hmodules (fun a ha p hp l hl => h.not_written hdirectory hclear ha hp hl)
    (Store.rooted_new _ _ d₃) rfl (.refl _ _)

/-- A run of the same picks on the disk that the first one has left changes nothing. -/
theorem node?_again {e₂ e₃ : Disk} {t : Session} (h : r.Completes d scene program s d₂ d₃)
    (h' : r.Completes d₃ scene program t e₂ e₃) (hreport : t.report r scene = s.report r scene)
    (hserves : (r.session d).store.Serves r.baseDirectory scene.asks picks s.store)
    (hserves' : (r.session d₃).store.Serves r.baseDirectory scene.asks picks t.store)
    (l : Location) : e₃.node? l = d₃.node? l := by
  have hlater := (hserves'.keeps (Store.rooted_new _ _ d₃)).grows
  have hprogram := (Disk.write_grows h.manifest).trans
    (hlater.trans (Disk.write_grows h'.program))
  refine Disk.node?_of_write_again h.manifest (hreport ▸ h'.manifest) (hlater.trans h'.grows)
    fun hsecond => ?_
  refine Disk.node?_of_write_again h.program h'.program hprogram fun hfirst => ?_
  exact hserves.node?_again hserves' (Store.rooted_new _ _ d) (Store.rooted_new _ _ d₃)
    (Store.not_mem_modules_new _ _ _) h.grows (hsecond.trans hfirst)

end Request.Completes

/-- An undisturbed run that succeeds can be repeated on the disk that it has left: it gives the same
report and changes nothing. The output may have the name of a module or of the manifest. -/
theorem second_run {r : Request} {d : Disk} {report : Report}
    (hdirectory : d.isDirectory r.outputDirectory = true)
    (hclear : ∀ p ∈ r.config :: r.lookups d, r.overwrites d p = false)
    (h : (transpile r d).result = .ok report) :
    (transpile r (transpile r d).disk).result = .ok report ∧
      ∀ l, (transpile r (transpile r d).disk).disk.node? l = (transpile r d).disk.node? l := by
  obtain ⟨scene, program, s, d₂, hrun, rfl⟩ := Request.exists_completes hdirectory h
  obtain ⟨hconfig, hclear⟩ := List.forall_mem_cons.1 hclear
  obtain ⟨-, picks, hserves, hreplay⟩ := Emit.asking_assemble r.baseDirectory r.outputDirectory
    r.outputDirectory scene _ _ _ (Session.rooted_new _ _ d) hrun.run
  have hedits := hrun.edits hdirectory hserves
  -- the second run loads the same scene and gets the same picks
  obtain ⟨l, hl⟩ := Config.locate_of_loadScene hrun.load
  have hl' := hedits.grows.locate hl
  have hload := Config.loadScene_congr
    (hedits.sameAt hl' (Request.not_written_of_locate hconfig hl'))
  obtain ⟨v, hserves', hshelf⟩ := hrun.serves_again hdirectory hclear hserves
  obtain ⟨t, ht, rfl, halike⟩ := hreplay _ v (Session.alike_new _ _ _ d _) hserves'
  have hreport : t.report r scene = s.report r scene := by
    have hmodules : t.modules = s.modules := congrArg Shelf.modules hshelf
    obtain ⟨noted, hnoted, hnoted'⟩ := halike.glslify
    rw [Session.report, Session.report, (Emit.inStep_of_assemble ht).generatedFiles_eq,
      (Emit.inStep_of_assemble hrun.run).generatedFiles_eq, hmodules, hnoted, hnoted']
  -- so it writes the same program and the same manifest
  have hlater := (hserves'.keeps (Store.rooted_new _ _ _)).grows
  obtain ⟨e₂, hprogram⟩ :=
    Disk.exists_write_again hrun.program ((Disk.write_grows hrun.manifest).trans hlater)
  obtain ⟨e₃, hmanifest⟩ :=
    Disk.exists_write_again hrun.manifest (hlater.trans (Disk.write_grows hprogram))
  have hagain : r.Completes (transpile r d).disk scene program t e₂ e₃ :=
    ⟨hload.trans hrun.load, ht, hprogram, hreport.symm ▸ hmanifest⟩
  obtain ⟨hresult, hdisk⟩ := hagain.eq (hedits.grows.isDirectory hdirectory)
  exact ⟨hreport ▸ hresult, fun l =>
    hdisk.symm ▸ hrun.node?_again hagain hreport hserves hserves' l⟩

/-- The second run of the study has a material library with an image to find again. -/
theorem second_run_library :
    (∀ p ∈ study.config :: study.lookups libraryDisk, study.overwrites libraryDisk p = false) ∧
    ∃ report, (transpile study libraryDisk).result = .ok report ∧
      (transpile study (transpile study libraryDisk).disk).result = .ok report ∧
      ∀ l, (transpile study (transpile study libraryDisk).disk).disk.node? l =
        (transpile study libraryDisk).disk.node? l := by
  obtain ⟨hclear, run⟩ : (∀ p ∈ study.config :: study.lookups libraryDisk,
      study.overwrites libraryDisk p = false) ∧
      (transpile study libraryDisk).result.toOption.isSome = true := by
    decide +kernel
  refine ⟨hclear, ?_⟩
  cases h : (transpile study libraryDisk).result with
  | error e =>
    rw [h] at run
    cases run
  | ok report => exact ⟨report, rfl, second_run (by decide +kernel) hclear h⟩

end SceneScript
