import SceneScript.Proofs.Asking
import SceneScript.Proofs.Takes

/-!
# Interleaved orders

A session whose orders come by none of its modules does as if it answered them all from the disk
that it found (`Session.Follows`, `Session.follows`). So it does not matter how the orders for
embedded files and those for textures are interleaved, and each kind gets what it gets alone:
`interleaving_immaterial`.
-/

namespace SceneScript

attribute [ext] Embedder TextureLibrary

/-! ## Sessions under orders -/

namespace Session

/-- The session after some orders, each of which may have been refused. -/
def obey (s : Session) (os : List Order) : Session :=
  os.foldl (fun s o => o.emit.after s) s

/-- The answers to orders one after the other. -/
def answers : Session → List Order → List (Order × Except Error ModuleName)
  | _, [] => []
  | s, o :: os => (o, o.emit.result s) :: answers (o.emit.after s) os

variable {base out : Path} {d : Disk} {s : Session} {o : Order} {os : List Order}

theorem emit_of_error {err : Error} (h : s.store.deliver o = .error err) :
    o.emit.result s = .error err ∧ o.emit.after s = s := by
  simp only [Emit.result, Emit.after, Emit.run_emit, h, reply, and_self]

theorem emit_of_ok {name : ModuleName} {t : Store} (h : s.store.deliver o = .ok (name, t)) :
    o.emit.result s = .ok name ∧ o.emit.after s = s.receive name t := by
  simp only [Emit.result, Emit.after, Emit.run_emit, h, reply, and_self]

theorem extends_obey (h : s.store.Rooted base out) (os : List Order) :
    s.store.Extends out (s.obey os).store := by
  induction os generalizing s with
  | nil => exact .refl out _
  | cons o os ih =>
    rw [obey, List.foldl_cons]
    cases hdeliver : s.store.deliver o with
    | error err =>
      rw [(emit_of_error hdeliver).2]
      exact ih h
    | ok answer =>
      obtain ⟨-, -, -, ht, -⟩ := Store.deliver_eq_ok h hdeliver
      rw [(emit_of_ok hdeliver).2]
      exact (Store.extends_deliver h hdeliver).trans (ih (s := s.receive answer.1 answer.2) ht)

/-- The imports are those of the modules that were given. -/
theorem mem_imports_obey {line : String} :
    line ∈ (s.obey os).inserts.imports ↔
      line ∈ s.inserts.imports ∨
        ∃ o name, (o, .ok name) ∈ s.answers os ∧ line = importLine name.text := by
  induction os generalizing s with
  | nil => simp [obey, answers]
  | cons o os ih =>
    rw [obey, List.foldl_cons, ← obey, ih, answers]
    cases hdeliver : s.store.deliver o with
    | error err =>
      obtain ⟨hresult, hafter⟩ := emit_of_error hdeliver
      simp [hresult, hafter]
    | ok answer =>
      obtain ⟨hresult, hafter⟩ := emit_of_ok hdeliver
      simp only [hresult, hafter, receive, Inserts.addImport, mem_insertOnce, List.mem_cons,
        Prod.mk.injEq, Except.ok.injEq]
      constructor
      · rintro ((hline | rfl) | ⟨o', name, hname, rfl⟩)
        · exact .inl hline
        · exact .inr ⟨o, answer.1, .inl ⟨rfl, rfl⟩, rfl⟩
        · exact .inr ⟨o', name, .inr hname, rfl⟩
      · rintro (hline | ⟨o', name, ⟨rfl, rfl⟩ | hname, rfl⟩)
        · exact .inl (.inl hline)
        · exact .inl (.inr rfl)
        · exact .inr ⟨o', name, hname, rfl⟩

/-- A session under orders does as if it answered them all from the disk `d`. -/
structure Follows (base out : Path) (d : Disk) (s : Session) (os : List Order) : Prop where
  rooted : s.store.Rooted base out
  adds : (s.obey os).store.Adds base out d
  shelf : (s.obey os).store.shelf = s.store.shelf.final base out d os
  answers : s.answers os =
    (s.store.shelf.briefs base out d os).map fun a => (a.1, a.2.map Prod.fst)
  serves : ∃ asks picks, s.store.Serves base asks picks (s.obey os).store ∧
    ∀ k, some k ∈ picks ↔ ∃ o, (o, .ok k) ∈ s.store.shelf.takes base out d os

theorem follows_single (h : s.store.Adds base out d)
    (hclear : ∀ p ∈ o.lookups base d, ∀ name ∈ s.store.modules,
      d.comesBy p (name.path out) = false) : s.Follows base out d [o] := by
  rcases h.deliver hclear with ⟨err, htake, hdeliver⟩ | ⟨k, t, htake, hpick, hdeliver, hshelf, ht⟩
  · obtain ⟨hresult, hafter⟩ := emit_of_error hdeliver
    have hobey : s.obey [o] = s := hafter
    refine ⟨h.rooted, hobey.symm ▸ h, ?_, ?_, [], [], hobey.symm ▸ .nil _, ?_⟩
    · exact (congrArg (·.store.shelf) hobey).trans (Shelf.next_of_error htake).symm
    · simp [Session.answers, Shelf.briefs, Shelf.takes, hresult, htake, Except.map]
    · simp [Shelf.takes, htake]
  · obtain ⟨hresult, hafter⟩ := emit_of_ok hdeliver
    have hobey : (s.obey [o]).store = t := congrArg store hafter
    refine ⟨h.rooted, hobey.symm ▸ ht, ?_, ?_, [.order o], [some k],
      hobey.symm ▸ .serve rfl hpick hdeliver (.nil _), ?_⟩
    · exact (congrArg Store.shelf hobey).trans (hshelf.trans (Shelf.next_of_ok htake).symm)
    · simp [Session.answers, Shelf.briefs, Shelf.takes, hresult, htake, Except.map]
    · simp [Shelf.takes, htake, eq_comm]

theorem Follows.cons (h : s.Follows base out d [o]) (h' : (o.emit.after s).Follows base out d os) :
    s.Follows base out d (o :: os) := by
  have hshelf : (o.emit.after s).store.shelf = s.store.shelf.next base out d o := h.shelf
  obtain ⟨asks, picks, hserves, hpicks⟩ := h.serves
  obtain ⟨asks', picks', hserves', hpicks'⟩ := h'.serves
  refine ⟨h.rooted, h'.adds, ?_, ?_, asks ++ asks', picks ++ picks', hserves.append hserves',
    fun k => ?_⟩
  · rw [Shelf.final, List.foldl_cons, ← hshelf]
    exact h'.shelf
  · have hanswer := h.answers
    rw [Session.answers, Shelf.briefs_cons, List.map_cons] at hanswer
    rw [Session.answers, Shelf.briefs_cons, List.map_cons, h'.answers, hshelf,
      (List.cons.inj hanswer).1]
  · rw [List.mem_append, hpicks, hpicks', hshelf]
    simp only [Shelf.takes, List.mem_cons, List.not_mem_nil, or_false, exists_or]

/-- A session follows if its orders come by none of its modules. -/
theorem follows (h : s.store.Adds base out d)
    (hclear : ∀ o ∈ os, ∀ p ∈ o.lookups base d, ∀ name ∈ (s.obey os).store.modules,
      name ∈ (s.store.shelf.final base out d os).modules → d.comesBy p (name.path out) = false) :
    s.Follows base out d os := by
  induction os generalizing s with
  | nil => exact ⟨h.rooted, h, rfl, rfl, [], [], .nil _, by simp [Shelf.takes]⟩
  | cons o os ih =>
    obtain ⟨ho, hos⟩ := List.forall_mem_cons.1 hclear
    have hfirst : s.Follows base out d [o] := follows_single h fun p hp name hname =>
      ho p hp name ((extends_obey h.rooted (o :: os)).modules hname) (Shelf.modules_final _ hname)
    have hshelf : (o.emit.after s).store.shelf = s.store.shelf.next base out d o := hfirst.shelf
    exact hfirst.cons (ih hfirst.adds (hshelf.symm ▸ hos))

theorem inStep_obey (h : s.InStep out) (os : List Order) : (s.obey os).InStep out := by
  induction os generalizing s with
  | nil => exact h
  | cons o os ih =>
    refine ih ?_
    cases o with
    | asset file => exact Emit.keeps_inStep_embed out file s h
    | texture files => exact Emit.keeps_inStep_texture out files s h

namespace Follows

variable {name : ModuleName} {text : String}

/-- A module that was made holds its text. -/
theorem read_of_made (h : s.Follows base out d os)
    (hmade : (o, .ok (name, some text)) ∈ s.store.shelf.briefs base out d os) :
    (s.obey os).disk.read (name.path out) = .ok text.toUTF8 := by
  obtain ⟨asks, picks, hserves, hpicks⟩ := h.serves
  obtain ⟨k, hk, rfl, htext⟩ := Shelf.mem_briefs hmade
  exact (hserves.read_of_made h.rooted ((hpicks k).2 ⟨o, hk⟩) htext).2

/-- A new module was made. -/
theorem exists_made (h : s.Follows base out d os) (hname : name ∈ (s.obey os).store.modules)
    (hnew : name ∉ s.store.modules) :
    ∃ o text, (o, .ok (name, some text)) ∈ s.store.shelf.briefs base out d os := by
  obtain ⟨asks, picks, hserves, hpicks⟩ := h.serves
  obtain ⟨k, text, hk, hmade, rfl⟩ := hserves.exists_made h.rooted hname hnew
  obtain ⟨o, ho⟩ := (hpicks k).1 hk
  refine ⟨o, text, List.mem_map.2 ⟨_, ho, ?_⟩⟩
  rw [← hmade]
  rfl

/-- The answers to the orders of one part are those without the others. -/
theorem answers_filter {β : Type} (P : Shelf.Part base d β) (h : s.Follows base out d os)
    (h' : s.Follows base out d (os.filter P.mine)) :
    (s.answers os).filter (fun a => P.mine a.1) = s.answers (os.filter P.mine) := by
  rw [h.answers, h'.answers, ← (P.briefs_filter rfl os).1, List.filter_map]
  rfl

/-- The modules of one part hold the same without the others. -/
theorem exists_read_filter {β : Type} (P : Shelf.Part base d β) (h : s.Follows base out d os)
    (h' : s.Follows base out d (os.filter P.mine))
    (hname : name ∈ (s.obey (os.filter P.mine)).store.modules) (hnew : name ∉ s.store.modules) :
    ∃ c, (s.obey os).disk.read (name.path out) = .ok c ∧
      (s.obey (os.filter P.mine)).disk.read (name.path out) = .ok c := by
  obtain ⟨o, text, hmade⟩ := h'.exists_made hname hnew
  refine ⟨text.toUTF8, h.read_of_made (o := o) ?_, h'.read_of_made hmade⟩
  rw [← (P.briefs_filter rfl os).1] at hmade
  exact (List.mem_filter.1 hmade).1

/-- Two sessions that have made the same modules have the same files. -/
theorem node?_eq {os' : List Order} (h : s.Follows base out d os) (h' : s.Follows base out d os')
    (hnew : ∀ name, name ∉ s.store.modules)
    (hmodules : (s.obey os').store.modules = (s.obey os).store.modules)
    (hbriefs : ∀ a ∈ s.store.shelf.briefs base out d os, a ∈ s.store.shelf.briefs base out d os')
    (l : Location) : (s.obey os').disk.node? l = (s.obey os).disk.node? l := by
  by_cases hl : (s.obey os).store.Occupies out d l
  · -- the same pick has made the module that stands there
    obtain ⟨name, hname, htarget⟩ := hl
    obtain ⟨o, text, hmade⟩ := h.exists_made hname (hnew name)
    have hnode := h.adds.node?_of_read htarget (h.read_of_made hmade)
    have hnode' := h'.adds.node?_of_read htarget (h'.read_of_made (hbriefs _ hmade))
    exact hnode'.trans hnode.symm
  · have hl' : ¬ (s.obey os').store.Occupies out d l := fun ⟨name, hname, htarget⟩ =>
      hl ⟨name, hmodules ▸ hname, htarget⟩
    exact (h'.adds.edits.node?_eq hl').trans (h.adds.edits.node?_eq hl).symm

variable {os' : List Order}

/-- The embedder of a session is determined by its modules. -/
theorem embedder_eq (h : s.Follows base out d os) (h' : s.Follows base out d os')
    (hs : s.InStep out)
    (hfiles : (s.store.shelf.final base out d os').files =
      (s.store.shelf.final base out d os).files) :
    (s.obey os').embedder = (s.obey os).embedder := by
  have hbase := h'.adds.rooted.embedderBase.trans h.adds.rooted.embedderBase.symm
  have hout := h'.adds.rooted.embedder.trans h.adds.rooted.embedder.symm
  have hcached : (s.obey os').embedder.cached = (s.obey os).embedder.cached := by
    rw [← h.shelf, ← h'.shelf] at hfiles
    exact hfiles
  have hwritten : (s.obey os').embedder.written = (s.obey os).embedder.written := by
    rw [(inStep_obey hs os').files.files, (inStep_obey hs os).files.files, hcached]
  exact Embedder.ext hbase hout hcached hwritten

theorem textures_eq (h : s.Follows base out d os) (h' : s.Follows base out d os')
    (hs : s.InStep out)
    (htextures : (s.store.shelf.final base out d os').textures =
      (s.store.shelf.final base out d os).textures) :
    (s.obey os').textures = (s.obey os).textures := by
  have hbase := h'.adds.rooted.texturesBase.trans h.adds.rooted.texturesBase.symm
  have hout := h'.adds.rooted.textures.trans h.adds.rooted.textures.symm
  have hcached : (s.obey os').textures.cached = (s.obey os).textures.cached := by
    rw [← h.shelf, ← h'.shelf] at htextures
    exact htextures
  have hwritten : (s.obey os').textures.written = (s.obey os).textures.written := by
    rw [(inStep_obey hs os').textures.files, (inStep_obey hs os).textures.files, hcached]
  exact TextureLibrary.ext hbase hout hcached hwritten

end Follows

end Session

/-- How orders for embedded files and for textures are interleaved makes no difference, if none of
them comes by the file of a module. The orders of each kind get the answers and leave the modules
that they get and leave alone. Another interleaving of the same two sequences ends with the same
caches, the same files and the same imports. -/
theorem interleaving_immaterial (base out : Path) (d : Disk) (os : List Order)
    (hclear : ∀ o ∈ os, ∀ p ∈ o.lookups base d,
      ∀ name ∈ ((Session.new base out d).obey os).modules, d.comesBy p (name.path out) = false) :
    let s := Session.new base out d
    let assets := os.filter Order.isAsset
    let textures := os.filter Order.isTexture
    ((s.answers os).filter (fun a => a.1.isAsset) = s.answers assets ∧
      (s.obey assets).embedder = (s.obey os).embedder ∧
      ∀ k < (s.obey os).embedder.size, ∃ c,
        (s.obey os).disk.read ((ModuleName.file k).path out) = .ok c ∧
        (s.obey assets).disk.read ((ModuleName.file k).path out) = .ok c) ∧
    ((s.answers os).filter (fun a => a.1.isTexture) = s.answers textures ∧
      (s.obey textures).textures = (s.obey os).textures ∧
      ∀ k < (s.obey os).textures.size, ∃ c,
        (s.obey os).disk.read ((ModuleName.texture k).path out) = .ok c ∧
        (s.obey textures).disk.read ((ModuleName.texture k).path out) = .ok c) ∧
    ∀ os', os'.filter Order.isAsset = assets → os'.filter Order.isTexture = textures →
      (s.obey os').embedder = (s.obey os).embedder ∧
      (s.obey os').textures = (s.obey os).textures ∧
      (∀ l, (s.obey os').disk.node? l = (s.obey os).disk.node? l) ∧
      ∀ line, line ∈ (s.obey os').inserts.imports ↔ line ∈ (s.obey os).inserts.imports := by
  intro s assets textures
  have hs : s.InStep out := .new base out d
  have hnew (name : ModuleName) : name ∉ s.store.modules :=
    Store.not_mem_modules_new base out d name
  have hjoint : s.Follows base out d os := Session.follows (Store.adds_new base out d)
    fun o ho p hp name hname _ => hclear o ho p hp name hname
  -- orders that make no other modules do not come by them either
  have hfollows {os' : List Order} (hsub : os' ⊆ os)
      (hmodules : (s.store.shelf.final base out d os').modules ⊆
        (s.store.shelf.final base out d os).modules) : s.Follows base out d os' := by
    refine Session.follows (Store.adds_new base out d) fun o ho p hp name _ hname =>
      hclear o (hsub ho) p hp name ?_
    have hname := hmodules hname
    rw [← hjoint.shelf] at hname
    exact hname
  have hassets : s.Follows base out d assets := by
    refine hfollows (List.filter_subset_self os) (Shelf.modules_mono ?_ ?_)
    · rw [Shelf.files_final_assets]
    · rw [Shelf.textures_final_assets]
      exact Nat.zero_le _
  have htextures : s.Follows base out d textures := by
    refine hfollows (List.filter_subset_self os) (Shelf.modules_mono ?_ ?_)
    · rw [Shelf.files_final_textures]
      exact Nat.zero_le _
    · rw [Shelf.textures_final_textures]
  have hembedder := hjoint.embedder_eq hassets hs (Shelf.files_final_assets _ os)
  have hlibrary := hjoint.textures_eq htextures hs (Shelf.textures_final_textures _ os)
  refine ⟨⟨hjoint.answers_filter (Shelf.filesPart base d) hassets, hembedder, fun k hk => ?_⟩,
    ⟨hjoint.answers_filter (Shelf.texturesPart base d) htextures, hlibrary, fun k hk => ?_⟩,
    fun os' hassets' htextures' => ?_⟩
  · refine hjoint.exists_read_filter (Shelf.filesPart base d) hassets ?_ (hnew _)
    show ModuleName.file k ∈ ModuleName.upTo (s.obey assets).embedder.size _
    rw [hembedder]
    simp [ModuleName.upTo, hk]
  · refine hjoint.exists_read_filter (Shelf.texturesPart base d) htextures ?_ (hnew _)
    show ModuleName.texture k ∈ ModuleName.upTo _ (s.obey textures).textures.size
    rw [hlibrary]
    simp [ModuleName.upTo, hk]
  · have hfinal : s.store.shelf.final base out d os' = s.store.shelf.final base out d os :=
      Shelf.final_eq_of_interleaved hassets' htextures'
    have hbriefs {a} : a ∈ s.store.shelf.briefs base out d os' ↔
        a ∈ s.store.shelf.briefs base out d os :=
      Shelf.mem_briefs_iff_of_interleaved hassets' htextures'
    have hother : s.Follows base out d os' :=
      hfollows (Order.subset_of_interleaved hassets' htextures') (hfinal ▸ List.Subset.refl _)
    have hmodules : (s.obey os').store.modules = (s.obey os).store.modules :=
      congrArg Shelf.modules (hother.shelf.trans (hfinal.trans hjoint.shelf.symm))
    refine ⟨hjoint.embedder_eq hother hs (congrArg Shelf.files hfinal),
      hjoint.textures_eq hother hs (congrArg Shelf.textures hfinal),
      hjoint.node?_eq hother hnew hmodules fun a => hbriefs.2, fun line => ?_⟩
    simp only [Session.mem_imports_obey, hother.answers, hjoint.answers, List.mem_map, hbriefs]

/-- A material library that names an image, a mesh, and a directory for the modules. -/
def atelier : Disk where
  cwd := .root
  nodes :=
    [(⟨["out"]⟩, .directory), (⟨["mesh.obj"]⟩, .file "o".toUTF8),
      (⟨["mesh.mtl"]⟩, .file "map_Kd sky.png".toUTF8), (⟨["sky.png"]⟩, .file "A".toUTF8)]

/-- Orders of both kinds, one of them for a file that does not exist. -/
def mixedOrders : List Order :=
  [.texture ["sky.png"], .asset "mesh.mtl", .asset "lost.obj", .texture ["sky.png"],
    .asset "mesh.obj"]

/-- The textures may as well come last. -/
theorem interleaving_immaterial_atelier :
    (∀ o ∈ mixedOrders, ∀ p ∈ o.lookups ⟨"."⟩ atelier,
      ∀ name ∈ ((Session.new ⟨"."⟩ ⟨"out"⟩ atelier).obey mixedOrders).modules,
        atelier.comesBy p (name.path ⟨"out"⟩) = false) ∧
    ((Session.new ⟨"."⟩ ⟨"out"⟩ atelier).obey mixedOrders).modules =
      [.file 0, .file 1, .texture 0] ∧
    ∀ l, ((Session.new ⟨"."⟩ ⟨"out"⟩ atelier).obey
        [.asset "mesh.mtl", .asset "lost.obj", .asset "mesh.obj", .texture ["sky.png"],
          .texture ["sky.png"]]).disk.node? l =
      ((Session.new ⟨"."⟩ ⟨"out"⟩ atelier).obey mixedOrders).disk.node? l := by
  obtain ⟨hclear, hmodules⟩ : (∀ o ∈ mixedOrders, ∀ p ∈ o.lookups ⟨"."⟩ atelier,
      ∀ name ∈ ((Session.new ⟨"."⟩ ⟨"out"⟩ atelier).obey mixedOrders).modules,
        atelier.comesBy p (name.path ⟨"out"⟩) = false) ∧
      ((Session.new ⟨"."⟩ ⟨"out"⟩ atelier).obey mixedOrders).modules =
        [.file 0, .file 1, .texture 0] := by
    decide +kernel
  obtain ⟨-, -, hothers⟩ := interleaving_immaterial ⟨"."⟩ ⟨"out"⟩ atelier mixedOrders hclear
  obtain ⟨-, -, hfiles, -⟩ := hothers [.asset "mesh.mtl", .asset "lost.obj", .asset "mesh.obj",
    .texture ["sky.png"], .texture ["sky.png"]] rfl rfl
  exact ⟨hclear, hmodules, hfiles⟩

end SceneScript
