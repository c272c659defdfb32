import SceneScript.Proofs.Serving

/-!
# What an emission learns from the disk

An emission that succeeds is served the asks of its scene, and it learns nothing from the disk but
the picks: a session alike that is served the same picks from another disk, for another output
directory, writes the same and stays alike. `Emit.Asking` says this of one emission with its asks,
and it holds of all of them (`Emit.asking_assemble`).
-/

namespace SceneScript

/-! ## Sessions alike -/

/-- A session looks files up from one directory and keeps its modules in another. -/
structure Session.Rooted (base out : Path) (s : Session) : Prop where
  base_eq : s.base = base
  store : s.store.Rooted base out

/-- Sessions for two output directories that have written the same. -/
structure Session.Alike (base out out' : Path) (s t : Session) : Prop where
  left : s.Rooted base out
  right : t.Rooted base out'
  buffer : t.buffer = s.buffer
  inserts : t.inserts = s.inserts
  glslify : ∃ names : List ModuleName,
    s.glslify = names.map (·.path out) ∧ t.glslify = names.map (·.path out')

theorem Session.rooted_new (base out : Path) (d : Disk) : (new base out d).Rooted base out :=
  ⟨rfl, Store.rooted_new base out d⟩

theorem Session.alike_new (base out out' : Path) (d d' : Disk) :
    (new base out d).Alike base out out' (new base out' d') :=
  ⟨rooted_new base out d, rooted_new base out' d', rfl, rfl, [], rfl, rfl⟩

/-- A session that takes over the store with a module, and imports the module. -/
def Session.receive (s : Session) (name : ModuleName) (t : Store) : Session :=
  { s with
    embedder := t.embedder
    textures := t.textures
    disk := t.disk
    inserts := s.inserts.addImport (importLine name.text) }

/-- What a session makes of a delivery: a refused one changes nothing. -/
def Session.reply (s : Session) :
    Except Error (ModuleName × Store) → EStateM.Result Error Session ModuleName
  | .error e => .error e s
  | .ok (name, t) => .ok name (s.receive name t)

/-- The emission of an order. -/
def Order.emit : Order → Emit ModuleName
  | .asset file => Emit.embed file
  | .texture files => Emit.texture files

namespace Emit

theorem run_emit (o : Order) (s : Session) : o.emit.run s = s.reply (s.store.deliver o) := by
  cases o with
  | asset file =>
    rw [Order.emit, run_embed, Store.deliver, Session.store]
    rcases s.embedder.embed s.disk file with e | ⟨name, embedder, disk⟩ <;> rfl
  | texture files =>
    rw [Order.emit, run_texture, Store.deliver, Session.store]
    rcases s.textures.add s.disk files with e | ⟨handle, textures, disk⟩ <;> rfl

/-! ## Asks and picks -/

/-- An emission that succeeds is served its asks, and a session alike that gets the same picks does
the same. -/
def Asking (base out out' : Path) {α : Type} (asks : List Ask) (m : Emit α) : Prop :=
  ∀ s a s', s.Rooted base out → m.run s = .ok a s' →
    s'.Rooted base out ∧ ∃ picks, s.store.Serves base asks picks s'.store ∧
      ∀ t u, s.Alike base out out' t → t.store.Serves base asks picks u →
        ∃ t', m.run t = .ok a t' ∧ t'.store = u ∧ s'.Alike base out out' t'

namespace Asking

variable {base out out' : Path} {α β : Type}

theorem pure (a : α) : Asking base out out' [] (Pure.pure a : Emit α) := by
  rintro s b s' hs ⟨⟩
  refine ⟨hs, [], .nil _, fun t u halike hserves => ?_⟩
  obtain ⟨-, rfl⟩ := hserves.eq_of_nil
  exact ⟨t, rfl, rfl, halike⟩

theorem throw (asks : List Ask) (e : Error) :
    Asking base out out' asks (MonadExcept.throw e : Emit α) := by
  rintro s a s' - ⟨⟩

theorem bind {as bs : List Ask} {m : Emit α} {f : α → Emit β} (hm : Asking base out out' as m)
    (hf : ∀ a, Asking base out out' bs (f a)) : Asking base out out' (as ++ bs) (m >>= f) := by
  intro s b s' hs hrun
  obtain ⟨a, v, hfirst, hsecond⟩ := run_bind_eq_ok.1 hrun
  obtain ⟨hv, picks, hserves, hreplay⟩ := hm s a v hs hfirst
  obtain ⟨hs', more, hserves', hreplay'⟩ := hf a v b s' hv hsecond
  refine ⟨hs', picks ++ more, hserves.append hserves', fun t u halike hboth => ?_⟩
  obtain ⟨x, hx, hrest⟩ := hboth.split hserves.length
  obtain ⟨t₁, hrun₁, rfl, halike₁⟩ := hreplay t x halike hx
  obtain ⟨t₂, hrun₂, hstore, halike₂⟩ := hreplay' t₁ u halike₁ hrest
  exact ⟨t₂, run_bind_eq_ok.2 ⟨a, t₁, hrun₁, hrun₂⟩, hstore, halike₂⟩

/-- A change of the session that has nothing to do with its store. -/
theorem modify {f : Session → Session} (hbase : ∀ s, (f s).base = s.base)
    (hstore : ∀ s, (f s).store = s.store)
    (halike : ∀ s t, s.Alike base out out' t → (f s).Rooted base out → (f t).Rooted base out' →
      (f s).Alike base out out' (f t)) :
    Asking base out out' [] (modify f : Emit Unit) := by
  have hrooted {o : Path} {s : Session} (h : s.Rooted base o) : (f s).Rooted base o :=
    ⟨(hbase s).trans h.base_eq, (hstore s).symm ▸ h.store⟩
  rintro s a s' hs ⟨⟩
  refine ⟨hrooted hs, [], (hstore s).symm ▸ .nil _, fun t u hst hserves => ?_⟩
  obtain ⟨-, rfl⟩ := hserves.eq_of_nil
  exact ⟨f t, rfl, hstore t, halike s t hst (hrooted hst.left) (hrooted hst.right)⟩

theorem piece (p : Piece) : Asking base out out' [] (piece p) :=
  modify (fun _ => rfl) (fun _ => rfl) fun _ _ h left right =>
    ⟨left, right, congrArg (·.push p) h.buffer, h.inserts, h.glslify⟩

theorem insert (change : Inserts → Inserts) : Asking base out out' [] (insert change) :=
  modify (fun _ => rfl) (fun _ => rfl) fun _ _ h left right =>
    ⟨left, right, h.buffer, congrArg change h.inserts, h.glslify⟩

theorem warn (w : Warning) : Asking base out out' [] (warn w) :=
  modify (fun _ => rfl) (fun _ => rfl) fun _ _ h left right =>
    ⟨left, right, h.buffer, h.inserts, h.glslify⟩

/-- Both sessions note the same module, each at its own path. -/
theorem noteGlslify (name : ModuleName) : Asking base out out' [] (noteGlslify name) := by
  refine modify (fun s => ?_) (fun s => ?_) fun s t h left right => ?_
  · dsimp only
    split <;> rfl
  · dsimp only
    split <;> rfl
  · obtain ⟨names, hs, ht⟩ := h.glslify
    have hmem {o : Path} : name.path o ∈ names.map (·.path o) ↔ name ∈ names :=
      List.mem_map_of_injective (ModuleName.path_injective o)
    have hout : s.embedder.out = out := h.left.store.embedder
    have hout' : t.embedder.out = out' := h.right.store.embedder
    simp only [hout, hout', hs, ht, hmem] at left right ⊢
    by_cases hname : name ∈ names
    · simp only [hname, ↓reduceIte] at left right ⊢
      exact ⟨left, right, h.buffer, h.inserts, names, hs, ht⟩
    · simp only [hname, ↓reduceIte] at left right ⊢
      exact ⟨left, right, h.buffer, h.inserts, names ++ [name], by simp, by simp⟩

/-- An ask gets the module of its pick, unless it comes to no order. -/
theorem ask {a : Ask} {m : Emit α} {f : ModuleName → α} {x : α}
    (hnone : ∀ s : Session, s.base = base → a.order? base s.disk = none → m.run s = .ok x s)
    (hsome : ∀ (s : Session) o, s.base = base → a.order? base s.disk = some o →
      m.run s = (o.emit >>= fun name => Pure.pure (f name)).run s) :
    Asking base out out' [a] m := by
  intro s b s' hs hrun
  cases horder : a.order? base s.disk with
  | none =>
    rw [hnone s hs.base_eq horder] at hrun
    cases hrun
    refine ⟨hs, [none], .skip horder (.nil _), fun t u halike hserves => ?_⟩
    cases hserves with
    | skip horder' rest =>
      obtain ⟨-, rfl⟩ := rest.eq_of_nil
      exact ⟨t, hnone t halike.right.base_eq horder', rfl, halike⟩
  | some o =>
    rw [hsome s o hs.base_eq horder, run_bind_eq_ok] at hrun
    obtain ⟨name, v, hemit, hrun⟩ := hrun
    cases hrun
    rw [run_emit] at hemit
    cases hdeliver : s.store.deliver o with
    | error e =>
      rw [hdeliver] at hemit
      cases hemit
    | ok answer =>
      obtain ⟨found, v⟩ := answer
      rw [hdeliver] at hemit
      cases hemit
      obtain ⟨k, hpick, rfl, hv, -⟩ := Store.deliver_eq_ok hs.store hdeliver
      refine ⟨⟨hs.base_eq, hv⟩, [some k], .serve horder hpick hdeliver (.nil _), ?_⟩
      intro t u halike hserves
      cases hserves with
      | serve horder' hpick' hdeliver' rest =>
        obtain ⟨-, rfl⟩ := rest.eq_of_nil
        obtain ⟨-, -, -, hu, -⟩ := Store.deliver_eq_ok halike.right.store hdeliver'
        refine ⟨t.receive k.name u, ?_, rfl, ⟨hs.base_eq, hv⟩, ⟨halike.right.base_eq, hu⟩,
          halike.buffer, congrArg (·.addImport (importLine k.name.text)) halike.inserts,
          halike.glslify⟩
        rw [hsome t _ halike.right.base_eq horder', run_bind_eq_ok]
        exact ⟨k.name, _, by rw [run_emit, hdeliver', Session.reply], rfl⟩

theorem emit (o : Order) : Asking base out out' [.order o] o.emit := by
  refine ask (f := id) (x := .file 0) (fun s _ h => by cases h) fun s o' _ h => ?_
  cases h
  exact (congrArg (·.run s) (bind_pure o.emit)).symm

theorem shaderSource (glslify : Bool) (text : String) :
    Asking base out out' (sourceAsks text) (shaderSource glslify text) := by
  unfold Emit.shaderSource sourceAsks
  split
  · exact pure _
  · have note (name : ModuleName) : Asking base out out' [] (do
        if glslify then Emit.noteGlslify name
        return Argument.generated name) := by
      cases glslify with
      | false => exact pure _
      | true => exact bind (noteGlslify name) fun _ => pure _
    exact bind (emit (.asset text)) note

theorem imageUniform (path : String) :
    Asking base out out' [.image path] (imageUniform path) := by
  have hrun (s : Session) (hs : s.base = base) : (Emit.imageUniform path).run s =
      (if Image.isImageFile s.disk (base.join ⟨path⟩) then
        (do return .texture (← Emit.texture [path]))
      else return .value (.string path) : Emit Uniform).run s := by
    rw [← hs]
    rfl
  refine ask (f := .texture) (x := .value (.string path)) (fun s hs h => ?_) fun s o hs h => ?_
  · rw [hrun s hs, if_neg]
    · rfl
    · intro himage
      simp [Ask.order?, himage] at h
  · simp only [Ask.order?, Option.ite_none_right_eq_some, Option.some.injEq] at h
    obtain ⟨himage, rfl⟩ := h
    rw [hrun s hs, if_pos himage]
    rfl

/-- All emissions learn nothing but their picks. -/
theorem closed : Closed (Asking base out out') where
  pure := pure
  throw := throw
  bind := bind
  piece := piece
  warn := warn
  useObjLoader := insert _
  useMtlLoader := insert _
  addFrameUpdate _ := insert _
  embed file := emit (.asset file)
  texture files := emit (.texture files)
  shaderSource := shaderSource
  imageUniform := imageUniform

end Asking

/-- The program of a scene depends on the disk only through the picks for the asks of the scene. -/
theorem asking_assemble (base out out' : Path) (scene : Scene) :
    Asking base out out' scene.asks (assemble scene) := by
  have H : Closed (Asking base out out') := Asking.closed
  have finish (showStats : Bool) : Asking base out out' [] (do
      let s ← get
      fixed (Template.ending showStats s.inserts.frameUpdates)
      let s ← get
      set { s with buffer := Buffer.empty }
      return s.buffer.finish s.inserts.headerText) := by
    rintro s a s' hs ⟨⟩
    refine ⟨⟨hs.base_eq, hs.store⟩, [], .nil _, fun t u halike hserves => ?_⟩
    obtain ⟨-, rfl⟩ := hserves.eq_of_nil
    refine ⟨{ t with buffer := .empty }, ?_, rfl, ⟨hs.base_eq, hs.store⟩,
      ⟨halike.right.base_eq, halike.right.store⟩, rfl, halike.inserts, halike.glslify⟩
    show EStateM.Result.ok ((t.buffer.push (.fixed
      (Template.ending showStats t.inserts.frameUpdates))).finish t.inserts.headerText) _ = _
    rw [halike.buffer, halike.inserts]
  have body : Asking base out out' scene.asks (do
      fixed Template.imports
      modify fun s => { s with buffer := s.buffer.mark }
      fixed Template.beginning
      propertySection scene.properties
      objects rootParent scene.objects
      lights rootParent scene.lights
      let s ← get
      fixed (Template.ending scene.options.showStats s.inserts.frameUpdates)
      let s ← get
      set { s with buffer := Buffer.empty }
      return s.buffer.finish s.inserts.headerText) :=
    H.silent_bind (.piece _) fun _ => H.silent_bind
      (.modify (fun _ => rfl) (fun _ => rfl) fun _ _ h left right =>
        ⟨left, right, congrArg (·.mark) h.buffer, h.inserts, h.glslify⟩) fun _ =>
      H.silent_bind (.piece _) fun _ => H.bind (H.propertySection _) fun _ =>
      H.bind_silent (H.objects _ _) fun _ => H.silent_bind (H.lights _ _) fun _ => finish _
  unfold assemble
  dsimp only
  split
  · exact H.silent_bind (.insert _) fun _ => body
  · exact body

end Emit

end SceneScript
