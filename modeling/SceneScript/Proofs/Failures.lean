import SceneScript.Proofs.Blocks
import SceneScript.Proofs.Progress

/-!
# Emissions that fail

A step that fails keeps what it has done so far, so it matters what that is. Steps that only prepare
a statement write nothing (`Silent`), and a statement cannot fail, so nothing is left in the buffer
of a material or a property that fails (`material_error`, `sceneProperty_error`), and of an object
the comment at its head and perhaps the statements of its material (`BlockFails`).

The objects of a tree are emitted one after the other (`Emits`), so what is left of a tree are the
whole blocks of the objects before the one that fails, and what is left of that one (`Stops`).
`failures_leave_whole_blocks` adds that the lists of the session have at most been extended.
-/

namespace SceneScript

namespace Emit

variable {s t : Session}

/-! ## Steps that write nothing -/

/-- A step that leaves the buffer alone, whether it succeeds or fails. -/
def Silent {α : Type} (m : Emit α) : Prop :=
  ∀ s, (m.after s).buffer = s.buffer

namespace Silent

variable {α β : Type}

theorem pure (a : α) : Silent (Pure.pure a : Emit α) :=
  fun _ => rfl

theorem throw (e : Error) : Silent (MonadExcept.throw e : Emit α) :=
  fun _ => rfl

theorem bind {m : Emit α} {f : α → Emit β} (hm : Silent m) (hf : ∀ a, Silent (f a)) :
    Silent (m >>= f) :=
  after_bind (R := fun s t => t.buffer = s.buffer) (fun hst htu => htu.trans hst) hm hf

theorem lift (x : Except Error α) : Silent (Emit.lift x) := by
  cases x with
  | ok a => exact pure a
  | error e => exact throw e

theorem insert (change : Inserts → Inserts) : Silent (Emit.insert change) :=
  fun _ => rfl

theorem embed (file : String) : Silent (Emit.embed file) := by
  intro s
  simp only [after, run_embed]
  cases s.embedder.embed s.disk file <;> rfl

theorem texture (files : List String) : Silent (Emit.texture files) := by
  intro s
  simp only [after, run_texture]
  cases s.textures.add s.disk files <;> rfl

theorem noteGlslify (name : ModuleName) : Silent (Emit.noteGlslify name) := by
  intro s
  simp only [after, Emit.noteGlslify, EStateM.run_modify]
  split <;> rfl

theorem slotArguments (binding : String) (slots : Slots) (entries : Entries Value) :
    Silent (Emit.slotArguments binding slots entries) := by
  have argument (key : String) (v : Value) : Silent (slotArgument binding slots key v) := by
    unfold slotArgument
    split
    · cases textureFiles? v with
      | none => exact throw _
      | some files => exact .bind (texture files) fun _ => pure _
    · split
      · exact .bind (lift _) fun _ => pure _
      · exact pure _
  induction entries with
  | nil => exact pure []
  | cons entry rest ih => exact .bind (argument entry.1 entry.2) fun _ => .bind ih fun _ => pure _

theorem shaderSourceAt (glslify : Bool) (key : String) (entries : Entries Value)
    (args : Entries Argument) : Silent (Emit.shaderSourceAt glslify key entries args) := by
  have source (text : String) : Silent (shaderSource glslify text) := by
    unfold shaderSource
    split
    · exact pure _
    · refine .bind (embed text) fun name => ?_
      dsimp only
      split
      · exact .bind (noteGlslify name) fun _ => pure _
      · exact pure _
  unfold Emit.shaderSourceAt
  split
  · exact .bind (source _) fun _ => pure _
  · exact pure _

theorem uniforms (binding : String) (entries : Entries Value) :
    Silent (Emit.uniforms binding entries) := by
  have value (name : String) (v : Value) : Silent (uniform binding name v) := by
    unfold uniform
    split
    · split
      · exact .bind (insert _) fun _ => pure _
      · exact pure _
    · refine .bind (fun _ => rfl) fun u => ?_
      split
      · exact .bind (texture _) fun _ => pure _
      · exact pure _
    · exact pure _
  induction entries with
  | nil => exact pure []
  | cons entry rest ih => exact .bind (value entry.1 entry.2) fun _ => .bind ih fun _ => pure _

theorem uniformsAt (context binding : String) (entries : Entries Value) (args : Entries Argument) :
    Silent (Emit.uniformsAt context binding entries args) := by
  unfold Emit.uniformsAt
  split
  · exact pure _
  · exact .bind (uniforms binding _) fun _ => pure _
  · exact throw _

theorem background (v : Value) : Silent (Emit.background v) := by
  have color (v : Value) : Silent (do
      return Background.color (← Emit.lift (Color.ofValue v)) : Emit Background) :=
    .bind (lift _) fun _ => pure _
  unfold Emit.background
  split
  · split
    · exact .bind (lift _) fun _ => .bind (texture _) fun _ => pure _
    · exact color _
  · split
    · exact .bind (texture _) fun _ => pure _
    · exact color _
  · exact color _

theorem buffer_of_ok {m : Emit α} (hm : Silent m) {a : α} (h : m.run s = .ok a t) :
    t.buffer = s.buffer :=
  after_of_ok h ▸ hm s

theorem buffer_of_error {m : Emit α} (hm : Silent m) {e : Error} (h : m.run s = .error e t) :
    t.buffer = s.buffer :=
  after_of_error h ▸ hm s

end Silent

/-! ## Steps that fail -/

theorem statements_ne_error (ss : List Statement) (s t : Session) (e : Error) :
    (statements ss).run s ≠ .error e t := by
  induction ss generalizing s with
  | nil => nofun
  | cons st ss ih =>
    intro h
    rcases run_bind_eq_error.1 h with hst | ⟨_, u, -, hss⟩
    · cases hst
    · exact ih u hss

/-- A silent step followed by one that cannot fail. -/
theorem buffer_of_bind_error {α β : Type} {m : Emit α} {f : α → Emit β} {e : Error}
    (h : (m >>= f).run s = .error e t) (hm : Silent m)
    (hf : ∀ a u, (f a).run u = .error e t → t.buffer = u.buffer) : t.buffer = s.buffer := by
  rcases run_bind_eq_error.1 h with hfirst | ⟨a, u, hfirst, hsecond⟩
  · exact hm.buffer_of_error hfirst
  · exact (hf a u hsecond).trans (hm.buffer_of_ok hfirst)

/-- Nothing is written of a material that fails. -/
theorem material_error {object : String} {m : Material} {e : Error}
    (h : (material object m).run s = .error e t) : t.buffer = s.buffer := by
  have written {ss : List Statement} {u : Session} (hss : (statements ss).run u = .error e t) :
      t.buffer = u.buffer := absurd hss (statements_ne_error ss u t e)
  cases m with
  | file path =>
    refine buffer_of_bind_error h (.embed path) fun asset u hrest => ?_
    refine buffer_of_bind_error hrest (.insert _) fun _ u₁ hrest₁ => ?_
    exact buffer_of_bind_error hrest₁ (.insert _) fun _ u₂ hrest₂ => written hrest₂
  | call function args glslify =>
    simp only [material] at h
    split at h
    · unfold shaderMaterial at h
      cases args with
      | positional items =>
        cases h
        rfl
      | keyword entries =>
        refine buffer_of_bind_error h (.shaderSourceAt _ _ _ _) fun args₁ u₁ hrest₁ => ?_
        refine buffer_of_bind_error hrest₁ (.shaderSourceAt _ _ _ _) fun args₂ u₂ hrest₂ => ?_
        refine buffer_of_bind_error hrest₂ (.uniformsAt _ _ _ _) fun args₃ u₃ hrest₃ => ?_
        refine buffer_of_bind_error hrest₃ (.lift _) fun flags u₄ hrest₄ => ?_
        rcases run_bind_eq_error.1 hrest₄ with hconstruct | ⟨_, u₅, -, hflags⟩
        · cases hconstruct
        · exact absurd hflags (statements_ne_error _ _ _ _)
    · unfold builtMaterial at h
      dsimp only at h
      split at h
      · refine buffer_of_bind_error h (.slotArguments _ _ _) fun entries u hstatement => ?_
        cases hstatement
      · cases h

/-- Nothing is written of a property that fails. -/
theorem sceneProperty_error {name : String} {v : Value} {e : Error}
    (h : (sceneProperty name v).run s = .error e t) : t.buffer = s.buffer := by
  unfold sceneProperty at h
  split at h
  · refine buffer_of_bind_error h (.background v) fun b u hstatement => ?_
    cases hstatement
  · cases h

/-- A mesh fails only if its file cannot be embedded, and nothing has changed then. -/
theorem geometry_error {object : String} {m : Option Material} {g : Geometry} {e : Error}
    (h : (geometry object m g).run s = .error e t) :
    t = s ∧ ∃ path, g = .file path ∧ (embed path).run s = .error e s := by
  cases g with
  | call function args =>
    rcases run_bind_eq_error.1 h with hconstruct | ⟨_, u, -, hmesh⟩
    · cases hconstruct
    · cases hmesh
  | file path =>
    rw [geometry_file] at h
    rcases run_bind_eq_error.1 h with hembed | ⟨asset, u, -, rest⟩
    · obtain rfl : t = s := by
        rw [run_embed] at hembed
        split at hembed <;> cases hembed
        rfl
      exact ⟨rfl, path, rfl, hembed⟩
    · rcases run_bind_eq_error.1 rest with hloader | ⟨_, u₁, -, hstatements⟩
      · cases hloader
      · exact absurd hstatements (statements_ne_error _ _ _ _)

/-! ## Blocks -/

/-- The emission of an object with a geometry, without its children. -/
def block (v : Visit) : Emit Unit :=
  objectBlock v.name v.binding ⟨some v.geometry, v.material, v.animations, []⟩ v.parent

/-- The session in which the comment at the head of an object has been written. -/
def headed (v : Visit) (s : Session) : Session :=
  { s with buffer := s.buffer.push (.statement (.comment (v.name ++ " object"))) }

/-- An object fails behind the comment at its head: at its material, of which nothing is written, or
at the file of its mesh, when the statements of its material are written. -/
inductive BlockFails (v : Visit) (s : Session) (e : Error) (t : Session) : List Statement → Prop
  | material {m : Material} (hm : v.material = some m)
    (hrun : (material v.binding m).run (headed v s) = .error e t) : BlockFails v s e t []
  | mesh {path : String} {ss : List Statement} (hg : v.geometry = .file path)
    (hmaterial : (materialOf v).run (headed v s) = .ok () t) (hpart : v.MaterialPart ss)
    (hwrites : (headed v s).Writes ss t) (hembed : (embed path).run t = .error e t) :
    BlockFails v s e t ss

theorem block_error {v : Visit} {e : Error} (h : (block v).run s = .error e t) :
    ∃ ss, BlockFails v s e t ss := by
  unfold block at h
  rw [objectBlock_eq] at h
  rcases run_bind_eq_error.1 h with hcomment | ⟨_, _, ⟨⟩, rest₁⟩
  · cases hcomment
  rcases run_bind_eq_error.1 rest₁ with hmaterial | ⟨_, s₂, hmaterial, rest₂⟩
  · unfold materialOf at hmaterial
    cases hm : v.material with
    | none =>
      rw [hm] at hmaterial
      cases hmaterial
    | some m =>
      rw [hm] at hmaterial
      exact ⟨[], .material hm hmaterial⟩
  rcases run_bind_eq_error.1 rest₂ with hgeometry | ⟨_, s₃, -, rest₃⟩
  · obtain ⟨rfl, path, hg, hembed⟩ := geometry_error hgeometry
    obtain ⟨ss, hpart, hwrites⟩ := materialOf_writes v hmaterial
    exact ⟨ss, .mesh hg hmaterial hpart hwrites hembed⟩
  rcases run_bind_eq_error.1 rest₃ with hplacement | ⟨_, s₄, -, htracks⟩
  · exact absurd hplacement (statements_ne_error _ _ _ _)
  · exact absurd htracks (statements_ne_error _ _ _ _)

/-- What an object that fails leaves in the buffer. -/
theorem BlockFails.buffer {v : Visit} {e : Error} {ss : List Statement}
    (h : BlockFails v s e t ss) :
    t.buffer =
      s.buffer.append ((Statement.comment (v.name ++ " object") :: ss).map .statement) := by
  cases h with
  | material hm hrun => exact material_error hrun
  | mesh hg hmaterial hpart hwrites hembed =>
    rw [hwrites.buffer]
    exact Buffer.append_append _ [_] _

/-! ## Trees -/

/-- Objects are emitted one after the other. Those without geometry may give warnings in between. -/
inductive Emits : Session → List Visit → List (List Statement) → Session → Prop
  | nil (s : Session) : Emits s [] [] s
  | warned {s t : Session} {w : Warning} {vs : List Visit} {blocks : List (List Statement)}
    (rest : Emits { s with warnings := s.warnings ++ [w] } vs blocks t) : Emits s vs blocks t
  | cons {s u t : Session} {v : Visit} {ss : List Statement} {vs : List Visit}
    {blocks : List (List Statement)} (hrun : (block v).run s = .ok () u) (hblock : v.Block ss)
    (hwrites : s.Writes ss u) (rest : Emits u vs blocks t) : Emits s (v :: vs) (ss :: blocks) t

namespace Emits

variable {u : Session} {vs more : List Visit} {blocks others : List (List Statement)}

theorem append (h : Emits s vs blocks t) (h' : Emits t more others u) :
    Emits s (vs ++ more) (blocks ++ others) u := by
  induction h with
  | nil => exact h'
  | warned _ ih => exact .warned (ih h')
  | cons hrun hblock hwrites _ ih => exact .cons hrun hblock hwrites (ih h')

theorem forall₂_block (h : Emits s vs blocks t) : List.Forall₂ Visit.Block vs blocks := by
  induction h with
  | nil => exact .nil
  | warned _ ih => exact ih
  | cons _ hblock _ _ ih => exact .cons hblock ih

theorem buffer (h : Emits s vs blocks t) :
    t.buffer = s.buffer.append (blocks.flatten.map .statement) := by
  induction h with
  | nil => exact (Buffer.append_nil _).symm
  | warned _ ih => exact ih
  | cons _ _ hwrites _ ih =>
    rw [ih, hwrites.buffer, Buffer.append_append, List.flatten_cons, List.map_append]

end Emits

/-- An object without geometry gives at most a warning. -/
theorem objectBlock_none {name object parent : String} {m : Option Material}
    {tracks : Entries (List Value)} {children : List (String × Object)} {s t u : Session}
    {vs : List Visit} {blocks : List (List Statement)}
    (h : (objectBlock name object ⟨none, m, tracks, children⟩ parent).run s = .ok () t)
    (rest : Emits t vs blocks u) : Emits s vs blocks u := by
  unfold objectBlock at h
  dsimp only at h
  split at h
  · cases h
    exact .warned rest
  · cases h
    exact rest

/-- Of several objects, those before the one that fails are emitted. -/
def Stops (s : Session) (vs : List Visit) (e : Error) (t : Session) : Prop :=
  ∃ done v rest blocks u ss, vs = done ++ v :: rest ∧ Emits s done blocks u ∧ BlockFails v u e t ss

namespace Stops

variable {u : Session} {vs more : List Visit} {e : Error}

theorem append_right (h : Stops s vs e t) (more : List Visit) : Stops s (vs ++ more) e t := by
  obtain ⟨done, v, rest, blocks, u, ss, rfl, hdone, hfails⟩ := h
  exact ⟨done, v, rest ++ more, blocks, u, ss, by simp, hdone, hfails⟩

theorem append_left {blocks : List (List Statement)} (hmore : Emits s more blocks t)
    (h : Stops t vs e u) : Stops s (more ++ vs) e u := by
  obtain ⟨done, v, rest, others, w, ss, rfl, hdone, hfails⟩ := h
  exact ⟨more ++ done, v, rest, blocks ++ others, w, ss, by simp, hmore.append hdone, hfails⟩

end Stops

mutual

theorem object_emits (name parent : String) : ∀ (node : Object) {s t : Session},
    (object name parent node).run s = .ok () t →
      ∃ blocks, Emits s (node.visits name parent) blocks t
  | ⟨some g, m, tracks, children⟩, s, t, h => by
    obtain ⟨_, u, hblock, hchildren⟩ := run_bind_eq_ok.1 h
    obtain ⟨ss, hshape, hwrites⟩ := objectBlock_writes ⟨name, parent, g, m, tracks⟩ hblock
    obtain ⟨blocks, hblocks⟩ := objects_emits _ children hchildren
    exact ⟨ss :: blocks, .cons hblock hshape hwrites hblocks⟩
  | ⟨none, m, tracks, children⟩, s, t, h => by
    obtain ⟨_, u, hblock, hchildren⟩ := run_bind_eq_ok.1 h
    obtain ⟨blocks, hblocks⟩ := objects_emits _ children hchildren
    exact ⟨blocks, objectBlock_none hblock hblocks⟩

theorem objects_emits (parent : String) : ∀ (nodes : List (String × Object)) {s t : Session},
    (objects parent nodes).run s = .ok () t →
      ∃ blocks, Emits s (Object.forestVisits parent nodes) blocks t
  | [], s, t, h => by
    cases h
    exact ⟨[], .nil s⟩
  | (name, node) :: rest, s, t, h => by
    obtain ⟨_, u, hnode, hrest⟩ := run_bind_eq_ok.1 h
    obtain ⟨blocks, hblocks⟩ := object_emits name parent node hnode
    obtain ⟨more, hmore⟩ := objects_emits parent rest hrest
    exact ⟨blocks ++ more, hblocks.append hmore⟩

end

mutual

/-- A tree fails at the first of its objects that fails. -/
theorem object_stops (name parent : String) : ∀ (node : Object) {s t : Session} {e : Error},
    (object name parent node).run s = .error e t → Stops s (node.visits name parent) e t
  | ⟨some g, m, tracks, children⟩, s, t, e, h => by
    rcases run_bind_eq_error.1 h with hblock | ⟨_, u, hblock, hchildren⟩
    · obtain ⟨ss, hfails⟩ := block_error (v := ⟨name, parent, g, m, tracks⟩) hblock
      exact ⟨[], _, _, [], s, ss, rfl, .nil s, hfails⟩
    · obtain ⟨ss, hshape, hwrites⟩ := objectBlock_writes ⟨name, parent, g, m, tracks⟩ hblock
      have hemits : Emits s [⟨name, parent, g, m, tracks⟩] [ss] u :=
        .cons hblock hshape hwrites (.nil u)
      exact Stops.append_left hemits (objects_stops _ children hchildren)
  | ⟨none, m, tracks, children⟩, s, t, e, h => by
    rcases run_bind_eq_error.1 h with hblock | ⟨_, u, hblock, hchildren⟩
    · unfold objectBlock at hblock
      dsimp only at hblock
      split at hblock <;> cases hblock
    · exact Stops.append_left (objectBlock_none hblock (.nil u))
        (objects_stops _ children hchildren)

theorem objects_stops (parent : String) :
    ∀ (nodes : List (String × Object)) {s t : Session} {e : Error},
    (objects parent nodes).run s = .error e t → Stops s (Object.forestVisits parent nodes) e t
  | [], s, t, e, h => nomatch h
  | (name, node) :: rest, s, t, e, h => by
    rcases run_bind_eq_error.1 h with hnode | ⟨_, u, hnode, hrest⟩
    · exact (object_stops name parent node hnode).append_right _
    · obtain ⟨blocks, hblocks⟩ := object_emits name parent node hnode
      exact Stops.append_left hblocks (objects_stops parent rest hrest)

end

/-- Of a material or a property that fails nothing is left in the buffer. Of a tree that fails are
left the blocks of the objects before the one that fails, each as its own emission writes it, the
comment at the head of that one, and the statements of its material if the file of its mesh has
failed. The lists of the session have at most been extended. -/
theorem failures_leave_whole_blocks (s t : Session) (e : Error) :
    (∀ object m, (material object m).run s = .error e t → t.buffer = s.buffer ∧ s.Lengthens t) ∧
    (∀ name v, (sceneProperty name v).run s = .error e t → t.buffer = s.buffer ∧ s.Lengthens t) ∧
    ∀ name parent node, (object name parent node).run s = .error e t →
      s.Lengthens t ∧ ∃ done v rest blocks u ending,
        node.visits name parent = done ++ v :: rest ∧
        Emits s done blocks u ∧ List.Forall₂ Visit.Block done blocks ∧
        BlockFails v u e t ending ∧
        t.buffer = s.buffer.append
          ((blocks.flatten ++ .comment (v.name ++ " object") :: ending).map .statement) := by
  refine ⟨fun object m h => ?_, fun name v h => ?_, fun name parent node h => ?_⟩
  · exact ⟨material_error h, ((progresses.material object m).of_error h).toLengthens⟩
  · exact ⟨sceneProperty_error h, ((progresses.sceneProperty name v).of_error h).toLengthens⟩
  · obtain ⟨done, v, rest, blocks, u, ending, hvisits, hdone, hfails⟩ :=
      object_stops name parent node h
    refine ⟨((progresses.object name parent node).of_error h).toLengthens, done, v, rest, blocks, u,
      ending, hvisits, hdone, hdone.forall₂_block, hfails, ?_⟩
    rw [hfails.buffer, hdone.buffer, Buffer.append_append, List.map_append]

/-- A lamp with a shade of which the mesh has no file. -/
def tornLamp : Object :=
  ⟨some (.call "BoxGeometry" (.positional [])), none, [],
    [("shade", ⟨some (.file "shade.obj"),
      some (.call "MeshBasicMaterial" (.keyword [("wireframe", .bool true)]) false), [], []⟩)]⟩

/-- The block of the lamp is left before what is left of its shade. -/
theorem failures_leave_whole_blocks_tornLamp :
    ∃ e t done v blocks u ending,
      (object "lamp" rootParent tornLamp).run (.new ⟨"/in"⟩ ⟨"/out"⟩ ⟨.root, []⟩) = .error e t ∧
      done.map Visit.name = ["lamp"] ∧ v.name = "shade" ∧
      Emits (.new ⟨"/in"⟩ ⟨"/out"⟩ ⟨.root, []⟩) done blocks u ∧ BlockFails v u e t ending := by
  have hfails : ((object "lamp" rootParent tornLamp).run'
      (.new ⟨"/in"⟩ ⟨"/out"⟩ ⟨.root, []⟩)).isNone = true := by decide +kernel
  cases hrun : (object "lamp" rootParent tornLamp).run (.new ⟨"/in"⟩ ⟨"/out"⟩ ⟨.root, []⟩) with
  | ok a t =>
    delta EStateM.run' at hfails
    rw [hrun] at hfails
    cases hfails
  | error e t =>
    obtain ⟨-, done, v, rest, blocks, u, ending, hvisits, hemits, -, hblock, -⟩ :=
      (failures_leave_whole_blocks _ t e).2.2 _ _ _ hrun
    refine ⟨e, t, done, v, blocks, u, ending, rfl, ?_⟩
    obtain _ | ⟨lamp, _ | ⟨shade, more⟩⟩ := done
    · cases hvisits
      cases hblock with
      | material hm => cases hm
      | mesh hg => cases hg
    · cases hvisits
      exact ⟨rfl, rfl, hemits, hblock⟩
    · have hlength := congrArg List.length hvisits
      simp [tornLamp, Object.visits, Object.forestVisits] at hlength

end Emit

end SceneScript
