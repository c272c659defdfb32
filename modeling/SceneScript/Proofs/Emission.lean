import SceneScript.Proofs.Asks

/-!
# What every emission respects

A step of an emission respects a relation between sessions if, from related sessions, it gives the
same value or the same error and leaves related sessions. The steps that write, warn, ask for a late
insert or make a module are few, and every emission is made of them. `Simulation` says what a
relation has to satisfy at those few steps. By `Simulation.closed` all emissions respect it then.

An invariant is the special case of a relation between equal sessions (`Keeps`): what the few steps
keep, whether they succeed or fail, every emission keeps.
-/

namespace SceneScript.Emit

variable {α β : Type}

/-! ## Results -/

/-- The session after a step, whether the step has succeeded or failed. -/
def after (m : Emit α) (s : Session) : Session :=
  match m.run s with
  | .ok _ t => t
  | .error _ t => t

/-- What a step gives, without the session after it. -/
def result (m : Emit α) (s : Session) : Except Error α :=
  match m.run s with
  | .ok a _ => .ok a
  | .error e _ => .error e

/-- A step that succeeds after another. -/
theorem run_bind_eq_ok {m : Emit α} {f : α → Emit β} {s u : Session} {b : β} :
    (m >>= f).run s = .ok b u ↔ ∃ a t, m.run s = .ok a t ∧ (f a).run t = .ok b u := by
  rw [EStateM.run_bind]
  cases m.run s with
  | ok a t => exact ⟨fun h => ⟨a, t, rfl, h⟩, by rintro ⟨_, _, ⟨⟩, h⟩; exact h⟩
  | error e t => simp

/-- Of two steps that fail, the first one fails, or it succeeds and the second one fails. -/
theorem run_bind_eq_error {m : Emit α} {f : α → Emit β} {s u : Session} {e : Error} :
    (m >>= f).run s = .error e u ↔
      m.run s = .error e u ∨ ∃ a t, m.run s = .ok a t ∧ (f a).run t = .error e u := by
  rw [EStateM.run_bind]
  cases m.run s with
  | ok a t => exact ⟨fun h => .inr ⟨a, t, rfl, h⟩, by rintro (⟨⟨⟩⟩ | ⟨_, _, ⟨⟩, h⟩); exact h⟩
  | error e' t => simp

theorem after_of_ok {m : Emit α} {s t : Session} {a : α} (h : m.run s = .ok a t) :
    m.after s = t := by
  rw [after, h]

theorem after_of_error {m : Emit α} {s t : Session} {e : Error} (h : m.run s = .error e t) :
    m.after s = t := by
  rw [after, h]

/-- What two steps do to a session, each of them or the first one alone, they do in a row. -/
theorem after_bind {R : Session → Session → Prop} (htrans : ∀ {s t u}, R s t → R t u → R s u)
    {m : Emit α} {f : α → Emit β} (hm : ∀ s, R s (m.after s)) (hf : ∀ a s, R s ((f a).after s))
    (s : Session) : R s ((m >>= f).after s) := by
  have hfirst := hm s
  simp only [after, EStateM.run_bind] at hfirst ⊢
  cases hrun : m.run s with
  | error e t =>
    rw [hrun] at hfirst
    exact hfirst
  | ok a t =>
    rw [hrun] at hfirst
    exact htrans hfirst (hf a t)

/-- Embedding a file asks for the import of its module, or fails without any change. -/
theorem run_embed (file : String) (s : Session) :
    (embed file).run s =
      match s.embedder.embed s.disk file with
      | .error e => .error e s
      | .ok (name, embedder, disk) =>
        .ok name { s with
          embedder := embedder
          disk := disk
          inserts := s.inserts.addImport (importLine name.text) } := by
  unfold embed
  rw [EStateM.run_bind, EStateM.run_get]
  dsimp only
  generalize s.embedder.embed s.disk file = result
  rcases result with e | ⟨name, embedder, disk⟩ <;> rfl

/-- A texture asks for the import of its module, or fails without any change. -/
theorem run_texture (files : List String) (s : Session) :
    (texture files).run s =
      match s.textures.add s.disk files with
      | .error e => .error e s
      | .ok (handle, textures, disk) =>
        .ok handle.name { s with
          textures := textures
          disk := disk
          inserts := s.inserts.addImport (importLine handle.name.text) } := by
  unfold texture
  rw [EStateM.run_bind, EStateM.run_get]
  dsimp only
  generalize s.textures.add s.disk files = result
  rcases result with e | ⟨handle, textures, disk⟩ <;> rfl

/-- The same value or the same error, in related sessions. -/
inductive Agree (R : Session → Session → Prop) :
    EStateM.Result Error Session α → EStateM.Result Error Session α → Prop
  | ok {s t : Session} (a : α) (h : R s t) : Agree R (.ok a s) (.ok a t)
  | error {s t : Session} (e : Error) (h : R s t) : Agree R (.error e s) (.error e t)

/-- Related sessions cannot tell the difference by the step. -/
def Respects (R : Session → Session → Prop) (m : Emit α) : Prop :=
  ∀ s t, R s t → Agree R (m.run s) (m.run t)

namespace Respects

variable {R : Session → Session → Prop}

theorem pure (a : α) : Respects R (Pure.pure a : Emit α) :=
  fun _ _ h => .ok a h

theorem throw (e : Error) : Respects R (MonadExcept.throw e : Emit α) :=
  fun _ _ h => .error e h

theorem bind {m : Emit α} {f : α → Emit β} (hm : Respects R m) (hf : ∀ a, Respects R (f a)) :
    Respects R (m >>= f) := by
  intro s t h
  rw [EStateM.run_bind, EStateM.run_bind]
  have hst := hm s t h
  generalize m.run s = x, m.run t = y at hst
  cases hst with
  | ok a h' => exact hf a _ _ h'
  | error e h' => exact .error e h'

/-- A change of the session without a result. -/
theorem modify {f : Session → Session} (hf : ∀ s t, R s t → R (f s) (f t)) :
    Respects R (modify f : Emit Unit) :=
  fun s t h => .ok () (hf s t h)

theorem after {m : Emit α} (hm : Respects R m) {s t : Session} (h : R s t) :
    R (m.after s) (m.after t) := by
  have hst := hm s t h
  simp only [Emit.after]
  generalize m.run s = x, m.run t = y at hst
  cases hst <;> assumption

end Respects

/-! ## Simulations -/

/-- What a relation needs at the steps that all emissions are made of. A shader file is embedded and
noted in one step, for only the name that `embed` has just given may be noted. -/
structure Simulation (R : Session → Session → Prop) : Prop where
  piece (p : Piece) : Respects R (piece p)
  warn (w : Warning) : Respects R (warn w)
  useObjLoader : Respects R useObjLoader
  useMtlLoader : Respects R useMtlLoader
  addFrameUpdate (update : String) : Respects R (insert fun i => i.addFrameUpdate update)
  embed (file : String) : Respects R (embed file)
  texture (files : List String) : Respects R (texture files)
  shaderSource (glslify : Bool) (text : String) : Respects R (shaderSource glslify text)
  /-- Related sessions find the same image files. -/
  isImageFile {s t : Session} (h : R s t) (file : Path) :
    Image.isImageFile s.disk (s.base.join file) = Image.isImageFile t.disk (t.base.join file)

namespace Simulation

variable {R : Session → Session → Prop}

variable (S : Simulation R)

include S

/-- The only step that looks at the disk without making a module. -/
theorem imageUniform (path : String) : Respects R (Emit.imageUniform path) := by
  intro s t h
  have himage := S.isImageFile h ⟨path⟩
  show Agree R ((ite _ _ _ : Emit Uniform) s) ((ite _ _ _ : Emit Uniform) t)
  rw [himage]
  split
  · exact Respects.bind (S.texture [path]) (fun _ => .pure _) s t h
  · exact .ok _ h

/-- Emissions respect a simulation whatever they ask for. -/
theorem closed : Closed fun _ m => Respects R m where
  pure := .pure
  throw _ := .throw
  bind := .bind
  piece := S.piece
  warn := S.warn
  useObjLoader := S.useObjLoader
  useMtlLoader := S.useMtlLoader
  addFrameUpdate := S.addFrameUpdate
  embed := S.embed
  texture := S.texture
  shaderSource := S.shaderSource
  imageUniform := S.imageUniform

theorem material (object : String) (m : Material) : Respects R (Emit.material object m) :=
  S.closed.material object m

theorem object (name parent : String) (node : Object) :
    Respects R (Emit.object name parent node) :=
  S.closed.object name parent node

theorem objects (parent : String) (nodes : List (String × Object)) :
    Respects R (Emit.objects parent nodes) :=
  S.closed.objects parent nodes

theorem light (name parent : String) (node : Light) : Respects R (Emit.light name parent node) :=
  S.closed.light name parent node

theorem lights (parent : String) (nodes : Entries Light) :
    Respects R (Emit.lights parent nodes) :=
  S.closed.lights parent nodes

theorem sceneProperty (name : String) (v : Value) : Respects R (Emit.sceneProperty name v) :=
  S.closed.sceneProperty name v

theorem propertySection (entries : Entries Value) : Respects R (Emit.propertySection entries) :=
  S.closed.propertySection entries

end Simulation

/-! ## Invariants -/

/-- A step keeps a property of sessions, whether it succeeds or fails. -/
def Keeps (I : Session → Prop) (m : Emit α) : Prop :=
  ∀ s, I s → I (m.after s)

/-- The relation of an invariant: one and the same session, in which it holds. -/
def Same (I : Session → Prop) (s t : Session) : Prop :=
  s = t ∧ I s

theorem respects_same_iff {I : Session → Prop} {m : Emit α} : Respects (Same I) m ↔ Keeps I m := by
  constructor
  · intro h s hs
    exact (h.after ⟨rfl, hs⟩).2
  · rintro h s t ⟨rfl, hs⟩
    have hkeep := h s hs
    simp only [after] at hkeep
    generalize m.run s = x at hkeep ⊢
    cases x with
    | ok a t => exact .ok a ⟨rfl, hkeep⟩
    | error e t => exact .error e ⟨rfl, hkeep⟩

theorem Keeps.bind {I : Session → Prop} {m : Emit α} {f : α → Emit β} (hm : Keeps I m)
    (hf : ∀ a, Keeps I (f a)) : Keeps I (m >>= f) :=
  respects_same_iff.1 (.bind (respects_same_iff.2 hm) fun a => respects_same_iff.2 (hf a))

/-- What the steps that all emissions are made of keep. -/
theorem simulation_same {I : Session → Prop} (piece : ∀ p, Keeps I (piece p))
    (warn : ∀ w, Keeps I (warn w)) (useObjLoader : Keeps I useObjLoader)
    (useMtlLoader : Keeps I useMtlLoader)
    (addFrameUpdate : ∀ update, Keeps I (insert fun i => i.addFrameUpdate update))
    (embed : ∀ file, Keeps I (embed file)) (texture : ∀ files, Keeps I (texture files))
    (shaderSource : ∀ glslify text, Keeps I (shaderSource glslify text)) :
    Simulation (Same I) where
  piece p := respects_same_iff.2 (piece p)
  warn w := respects_same_iff.2 (warn w)
  useObjLoader := respects_same_iff.2 useObjLoader
  useMtlLoader := respects_same_iff.2 useMtlLoader
  addFrameUpdate update := respects_same_iff.2 (addFrameUpdate update)
  embed file := respects_same_iff.2 (embed file)
  texture files := respects_same_iff.2 (texture files)
  shaderSource glslify text := respects_same_iff.2 (shaderSource glslify text)
  isImageFile := by
    rintro s t ⟨rfl, -⟩ file
    rfl

/-- What all emissions and the statistics keep, an assembly keeps, unless it depends on the
buffer. -/
theorem keeps_assemble {I : Session → Prop} (S : Simulation (Same I)) (hstats : Keeps I useStats)
    (hbuffer : ∀ s b, I s → I { s with buffer := b }) (scene : Scene) :
    Keeps I (assemble scene) := by
  have finish (showStats : Bool) : Keeps I (do
      let s ← get
      fixed (Template.ending showStats s.inserts.frameUpdates)
      let s ← get
      set { s with buffer := Buffer.empty }
      return s.buffer.finish s.inserts.headerText) :=
    fun s h => hbuffer s .empty h
  have body : Keeps I (do
      fixed Template.imports
      modify fun s => { s with buffer := s.buffer.mark }
      fixed Template.beginning
      propertySection scene.properties
      objects rootParent scene.objects
      lights rootParent scene.lights
      let s ← get
      fixed (Template.ending scene.options.showStats s.inserts.frameUpdates)
      let s ← get
      set { s with buffer := Buffer.empty }
      return s.buffer.finish s.inserts.headerText) :=
    .bind (respects_same_iff.1 (S.piece _)) fun _ =>
      .bind (fun s h => hbuffer s s.buffer.mark h) fun _ =>
      .bind (respects_same_iff.1 (S.piece _)) fun _ =>
      .bind (respects_same_iff.1 (S.propertySection _)) fun _ =>
      .bind (respects_same_iff.1 (S.objects _ _)) fun _ =>
      .bind (respects_same_iff.1 (S.lights _ _)) fun _ => finish _
  unfold assemble
  dsimp only
  split
  · exact .bind hstats fun _ => body
  · exact body

end SceneScript.Emit
