import SceneScript.Proofs.Needs

/-!
# The places of a name

What is written for an object or a light depends on its name in three kinds of places: behind the
slashes of a comment, as the identifier made of it, and as a quoted text. A `Form` is a line with
such places.

Here the same emission is seen for all names at once, as a family. `Emit.Inert` says of a family
that it fails for all names or for none, and that it writes the same forms for all, filled with the
name. What makes an emission out of others keeps this (`Inert.bind`), and so it holds of the
families for the name of an object (`Inert.object`) and of a light (`Inert.light`).
-/

namespace SceneScript

/-! ## Forms -/

/-- A part of a line of code: a text, or a place for a name. -/
inductive Place where
  | text (s : String)
  | identifier
  | quoted

/-- The text of a part with a name in its place. -/
def Place.fill (name : String) : Place → String
  | .text s => s
  | .identifier => Text.identifier name
  | .quoted => Text.quote name

/-- The text of several parts with a name in their places. -/
def Place.fillAll (name : String) (parts : List Place) : String :=
  String.join (parts.map (Place.fill name))

/-- A line that is written for a name: a comment that shows it, or code. -/
inductive Form where
  | comment (rest : String)
  | code (parts : List Place)

namespace Form

/-- The line for a name. -/
def fill (name : String) : Form → String
  | .comment rest => "// " ++ (name ++ rest)
  | .code parts => Place.fillAll name parts

/-- What stands behind the name in a comment that shows it. -/
def shown? : Form → Option String
  | .comment rest => some rest
  | .code _ => none

end Form

/-- A text that depends on the name in places for code only. -/
def Placed (f : String → String) : Prop :=
  ∃ parts, ∀ name, f name = Place.fillAll name parts

namespace Placed

variable {f g : String → String}

theorem const (s : String) : Placed fun _ => s :=
  ⟨[.text s], fun _ => by simp [Place.fillAll, Place.fill]⟩

theorem identifier : Placed Text.identifier :=
  ⟨[.identifier], fun _ => by simp [Place.fillAll, Place.fill]⟩

theorem quoted : Placed Text.quote :=
  ⟨[.quoted], fun _ => by simp [Place.fillAll, Place.fill]⟩

theorem append (hf : Placed f) (hg : Placed g) : Placed fun name => f name ++ g name := by
  obtain ⟨parts, hparts⟩ := hf
  obtain ⟨more, hmore⟩ := hg
  refine ⟨parts ++ more, fun name => ?_⟩
  show f name ++ g name = _
  rw [hparts, hmore, Place.fillAll, Place.fillAll, Place.fillAll, List.map_append,
    String.join_append]

/-- With a fixed text behind it. -/
theorem before (hf : Placed f) (s : String) : Placed fun name => f name ++ s :=
  hf.append (.const s)

end Placed

/-- A name that is the one in question or another one. -/
structure Named (w : String → String) (own : Bool) : Prop where
  identifier : Placed fun name => Text.identifier (w name)
  quoted : Placed fun name => Text.quote (w name)
  comment (rest : String) : ∃ form : Form, form.shown? = (if own then some rest else none) ∧
    ∀ name, "// " ++ (w name ++ rest) = form.fill name

theorem Named.self : Named id true where
  identifier := .identifier
  quoted := .quoted
  comment rest := ⟨.comment rest, rfl, fun _ => rfl⟩

theorem Named.other (s : String) : Named (fun _ => s) false where
  identifier := .const _
  quoted := .const _
  comment rest := by
    obtain ⟨parts, hparts⟩ := Placed.const ("// " ++ (s ++ rest))
    exact ⟨.code parts, rfl, hparts⟩

/-! ## Families of emissions -/

/-- What a family of emissions writes and asks for, with places for the name. -/
structure Trace where
  forms : List Form
  imports : List String
  boilerplate : List String
  updates : List (List Place)

namespace Trace

/-- Nothing. -/
def nil : Trace :=
  ⟨[], [], [], []⟩

/-- One trace behind another. -/
def append (w w' : Trace) : Trace :=
  ⟨w.forms ++ w'.forms, w.imports ++ w'.imports, w.boilerplate ++ w'.boilerplate,
    w.updates ++ w'.updates⟩

/-- The comments that show the name, each by what stands behind it. -/
def comments (w : Trace) : List String :=
  w.forms.filterMap Form.shown?

theorem comments_append (w w' : Trace) :
    (w.append w').comments = w.comments ++ w'.comments :=
  List.filterMap_append

/-- The late inserts with those that a trace asks for, for a name. -/
def ask (w : Trace) (name : String) (i : Inserts) : Inserts where
  imports := w.imports.foldl insertOnce i.imports
  boilerplate := w.boilerplate.foldl insertOnce i.boilerplate
  frameUpdates := (w.updates.map (Place.fillAll name)).foldl insertOnce i.frameUpdates

theorem ask_append (w w' : Trace) (name : String) (i : Inserts) :
    (w.append w').ask name i = w'.ask name (w.ask name i) := by
  simp only [ask, append, List.foldl_append, List.map_append]

end Trace

namespace Session

/-- The lines of a trace have been written for a name, and its late inserts been asked for. -/
structure Shows (s : Session) (name : String) (w : Trace) (t : Session) : Prop where
  lines : ∃ ss : List Statement, ss.map Statement.code = w.forms.map (Form.fill name) ∧
    t.buffer = s.buffer.append (ss.map .statement)
  inserts : t.inserts = w.ask name s.inserts

/-- Sessions that differ in what is written and told only. -/
structure Kin (s t : Session) : Prop where
  base : t.base = s.base
  disk : t.disk = s.disk
  embedder : t.embedder = s.embedder
  textures : t.textures = s.textures
  glslify : t.glslify = s.glslify

theorem Shows.refl (s : Session) (name : String) : s.Shows name .nil s :=
  ⟨⟨[], rfl, by simp⟩, rfl⟩

theorem Shows.trans {s t u : Session} {name : String} {w w' : Trace} (h : s.Shows name w t)
    (h' : t.Shows name w' u) : s.Shows name (w.append w') u := by
  obtain ⟨⟨ss, hss, hbuffer⟩, hinserts⟩ := h
  obtain ⟨⟨ss', hss', hbuffer'⟩, hinserts'⟩ := h'
  refine ⟨⟨ss ++ ss', ?_, ?_⟩, ?_⟩
  · rw [List.map_append, hss, hss', Trace.append, List.map_append]
  · rw [hbuffer', hbuffer, Buffer.append_append, List.map_append]
  · rw [hinserts', hinserts, Trace.ask_append]

end Session

namespace Emit

variable {α β : Type} {k l : List String}

/-- The comments in the block of an object: at its head and before its animations. -/
def blockComments : Option Geometry → Entries (List Value) → List String
  | none, _ => []
  | some _, tracks => " object" :: if tracks.isEmpty then [] else [" animations"]

/-- A family of emissions that depends on the name only in its places: it fails for all names, or it
succeeds for all with one result and one trace, whose comments that show the name are `k`. -/
def Inert (k : List String) (m : String → Emit α) : Prop :=
  ∀ s : String → Session, (∀ n n', (s n).Kin (s n')) →
    (∀ n, ∃ e t, (m n).run (s n) = .error e t) ∨
      ∃ a w, ∃ t : String → Session, w.comments = k ∧ (∀ n n', (t n).Kin (t n')) ∧
        ∀ n, (m n).run (s n) = .ok a (t n) ∧ (s n).Shows n w (t n)

namespace Inert

theorem pure (a : α) : Inert [] fun _ => (Pure.pure a : Emit α) :=
  fun s hs => .inr ⟨a, .nil, s, rfl, hs, fun _ => ⟨rfl, .refl _ _⟩⟩

theorem throw (e : String → Error) : Inert k fun n => (MonadExcept.throw (e n) : Emit α) :=
  fun s _ => .inl fun n => ⟨e n, s n, rfl⟩

theorem bind {m : String → Emit α} {f : α → String → Emit β} (hm : Inert k m)
    (hf : ∀ a, Inert l (f a)) : Inert (k ++ l) fun n => m n >>= fun a => f a n := by
  intro s hs
  rcases hm s hs with hfails | ⟨a, w, t, hw, ht, hrun⟩
  · refine .inl fun n => ?_
    obtain ⟨e, t, herror⟩ := hfails n
    exact ⟨e, t, run_bind_eq_error.2 (.inl herror)⟩
  · rcases hf a t ht with hfails | ⟨b, w', u, hw', hu, hrun'⟩
    · refine .inl fun n => ?_
      obtain ⟨e, v, herror⟩ := hfails n
      exact ⟨e, v, run_bind_eq_error.2 (.inr ⟨a, t n, (hrun n).1, herror⟩)⟩
    · refine .inr ⟨b, w.append w', u, by rw [Trace.comments_append, hw, hw'], hu, fun n => ?_⟩
      exact ⟨run_bind_eq_ok.2 ⟨a, t n, (hrun n).1, (hrun' n).1⟩, (hrun n).2.trans (hrun' n).2⟩

/-- An emission without comments before another. -/
theorem silent_bind {m : String → Emit α} {f : α → String → Emit β} (hm : Inert [] m)
    (hf : ∀ a, Inert k (f a)) : Inert k fun n => m n >>= fun a => f a n :=
  hm.bind hf

/-- An emission without comments behind another. -/
theorem bind_silent {m : String → Emit α} {f : α → String → Emit β} (hm : Inert k m)
    (hf : ∀ a, Inert [] (f a)) : Inert k fun n => m n >>= fun a => f a n := by
  have h := hm.bind hf
  rwa [List.append_nil] at h

/-- A change of the session. -/
theorem modify {f : String → Session → Session} (w : Trace)
    (hkin : ∀ n n' s s', Session.Kin s s' → (f n s).Kin (f n' s'))
    (hshows : ∀ n s, Session.Shows s n w (f n s)) :
    Inert w.comments fun n => (modify (f n) : Emit Unit) :=
  fun s hs => .inr ⟨(), w, fun n => f n (s n), rfl, fun n n' => hkin n n' _ _ (hs n n'),
    fun n => ⟨rfl, hshows n (s n)⟩⟩

/-! ### Steps -/

theorem line {st : String → Statement} (form : Form) (h : ∀ n, (st n).code = form.fill n) :
    Inert form.shown?.toList fun n => Emit.statement (st n) := by
  have hcomments : (⟨[form], [], [], []⟩ : Trace).comments = form.shown?.toList := by
    cases form <;> rfl
  rw [← hcomments]
  refine modify ⟨[form], [], [], []⟩ (fun n n' s s' hs => ?_) fun n s => ⟨⟨[st n], ?_, rfl⟩, rfl⟩
  · exact ⟨hs.base, hs.disk, hs.embedder, hs.textures, hs.glslify⟩
  · rw [List.map_singleton, List.map_singleton, h]

/-- A statement whose code has the name in its places. -/
theorem statement {st : String → Statement} (h : Placed fun n => (st n).code) :
    Inert [] fun n => Emit.statement (st n) := by
  obtain ⟨parts, hparts⟩ := h
  exact line (.code parts) hparts

/-- A comment that shows a name. -/
theorem comment {w : String → String} {own : Bool} (hw : Named w own) (rest : String) :
    Inert (if own then [rest] else []) fun n => Emit.statement (.comment (w n ++ rest)) := by
  obtain ⟨form, hshown, hform⟩ := hw.comment rest
  have h : Inert form.shown?.toList fun n => Emit.statement (.comment (w n ++ rest)) :=
    line form hform
  rw [hshown] at h
  cases own <;> exact h

theorem statements_cons {st : String → Statement} {ss : String → List Statement}
    (h : Placed fun n => (st n).code) (hss : Inert k fun n => Emit.statements (ss n)) :
    Inert k fun n => Emit.statements (st n :: ss n) :=
  silent_bind (statement h) fun _ => hss

theorem statements_nil : Inert [] fun _ => Emit.statements [] :=
  pure ()

/-- One statement for each entry of a map, and more behind them. -/
theorem statements_map {γ : Type} {st : String → γ → Statement} {ss : String → List Statement}
    (entries : List γ) (h : ∀ entry, Placed fun n => (st n entry).code)
    (hss : Inert k fun n => Emit.statements (ss n)) :
    Inert k fun n => Emit.statements (entries.map (st n) ++ ss n) := by
  induction entries with
  | nil => exact hss
  | cons entry rest ih => exact statements_cons (h entry) ih

theorem warn (w : String → Warning) : Inert [] fun n => Emit.warn (w n) :=
  modify .nil (fun _ _ _ _ hs => ⟨hs.base, hs.disk, hs.embedder, hs.textures, hs.glslify⟩)
    fun _ _ => ⟨⟨[], rfl, by simp⟩, rfl⟩

theorem useObjLoader : Inert [] fun _ => Emit.useObjLoader :=
  modify ⟨[], [Template.objLoaderImport], [Template.objLoader], []⟩
    (fun _ _ _ _ hs => ⟨hs.base, hs.disk, hs.embedder, hs.textures, hs.glslify⟩)
    fun _ _ => ⟨⟨[], rfl, by simp⟩, rfl⟩

theorem useMtlLoader : Inert [] fun _ => Emit.useMtlLoader :=
  modify ⟨[], [Template.mtlLoaderImport], [Template.mtlLoader], []⟩
    (fun _ _ _ _ hs => ⟨hs.base, hs.disk, hs.embedder, hs.textures, hs.glslify⟩)
    fun _ _ => ⟨⟨[], rfl, by simp⟩, rfl⟩

theorem addFrameUpdate {f : String → String} (h : Placed f) :
    Inert [] fun n => insert fun i => i.addFrameUpdate (f n) := by
  obtain ⟨parts, hparts⟩ := h
  refine modify ⟨[], [], [], [parts]⟩ (fun n n' s s' hs => ?_) fun n s => ⟨⟨[], rfl, by simp⟩, ?_⟩
  · exact ⟨hs.base, hs.disk, hs.embedder, hs.textures, hs.glslify⟩
  · simp only [Trace.ask, List.map_singleton, ← hparts n]
    rfl

theorem noteGlslify (name : ModuleName) : Inert [] fun _ => Emit.noteGlslify name := by
  refine modify .nil (fun _ _ s s' hs => ?_) fun _ s => ?_
  · dsimp only
    rw [hs.embedder, hs.glslify]
    split
    · exact hs
    · exact ⟨hs.base, hs.disk, rfl, hs.textures, rfl⟩
  · dsimp only
    split <;> exact ⟨⟨[], rfl, by simp⟩, rfl⟩

theorem lift (x : Except Error α) : Inert [] fun _ => Emit.lift x := by
  cases x with
  | ok a => exact pure a
  | error e => exact throw fun _ => e

theorem embed (file : String) : Inert [] fun _ => Emit.embed file := by
  intro s hs
  have hsame (n : String) : (s n).embedder.embed (s n).disk file =
      (s "").embedder.embed (s "").disk file := by
    rw [(hs "" n).embedder, (hs "" n).disk]
  cases hembed : (s "").embedder.embed (s "").disk file with
  | error e => exact .inl fun n => ⟨e, s n, by rw [run_embed, hsame, hembed]⟩
  | ok result =>
    obtain ⟨name, embedder, disk⟩ := result
    refine .inr ⟨name, ⟨[], [importLine name.text], [], []⟩, _, rfl, fun n n' => ?_, fun n =>
      ⟨by rw [run_embed, hsame, hembed], ⟨⟨[], rfl, by simp⟩, rfl⟩⟩⟩
    exact ⟨(hs n n').base, rfl, rfl, (hs n n').textures, (hs n n').glslify⟩

theorem texture (files : List String) : Inert [] fun _ => Emit.texture files := by
  intro s hs
  have hsame (n : String) : (s n).textures.add (s n).disk files =
      (s "").textures.add (s "").disk files := by
    rw [(hs "" n).textures, (hs "" n).disk]
  cases hadd : (s "").textures.add (s "").disk files with
  | error e => exact .inl fun n => ⟨e, s n, by rw [run_texture, hsame, hadd]⟩
  | ok result =>
    obtain ⟨handle, textures, disk⟩ := result
    refine .inr ⟨handle.name, ⟨[], [importLine handle.name.text], [], []⟩, _, rfl, fun n n' => ?_,
      fun n => ⟨by rw [run_texture, hsame, hadd], ⟨⟨[], rfl, by simp⟩, rfl⟩⟩⟩
    exact ⟨(hs n n').base, rfl, (hs n n').embedder, rfl, (hs n n').glslify⟩

theorem shaderSource (glslify : Bool) (text : String) :
    Inert [] fun _ => Emit.shaderSource glslify text := by
  unfold Emit.shaderSource
  split
  · exact pure _
  · refine silent_bind (embed text) fun name => ?_
    dsimp only
    split
    · exact silent_bind (noteGlslify name) fun _ => pure _
    · exact pure _

theorem imageUniform (path : String) : Inert [] fun _ => Emit.imageUniform path := by
  have htexture : Inert [] fun _ => (do return .texture (← Emit.texture [path]) : Emit Uniform) :=
    silent_bind (texture [path]) fun _ => pure _
  intro s hs
  have hsame (n : String) : Image.isImageFile (s n).disk ((s n).base.join ⟨path⟩) =
      Image.isImageFile (s "").disk ((s "").base.join ⟨path⟩) := by
    rw [(hs "" n).disk, (hs "" n).base]
  have hrun (n : String) : (Emit.imageUniform path).run (s n) =
      (if Image.isImageFile (s "").disk ((s "").base.join ⟨path⟩) then
        (do return .texture (← Emit.texture [path]) : Emit Uniform)
      else Pure.pure (.value (.string path))).run (s n) := by
    rw [← hsame n]
    rfl
  simp only [hrun]
  split
  · exact htexture s hs
  · exact pure (Uniform.value (.string path)) s hs

/-! ### Materials -/

section

variable {o : String → String} (ho : Placed o)

include ho

theorem placed_materialVar : Placed fun n => materialVar (o n) :=
  ho.before _

theorem placed_geometryVar : Placed fun n => geometryVar (o n) :=
  ho.before _

theorem placed_uuidVar : Placed fun n => uuidVar (o n) :=
  ho.before _

theorem placed_construct (function : String) (args : Arguments) :
    Placed fun n => (Statement.construct (o n) function args).code :=
  ((((((Placed.const "var ").append ho).before _).before _).before _).before _).before _

theorem fileMaterial (file : String) : Inert [] fun n => Emit.fileMaterial (o n) file := by
  have hvar := placed_materialVar ho
  refine silent_bind (embed file) fun asset => silent_bind useMtlLoader fun _ =>
    silent_bind useObjLoader fun _ => ?_
  refine statements_cons ?_ (statements_cons ?_ (statements_cons ?_ statements_nil))
  · exact ((((Placed.const "var ").append hvar).before _).before _).before _
  · exact hvar.before _
  · exact ((Placed.const "OBJ_LOADER.setMaterials(").append hvar).before _

omit ho in
theorem slotArgument (b : String → String) (slots : Slots) (key : String) (v : Value) :
    Inert [] fun n => Emit.slotArgument (b n) slots key v := by
  unfold Emit.slotArgument
  split
  · cases textureFiles? v with
    | none => exact throw _
    | some files => exact silent_bind (texture files) fun _ => pure _
  · split
    · exact silent_bind (lift _) fun _ => pure _
    · exact pure _

omit ho in
theorem slotArguments (b : String → String) (slots : Slots) (entries : Entries Value) :
    Inert [] fun n => Emit.slotArguments (b n) slots entries := by
  induction entries with
  | nil => exact pure []
  | cons entry rest ih =>
    exact silent_bind (slotArgument b slots entry.1 entry.2) fun _ => silent_bind ih fun _ => pure _

theorem builtMaterial (function : String) (args : Args) :
    Inert [] fun n => Emit.builtMaterial (o n) function args := by
  have hvar := placed_materialVar ho
  unfold Emit.builtMaterial
  dsimp only
  cases args with
  | positional items => exact statement (placed_construct hvar _ _)
  | keyword entries =>
    cases Slots.of? function with
    | none => exact statement (placed_construct hvar _ _)
    | some slots =>
      exact silent_bind (slotArguments _ slots entries) fun _ =>
        statement (placed_construct hvar _ _)

omit ho in
theorem shaderSourceAt (glslify : Bool) (key : String) (entries : Entries Value)
    (args : Entries Argument) : Inert [] fun _ => Emit.shaderSourceAt glslify key entries args := by
  unfold Emit.shaderSourceAt
  cases entries.get? key with
  | none => exact pure args
  | some v =>
    cases v with
    | string text => exact silent_bind (shaderSource glslify text) fun _ => pure _
    | _ => exact pure args

theorem uniform (name : String) (v : Value) : Inert [] fun n => Emit.uniform (o n) name v := by
  cases v with
  | null =>
    simp only [Emit.uniform]
    split
    · exact silent_bind (addFrameUpdate (ho.before _)) fun _ => pure _
    · exact pure _
  | string path => exact imageUniform path
  | _ => exact pure _

theorem uniforms (entries : Entries Value) : Inert [] fun n => Emit.uniforms (o n) entries := by
  induction entries with
  | nil => exact pure []
  | cons entry rest ih =>
    exact silent_bind (uniform ho entry.1 entry.2) fun _ => silent_bind ih fun _ => pure _

theorem uniformsAt (context : String → String) (entries : Entries Value)
    (args : Entries Argument) :
    Inert [] fun n => Emit.uniformsAt (context n) (o n) entries args := by
  unfold Emit.uniformsAt
  cases entries.get? "uniforms" with
  | none => exact pure args
  | some v =>
    cases v with
    | mapping us => exact silent_bind (uniforms ho us) fun _ => pure _
    | _ => exact throw _

omit ho in
/-- Extension flags that are wrong are so for all names. -/
theorem extensionsOf (context : String → String) (entries : Entries Value) :
    Inert [] fun n => Emit.lift (Emit.extensionsOf (context n) entries) := by
  unfold Emit.extensionsOf
  cases entries.get? "extensions" with
  | none => exact pure []
  | some v =>
    cases v with
    | null => exact pure []
    | mapping flags => exact pure flags
    | _ => exact throw _

theorem shaderMaterial (args : Args) (glslify : Bool) :
    Inert [] fun n => Emit.shaderMaterial (o n) args glslify := by
  have hvar := placed_materialVar ho
  unfold Emit.shaderMaterial
  cases args with
  | positional items => exact throw _
  | keyword entries =>
    refine silent_bind (shaderSourceAt _ _ _ _) fun _ => silent_bind (shaderSourceAt _ _ _ _)
      fun _ => silent_bind (uniformsAt hvar _ _ _) fun _ => silent_bind (extensionsOf _ _)
      fun flags => silent_bind (statement (placed_construct hvar _ _)) fun _ => ?_
    have hflags : Inert [] fun n => Emit.statements
        (flags.map (fun flag => .extension (materialVar (o n)) flag.1 flag.2) ++ []) := by
      refine statements_map flags (fun flag => ?_) statements_nil
      exact ((((hvar.before _).before _).before _).before _).before _
    simpa only [List.append_nil] using hflags

theorem material (m : Material) : Inert [] fun n => Emit.material (o n) m := by
  cases m with
  | file path => exact fileMaterial ho path
  | call function args glslify =>
    simp only [Emit.material]
    split
    · exact shaderMaterial ho args glslify
    · exact builtMaterial ho function args

/-! ### Objects and lights -/

theorem placed_mesh (withMaterial : Bool) :
    Placed fun n => (Statement.mesh (o n) withMaterial).code := by
  have hstart := (((Placed.const "var ").append ho).before " = new THREE.Mesh(").append
    (placed_geometryVar ho)
  cases withMaterial with
  | true => exact ((hstart.before _).append (placed_materialVar ho)).before _
  | false => exact hstart.before _

theorem geometry (material : Option Material) (g : Geometry) :
    Inert [] fun n => Emit.geometry (o n) material g := by
  cases g with
  | call function args =>
    exact silent_bind (statement (placed_construct (placed_geometryVar ho) _ _)) fun _ =>
      statement (placed_mesh ho _)
  | file path =>
    have hpaint : Inert [] fun n => (if material.any fun m => !m.isFile then
        Emit.statement (.paint (o n)) else Pure.pure () : Emit Unit) := by
      split
      · exact statement (((ho.before _).append (placed_materialVar ho)).before _)
      · exact pure ()
    have hparse (asset : ModuleName) : Inert [] fun n => (do
        Emit.statement (.parseMesh (o n) asset)
        if material.any fun m => !m.isFile then Emit.statement (.paint (o n))
        else Pure.pure () : Emit Unit) :=
      silent_bind (statement (((((Placed.const "var ").append ho).before _).before _).before _))
        fun _ => hpaint
    simp only [Emit.geometry]
    refine silent_bind (embed path) fun asset => silent_bind useObjLoader fun _ => ?_
    split
    · exact silent_bind (statement (.const _)) fun _ => hparse asset
    · exact hparse asset

end

section

variable {w p : String → String} {own : Bool} (hw : Named w own)

include hw

theorem placement (hp : Placed p) : Inert [] fun n =>
    Emit.statements (Emit.placement (w n) (Text.identifier (w n)) (p n)) := by
  have ho := hw.identifier
  refine statements_cons ?_ <| statements_cons ?_ <| statements_cons ?_ <| statements_cons ?_ <|
    statements_cons ?_ statements_nil
  · exact ((ho.before _).append hw.quoted).before _
  · exact ((hp.before _).append ho).before _
  · exact ((((Placed.const "var ").append (placed_uuidVar ho)).before _).append ho).before _
  · exact ((Placed.const "followable_objects.push(").append ho).before _
  · exact .const _

theorem animation (tracks : Entries (List Value)) :
    Inert (if own && !tracks.isEmpty then [" animations"] else []) fun n =>
      Emit.statements (Emit.animation (w n) (Text.identifier (w n)) tracks) := by
  unfold Emit.animation
  cases tracks.isEmpty with
  | true =>
    rw [Bool.not_true, Bool.and_false]
    exact statements_nil
  | false =>
    rw [Bool.not_false, Bool.and_true]
    refine bind_silent (comment hw " animations") fun _ => ?_
    refine statements_map tracks (fun track => ?_) (statements_cons (.const _) statements_nil)
    exact ((((((Placed.const _).append (placed_uuidVar hw.identifier)).before _).before _).before
      _).before _).before _

theorem objectBlock (hp : Placed p) (node : Object) :
    Inert (if own then blockComments node.geometry node.animations else []) fun n =>
      Emit.objectBlock (w n) (Text.identifier (w n)) node (p n) := by
  have ho := hw.identifier
  unfold Emit.objectBlock
  cases node.geometry with
  | none =>
    rw [blockComments, ite_self]
    dsimp only
    split
    · exact warn _
    · exact pure ()
  | some g =>
    have hcomments : (if own then blockComments (some g) node.animations else []) =
        (if own then [" object"] else []) ++
          if own && !node.animations.isEmpty then [" animations"] else [] := by
      rw [blockComments]
      cases own <;> cases node.animations.isEmpty <;> rfl
    have hrest : Inert (if own && !node.animations.isEmpty then [" animations"] else [])
        fun n => (do
        Emit.geometry (Text.identifier (w n)) node.material g
        Emit.statements (Emit.placement (w n) (Text.identifier (w n)) (p n))
        Emit.statements (Emit.animation (w n) (Text.identifier (w n)) node.animations)) :=
      silent_bind (geometry ho _ _) fun _ => silent_bind (placement hw hp) fun _ =>
        animation hw node.animations
    rw [hcomments]
    refine bind (comment hw " object") fun _ => ?_
    dsimp only
    revert hrest
    cases node.material with
    | none => exact id
    | some m => exact fun hrest => silent_bind (material ho m) fun _ => hrest

end

mutual

theorem object {w p : String → String} {own : Bool} (hw : Named w own) (hp : Placed p) :
    ∀ node : Object, Inert (if own then blockComments node.geometry node.animations else [])
      fun n => Emit.object (w n) (p n) node
  | ⟨g, m, tracks, children⟩ => by
    simp only [Emit.object]
    exact bind_silent (objectBlock hw hp ⟨g, m, tracks, []⟩) fun _ => objects hw.identifier children

/-- The children of an object show nothing of its name but the identifier. -/
theorem objects {p : String → String} (hp : Placed p) :
    ∀ nodes : List (String × Object), Inert [] fun n => Emit.objects (p n) nodes
  | [] => by
    simp only [Emit.objects]
    exact pure ()
  | (name, node) :: rest => by
    simp only [Emit.objects]
    exact silent_bind (object (Named.other name) hp node) fun _ => objects hp rest

end

theorem light {w p : String → String} {own : Bool} (hw : Named w own) (hp : Placed p)
    (node : Light) :
    Inert (if own then [" light"] else []) fun n => Emit.light (w n) (p n) node := by
  have ho := hw.identifier
  unfold Emit.light Emit.lightStatements
  refine bind_silent (comment hw " light") fun _ => statements_cons (placed_construct ho _ _) <|
    statements_cons (((hp.before _).append ho).before _) ?_
  cases node.position with
  | none => exact statements_cons (.const _) statements_nil
  | some coordinates =>
    exact statements_cons (((ho.before _).before _).before _)
      (statements_cons (.const _) statements_nil)

end Inert

end Emit

end SceneScript
