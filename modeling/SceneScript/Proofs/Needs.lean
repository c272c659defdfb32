import SceneScript.Proofs.Emission

/-!
# What statements need

The late inserts of a program can be read off its statements: `Statement.needs` lists what a
statement needs elsewhere in the program, in the order in which it is asked for. An emission that
succeeds writes statements and asks for exactly what these statements need (`Session.Writes`). Here
this is shown for materials (`material_writes`), together with the shape of their statements,
and for properties and lights (`sceneProperty_writes`, `light_writes`).
-/

namespace SceneScript

/-! ## Needs -/

/-- Something that a statement needs elsewhere in the program. -/
inductive Need where
  | generated (name : ModuleName)
  | objLoader
  | mtlLoader
  | stats
  | frameUpdate (update : String)
  deriving DecidableEq, Repr

namespace Need

/-- The imports that meet a need. -/
def imports : Need → List String
  | .generated name => [importLine name.text]
  | .objLoader => [Template.objLoaderImport]
  | .mtlLoader => [Template.mtlLoaderImport]
  | .stats => [Template.statsImport]
  | .frameUpdate _ => []

/-- The constants that meet a need. -/
def boilerplate : Need → List String
  | .objLoader => [Template.objLoader]
  | .mtlLoader => [Template.mtlLoader]
  | .stats => [Template.stats]
  | .generated _ | .frameUpdate _ => []

/-- The statements of each frame that meet a need. -/
def frameUpdates : Need → List String
  | .frameUpdate update => [update]
  | _ => []

end Need

/-- What the value of a uniform needs. -/
def Uniform.needs (binding : String) : Uniform → List Need
  | .time => [.frameUpdate (Template.timeUpdate binding)]
  | .texture name => [.generated name]
  | .value _ => []

/-- What an argument needs in the constructor of the variable `binding`. -/
def Argument.needs (binding : String) : Argument → List Need
  | .generated name => [.generated name]
  | .uniforms entries => entries.flatMap fun entry => entry.2.needs binding
  | .value _ | .source _ | .color _ => []

/-- The arguments that a shader looks after, in its order. -/
def shaderKeys : List String :=
  ["vertexShader", "fragmentShader", "uniforms"]

/-- The arguments of a constructor in the order in which they ask. A shader asks for its sources
before its uniforms, wherever these stand. -/
def Arguments.asking (function : String) : Arguments → List Argument
  | .positional items => items
  | .object entries =>
    if function = shaderFunction then shaderKeys.flatMap fun key => (entries.get? key).toList
    else entries.map Prod.snd

/-- What a statement needs elsewhere in the program, in the order in which it is asked for. -/
def Statement.needs : Statement → List Need
  | .background (.texture name) => [.generated name]
  | .construct binding function args => (args.asking function).flatMap (Argument.needs binding)
  | .parseMaterials _ asset => [.generated asset, .mtlLoader, .objLoader]
  | .parseMesh _ asset => [.generated asset, .objLoader]
  | _ => []

/-- The statements of each frame that a statement needs. -/
def Statement.updates (st : Statement) : List String :=
  st.needs.flatMap Need.frameUpdates

/-- What a piece needs elsewhere in the program. -/
def Piece.needs : Piece → List Need
  | .fixed _ => []
  | .statement st => st.needs

namespace Inserts

/-- Asks for what meets a need. -/
def ask (i : Inserts) (r : Need) : Inserts where
  imports := r.imports.foldl insertOnce i.imports
  boilerplate := r.boilerplate.foldl insertOnce i.boilerplate
  frameUpdates := r.frameUpdates.foldl insertOnce i.frameUpdates

/-- Asks for what meets several needs, one after the other. -/
def askAll (i : Inserts) (rs : List Need) : Inserts :=
  rs.foldl ask i

@[simp] theorem askAll_nil (i : Inserts) : i.askAll [] = i := rfl

theorem askAll_append (i : Inserts) (rs qs : List Need) :
    i.askAll (rs ++ qs) = (i.askAll rs).askAll qs :=
  List.foldl_append

theorem askAll_eq (i : Inserts) (rs : List Need) :
    i.askAll rs =
      ⟨(rs.flatMap Need.imports).foldl insertOnce i.imports,
       (rs.flatMap Need.boilerplate).foldl insertOnce i.boilerplate,
       (rs.flatMap Need.frameUpdates).foldl insertOnce i.frameUpdates⟩ := by
  induction rs generalizing i with
  | nil => rfl
  | cons r rs ih =>
    simp only [askAll, List.foldl_cons, List.flatMap_cons, List.foldl_append] at ih ⊢
    rw [ih]
    rfl

end Inserts

/-! ## Writing -/

/-- Several more pieces. -/
def Buffer.append (b : Buffer) (ps : List Piece) : Buffer :=
  if b.marked then { b with body := b.body ++ ps } else { b with header := b.header ++ ps }

@[simp] theorem Buffer.append_nil (b : Buffer) : b.append [] = b := by
  simp [append]

theorem Buffer.append_append (b : Buffer) (ps qs : List Piece) :
    (b.append ps).append qs = b.append (ps ++ qs) := by
  unfold append
  cases hb : b.marked <;> simp

/-- From one session to the next, statements have been written and needs been met. -/
structure Session.Adds (s : Session) (ss : List Statement) (rs : List Need) (t : Session) :
    Prop where
  buffer : t.buffer = s.buffer.append (ss.map .statement)
  inserts : t.inserts = s.inserts.askAll rs

/-- Statements have been written and exactly their needs been met. -/
def Session.Writes (s : Session) (ss : List Statement) (t : Session) : Prop :=
  s.Adds ss (ss.flatMap Statement.needs) t

namespace Session

variable {s t u : Session} {ss ss' : List Statement} {rs rs' : List Need}

theorem Adds.refl (s : Session) : s.Adds [] [] s :=
  ⟨by simp, rfl⟩

theorem Adds.trans (h : s.Adds ss rs t) (h' : t.Adds ss' rs' u) :
    s.Adds (ss ++ ss') (rs ++ rs') u where
  buffer := by rw [h'.buffer, h.buffer, Buffer.append_append, List.map_append]
  inserts := by rw [h'.inserts, h.inserts, Inserts.askAll_append]

/-- Needs met before the statements that have them. -/
theorem Adds.writes (h : s.Adds ss rs t) (hrs : rs = ss.flatMap Statement.needs) :
    s.Writes ss t := by
  subst hrs
  exact h

theorem Writes.refl (s : Session) : s.Writes [] s :=
  Adds.refl s

theorem Writes.trans (h : s.Writes ss t) (h' : t.Writes ss' u) : s.Writes (ss ++ ss') u :=
  (Adds.trans h h').writes (by rw [List.flatMap_append])

end Session

namespace Emit

variable {s t : Session}

/-! ## Steps -/

theorem statement_adds {st : Statement} (h : (statement st).run s = .ok () t) :
    s.Adds [st] [] t := by
  cases h
  exact ⟨rfl, rfl⟩

theorem statements_adds {ss : List Statement} (h : (statements ss).run s = .ok () t) :
    s.Adds ss [] t := by
  induction ss generalizing s with
  | nil =>
    cases h
    exact .refl _
  | cons st ss ih =>
    obtain ⟨_, _, hst, hss⟩ := run_bind_eq_ok.1 h
    exact (statement_adds hst).trans (ih hss)

theorem embed_adds {file : String} {name : ModuleName} (h : (embed file).run s = .ok name t) :
    s.Adds [] [.generated name] t := by
  rw [run_embed] at h
  split at h
  · cases h
  · cases h
    exact ⟨by simp, rfl⟩

theorem texture_adds {files : List String} {name : ModuleName}
    (h : (texture files).run s = .ok name t) : s.Adds [] [.generated name] t := by
  rw [run_texture] at h
  split at h
  · cases h
  · cases h
    exact ⟨by simp, rfl⟩

theorem useObjLoader_adds (h : useObjLoader.run s = .ok () t) : s.Adds [] [.objLoader] t := by
  cases h
  exact ⟨by simp, rfl⟩

theorem useMtlLoader_adds (h : useMtlLoader.run s = .ok () t) : s.Adds [] [.mtlLoader] t := by
  cases h
  exact ⟨by simp, rfl⟩

/-- A result that was computed before changes nothing. -/
theorem lift_eq_ok {α : Type} {x : Except Error α} {a : α} (h : (lift x).run s = .ok a t) :
    x = .ok a ∧ t = s := by
  cases x with
  | ok b =>
    cases h
    exact ⟨rfl, rfl⟩
  | error e => cases h

/-! ## Materials -/

theorem slotArgument_adds {binding key : String} {slots : Slots} {v : Value} {a : Argument}
    (h : (slotArgument binding slots key v).run s = .ok a t) :
    s.Adds [] (a.needs binding) t := by
  unfold slotArgument at h
  split at h
  · split at h
    · cases h
    · obtain ⟨name, _, htexture, ⟨⟩⟩ := run_bind_eq_ok.1 h
      exact texture_adds htexture
  · split at h
    · obtain ⟨c, _, hlift, ⟨⟩⟩ := run_bind_eq_ok.1 h
      obtain ⟨-, rfl⟩ := lift_eq_ok hlift
      exact .refl _
    · cases h
      exact .refl _

theorem slotArguments_adds {binding : String} {slots : Slots} {entries : Entries Value}
    {args : Entries Argument} (h : (slotArguments binding slots entries).run s = .ok args t) :
    s.Adds [] ((args.map Prod.snd).flatMap (Argument.needs binding)) t := by
  induction entries generalizing s args with
  | nil =>
    cases h
    exact .refl _
  | cons entry rest ih =>
    obtain ⟨a, _, ha, h⟩ := run_bind_eq_ok.1 h
    obtain ⟨more, _, hmore, ⟨⟩⟩ := run_bind_eq_ok.1 h
    exact (slotArgument_adds ha).trans (ih hmore)

/-- No slot is driven by the animation. -/
theorem slotArguments_updates {binding : String} {slots : Slots} {entries : Entries Value}
    {args : Entries Argument} (h : (slotArguments binding slots entries).run s = .ok args t) :
    args.flatMap (fun entry => (entry.2.needs binding).flatMap Need.frameUpdates) = [] := by
  have argument {key : String} {v : Value} {a : Argument} {s t : Session}
      (h : (slotArgument binding slots key v).run s = .ok a t) :
      (a.needs binding).flatMap Need.frameUpdates = [] := by
    unfold slotArgument at h
    split at h
    · split at h
      · cases h
      · obtain ⟨name, _, -, ⟨⟩⟩ := run_bind_eq_ok.1 h
        rfl
    · split at h
      · obtain ⟨c, _, -, ⟨⟩⟩ := run_bind_eq_ok.1 h
        rfl
      · cases h
        rfl
  induction entries generalizing s args with
  | nil =>
    cases h
    rfl
  | cons entry rest ih =>
    obtain ⟨a, _, ha, h⟩ := run_bind_eq_ok.1 h
    obtain ⟨more, _, hmore, ⟨⟩⟩ := run_bind_eq_ok.1 h
    rw [List.flatMap_cons, argument ha, ih hmore, List.nil_append]

/-- Arguments that stand in the scene ask for nothing. -/
theorem needs_construct_ofArgs (binding function : String) (args : Args) :
    (Statement.construct binding function (.ofArgs args)).needs = [] := by
  have value : ∀ a ∈ (Arguments.ofArgs args).asking function, ∃ v, a = .value v := by
    intro a ha
    cases args with
    | positional items =>
      obtain ⟨v, -, rfl⟩ := List.mem_map.1 ha
      exact ⟨v, rfl⟩
    | keyword entries =>
      simp only [Arguments.ofArgs, Arguments.asking] at ha
      split at ha
      · obtain ⟨key, -, hkey⟩ := List.mem_flatMap.1 ha
        rw [Entries.get?_map, Option.mem_toList, Option.map_eq_some_iff] at hkey
        obtain ⟨v, -, rfl⟩ := hkey
        exact ⟨v, rfl⟩
      · simp only [List.map_map, List.mem_map] at ha
        obtain ⟨entry, -, rfl⟩ := ha
        exact ⟨entry.2, rfl⟩
  simp only [Statement.needs, List.flatMap_eq_nil_iff]
  intro a ha
  obtain ⟨v, rfl⟩ := value a ha
  rfl

theorem builtMaterial_writes {object function : String} {args : Args}
    (hfunction : function ≠ shaderFunction)
    (h : (builtMaterial object function args).run s = .ok () t) :
    ∃ arguments, (Statement.construct (materialVar object) function arguments).updates = [] ∧
      s.Writes [.construct (materialVar object) function arguments] t := by
  unfold builtMaterial at h
  dsimp only at h
  split at h
  · obtain ⟨entries, _, hentries, h⟩ := run_bind_eq_ok.1 h
    refine ⟨.object entries, ?_,
      ((slotArguments_adds hentries).trans (statement_adds h)).writes ?_⟩
    · simpa [Statement.updates, Statement.needs, Arguments.asking, hfunction, List.flatMap_map,
        List.flatMap_assoc] using slotArguments_updates hentries
    · simp [Statement.needs, Arguments.asking, hfunction]
  · refine ⟨_, ?_, (statement_adds h).writes ?_⟩
    · rw [Statement.updates, needs_construct_ofArgs]
      rfl
    · simp [needs_construct_ofArgs]

theorem fileMaterial_writes {object file : String}
    (h : (fileMaterial object file).run s = .ok () t) :
    ∃ asset, s.Writes
      [.parseMaterials (materialVar object) asset, .preload (materialVar object),
       .useMaterials (some (materialVar object))] t := by
  obtain ⟨asset, _, hembed, h⟩ := run_bind_eq_ok.1 h
  obtain ⟨_, _, hmtl, h⟩ := run_bind_eq_ok.1 h
  obtain ⟨_, _, hobj, h⟩ := run_bind_eq_ok.1 h
  exact ⟨asset, ((embed_adds hembed).trans ((useMtlLoader_adds hmtl).trans
    ((useObjLoader_adds hobj).trans (statements_adds h)))).writes rfl⟩

/-! ## Shaders -/

theorem shaderSource_adds (binding : String) {text : String} {glslify : Bool} {a : Argument}
    (h : (shaderSource glslify text).run s = .ok a t) : s.Adds [] (a.needs binding) t := by
  unfold shaderSource at h
  split at h
  · cases h
    exact .refl _
  · obtain ⟨name, u, hembed, h⟩ := run_bind_eq_ok.1 h
    have note : (noteGlslify name).run u = .ok () ((noteGlslify name).after u) := rfl
    -- a note changes neither the buffer nor the late inserts
    have quiet : u.Adds [] [] ((noteGlslify name).after u) := by
      simp only [after, noteGlslify, EStateM.run_modify]
      split
      · exact .refl _
      · exact ⟨by simp, rfl⟩
    dsimp only at h
    split at h
    · rw [EStateM.run_bind, note] at h
      cases h
      exact (embed_adds hembed).trans quiet
    · cases h
      exact embed_adds hembed

/-- What one key asks for. -/
def needsAt (binding : String) (args : Entries Argument) (key : String) : List Need :=
  (args.get? key).toList.flatMap (Argument.needs binding)

theorem needsAt_of_value {binding key : String} {args : Entries Argument}
    {entries : Entries Value} (h : args.get? key = (entries.get? key).map .value) :
    needsAt binding args key = [] := by
  unfold needsAt
  rw [h]
  cases entries.get? key <;> rfl

theorem needsAt_put (binding key : String) (args : Entries Argument) (a : Argument) :
    needsAt binding (args.put key a) key = a.needs binding := by
  simp [needsAt]

/-- The source under a key is looked after and every other key is left alone. -/
theorem shaderSourceAt_adds (binding : String) {key : String} {glslify : Bool}
    {entries : Entries Value} {args args' : Entries Argument}
    (hplain : args.get? key = (entries.get? key).map .value)
    (h : (shaderSourceAt glslify key entries args).run s = .ok args' t) :
    s.Adds [] (needsAt binding args' key) t ∧
      ∀ other ≠ key, args'.get? other = args.get? other := by
  unfold shaderSourceAt at h
  split at h
  · obtain ⟨a, _, ha, ⟨⟩⟩ := run_bind_eq_ok.1 h
    rw [needsAt_put]
    exact ⟨shaderSource_adds binding ha, fun other ho => Entries.get?_put_of_ne args a ho⟩
  · cases h
    rw [needsAt_of_value hplain]
    exact ⟨.refl _, fun _ _ => rfl⟩

theorem uniform_adds {binding name : String} {v : Value} {u : Uniform}
    (h : (uniform binding name v).run s = .ok u t) : s.Adds [] (u.needs binding) t := by
  unfold uniform at h
  split at h
  · split at h
    · cases h
      exact ⟨by simp, rfl⟩
    · cases h
      exact .refl _
  · obtain ⟨_, _, ⟨⟩, h⟩ := run_bind_eq_ok.1 h
    split at h
    · obtain ⟨_, _, htexture, ⟨⟩⟩ := run_bind_eq_ok.1 h
      exact texture_adds htexture
    · cases h
      exact .refl _
  · cases h
    exact .refl _

theorem uniforms_adds {binding : String} {entries : Entries Value} {us : Entries Uniform}
    (h : (uniforms binding entries).run s = .ok us t) :
    s.Adds [] (us.flatMap fun entry => entry.2.needs binding) t := by
  induction entries generalizing s us with
  | nil =>
    cases h
    exact .refl _
  | cons entry rest ih =>
    obtain ⟨u, _, hu, h⟩ := run_bind_eq_ok.1 h
    obtain ⟨more, _, hmore, ⟨⟩⟩ := run_bind_eq_ok.1 h
    exact (uniform_adds hu).trans (ih hmore)

theorem uniformsAt_adds {context binding : String} {entries : Entries Value}
    {args args' : Entries Argument}
    (hplain : args.get? "uniforms" = (entries.get? "uniforms").map .value)
    (h : (uniformsAt context binding entries args).run s = .ok args' t) :
    s.Adds [] (needsAt binding args' "uniforms") t ∧
      ∀ other ≠ "uniforms", args'.get? other = args.get? other := by
  unfold uniformsAt at h
  split at h
  · cases h
    rw [needsAt_of_value hplain]
    exact ⟨.refl _, fun _ _ => rfl⟩
  · obtain ⟨us, _, hus, ⟨⟩⟩ := run_bind_eq_ok.1 h
    rw [needsAt_put]
    exact ⟨uniforms_adds hus, fun other ho => Entries.get?_put_of_ne args _ ho⟩
  · cases h

/-- The steps of a shader material: the vertex source, the fragment source, the uniforms, and the
statements with the flags. -/
theorem shaderMaterial_steps {object : String} {args : Args} {glslify : Bool}
    (h : (shaderMaterial object args glslify).run s = .ok () t) :
    ∃ (entries : Entries Value) (args₁ args₂ args₃ : Entries Argument) (flags : Entries Value)
      (context : String) (s₁ s₂ s₃ : Session), args = .keyword entries ∧
      (shaderSourceAt glslify "vertexShader" entries
        (entries.map fun entry => (entry.1, .value entry.2))).run s = .ok args₁ s₁ ∧
      (shaderSourceAt glslify "fragmentShader" entries args₁).run s₁ = .ok args₂ s₂ ∧
      (uniformsAt context (materialVar object) entries args₂).run s₂ = .ok args₃ s₃ ∧
      extensionsOf context entries = .ok flags ∧
      (statements
        (.construct (materialVar object) shaderFunction (.object (args₃.without "extensions")) ::
          flags.map fun flag => .extension (materialVar object) flag.1 flag.2)).run s₃ =
        .ok () t := by
  cases args with
  | positional items => cases h
  | keyword entries =>
    obtain ⟨args₁, s₁, h₁, rest₁⟩ := run_bind_eq_ok.1 h
    obtain ⟨args₂, s₂, h₂, rest₂⟩ := run_bind_eq_ok.1 rest₁
    obtain ⟨args₃, s₃, h₃, rest₃⟩ := run_bind_eq_ok.1 rest₂
    obtain ⟨flags, _, hlift, hstatements⟩ := run_bind_eq_ok.1 rest₃
    obtain ⟨hflags, rfl⟩ := lift_eq_ok hlift
    exact ⟨entries, args₁, args₂, args₃, flags, _, s₁, s₂, _, rfl, h₁, h₂, h₃, hflags, hstatements⟩

/-- A shader's sources come before its uniforms, and it asks in this order, not in that of its
keys. -/
theorem shaderMaterial_eq_ok {object : String} {args : Args} {glslify : Bool}
    (h : (shaderMaterial object args glslify).run s = .ok () t) :
    ∃ (entries : Entries Value) (args₁ args₂ args₃ : Entries Argument) (flags : Entries Value)
      (context : String) (s₁ s₂ s₃ : Session), args = .keyword entries ∧
      (shaderSourceAt glslify "vertexShader" entries
        (entries.map fun entry => (entry.1, .value entry.2))).run s = .ok args₁ s₁ ∧
      (shaderSourceAt glslify "fragmentShader" entries args₁).run s₁ = .ok args₂ s₂ ∧
      (uniformsAt context (materialVar object) entries args₂).run s₂ = .ok args₃ s₃ ∧
      s.Writes
        (.construct (materialVar object) shaderFunction (.object (args₃.without "extensions")) ::
          flags.map fun flag => .extension (materialVar object) flag.1 flag.2) t := by
  obtain ⟨entries, args₁, args₂, args₃, flags, context, s₁, s₂, s₃, rfl, h₁, h₂, h₃, -,
    hstatements⟩ := shaderMaterial_steps h
  have plain (key : String) := Entries.get?_map Argument.value entries key
  obtain ⟨hadds₁, hkeep₁⟩ := shaderSourceAt_adds (materialVar object) (plain _) h₁
  obtain ⟨hadds₂, hkeep₂⟩ := shaderSourceAt_adds (materialVar object)
    ((hkeep₁ _ (by decide)).trans (plain _)) h₂
  obtain ⟨hadds₃, hkeep₃⟩ := uniformsAt_adds
    ((hkeep₂ _ (by decide)).trans ((hkeep₁ _ (by decide)).trans (plain _))) h₃
  refine ⟨entries, args₁, args₂, args₃, flags, _, s₁, s₂, _, rfl, h₁, h₂, h₃,
    (hadds₁.trans (hadds₂.trans (hadds₃.trans (statements_adds hstatements)))).writes ?_⟩
  have keep₁ : args₁.get? "vertexShader" = (args₃.without "extensions").get? "vertexShader" := by
    rw [Entries.get?_without_of_ne _ (by decide), hkeep₃ _ (by decide), hkeep₂ _ (by decide)]
  have keep₂ : args₂.get? "fragmentShader" =
      (args₃.without "extensions").get? "fragmentShader" := by
    rw [Entries.get?_without_of_ne _ (by decide), hkeep₃ _ (by decide)]
  have keep₃ : args₃.get? "uniforms" = (args₃.without "extensions").get? "uniforms" := by
    rw [Entries.get?_without_of_ne _ (by decide)]
  have flagged : (flags.map fun flag =>
      Statement.extension (materialVar object) flag.1 flag.2).flatMap Statement.needs = [] := by
    simp [List.flatMap_map, Statement.needs]
  simp only [needsAt, keep₁, keep₂, keep₃]
  simp [flagged, Statement.needs, Arguments.asking, shaderKeys]

theorem shaderMaterial_writes {object : String} {args : Args} {glslify : Bool}
    (h : (shaderMaterial object args glslify).run s = .ok () t) :
    ∃ (arguments : Arguments) (flags : Entries Value), s.Writes
      (.construct (materialVar object) shaderFunction arguments ::
        flags.map fun flag => .extension (materialVar object) flag.1 flag.2) t := by
  obtain ⟨-, -, -, args, flags, -, -, -, -, -, -, -, -, hw⟩ := shaderMaterial_eq_ok h
  exact ⟨.object (args.without "extensions"), flags, hw⟩

/-- The statements for a material: a library file is read, prepared and handed to the mesh loader; a
constructor is called once, and only a shader sets extension flags behind it. -/
def MaterialStatements (object : String) : Material → List Statement → Prop
  | .file _, ss => ∃ asset, ss =
      [.parseMaterials (materialVar object) asset, .preload (materialVar object),
       .useMaterials (some (materialVar object))]
  | .call function _ _, ss => ∃ (arguments : Arguments) (flags : Entries Value),
      (function ≠ shaderFunction → flags = []) ∧
        ss = .construct (materialVar object) function arguments ::
          flags.map fun flag => .extension (materialVar object) flag.1 flag.2

theorem material_writes {object : String} {m : Material}
    (h : (material object m).run s = .ok () t) :
    ∃ ss, MaterialStatements object m ss ∧ s.Writes ss t := by
  cases m with
  | file path =>
    obtain ⟨asset, hw⟩ := fileMaterial_writes h
    exact ⟨_, ⟨asset, rfl⟩, hw⟩
  | call function args glslify =>
    simp only [material] at h
    split at h
    · rename_i hfunction
      subst hfunction
      obtain ⟨arguments, flags, hw⟩ := shaderMaterial_writes h
      exact ⟨_, ⟨arguments, flags, fun hne => absurd rfl hne, rfl⟩, hw⟩
    · rename_i hfunction
      obtain ⟨arguments, -, hw⟩ := builtMaterial_writes hfunction h
      exact ⟨_, ⟨arguments, [], fun _ => rfl, rfl⟩, hw⟩

/-! ## Properties and lights -/

theorem background_adds {v : Value} {b : Background} (h : (background v).run s = .ok b t) :
    s.Adds [] (Statement.background b).needs t := by
  have color {v : Value} {b : Background} (h : (do
      return Background.color (← lift (Color.ofValue v)) : Emit Background).run s = .ok b t) :
      s.Adds [] (Statement.background b).needs t := by
    obtain ⟨c, _, hlift, ⟨⟩⟩ := run_bind_eq_ok.1 h
    obtain ⟨-, rfl⟩ := lift_eq_ok hlift
    exact .refl _
  unfold background at h
  split at h
  · split at h
    · obtain ⟨files, _, hlift, hrest⟩ := run_bind_eq_ok.1 h
      obtain ⟨-, rfl⟩ := lift_eq_ok hlift
      obtain ⟨name, _, htexture, ⟨⟩⟩ := run_bind_eq_ok.1 hrest
      exact texture_adds htexture
    · exact color h
  · split at h
    · obtain ⟨name, _, htexture, ⟨⟩⟩ := run_bind_eq_ok.1 h
      exact texture_adds htexture
    · exact color h
  · exact color h

theorem sceneProperty_writes {name : String} {v : Value}
    (h : (sceneProperty name v).run s = .ok () t) : ∃ st, s.Writes [st] t := by
  unfold sceneProperty at h
  split at h
  · obtain ⟨b, _, hb, h⟩ := run_bind_eq_ok.1 h
    exact ⟨.background b, ((background_adds hb).trans (statement_adds h)).writes (by simp)⟩
  · exact ⟨.property name v, (statement_adds h).writes rfl⟩

theorem light_writes {name parent : String} {node : Light}
    (h : (light name parent node).run s = .ok () t) :
    s.Writes (lightStatements name parent node) t := by
  refine (statements_adds h).writes ?_
  have construct := needs_construct_ofArgs (Text.identifier name) node.function node.args
  unfold lightStatements
  cases node.position <;> simp [Statement.needs] at construct ⊢ <;> exact construct

end Emit

end SceneScript
