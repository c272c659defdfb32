import SceneScript.Proofs.ProgramBody

/-!
# The statements of each frame

A uniform `time` of a shader that is null in the scene is driven by the animation: it starts at zero
and a statement of each frame sets it. `uniforms_driven` follows one such uniform into the arguments
of its constructor and among the late inserts, `material_drives` a whole material, and
`writesEach_drives` the block of an object. `frame_updates_of_time_uniforms` says of a whole program
which statements stand in its animation function, where they stand and what they set.
-/

namespace SceneScript

/-! ## Driven times -/

/-- Whether a uniform is a time that the animation drives. -/
def isDrivenTime (entry : String × Value) : Bool :=
  entry.1 = "time" && entry.2.isNull

/-- The uniforms among the arguments of a shader. -/
def Entries.uniforms (entries : Entries Value) : Entries Value :=
  match entries.get? "uniforms" with
  | some (.mapping us) => us
  | _ => []

/-- The uniforms of a material, which only a shader has. -/
def Material.uniforms : Material → Entries Value
  | .call function (.keyword entries) _ =>
    if function = shaderFunction then entries.uniforms else []
  | .call _ (.positional _) _ | .file _ => []

namespace Visit

/-- The uniforms of an object. -/
def uniforms (v : Visit) : Entries Value :=
  match v.material with
  | some m => m.uniforms
  | none => []

/-- Whether the animation drives the time of an object's material. -/
def drivesTime (v : Visit) : Bool :=
  v.uniforms.any isDrivenTime

/-- The statement that sets the time of an object's material. -/
def timeUpdate (v : Visit) : String :=
  Template.timeUpdate (materialVar v.binding)

end Visit

/-- Statements ask for one update for each driven time, and if there is one they construct a shader
whose time starts at zero. -/
structure Drives (object : String) (given : Entries Value) (ss : List Statement) : Prop where
  updates : ss.flatMap Statement.updates =
    List.replicate (given.countP isDrivenTime) (Template.timeUpdate (materialVar object))
  rendered : given.any isDrivenTime = true → ∃ (args : Entries Argument) (us : Entries Uniform),
    .construct (materialVar object) shaderFunction (.object args) ∈ ss ∧
      ("uniforms", .uniforms us) ∈ args ∧ ("time", .time) ∈ us

/-- Without uniforms nothing has to be driven. -/
theorem Drives.of_nil {object : String} {ss : List Statement}
    (h : ss.flatMap Statement.updates = []) : Drives object [] ss :=
  ⟨h, fun hdriven => absurd hdriven Bool.false_ne_true⟩

theorem updates_of_needs (ss : List Statement) :
    ss.flatMap Statement.updates = (ss.flatMap Statement.needs).flatMap Need.frameUpdates := by
  rw [List.flatMap_assoc]
  rfl

/-- Statements without an update may stand around. -/
theorem Drives.append {object : String} {given : Entries Value} {front ss back : List Statement}
    (h : Drives object given ss) (hfront : front.flatMap Statement.updates = [])
    (hback : back.flatMap Statement.updates = []) : Drives object given (front ++ ss ++ back) where
  updates := by
    rw [List.flatMap_append, List.flatMap_append, hfront, hback, List.nil_append, List.append_nil]
    exact h.updates
  rendered hany := by
    obtain ⟨args, us, hconstruct, hus, htime⟩ := h.rendered hany
    refine ⟨args, us, ?_, hus, htime⟩
    exact List.mem_append_left _ (List.mem_append_right _ hconstruct)

namespace Emit

variable {s t : Session}

/-! ## Materials -/

/-- A uniform becomes a time exactly if it is driven, and asks for an update only then. -/
theorem uniform_driven {binding name : String} {v : Value} {u : Uniform}
    (h : (uniform binding name v).run s = .ok u t) :
    (u.needs binding).flatMap Need.frameUpdates =
        (if isDrivenTime (name, v) then [Template.timeUpdate binding] else []) ∧
      (isDrivenTime (name, v) = true → name = "time" ∧ u = .time) := by
  unfold uniform at h
  split at h
  · split at h
    · rename_i hname
      cases h
      rw [if_pos (by simp [isDrivenTime, Value.isNull, hname])]
      exact ⟨rfl, fun _ => ⟨hname, rfl⟩⟩
    · rename_i hname
      cases h
      have hother : isDrivenTime (name, .null) = false := by simp [isDrivenTime, hname]
      rw [hother]
      exact ⟨rfl, nofun⟩
  · obtain ⟨_, _, ⟨⟩, hrest⟩ := run_bind_eq_ok.1 h
    have hother (path : String) : isDrivenTime (name, .string path) = false := by
      simp [isDrivenTime, Value.isNull]
    rw [hother]
    split at hrest
    · obtain ⟨_, _, -, ⟨⟩⟩ := run_bind_eq_ok.1 hrest
      exact ⟨rfl, nofun⟩
    · cases hrest
      exact ⟨rfl, nofun⟩
  · rename_i hnull _
    cases h
    have hother : isDrivenTime (name, v) = false := by
      cases v with
      | null => exact absurd rfl hnull
      | _ => simp [isDrivenTime, Value.isNull]
    rw [hother]
    exact ⟨rfl, nofun⟩

theorem uniforms_driven {binding : String} {entries : Entries Value} {us : Entries Uniform}
    (h : (uniforms binding entries).run s = .ok us t) :
    ((Argument.uniforms us).needs binding).flatMap Need.frameUpdates =
        List.replicate (entries.countP isDrivenTime) (Template.timeUpdate binding) ∧
      (entries.any isDrivenTime = true → ("time", .time) ∈ us) := by
  induction entries generalizing s us with
  | nil =>
    cases h
    exact ⟨rfl, nofun⟩
  | cons entry rest ih =>
    obtain ⟨u, _, hu, hrest⟩ := run_bind_eq_ok.1 h
    obtain ⟨more, _, hmore, ⟨⟩⟩ := run_bind_eq_ok.1 hrest
    obtain ⟨hneeds, htime⟩ := uniform_driven hu
    obtain ⟨hmoreNeeds, hmoreTime⟩ := ih hmore
    constructor
    · rw [Argument.needs] at hmoreNeeds ⊢
      rw [List.flatMap_cons, List.flatMap_append, hmoreNeeds, hneeds, List.countP_cons]
      by_cases hentry : isDrivenTime entry = true
      · rw [if_pos hentry, if_pos hentry, Nat.add_comm, List.replicate_add]
        rfl
      · rw [if_neg hentry, if_neg hentry, List.nil_append, Nat.add_zero]
    · intro hany
      rw [List.any_cons, Bool.or_eq_true] at hany
      rcases hany with hentry | hany
      · obtain ⟨hname, rfl⟩ := htime hentry
        rw [← hname]
        exact List.mem_cons_self
      · exact List.mem_cons_of_mem _ (hmoreTime hany)

/-- No source of a shader asks for an update. -/
theorem shaderSourceAt_updates (binding : String) {key : String} {glslify : Bool}
    {entries : Entries Value} {args args' : Entries Argument}
    (hplain : args.get? key = (entries.get? key).map .value)
    (h : (shaderSourceAt glslify key entries args).run s = .ok args' t) :
    (needsAt binding args' key).flatMap Need.frameUpdates = [] := by
  have source {text : String} {a : Argument} {s t : Session}
      (h : (shaderSource glslify text).run s = .ok a t) :
      (a.needs binding).flatMap Need.frameUpdates = [] := by
    unfold shaderSource at h
    split at h
    · cases h
      rfl
    · obtain ⟨name, _, -, hrest⟩ := run_bind_eq_ok.1 h
      dsimp only at hrest
      split at hrest
      · obtain ⟨_, _, -, ⟨⟩⟩ := run_bind_eq_ok.1 hrest
        rfl
      · cases hrest
        rfl
  unfold shaderSourceAt at h
  split at h
  · obtain ⟨a, _, ha, ⟨⟩⟩ := run_bind_eq_ok.1 h
    rw [needsAt_put]
    exact source ha
  · cases h
    rw [needsAt_of_value hplain]
    rfl

theorem uniformsAt_driven {context binding : String} {entries : Entries Value}
    {args args' : Entries Argument}
    (hplain : args.get? "uniforms" = (entries.get? "uniforms").map .value)
    (h : (uniformsAt context binding entries args).run s = .ok args' t) :
    (needsAt binding args' "uniforms").flatMap Need.frameUpdates =
        List.replicate (entries.uniforms.countP isDrivenTime) (Template.timeUpdate binding) ∧
      (entries.uniforms.any isDrivenTime = true →
        ∃ us, args'.get? "uniforms" = some (.uniforms us) ∧ ("time", .time) ∈ us) := by
  unfold uniformsAt at h
  unfold Entries.uniforms
  split at h
  · rename_i hnone
    cases h
    rw [needsAt_of_value hplain, hnone]
    exact ⟨rfl, nofun⟩
  · rename_i given hgiven
    obtain ⟨us, _, hus, ⟨⟩⟩ := run_bind_eq_ok.1 h
    obtain ⟨hneeds, htime⟩ := uniforms_driven hus
    rw [needsAt_put, hgiven]
    exact ⟨hneeds, fun hany => ⟨us, Entries.get?_put_self _ _ _, htime hany⟩⟩
  · cases h

theorem shaderMaterial_drives {object : String} {args : Args} {glslify : Bool}
    (h : (shaderMaterial object args glslify).run s = .ok () t) :
    ∃ ss, Drives object (Material.call shaderFunction args glslify).uniforms ss ∧
      s.Writes ss t := by
  obtain ⟨entries, args₁, args₂, args₃, flags, _, _, _, _, rfl, h₁, h₂, h₃, hw⟩ :=
    shaderMaterial_eq_ok h
  refine ⟨_, ?_, hw⟩
  have plain (key : String) := Entries.get?_map Argument.value entries key
  have keep₁ := (shaderSourceAt_adds (materialVar object) (plain _) h₁).2
  have plain₁ (key : String) (hkey : key ≠ "vertexShader") := (keep₁ key hkey).trans (plain key)
  have keep₂ := (shaderSourceAt_adds (materialVar object) (plain₁ _ (by decide)) h₂).2
  have plain₂ := (keep₂ "uniforms" (by decide)).trans (plain₁ "uniforms" (by decide))
  have keep₃ := (uniformsAt_adds plain₂ h₃).2
  have without (key : String) (hkey : key ≠ "extensions") :=
    Entries.get?_without_of_ne args₃ hkey
  obtain ⟨hupdates, htime⟩ := uniformsAt_driven plain₂ h₃
  have hvertex := shaderSourceAt_updates (materialVar object) (plain _) h₁
  have hfragment := shaderSourceAt_updates (materialVar object) (plain₁ _ (by decide)) h₂
  have hgiven : (Material.call shaderFunction (.keyword entries) glslify).uniforms =
      entries.uniforms := by
    rw [Material.uniforms, if_pos rfl]
  rw [hgiven]
  constructor
  · have hflags : (flags.map fun flag =>
        Statement.extension (materialVar object) flag.1 flag.2).flatMap Statement.updates = [] := by
      simp [List.flatMap_map, Statement.updates, Statement.needs]
    have hconstruct : (Statement.construct (materialVar object) shaderFunction
        (.object (args₃.without "extensions"))).updates =
        shaderKeys.flatMap fun key => (needsAt (materialVar object)
          (args₃.without "extensions") key).flatMap Need.frameUpdates := by
      simp [Statement.updates, Statement.needs, Arguments.asking, needsAt, List.flatMap_assoc]
    rw [List.flatMap_cons, hflags, hconstruct, List.append_nil]
    -- the two sources keep the arguments that they got and only the uniforms are left
    unfold needsAt at hvertex hfragment hupdates ⊢
    simp only [shaderKeys, List.flatMap_cons, List.flatMap_nil]
    rw [without "vertexShader" (by decide), without "fragmentShader" (by decide),
      without "uniforms" (by decide), keep₃ "vertexShader" (by decide),
      keep₃ "fragmentShader" (by decide), keep₂ "vertexShader" (by decide), hvertex, hfragment,
      hupdates]
    simp
  · intro hany
    obtain ⟨us, hus, hmem⟩ := htime hany
    refine ⟨args₃.without "extensions", us, List.mem_cons_self, ?_, hmem⟩
    apply Entries.mem_of_get?
    rw [without "uniforms" (by decide), hus]

/-- No other statement of a material has to do with the time. -/
theorem material_drives {object : String} {m : Material}
    (h : (material object m).run s = .ok () t) :
    ∃ ss, Drives object m.uniforms ss ∧ s.Writes ss t := by
  cases m with
  | file path =>
    obtain ⟨asset, hw⟩ := fileMaterial_writes h
    exact ⟨_, .of_nil rfl, hw⟩
  | call function args glslify =>
    simp only [material] at h
    split at h
    · rename_i hfunction
      subst hfunction
      exact shaderMaterial_drives h
    · rename_i hfunction
      obtain ⟨arguments, hupdates, hw⟩ := builtMaterial_writes hfunction h
      have hnone : (Material.call function args glslify).uniforms = [] := by
        cases args with
        | positional items => rfl
        | keyword entries => rw [Material.uniforms, if_neg hfunction]
      rw [hnone]
      refine ⟨_, .of_nil ?_, hw⟩
      rw [List.flatMap_singleton, hupdates]

theorem updates_of_declaration {v : Visit} {ss : List Statement} (h : v.Declaration ss) :
    ss.flatMap Statement.updates = [] := by
  unfold Visit.Declaration at h
  split at h
  · subst h
    rw [updates_of_needs, List.flatMap_cons, needs_construct_ofArgs]
    rfl
  · obtain ⟨asset, rfl⟩ := h
    cases v.material with
    | none => rfl
    | some m => cases m <;> rfl

/-- The block of every object asks for the updates of its own material. -/
theorem writesEach_drives : WritesEach fun v block => Drives v.binding v.uniforms block := by
  intro v s t h
  have hmaterial {s t : Session} (h : (materialOf v).run s = .ok () t) :
      ∃ ss, Drives v.binding v.uniforms ss ∧ s.Writes ss t := by
    unfold materialOf at h
    unfold Visit.uniforms
    cases hm : v.material with
    | none =>
      rw [hm] at h
      cases h
      exact ⟨[], .of_nil rfl, .refl _⟩
    | some m =>
      rw [hm] at h
      exact material_drives h
  obtain ⟨material, declaration, hdrives, hdeclaration, hw⟩ := objectBlock_writes_of v hmaterial h
  refine ⟨_, ?_, hw⟩
  have hback : (declaration ++ placement v.name v.binding v.parent ++ v.tracks).flatMap
      Statement.updates = [] := by
    rw [List.flatMap_append, List.flatMap_append, updates_of_declaration hdeclaration,
      updates_of_needs, placement_needs, updates_of_needs, tracks_needs]
    rfl
  have hblock : Drives v.binding v.uniforms ([.comment (v.name ++ " object")] ++ material ++
      (declaration ++ placement v.name v.binding v.parent ++ v.tracks)) := hdrives.append rfl hback
  simpa only [List.append_assoc] using hblock

/-! ## Programs -/

theorem foldl_insertOnce_replicate (texts : List String) (n : Nat) (text : String) :
    (List.replicate n text).foldl insertOnce texts =
      if n = 0 then texts else insertOnce texts text := by
  induction n generalizing texts with
  | zero => rfl
  | succ n ih =>
    have again : insertOnce (insertOnce texts text) text = insertOnce texts text :=
      if_pos (mem_insertOnce.2 (.inr rfl))
    rw [List.replicate_succ, List.foldl_cons, ih, again, ite_self]
    rfl

/-- Several driven times of one object are set by one statement. -/
theorem eraseDups_updates {vs : List Visit} {blocks : List (List Statement)}
    (h : List.Forall₂ (fun v block => Drives v.binding v.uniforms block) vs blocks) :
    (blocks.flatten.flatMap Statement.updates).eraseDups =
      ((vs.filter Visit.drivesTime).map Visit.timeUpdate).eraseDups := by
  rw [← foldl_insertOnce_nil, ← foldl_insertOnce_nil]
  generalize ([] : List String) = texts
  induction h generalizing texts with
  | nil => rfl
  | @cons v block vs blocks hblock _ ih =>
    rw [List.flatten_cons, List.flatMap_append, List.foldl_append, hblock.updates,
      foldl_insertOnce_replicate, List.filter_cons]
    by_cases hdrives : v.drivesTime = true
    · have hcount : v.uniforms.countP isDrivenTime ≠ 0 := by
        obtain ⟨entry, hentry, htime⟩ := List.any_eq_true.1 hdrives
        have := List.countP_pos_iff.2 ⟨entry, hentry, htime⟩
        omega
      rw [if_neg hcount, if_pos hdrives, List.map_cons, List.foldl_cons]
      exact ih _
    · have hcount : v.uniforms.countP isDrivenTime = 0 := by
        apply List.countP_eq_zero.2
        intro entry hentry htime
        exact hdrives (List.any_eq_true.2 ⟨entry, hentry, htime⟩)
      rw [if_pos hcount, if_neg hdrives]
      exact ih _

theorem updates_of_setting {ss : List Statement} (h : ∀ st ∈ ss, st.isSetting = true) :
    ss.flatMap Statement.updates = [] := by
  apply List.flatMap_eq_nil_iff.2
  intro st hst
  have hsetting := h st hst
  cases st with
  | background b => cases b <;> rfl
  | comment text => rfl
  | blank => rfl
  | property name v => rfl
  | _ => cases hsetting

theorem updates_of_lights (parent : String) (nodes : Entries Light) :
    (lightsStatements parent nodes).flatMap Statement.updates = [] := by
  apply List.flatMap_eq_nil_iff.2
  intro st hst
  rcases mem_lightsStatements hst with
    ⟨_, rfl⟩ | ⟨_, _, _, rfl⟩ | ⟨_, rfl⟩ | ⟨_, _, rfl⟩ | rfl
  case inr.inl => rw [Statement.updates, needs_construct_ofArgs, List.flatMap_nil]
  all_goals rfl

/-- The updates of a program are those of its objects. -/
theorem frameUpdates_of_bodyOf {scene : Scene} {ss : List Statement} (showStats : Bool)
    (h : BodyOf (fun v block => Drives v.binding v.uniforms block) scene ss) :
    (Inserts.empty.askAll ((if showStats then [.stats] else []) ++
        ss.flatMap Statement.needs)).frameUpdates =
      (((Object.forestVisits rootParent scene.objects).filter Visit.drivesTime).map
        Visit.timeUpdate).eraseDups := by
  obtain ⟨front, blocks, hfront, hblocks, rfl⟩ := h
  have hstats : (if showStats then [Need.stats] else []).flatMap Need.frameUpdates = [] := by
    cases showStats <;> rfl
  rw [askAll_empty]
  dsimp only
  rw [List.flatMap_append, hstats, List.nil_append, ← updates_of_needs, List.flatMap_append,
    List.flatMap_append, updates_of_setting hfront, updates_of_lights, List.append_nil,
    List.nil_append]
  exact eraseDups_updates hblocks

end Emit

namespace Template

/-- What stands between the objects and the animation function. -/
def renderLoop (showStats : Bool) : String :=
  endingSetup ++ statsBegin showStats ++ endingFrame ++ statsEnd showStats ++
    "\x7d;\n\n// Animation\n"

/-- The animation function of a program, with its updates of each frame. -/
def animateFunction (updates : List String) : String :=
  lines
    ["function animate() \x7b",
     "    if (!paused) \x7b",
     "        // Update animation",
     "        var delta = clock.getDelta();",
     "        mixer.update(delta);",
     "        gui.updateTime();"] ++
  lines (updates.map fun update => "        " ++ update) ++
  lines
    ["        camera.update();",
     "    \x7d",
     "\x7d"]

theorem ending_eq (showStats : Bool) (updates : List String) :
    ending showStats updates =
      renderLoop showStats ++ animateFunction updates ++ "\ncontrols.update();\nrender();\n" := by
  have hstart : endingAnimate = "\x7d;\n\n// Animation\n" ++ lines
      ["function animate() \x7b", "    if (!paused) \x7b", "        // Update animation",
       "        var delta = clock.getDelta();", "        mixer.update(delta);",
       "        gui.updateTime();"] := by
    decide +kernel
  have hclose : endingClose = lines ["        camera.update();", "    \x7d", "\x7d"] ++
      "\ncontrols.update();\nrender();\n" := by
    decide +kernel
  have hupdates : updates.map updateLine =
      (updates.map fun update => "        " ++ update).map (· ++ "\n") := by
    rw [List.map_map]
    rfl
  rw [ending, renderLoop, animateFunction, hstart, hclose, hupdates]
  simp only [lines, String.append_assoc]

end Template

theorem Statement.code_construct_shader (binding : String) (args : Arguments) :
    (Statement.construct binding shaderFunction args).code =
      "var " ++ binding ++ " = new THREE.ShaderMaterial(" ++ args.text ++ ");" := by
  have hcode (function : String) : (Statement.construct binding function args).code =
      "var " ++ binding ++ " = new THREE." ++ function ++ "(" ++ args.text ++ ");" := rfl
  have hcall : " = new THREE.ShaderMaterial(" = " = new THREE." ++ shaderFunction ++ "(" := by
    decide +kernel
  rw [hcode, hcall]
  simp only [String.append_assoc]

/-- The text of a driven time. -/
theorem Drives.within_text {args : Entries Argument} {us : Entries Uniform}
    (hus : ("uniforms", .uniforms us) ∈ args) (htime : ("time", .time) ∈ us) :
    Text.Within "time: \x7bvalue: 0.0\x7d" (Arguments.object args).text := by
  have hentry : Uniform.entryText ("time", .time) = "time: \x7bvalue: 0.0\x7d" := by
    decide +kernel
  have huniforms : Text.Within (Uniform.entryText ("time", .time)) (Argument.uniforms us).text :=
    ((Text.Within.of_mem (List.mem_map_of_mem htime) ",").append_left _).append_right _
  rw [← hentry]
  exact huniforms.trans (Arguments.within_text (List.mem_map_of_mem hus))

namespace Emit

/-- The animation function of a program sets, between the updates of the controls and of the camera,
the time of every shader material that belongs to an object with a geometry and has a null time, in
the order of the objects and each once, and nothing else. The material of such an object is declared
with a time that starts at zero. -/
theorem frame_updates_of_time_uniforms {scene : Scene} {base out : Path} {d : Disk}
    {text : String} {t : Session} (h : (assemble scene).run (.new base out d) = .ok text t) :
    let drivers := (Object.forestVisits rootParent scene.objects).filter Visit.drivesTime
    let updates := (drivers.map fun v =>
      materialVar v.binding ++ ".uniforms.time.value = mixer.clip_action.time;").eraseDups
    ∃ ss : List Statement,
      (draft (body scene)).run (.new base out d) =
        .ok (ss.map .statement) { t with inserts := .empty } ∧
      text = Template.imports ++ t.inserts.headerText ++ Template.beginning ++
        Buffer.textOf (ss.map .statement) ++ Template.renderLoop scene.options.showStats ++
        Template.animateFunction updates ++ "\ncontrols.update();\nrender();\n" ∧
      ∀ v ∈ drivers, ∃ args : Entries Argument,
        Statement.construct (materialVar v.binding) shaderFunction (.object args) ∈ ss ∧
        (∃ us, ("uniforms", .uniforms us) ∈ args ∧ ("time", .time) ∈ us) ∧
        Text.Within "time: \x7bvalue: 0.0\x7d" (Arguments.object args).text ∧
        (Statement.construct (materialVar v.binding) shaderFunction (.object args)).code =
          "var " ++ materialVar v.binding ++ " = new THREE.ShaderMaterial(" ++
            (Arguments.object args).text ++ ");" := by
  intro drivers updates
  obtain ⟨ss, hss, hdraft, htext, hinserts⟩ := assemble_body writesEach_drives h
  refine ⟨ss, hdraft, ?_, ?_⟩
  · have hupdates : t.inserts.frameUpdates = updates := by
      rw [hinserts]
      exact frameUpdates_of_bodyOf _ hss
    rw [htext, Template.ending_eq, hupdates]
    simp only [String.append_assoc]
  · intro v hv
    obtain ⟨hvisit, hdrives⟩ := List.mem_filter.1 hv
    obtain ⟨front, blocks, -, hblocks, rfl⟩ := hss
    obtain ⟨k, hk⟩ := List.mem_iff_getElem?.1 hvisit
    obtain ⟨block, hblock, hdriven⟩ := forall₂_getElem? hblocks.flip hk
    obtain ⟨args, us, hconstruct, hus, htime⟩ := hdriven.rendered hdrives
    refine ⟨args, ?_, ⟨us, hus, htime⟩, Drives.within_text hus htime, ?_⟩
    · have hmem := List.mem_flatten_of_mem (List.mem_of_getElem? hblock) hconstruct
      exact List.mem_append_left _ (List.mem_append_right _ hmem)
    · exact Statement.code_construct_shader _ _

/-- A constructed geometry. -/
def box : Option Geometry :=
  some (.call "BoxGeometry" (.positional []))

/-- A shader with a time. -/
def timedShader (time : Value) : Option Material :=
  some (.call shaderFunction (.keyword [("uniforms", .mapping [("time", time)])]) false)

/-- Objects with a shader each. One has no geometry, one has the variable of another, and the time
of one is not null. -/
def pulses : Scene where
  objects :=
    [("a b", ⟨box, timedShader .null, [],
        [("group", ⟨none, timedShader .null, [],
          [("a-b", ⟨box, timedShader .null, [], []⟩),
            ("still", ⟨box, timedShader (.bool true), [], []⟩)]⟩)]⟩),
      ("c", ⟨box, timedShader .null, [], []⟩)]
  lights := []
  properties := []
  options := ⟨true, []⟩

/-- Two of the five shaders are driven by a statement of their own. -/
theorem frame_updates_of_time_uniforms_pulses :
    ∃ text t, (assemble pulses).run (.new ⟨"/"⟩ ⟨"/out"⟩ ⟨.root, []⟩) = .ok text t ∧
      ∃ ss : List Statement,
        text = Template.imports ++ t.inserts.headerText ++ Template.beginning ++
          Buffer.textOf (ss.map .statement) ++ Template.renderLoop true ++
          Template.animateFunction
            ["a_b_material.uniforms.time.value = mixer.clip_action.time;",
             "c_material.uniforms.time.value = mixer.clip_action.time;"] ++
          "\ncontrols.update();\nrender();\n" := by
  have run : (match (assemble pulses).run (.new ⟨"/"⟩ ⟨"/out"⟩ ⟨.root, []⟩) with
      | .ok _ _ => true
      | .error _ _ => false) = true := by
    decide +kernel
  have updates :
      (((Object.forestVisits rootParent pulses.objects).filter Visit.drivesTime).map fun v =>
        materialVar v.binding ++ ".uniforms.time.value = mixer.clip_action.time;").eraseDups =
      ["a_b_material.uniforms.time.value = mixer.clip_action.time;",
       "c_material.uniforms.time.value = mixer.clip_action.time;"] := by
    decide +kernel
  cases ht : (assemble pulses).run (.new ⟨"/"⟩ ⟨"/out"⟩ ⟨.root, []⟩) with
  | error e t => simp [ht] at run
  | ok text t =>
    obtain ⟨ss, -, htext, -⟩ := frame_updates_of_time_uniforms ht
    rw [updates] at htext
    exact ⟨text, t, rfl, ss, htext⟩

end Emit

end SceneScript
