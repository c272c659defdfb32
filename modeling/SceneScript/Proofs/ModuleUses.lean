import SceneScript.Proofs.GeneratedModules
import SceneScript.Proofs.TwoPass

/-!
# The modules that statements use

`Statement.modules` lists the generated modules that stand in a statement, and each of them stands
in its text under its name (`Statement.within_text`). A statement is `Covered` if every argument
that needs something asks for it. Only a shader asks by its keys and could miss an argument; it does
not, because an emission puts modules under these keys alone (`Entries.Attended`). So everything
that an emission writes is covered (`body_covered`), and a program imports exactly the modules that
its statements use (`uses_iff_imports`).
-/

namespace SceneScript

/-! ## Parts of texts -/

namespace Text

/-- A text that stands somewhere in another. -/
def Within (part whole : String) : Prop :=
  part.toList <:+: whole.toList

namespace Within

variable {part whole : String}

theorem refl (text : String) : Within text text :=
  List.infix_rfl

theorem trans {middle : String} (h : Within part middle) (h' : Within middle whole) :
    Within part whole :=
  List.IsInfix.trans h h'

theorem append_right (h : Within part whole) (more : String) : Within part (whole ++ more) := by
  unfold Within at h ⊢
  rw [String.toList_append]
  exact h.trans (List.prefix_append _ _).isInfix

theorem append_left (h : Within part whole) (more : String) : Within part (more ++ whole) := by
  unfold Within at h ⊢
  rw [String.toList_append]
  exact h.trans (List.suffix_append _ _).isInfix

/-- A piece of a text that is put together. -/
theorem of_mem {parts : List String} (h : part ∈ parts) (sep : String) :
    Within part (sep.intercalate parts) := by
  have pieces {part : List Char} {parts : List (List Char)} (h : part ∈ parts) (sep : List Char) :
      part <:+: List.intercalate sep parts := by
    induction parts with
    | nil => cases h
    | cons first rest ih =>
      cases rest with
      | nil =>
        obtain rfl := List.mem_singleton.1 h
        simp only [List.intercalate_singleton, List.infix_rfl]
      | cons second rest =>
        rw [List.intercalate_cons_cons]
        rcases List.mem_cons.1 h with rfl | h
        · rw [List.append_assoc]
          exact (List.prefix_append _ _).isInfix
        · exact (ih h).trans (List.suffix_append _ _).isInfix
  unfold Within
  rw [String.toList_intercalate]
  exact pieces (List.mem_map_of_mem h) _

end Within

end Text

/-! ## Modules in statements -/

/-- The modules in the value of a uniform. -/
def Uniform.modules : Uniform → List ModuleName
  | .texture name => [name]
  | .time | .value _ => []

/-- The modules in an argument. -/
def Argument.modules : Argument → List ModuleName
  | .generated name => [name]
  | .uniforms entries => entries.flatMap fun entry => entry.2.modules
  | .value _ | .source _ | .color _ => []

/-- All arguments of a constructor. -/
def Arguments.all : Arguments → List Argument
  | .positional items => items
  | .object entries => entries.map Prod.snd

/-- The modules in a statement. -/
def Statement.modules : Statement → List ModuleName
  | .background (.texture name) => [name]
  | .construct _ _ args => args.all.flatMap Argument.modules
  | .parseMaterials _ asset | .parseMesh _ asset => [asset]
  | _ => []

theorem Uniform.within_text {u : Uniform} {name : ModuleName} (h : name ∈ u.modules) :
    Text.Within name.text u.text := by
  cases u with
  | texture other =>
    obtain rfl := List.mem_singleton.1 h
    exact .refl _
  | time => cases h
  | value v => cases h

theorem Argument.within_text {a : Argument} {name : ModuleName} (h : name ∈ a.modules) :
    Text.Within name.text a.text := by
  cases a with
  | generated other =>
    obtain rfl := List.mem_singleton.1 h
    exact .refl _
  | uniforms entries =>
    obtain ⟨entry, hentry, hname⟩ := List.mem_flatMap.1 h
    have here : Text.Within name.text (Uniform.entryText entry) :=
      ((Uniform.within_text hname).append_left _).append_right _
    exact ((here.trans (.of_mem (List.mem_map_of_mem hentry) ",")).append_left _).append_right _
  | value v => cases h
  | source text => cases h
  | color c => cases h

theorem Arguments.within_text {args : Arguments} {a : Argument} (h : a ∈ args.all) :
    Text.Within a.text args.text := by
  cases args with
  | positional items => exact .of_mem (List.mem_map_of_mem h) ","
  | object entries =>
    obtain ⟨entry, hentry, rfl⟩ := List.mem_map.1 h
    have here : Text.Within entry.2.text (entryText entry) := (Text.Within.refl _).append_left _
    exact ((here.trans (.of_mem (List.mem_map_of_mem hentry) ",")).append_left _).append_right _

/-- A module stands in the text of a statement under its name. -/
theorem Statement.within_text {st : Statement} {name : ModuleName} (h : name ∈ st.modules) :
    Text.Within name.text st.text := by
  have framed {part : String} (hpart : Text.Within name.text part) (before after : String) :
      Text.Within name.text (before ++ part ++ after) :=
    (hpart.append_left before).append_right after
  refine Text.Within.append_right ?_ "\n"
  cases st with
  | background b =>
    cases b with
    | color c => cases h
    | texture other =>
      obtain rfl := List.mem_singleton.1 h
      exact framed (.refl _) _ _
  | construct binding function args =>
    obtain ⟨a, ha, hname⟩ := List.mem_flatMap.1 h
    exact framed ((Argument.within_text hname).trans (Arguments.within_text ha)) _ _
  | parseMaterials binding asset =>
    obtain rfl := List.mem_singleton.1 h
    exact framed (.refl _) _ _
  | parseMesh object asset =>
    obtain rfl := List.mem_singleton.1 h
    exact framed (.refl _) _ _
  | _ => cases h

/-! ## Statements that ask for what they use -/

theorem Argument.generated_mem_needs {binding : String} {a : Argument} {name : ModuleName} :
    Need.generated name ∈ a.needs binding ↔ name ∈ a.modules := by
  have uniform (u : Uniform) : Need.generated name ∈ u.needs binding ↔ name ∈ u.modules := by
    cases u <;> simp [Uniform.needs, Uniform.modules]
  cases a with
  | uniforms entries => simp only [needs, modules, List.mem_flatMap, uniform]
  | _ => simp [needs, modules]

theorem Arguments.all_of_asking {function : String} {args : Arguments} {a : Argument}
    (h : a ∈ args.asking function) : a ∈ args.all := by
  cases args with
  | positional items => exact h
  | object entries =>
    unfold asking at h
    dsimp only at h
    split at h
    · obtain ⟨key, -, hkey⟩ := List.mem_flatMap.1 h
      exact List.mem_map_of_mem (Entries.mem_of_get? (Option.mem_toList.1 hkey))
    · exact h

namespace Statement

/-- Every argument of a statement that needs something asks for it. -/
def Covered : Statement → Prop
  | .construct binding function args =>
    ∀ a ∈ args.all, a.needs binding = [] ∨ a ∈ args.asking function
  | _ => True

/-- A statement that asks for what it uses asks for exactly the modules that stand in it. -/
theorem Covered.generated_mem_needs {st : Statement} (h : st.Covered) {name : ModuleName} :
    Need.generated name ∈ st.needs ↔ name ∈ st.modules := by
  cases st with
  | construct binding function args =>
    simp only [needs, modules, List.mem_flatMap, Argument.generated_mem_needs]
    constructor
    · rintro ⟨a, ha, hname⟩
      exact ⟨a, Arguments.all_of_asking ha, hname⟩
    · rintro ⟨a, ha, hname⟩
      refine ⟨a, ?_, hname⟩
      rcases h a ha with hnone | hasking
      · rw [← Argument.generated_mem_needs, hnone] at hname
        cases hname
      · exact hasking
  | background b => cases b <;> simp [needs, modules]
  | _ => simp [needs, modules]

/-- Arguments that stand in the scene need nothing. -/
theorem covered_ofArgs (binding function : String) (args : Args) :
    (construct binding function (.ofArgs args)).Covered := by
  intro a ha
  left
  cases args with
  | positional items =>
    obtain ⟨v, -, rfl⟩ := List.mem_map.1 ha
    rfl
  | keyword entries =>
    obtain ⟨entry, hentry, rfl⟩ := List.mem_map.1 ha
    obtain ⟨v, -, rfl⟩ := List.mem_map.1 hentry
    rfl

/-- Only a shader asks by its keys. -/
theorem covered_of_ne {binding function : String} {args : Arguments}
    (h : function ≠ shaderFunction) : (construct binding function args).Covered := by
  intro a ha
  right
  cases args with
  | positional items => exact ha
  | object entries => simpa [Arguments.asking, Arguments.all, h] using ha

end Statement

/-! ## Arguments of a shader -/

/-- Every argument that needs something is the one under its key, which is among the given keys. -/
def Entries.Attended (binding : String) (keys : List String) (args : Entries Argument) : Prop :=
  ∀ entry ∈ args,
    entry.2.needs binding = [] ∨ entry.1 ∈ keys ∧ args.get? entry.1 = some entry.2

namespace Entries.Attended

variable {binding : String} {keys : List String} {args : Entries Argument} {key : String}

theorem of_values (binding : String) (entries : Entries Value) :
    Attended binding [] (entries.map fun entry => (entry.1, Argument.value entry.2)) := by
  intro entry hentry
  obtain ⟨v, -, rfl⟩ := List.mem_map.1 hentry
  exact .inl rfl

theorem mono {more : List String} (h : args.Attended binding keys) (hmore : keys ⊆ more) :
    args.Attended binding more :=
  fun entry hentry => (h entry hentry).imp_right fun ⟨hkey, hget⟩ => ⟨hmore hkey, hget⟩

/-- A new key may get any argument. -/
theorem put (h : args.Attended binding keys) (hkey : key ∉ keys) (a : Argument) :
    (args.put key a).Attended binding (key :: keys) := by
  intro entry hentry
  rcases Entries.mem_of_mem_put hentry with rfl | hentry
  · exact .inr ⟨List.mem_cons_self, Entries.get?_put_self args key a⟩
  · refine (h entry hentry).imp_right fun ⟨hold, hget⟩ => ⟨List.mem_cons_of_mem _ hold, ?_⟩
    have hne : entry.1 ≠ key := by
      rintro rfl
      exact hkey hold
    rw [Entries.get?_put_of_ne args a hne, hget]

theorem without (h : args.Attended binding keys) (key : String) :
    (args.without key).Attended binding keys := by
  intro entry hentry
  obtain ⟨hold, hne⟩ := List.mem_filter.1 hentry
  refine (h entry hold).imp_right fun ⟨hkey, hget⟩ => ⟨hkey, ?_⟩
  rw [Entries.get?_without_of_ne args (by simpa using hne), hget]

/-- What stands under the keys of a shader is asked for. -/
theorem covered (h : args.Attended binding keys) (hkeys : keys ⊆ shaderKeys) :
    (Statement.construct binding shaderFunction (.object args)).Covered := by
  intro a ha
  obtain ⟨entry, hentry, rfl⟩ := List.mem_map.1 ha
  refine (h entry hentry).imp_right fun ⟨hkey, hget⟩ => ?_
  simp only [Arguments.asking, ↓reduceIte, List.mem_flatMap]
  exact ⟨entry.1, hkeys hkey, by simp [hget]⟩

end Entries.Attended

/-! ## Imports -/

namespace Need

theorem importLine_mem_imports {need : Need} {name : ModuleName} :
    importLine name.text ∈ need.imports ↔ need = .generated name := by
  have library := importLine_not_mem_libraryImports name
  simp only [Template.libraryImports, List.mem_cons, List.not_mem_nil, or_false, not_or] at library
  cases need with
  | generated other =>
    simp only [imports, List.mem_singleton, Need.generated.injEq]
    constructor
    · intro h
      exact (ModuleName.text_injective (importLine_injective h)).symm
    · rintro rfl
      rfl
  | _ => simp [imports, library]

theorem library_or_generated {need : Need} {line : String} (h : line ∈ need.imports) :
    line ∈ Template.libraryImports ∨ ∃ name : ModuleName, line = importLine name.text := by
  cases need with
  | generated name => exact .inr ⟨name, List.mem_singleton.1 h⟩
  | frameUpdate update => cases h
  | _ =>
    obtain rfl := List.mem_singleton.1 h
    exact .inl (by simp [Template.libraryImports])

end Need

theorem Session.InStep.importLine_mem_imports {out : Path} {s : Session} (h : s.InStep out)
    {name : ModuleName} : importLine name.text ∈ s.inserts.imports ↔ name ∈ s.modules := by
  refine ⟨fun hline => ?_, h.imported name⟩
  rcases h.imports_known _ hline with hlibrary | ⟨other, hother, heq⟩
  · exact absurd hlibrary (importLine_not_mem_libraryImports name)
  · rw [ModuleName.text_injective (importLine_injective heq)]
    exact hother

/-! ## Emissions -/

/-- Statements have been written that ask for what they use, and exactly their needs been met. -/
def Session.WritesCovered (s t : Session) : Prop :=
  ∃ ss, s.Writes ss t ∧ ∀ st ∈ ss, st.Covered

namespace Session.WritesCovered

theorem refl (s : Session) : s.WritesCovered s :=
  ⟨[], .refl s, nofun⟩

theorem trans {s t u : Session} (h : s.WritesCovered t) (h' : t.WritesCovered u) :
    s.WritesCovered u := by
  obtain ⟨ss, hw, hss⟩ := h
  obtain ⟨ss', hw', hss'⟩ := h'
  exact ⟨ss ++ ss', hw.trans hw', List.forall_mem_append.2 ⟨hss, hss'⟩⟩

instance : Trans WritesCovered WritesCovered WritesCovered where
  trans := WritesCovered.trans

end Session.WritesCovered

theorem Session.Writes.covered {s t : Session} {ss : List Statement} (h : s.Writes ss t)
    (hss : ∀ st ∈ ss, st.Covered) : s.WritesCovered t :=
  ⟨ss, h, hss⟩

namespace Emit

variable {s t : Session}

theorem comment_covered {text : String} (h : (statement (.comment text)).run s = .ok () t) :
    s.WritesCovered t :=
  ((statement_adds h).writes rfl).covered (by simp [Statement.Covered])

/-! ### Materials -/

theorem shaderSourceAt_attended {binding : String} {glslify : Bool} {key : String}
    {keys : List String} {entries : Entries Value} {args args' : Entries Argument}
    (hargs : args.Attended binding keys) (hkey : key ∉ keys)
    (h : (shaderSourceAt glslify key entries args).run s = .ok args' t) :
    args'.Attended binding (key :: keys) := by
  unfold shaderSourceAt at h
  split at h
  · obtain ⟨a, _, -, ⟨⟩⟩ := run_bind_eq_ok.1 h
    exact hargs.put hkey a
  · cases h
    exact hargs.mono (List.subset_cons_self _ _)

theorem uniformsAt_attended {context binding : String} {keys : List String}
    {entries : Entries Value} {args args' : Entries Argument}
    (hargs : args.Attended binding keys) (hkey : "uniforms" ∉ keys)
    (h : (uniformsAt context binding entries args).run s = .ok args' t) :
    args'.Attended binding ("uniforms" :: keys) := by
  unfold uniformsAt at h
  split at h
  · cases h
    exact hargs.mono (List.subset_cons_self _ _)
  · obtain ⟨us, _, -, ⟨⟩⟩ := run_bind_eq_ok.1 h
    exact hargs.put hkey _
  · cases h

theorem shaderMaterial_covered {object : String} {args : Args} {glslify : Bool}
    (h : (shaderMaterial object args glslify).run s = .ok () t) : s.WritesCovered t := by
  obtain ⟨entries, args₁, args₂, args₃, flags, _, _, _, _, -, h₁, h₂, h₃, hw⟩ :=
    shaderMaterial_eq_ok h
  have attended₁ := shaderSourceAt_attended (.of_values (materialVar object) entries) (by simp) h₁
  have attended₂ := shaderSourceAt_attended attended₁ (by decide) h₂
  have attended₃ := uniformsAt_attended attended₂ (by decide) h₃
  refine hw.covered (List.forall_mem_cons.2 ⟨?_, ?_⟩)
  · exact (attended₃.without "extensions").covered (by decide)
  · intro st hst
    obtain ⟨flag, -, rfl⟩ := List.mem_map.1 hst
    trivial

theorem material_covered {object : String} {m : Material}
    (h : (material object m).run s = .ok () t) : s.WritesCovered t := by
  cases m with
  | file path =>
    obtain ⟨asset, hw⟩ := fileMaterial_writes h
    exact hw.covered (by simp [Statement.Covered])
  | call function args glslify =>
    simp only [material] at h
    split at h
    · exact shaderMaterial_covered h
    · rename_i hfunction
      obtain ⟨arguments, -, hw⟩ := builtMaterial_writes hfunction h
      exact hw.covered (List.forall_mem_singleton.2 (Statement.covered_of_ne hfunction))

/-! ### Objects -/

theorem covered_of_declaration {v : Visit} {ss : List Statement} (h : v.Declaration ss) :
    ∀ st ∈ ss, st.Covered := by
  unfold Visit.Declaration at h
  split at h
  · subst h
    simp only [List.forall_mem_cons]
    exact ⟨Statement.covered_ofArgs _ _ _, trivial, nofun⟩
  · obtain ⟨asset, rfl⟩ := h
    simp only [List.forall_mem_append, List.forall_mem_singleton]
    refine ⟨⟨?_, trivial⟩, ?_⟩
    · split <;> simp [Statement.Covered]
    · split <;> simp [Statement.Covered]

theorem covered_of_tracks (v : Visit) : ∀ st ∈ v.tracks, st.Covered := by
  intro st hst
  rcases Visit.mem_tracks hst with ⟨text, rfl⟩ | rfl | ⟨name, args, rfl⟩ <;> trivial

theorem materialOf_covered (v : Visit) (h : (materialOf v).run s = .ok () t) :
    s.WritesCovered t := by
  unfold materialOf at h
  split at h
  · exact material_covered h
  · cases h
    exact .refl _

theorem objectBlock_covered (v : Visit) {children : List (String × Object)}
    (h : (objectBlock v.name v.binding ⟨some v.geometry, v.material, v.animations, children⟩
      v.parent).run s = .ok () t) : s.WritesCovered t := by
  rw [objectBlock_eq] at h
  obtain ⟨_, s₁, hcomment, rest₁⟩ := run_bind_eq_ok.1 h
  obtain ⟨_, s₂, hmaterial, rest₂⟩ := run_bind_eq_ok.1 rest₁
  obtain ⟨_, s₃, hgeometry, rest₃⟩ := run_bind_eq_ok.1 rest₂
  obtain ⟨_, s₄, hplacement, htracks⟩ := run_bind_eq_ok.1 rest₃
  obtain ⟨declaration, hdeclaration, wdeclaration⟩ := geometry_writes v hgeometry
  have wplacement := (statements_adds hplacement).writes (placement_needs _ _ _).symm
  have wtracks := (statements_adds htracks).writes (tracks_needs v).symm
  calc s.WritesCovered s₁ := comment_covered hcomment
    s₁.WritesCovered s₂ := materialOf_covered v hmaterial
    s₂.WritesCovered s₃ := wdeclaration.covered (covered_of_declaration hdeclaration)
    s₃.WritesCovered s₄ := wplacement.covered (by simp [placement, Statement.Covered])
    s₄.WritesCovered t := wtracks.covered (covered_of_tracks v)

mutual

theorem object_covered (name parent : String) : ∀ (node : Object) {s t : Session},
    (object name parent node).run s = .ok () t → s.WritesCovered t
  | ⟨some g, m, tracks, children⟩, s, t, h => by
    obtain ⟨_, _, hblock, hchildren⟩ := run_bind_eq_ok.1 h
    exact (objectBlock_covered ⟨name, parent, g, m, tracks⟩ hblock).trans
      (objects_covered _ children hchildren)
  | ⟨none, m, tracks, children⟩, s, t, h => by
    obtain ⟨_, _, hblock, hchildren⟩ := run_bind_eq_ok.1 h
    have wblock := objectBlock_none_writes hblock
    exact (wblock.covered nofun).trans (objects_covered _ children hchildren)

theorem objects_covered (parent : String) : ∀ (nodes : List (String × Object)) {s t : Session},
    (objects parent nodes).run s = .ok () t → s.WritesCovered t
  | [], s, t, h => by
    cases h
    exact .refl _
  | (name, node) :: rest, s, t, h => by
    obtain ⟨_, _, hnode, hrest⟩ := run_bind_eq_ok.1 h
    exact (object_covered name parent node hnode).trans (objects_covered parent rest hrest)

end

/-! ### Properties and lights -/

theorem sceneProperty_covered {name : String} {v : Value}
    (h : (sceneProperty name v).run s = .ok () t) : s.WritesCovered t := by
  unfold sceneProperty at h
  split at h
  · obtain ⟨b, _, hb, h⟩ := run_bind_eq_ok.1 h
    have hw : s.Writes [.background b] t :=
      ((background_adds hb).trans (statement_adds h)).writes (by simp)
    exact hw.covered (by simp [Statement.Covered])
  · have hw : s.Writes [.property name v] t := (statement_adds h).writes rfl
    exact hw.covered (by simp [Statement.Covered])

theorem light_covered {name parent : String} {node : Light}
    (h : (light name parent node).run s = .ok () t) : s.WritesCovered t := by
  refine (light_writes h).covered ?_
  have hconstruct := Statement.covered_ofArgs (Text.identifier name) node.function node.args
  unfold lightStatements
  simp only [List.forall_mem_append, List.forall_mem_cons]
  refine ⟨⟨⟨trivial, hconstruct, trivial, nofun⟩, ?_⟩, trivial, nofun⟩
  split <;> simp [Statement.Covered]

theorem each_covered {α : Type} {write : String → α → Emit Unit}
    (hwrite : ∀ name a s t, (write name a).run s = .ok () t → s.WritesCovered t)
    {entries : Entries α} {s t : Session} (h : (each write entries).run s = .ok () t) :
    s.WritesCovered t := by
  induction entries generalizing s with
  | nil =>
    cases h
    exact .refl _
  | cons entry rest ih =>
    obtain ⟨_, u, hentry, hrest⟩ := run_bind_eq_ok.1 h
    exact (hwrite _ _ s u hentry).trans (ih hrest)

theorem propertySection_covered {entries : Entries Value}
    (h : (propertySection entries).run s = .ok () t) : s.WritesCovered t := by
  unfold propertySection at h
  cases entries with
  | nil =>
    cases h
    exact .refl _
  | cons entry rest =>
    obtain ⟨_, u, hcomment, rest₁⟩ := run_bind_eq_ok.1 h
    obtain ⟨_, w, hproperties, hblank⟩ := run_bind_eq_ok.1 rest₁
    have wblank := (statement_adds hblank).writes rfl
    rw [sceneProperties_eq_each] at hproperties
    calc s.WritesCovered u := comment_covered hcomment
      u.WritesCovered w := each_covered (fun _ _ _ _ => sceneProperty_covered) hproperties
      w.WritesCovered t := wblank.covered (by simp [Statement.Covered])

/-! ## Programs -/

/-- The statements of a scene. -/
def body (scene : Scene) : Emit Unit := do
  propertySection scene.properties
  objects rootParent scene.objects
  lights rootParent scene.lights

theorem body_covered {scene : Scene} (h : (body scene).run s = .ok () t) : s.WritesCovered t := by
  obtain ⟨_, s₁, hproperties, rest⟩ := run_bind_eq_ok.1 h
  obtain ⟨_, s₂, hobjects, hlights⟩ := run_bind_eq_ok.1 rest
  rw [lights_eq_each] at hlights
  calc s.WritesCovered s₁ := propertySection_covered hproperties
    s₁.WritesCovered s₂ := objects_covered _ _ hobjects
    s₂.WritesCovered t := each_covered (fun _ _ _ _ => light_covered) hlights

theorem respects_body (b : Buffer) (scene : Scene) : Respects (OnPage b) (body scene) :=
  .bind ((simulation_onPage b).propertySection _) fun _ =>
    .bind ((simulation_onPage b).objects _ _) fun _ => (simulation_onPage b).lights _ _

/-- A program is its statements in a frame. The generated modules that stand in its statements, each
under its name, are those that it imports, and these are all that were made. -/
theorem uses_iff_imports {scene : Scene} {base out : Path} {d : Disk} {text : String}
    {t : Session} (h : (assemble scene).run (.new base out d) = .ok text t) :
    ∃ ss : List Statement,
      (draft (body scene)).run (.new base out d) =
        .ok (ss.map .statement) { t with inserts := .empty } ∧
      text = Template.imports ++
        (String.join t.inserts.imports ++ String.join t.inserts.boilerplate) ++
        Template.beginning ++ Buffer.textOf (ss.map .statement) ++
        Template.ending scene.options.showStats t.inserts.frameUpdates ∧
      (∀ st ∈ ss, ∀ name ∈ st.modules, Text.Within name.text st.text) ∧
      (∀ line ∈ t.inserts.imports,
        line ∈ Template.libraryImports ∨ ∃ name : ModuleName, line = importLine name.text) ∧
      ∀ name : ModuleName,
        ((∃ st ∈ ss, name ∈ st.modules) ↔ importLine name.text ∈ t.inserts.imports) ∧
        (importLine name.text ∈ t.inserts.imports ↔ name ∈ t.modules) := by
  have inStep : t.InStep out := by
    have := keeps_inStep_assemble out scene (.new base out d) (.new base out d)
    simpa only [after, h] using this
  obtain ⟨s₁, s₂, s₃, hproperties, hobjects, hlights, rfl, rfl⟩ := assemble_eq_ok h
  have hbody : (body scene).run (opened (withStats scene.options.showStats (.new base out d))) =
      .ok () s₃ :=
    run_bind_eq_ok.2 ⟨(), s₁, hproperties, run_bind_eq_ok.2 ⟨(), s₂, hobjects, hlights⟩⟩
  obtain ⟨ss, hw, hcovered⟩ := body_covered hbody
  have hdraft := draft_of_run (fun b => respects_body b scene) hbody hw .empty .empty
  -- the late inserts are those of the statistics and of the statements
  have hinserts : s₃.inserts = Inserts.empty.askAll
      ((if scene.options.showStats then [.stats] else []) ++ ss.flatMap Statement.needs) := by
    rw [Inserts.askAll_append]
    exact hw.inserts
  rw [askAll_empty] at hinserts
  have hline (line : String) : line ∈ s₃.inserts.imports ↔
      ∃ need ∈ (if scene.options.showStats then [.stats] else []) ++ ss.flatMap Statement.needs,
        line ∈ need.imports := by
    rw [hinserts, List.mem_eraseDups, List.mem_flatMap]
  refine ⟨ss, hdraft, ?_, fun st _ name hname => st.within_text hname, ?_, fun name => ⟨?_, ?_⟩⟩
  · rw [hw.buffer, Buffer.append_push, Buffer.finish_append rfl, finish_opened,
      Buffer.textOf_append, Buffer.textOf_singleton]
    simp only [Inserts.headerText, String.join_append, String.append_assoc, Piece.text]
  · intro line hmem
    obtain ⟨need, -, hneed⟩ := (hline line).1 hmem
    exact Need.library_or_generated hneed
  · rw [hline]
    constructor
    · rintro ⟨st, hst, hname⟩
      have hneed := (hcovered st hst).generated_mem_needs.2 hname
      exact ⟨.generated name, List.mem_append_right _ (List.mem_flatMap_of_mem hst hneed),
        Need.importLine_mem_imports.2 rfl⟩
    · rintro ⟨need, hneed, hmem⟩
      obtain rfl := Need.importLine_mem_imports.1 hmem
      rcases List.mem_append.1 hneed with hstats | hneed
      · split at hstats <;> simp at hstats
      · obtain ⟨st, hst, hneed⟩ := List.mem_flatMap.1 hneed
        exact ⟨st, hst, (hcovered st hst).generated_mem_needs.1 hneed⟩
  · exact inStep.importLine_mem_imports

/-- A disk with a mesh, its material library, the source of a shader and two images. -/
def galleryDisk : Disk where
  cwd := .root
  nodes :=
    [(⟨["m.obj"]⟩, .file "o".toUTF8), (⟨["m.mtl"]⟩, .file "newmtl a".toUTF8),
      (⟨["v.glsl"]⟩, .file "v".toUTF8), (⟨["sky.png"]⟩, .file "A".toUTF8),
      (⟨["wood.png"]⟩, .file "B".toUTF8), (⟨["out"]⟩, .directory)]

/-- Two objects of one mesh under a sky that one of them mirrors, and a box of wood. -/
def gallery : Scene where
  objects :=
    [("left", ⟨some (.file "m.obj"), some (.file "m.mtl"), [], []⟩),
      ("right", ⟨some (.file "./m.obj"),
        some (.call shaderFunction (.keyword
          [("uniforms", .mapping [("sky", .string "sky.png"), ("time", .null)]),
            ("vertexShader", .string "v.glsl")]) false), [],
        [("box", ⟨some (.call "BoxGeometry" (.positional [])),
          some (.call "MeshBasicMaterial" (.keyword [("map", .string "wood.png")]) false),
          [], []⟩)]⟩)]
  lights := []
  properties := [("background", .string "sky.png")]
  options := ⟨false, []⟩

/-- The mesh and the sky are used twice and imported once. -/
theorem uses_iff_imports_gallery :
    ∃ text t, (assemble gallery).run (.new ⟨"/"⟩ ⟨"/out"⟩ galleryDisk) = .ok text t ∧
      t.inserts.imports.length = 7 ∧
      ∃ ss : List Statement,
        (draft (body gallery)).run (.new ⟨"/"⟩ ⟨"/out"⟩ galleryDisk) =
          .ok (ss.map .statement) { t with inserts := .empty } ∧
        ∀ name, (∃ st ∈ ss, name ∈ st.modules) ↔
          name ∈ [.file 0, .file 1, .file 2, .texture 0, .texture 1] := by
  have run : (match (assemble gallery).run (.new ⟨"/"⟩ ⟨"/out"⟩ galleryDisk) with
      | .ok _ t => decide (t.inserts.imports.length = 7 ∧
          t.modules = [.file 0, .file 1, .file 2, .texture 0, .texture 1])
      | .error _ _ => false) = true := by
    decide +kernel
  cases ht : (assemble gallery).run (.new ⟨"/"⟩ ⟨"/out"⟩ galleryDisk) with
  | error e t => simp [ht] at run
  | ok text t =>
    rw [ht] at run
    obtain ⟨hlength, hmodules⟩ := of_decide_eq_true run
    obtain ⟨ss, hdraft, -, -, -, huses⟩ := uses_iff_imports ht
    refine ⟨text, t, rfl, hlength, ss, hdraft, fun name => ?_⟩
    rw [(huses name).1, (huses name).2, hmodules]

end Emit

end SceneScript
