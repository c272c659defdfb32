import SceneScript.Proofs.Failures

/-!
# The arguments of a material

Keyword arguments of a material become one object. It keeps their keys and the order of the keys,
and under each key stands a text that depends on the key and its value only: `SlotText` for the
materials with slots, `ShaderText` for shaders. A name of a module in such a text is the one that
the caches still give when the material is finished. All other arguments stand in the program as
the scene gives them, and then nothing but the buffer changes. `material_arguments` says this of
every material that is built by a constructor.

A shader replaces the values of single keys one after the other. `Settled` says how far it has got.
-/

namespace SceneScript

/-! ## Entries, key by key -/

namespace Entries

variable {α β : Type} {R R' : String → α → β → Prop} {entries : Entries α} {others : Entries β}
  {key : String}

/-- The same keys in the same order, and related values under each key. -/
def KeyByKey (R : String → α → β → Prop) (entries : Entries α) (others : Entries β) : Prop :=
  List.Forall₂ (fun entry other => other.1 = entry.1 ∧ R entry.1 entry.2 other.2) entries others

theorem get?_of_mem (hkeys : entries.keys.Nodup) {v : α} (h : (key, v) ∈ entries) :
    entries.get? key = some v := by
  induction entries with
  | nil => cases h
  | cons entry rest ih =>
    obtain ⟨hnew, hrest⟩ := List.nodup_cons.1 hkeys
    rcases List.mem_cons.1 h with rfl | h
    · exact if_pos rfl
    · have hne : entry.1 ≠ key := fun heq => hnew (heq ▸ List.mem_map_of_mem h)
      rw [get?, if_neg hne, ih hrest h]

namespace KeyByKey

theorem keys_eq (h : entries.KeyByKey R others) : others.keys = entries.keys := by
  induction h with
  | nil => rfl
  | cons hentry _ ih => exact congrArg₂ List.cons hentry.1 ih

/-- A weaker relation between the values. -/
theorem mono (h : entries.KeyByKey R others)
    (hR : ∀ key v w, (key, v) ∈ entries → R key v w → R' key v w) : entries.KeyByKey R' others := by
  induction h with
  | nil => exact .nil
  | cons hentry _ ih =>
    exact .cons ⟨hentry.1, hR _ _ _ List.mem_cons_self hentry.2⟩
      (ih fun key v w hmem => hR key v w (List.mem_cons_of_mem _ hmem))

/-- A value that is put in the place of another. -/
theorem put (h : entries.KeyByKey R others) (hkeys : entries.keys.Nodup) {v : α} {w : β}
    (hv : entries.get? key = some v) (hw : R' key v w)
    (hR : ∀ other v w, other ≠ key → R other v w → R' other v w) :
    entries.KeyByKey R' (others.put key w) := by
  induction h with
  | nil => cases hv
  | @cons entry other rest others hentry hrest ih =>
    obtain ⟨hnew, hkeys⟩ := List.nodup_cons.1 hkeys
    rw [get?] at hv
    rw [Entries.put, hentry.1]
    by_cases hkey : entry.1 = key
    · subst hkey
      rw [if_pos rfl] at hv ⊢
      cases hv
      -- the key does not come again, so the rest is not concerned
      have hrest : KeyByKey R' rest others := KeyByKey.mono hrest fun other v w hmem =>
        hR other v w fun heq => hnew (heq ▸ List.mem_map_of_mem hmem)
      exact .cons ⟨rfl, hw⟩ hrest
    · rw [if_neg hkey] at hv ⊢
      exact .cons ⟨rfl, hR _ _ _ hkey hentry.2⟩ (ih hkeys hv)

theorem without (h : entries.KeyByKey R others) (key : String) :
    (entries.without key).KeyByKey R (others.without key) := by
  induction h with
  | nil => exact .nil
  | @cons entry other rest others hentry hrest ih =>
    unfold Entries.without at ih ⊢
    by_cases hkey : entry.1 = key
    · rwa [List.filter_cons_of_neg (by simpa using hkey),
        List.filter_cons_of_neg (by simpa [hentry.1] using hkey)]
    · rw [List.filter_cons_of_pos (by simpa using hkey),
        List.filter_cons_of_pos (by simpa [hentry.1] using hkey)]
      exact .cons hentry ih

theorem map_right {γ : Type} {R : String → α → γ → Prop} {f : β → γ}
    (h : entries.KeyByKey (fun key v w => R key v (f w)) others) :
    entries.KeyByKey R (others.map fun other => (other.1, f other.2)) := by
  induction h with
  | nil => exact .nil
  | cons hentry _ ih => exact .cons hentry ih

end KeyByKey

end Entries

/-! ## Texts of arguments -/

/-- Entries as an object. -/
def objectText (entries : Entries String) : String :=
  "\x7b" ++ ",".intercalate (entries.map fun entry => entry.1 ++ ": " ++ entry.2) ++ "\x7d"

/-- The texts of arguments. -/
def Arguments.texts (entries : Entries Argument) : Entries String :=
  entries.map fun entry => (entry.1, entry.2.text)

/-- The arguments of a call as the scene gives them. -/
def Args.callText : Args → String
  | .positional items => Value.positionalText items
  | .keyword entries => "\x7b" ++ Value.keywordText entries ++ "\x7d"

/-- No keyword comes twice. -/
def Args.Distinct : Args → Prop
  | .positional _ => True
  | .keyword entries => entries.keys.Nodup

theorem Arguments.text_object (entries : Entries Argument) :
    (Arguments.object entries).text = objectText (Arguments.texts entries) := by
  simp only [Arguments.text, objectText, Arguments.texts, List.map_map]
  rfl

theorem Arguments.text_ofArgs (args : Args) : (Arguments.ofArgs args).text = args.callText := by
  cases args with
  | positional items =>
    simp only [Arguments.ofArgs, Arguments.text, List.map_map, Args.callText, Value.positionalText,
      Value.literals_eq_map]
    rfl
  | keyword entries =>
    simp only [Arguments.ofArgs, Arguments.text, List.map_map, Args.callText, Value.keywordText,
      Value.keyed_eq_map]
    rfl

theorem Uniform.entryText_eq (entry : String × Uniform) :
    entryText entry = entry.1 ++ ": " ++ ("\x7bvalue: " ++ entry.2.text ++ "\x7d") := by
  have hsplit : ": \x7bvalue: " = ": " ++ "\x7bvalue: " := rfl
  rw [entryText, hsplit]
  simp only [String.append_assoc]

theorem Text.contains_iff {word text : List Char} :
    Text.contains word text = true ↔ word <:+: text := by
  induction text with
  | nil => simp [Text.contains]
  | cons c cs ih => simp [Text.contains, ih, List.infix_cons_iff]

namespace Emit

variable {s t u : Session}

/-! ## Materials with slots -/

/-- The text under a key of a material with slots. -/
def SlotText (slots : Slots) (t : Session) (key : String) (v : Value) (text : String) : Prop :=
  if slots.isTexture key then
    ∃ files name, textureFiles? v = some files ∧ (texture files).run t = .ok name t ∧
      text = name.text
  else if slots.isColor key then
    ∃ c, Color.ofValue v = .ok c ∧ text = "new THREE.Color(" ++ c.arguments ++ ")"
  else text = v.literal

theorem slotArgument_text {binding key : String} {slots : Slots} {v : Value} {a : Argument}
    (h : (slotArgument binding slots key v).run s = .ok a u) (hu : u.Extends t) :
    SlotText slots t key v a.text := by
  unfold slotArgument at h
  unfold SlotText
  split at h
  · rename_i htexture
    rw [if_pos htexture]
    cases hfiles : textureFiles? v with
    | none =>
      rw [hfiles] at h
      cases h
    | some files =>
      rw [hfiles] at h
      obtain ⟨name, _, hname, ⟨⟩⟩ := run_bind_eq_ok.1 h
      exact ⟨files, name, rfl, texture_again hname hu, rfl⟩
  · rename_i htexture
    rw [if_neg htexture]
    split at h
    · rename_i hcolor
      rw [if_pos hcolor]
      obtain ⟨c, _, hlift, ⟨⟩⟩ := run_bind_eq_ok.1 h
      obtain ⟨hc, rfl⟩ := lift_eq_ok hlift
      exact ⟨c, hc, rfl⟩
    · rename_i hcolor
      rw [if_neg hcolor]
      cases h
      rfl

theorem slotArguments_texts {binding : String} {slots : Slots} {entries : Entries Value}
    {args : Entries Argument} (h : (slotArguments binding slots entries).run s = .ok args u)
    (hu : u.Extends t) : entries.KeyByKey (fun key v a => SlotText slots t key v a.text) args := by
  induction entries generalizing s args with
  | nil =>
    cases h
    exact .nil
  | cons entry rest ih =>
    obtain ⟨a, w, ha, hrest⟩ := run_bind_eq_ok.1 h
    obtain ⟨more, _, hmore, ⟨⟩⟩ := run_bind_eq_ok.1 hrest
    have hw : w.Extends u := (progresses.slotArguments _ _ _).of_ok hmore
    exact .cons ⟨rfl, slotArgument_text ha (hw.trans hu)⟩ (ih hmore)

/-! ## Shaders -/

/-- The text of a shader source: the source itself if it has an entry point, and otherwise the name
of the module of the file. -/
def SourceText (t : Session) : Value → String → Prop
  | .string source, text =>
    ("main()".toList <:+: source.toList ∧ text = Text.quote source) ∨
      (¬ "main()".toList <:+: source.toList ∧
        ∃ name, (embed source).run t = .ok name t ∧ text = name.text)
  | v, text => text = v.literal

/-- The text of a uniform's value. -/
def UniformText (s t : Session) (name : String) : Value → String → Prop
  | .null, text => text = if name = "time" then "0.0" else Value.null.literal
  | .string path, text =>
    if Image.isImageFile s.disk (s.base.join ⟨path⟩) then
      ∃ image, (texture [path]).run t = .ok image t ∧ text = image.text
    else text = (Value.string path).literal
  | v, text => text = v.literal

/-- The text under a key of a shader. -/
def ShaderText (s t : Session) (key : String) (v : Value) (text : String) : Prop :=
  if key = "vertexShader" ∨ key = "fragmentShader" then SourceText t v text
  else if key = "uniforms" then
    ∃ (us : Entries Value) (texts : Entries String), v = .mapping us ∧
      us.KeyByKey (UniformText s t) texts ∧
      text = objectText (texts.map fun entry => (entry.1, "\x7bvalue: " ++ entry.2 ++ "\x7d"))
  else text = v.literal

theorem shaderSource_text {glslify : Bool} {source : String} {a : Argument}
    (h : (shaderSource glslify source).run s = .ok a u) (hu : u.Extends t) :
    SourceText t (.string source) a.text := by
  unfold shaderSource at h
  split at h
  · rename_i hsource
    cases h
    exact .inl ⟨Text.contains_iff.1 hsource, rfl⟩
  · rename_i hsource
    obtain ⟨name, w, hname, hnote⟩ := run_bind_eq_ok.1 h
    refine .inr ⟨fun hmain => hsource (Text.contains_iff.2 hmain), name, ?_⟩
    dsimp only at hnote
    split at hnote
    · obtain ⟨_, w', hnoted, ⟨⟩⟩ := run_bind_eq_ok.1 hnote
      have hw : w.Extends u := (Progresses.noteGlslify name).of_ok hnoted
      exact ⟨embed_again hname (hw.trans hu), rfl⟩
    · cases hnote
      exact ⟨embed_again hname hu, rfl⟩

theorem uniform_text {binding name : String} {v : Value} {a : Uniform} {w : Session}
    (hw : s.Extends w) (h : (uniform binding name v).run w = .ok a u) (hu : u.Extends t) :
    UniformText s t name v a.text := by
  unfold uniform at h
  split at h
  · split at h
    · rename_i hname
      obtain ⟨_, _, -, ⟨⟩⟩ := run_bind_eq_ok.1 h
      rw [UniformText, if_pos hname]
      rfl
    · rename_i hname
      cases h
      rw [UniformText, if_neg hname]
      rfl
  · obtain ⟨_, _, ⟨⟩, hprobe⟩ := run_bind_eq_ok.1 h
    rw [hw.base, hw.isImageFile] at hprobe
    split at hprobe
    · rename_i himage
      obtain ⟨image, _, hname, ⟨⟩⟩ := run_bind_eq_ok.1 hprobe
      rw [UniformText, if_pos himage]
      exact ⟨image, texture_again hname hu, rfl⟩
    · rename_i himage
      cases hprobe
      rw [UniformText, if_neg himage]
      rfl
  · rename_i hnull hstring
    cases h
    rw [UniformText]
    · rfl
    · exact hnull
    · exact hstring

theorem uniforms_texts {binding : String} {entries : Entries Value} {us : Entries Uniform}
    {w : Session} (hw : s.Extends w) (h : (uniforms binding entries).run w = .ok us u)
    (hu : u.Extends t) : entries.KeyByKey (fun name v a => UniformText s t name v a.text) us := by
  induction entries generalizing w us with
  | nil =>
    cases h
    exact .nil
  | cons entry rest ih =>
    obtain ⟨a, w', ha, hrest⟩ := run_bind_eq_ok.1 h
    obtain ⟨more, _, hmore, ⟨⟩⟩ := run_bind_eq_ok.1 hrest
    have hw' : w.Extends w' := (progresses.uniform _ _ _).of_ok ha
    have hmore' : w'.Extends u := (progresses.uniforms _ _).of_ok hmore
    exact .cons ⟨rfl, uniform_text hw ha (hmore'.trans hu)⟩ (ih (hw.trans hw') hmore)

/-- The argument for a key, when some keys have got the texts that they should get. -/
def Settled (T : String → Value → String → Prop) (keys : List String) (key : String) (v : Value)
    (a : Argument) : Prop :=
  (key ∈ keys → T key v a.text) ∧ (key ∉ keys → a.text = v.literal)

section Settling

variable {T : String → Value → String → Prop} {keys : List String} {key : String}
  {entries : Entries Value} {args : Entries Argument}

theorem settled_nil (entries : Entries Value) :
    entries.KeyByKey (Settled T [])
      (entries.map fun entry => (entry.1, Argument.value entry.2)) := by
  refine List.forall₂_map_right_iff.2 (List.forall₂_same.2 fun entry _ => ?_)
  exact ⟨rfl, fun hkey => absurd hkey List.not_mem_nil, fun _ => rfl⟩

/-- One key gets the text that it should get. -/
theorem settled_put (hargs : entries.KeyByKey (Settled T keys) args) (hkeys : entries.keys.Nodup)
    {v : Value} {a : Argument} (hv : entries.get? key = some v) (ha : T key v a.text) :
    entries.KeyByKey (Settled T (key :: keys)) (args.put key a) := by
  have hkey : Settled T (key :: keys) key v a :=
    ⟨fun _ => ha, fun hnot => absurd List.mem_cons_self hnot⟩
  refine hargs.put hkeys hv hkey fun other w b hne hb => ?_
  exact ⟨fun hmem => hb.1 (List.mem_of_ne_of_mem hne hmem),
    fun hnot => hb.2 fun hmem => hnot (List.mem_cons_of_mem _ hmem)⟩

/-- One key has the text already that it should get. -/
theorem settled_of_literal (hargs : entries.KeyByKey (Settled T keys) args)
    (hkeys : entries.keys.Nodup) (hkey : key ∉ keys)
    (hT : ∀ v, entries.get? key = some v → T key v v.literal) :
    entries.KeyByKey (Settled T (key :: keys)) args := by
  refine hargs.mono fun other v a hmem ha => ⟨fun hother => ?_, fun hnot => ?_⟩
  · rcases List.mem_cons.1 hother with rfl | hother
    · rw [ha.2 hkey]
      exact hT v (Entries.get?_of_mem hkeys hmem)
    · exact ha.1 hother
  · exact ha.2 fun hother => hnot (List.mem_cons_of_mem _ hother)

end Settling

section Shaders

variable {keys : List String} {entries : Entries Value} {args args' : Entries Argument}
  {w : Session}

theorem shaderSourceAt_settled {glslify : Bool} {key : String}
    (hsource : key = "vertexShader" ∨ key = "fragmentShader")
    (hargs : entries.KeyByKey (Settled (ShaderText s t) keys) args) (hkeys : entries.keys.Nodup)
    (hkey : key ∉ keys) (h : (shaderSourceAt glslify key entries args).run w = .ok args' u)
    (hu : u.Extends t) : entries.KeyByKey (Settled (ShaderText s t) (key :: keys)) args' := by
  unfold shaderSourceAt at h
  split at h
  · rename_i source hget
    obtain ⟨a, _, ha, ⟨⟩⟩ := run_bind_eq_ok.1 h
    refine settled_put hargs hkeys hget ?_
    rw [ShaderText, if_pos hsource]
    exact shaderSource_text ha hu
  · rename_i hother
    cases h
    refine settled_of_literal hargs hkeys hkey fun v hget => ?_
    rw [ShaderText, if_pos hsource, SourceText]
    rintro source rfl
    exact hother source hget

theorem uniformsAt_settled {context binding : String}
    (hargs : entries.KeyByKey (Settled (ShaderText s t) keys) args) (hkeys : entries.keys.Nodup)
    (hkey : "uniforms" ∉ keys) (hw : s.Extends w)
    (h : (uniformsAt context binding entries args).run w = .ok args' u) (hu : u.Extends t) :
    entries.KeyByKey (Settled (ShaderText s t) ("uniforms" :: keys)) args' := by
  unfold uniformsAt at h
  split at h
  · rename_i hnone
    cases h
    refine settled_of_literal hargs hkeys hkey fun v hget => ?_
    rw [hnone] at hget
    cases hget
  · rename_i given hget
    obtain ⟨us, _, hus, ⟨⟩⟩ := run_bind_eq_ok.1 h
    refine settled_put hargs hkeys hget ?_
    rw [ShaderText, if_neg (by decide), if_pos rfl]
    refine ⟨given, us.map fun entry => (entry.1, entry.2.text), rfl,
      (uniforms_texts hw hus hu).map_right, ?_⟩
    have hentries : us.map Uniform.entryText = us.map fun entry =>
        entry.1 ++ ": " ++ ("\x7bvalue: " ++ entry.2.text ++ "\x7d") :=
      List.map_congr_left fun entry _ => Uniform.entryText_eq entry
    rw [Argument.text, objectText, hentries, List.map_map, List.map_map]
    rfl
  · cases h

/-- The keys that a shader does not attend to keep their literals. -/
theorem shaderText_of_settled
    (hargs : entries.KeyByKey
      (Settled (ShaderText s t) ["uniforms", "fragmentShader", "vertexShader"]) args) :
    entries.KeyByKey (fun key v a => ShaderText s t key v a.text) args := by
  refine hargs.mono fun key v a _ ha => ?_
  by_cases hkey : key ∈ ["uniforms", "fragmentShader", "vertexShader"]
  · exact ha.1 hkey
  · simp only [List.mem_cons, List.not_mem_nil, or_false, not_or] at hkey
    rw [ShaderText, if_neg (not_or.2 ⟨hkey.2.2, hkey.2.1⟩), if_neg hkey.1]
    exact ha.2 (by simpa using hkey)

end Shaders

/-! ## Materials -/

/-- The line of the constructor of a material. -/
def materialLine (object function call : String) : String :=
  "var " ++ materialVar object ++ " = new THREE." ++ function ++ "(" ++ call ++ ");" ++ "\n"

/-- The line of an extension flag. -/
def flagLine (object : String) (flag : String × Value) : String :=
  materialVar object ++ ".extensions." ++ flag.1 ++ " = " ++ flagText flag.2 ++ ";" ++ "\n"

/-- The statements are added, and these are their lines. -/
def Prints (s : Session) (lines : List String) (t : Session) : Prop :=
  ∃ ss : List Statement, t.buffer = s.buffer.append (ss.map .statement) ∧
    ss.map Statement.text = lines

theorem Prints.of_statements (ss : List Statement) (hu : u.buffer = s.buffer)
    (h : (statements ss).run u = .ok () t) : Prints s (ss.map Statement.text) t := by
  refine ⟨ss, ?_, rfl⟩
  rw [(statements_adds h).buffer, hu]

theorem extensionsOf_eq_ok {context : String} {entries flags : Entries Value}
    (h : extensionsOf context entries = .ok flags) :
    entries.get? "extensions" = some (.mapping flags) ∨
      flags = [] ∧ (entries.get? "extensions" = none ∨ entries.get? "extensions" = some .null) := by
  unfold extensionsOf at h
  split at h
  · rename_i hnone
    cases h
    exact .inr ⟨rfl, .inl hnone⟩
  · rename_i hnull
    cases h
    exact .inr ⟨rfl, .inr hnull⟩
  · rename_i hmapping
    cases h
    exact .inl hmapping
  · cases h

theorem shaderMaterial_texts {object : String} {args : Args} {glslify : Bool}
    (hargs : args.Distinct) (h : (shaderMaterial object args glslify).run s = .ok () t) :
    ∃ (entries : Entries Value) (texts : Entries String) (flags : Entries Value) (context : String),
      args = .keyword entries ∧ (entries.without "extensions").KeyByKey (ShaderText s t) texts ∧
      extensionsOf context entries = .ok flags ∧
      Prints s (materialLine object shaderFunction (objectText texts) ::
        flags.map (flagLine object)) t := by
  obtain ⟨entries, args₁, args₂, args₃, flags, context, s₁, s₂, s₃, rfl, h₁, h₂, h₃, hflags,
    hstatements⟩ := shaderMaterial_steps h
  have hs₁ : s.Extends s₁ := (progresses.shaderSourceAt _ _ _ _).of_ok h₁
  have hs₂ : s₁.Extends s₂ := (progresses.shaderSourceAt _ _ _ _).of_ok h₂
  have hs₃ : s₂.Extends s₃ := (progresses.uniformsAt _ _ _ _).of_ok h₃
  have ht : s₃.Extends t := (progresses.statements _).of_ok hstatements
  have settled₀ := settled_nil (T := ShaderText s t) entries
  have settled₁ := shaderSourceAt_settled (.inl rfl) settled₀ hargs (by decide) h₁
    (hs₂.trans (hs₃.trans ht))
  have settled₂ := shaderSourceAt_settled (.inr rfl) settled₁ hargs (by decide) h₂ (hs₃.trans ht)
  have settled₃ := uniformsAt_settled settled₂ hargs (by decide) (hs₁.trans hs₂) h₃ ht
  have hbuffer : s₃.buffer = s.buffer :=
    ((Silent.uniformsAt _ _ _ _).buffer_of_ok h₃).trans
      (((Silent.shaderSourceAt _ _ _ _).buffer_of_ok h₂).trans
        ((Silent.shaderSourceAt _ _ _ _).buffer_of_ok h₁))
  refine ⟨entries, Arguments.texts (args₃.without "extensions"), flags, context, rfl,
    ((shaderText_of_settled settled₃).without "extensions").map_right, hflags, ?_⟩
  have hprints := Prints.of_statements _ hbuffer hstatements
  rw [List.map_cons, List.map_map] at hprints
  rw [← Arguments.text_object]
  exact hprints

theorem builtMaterial_texts {object function : String} {args : Args}
    (h : (builtMaterial object function args).run s = .ok () t) :
    ∃ call, Prints s [materialLine object function call] t ∧
      (∀ entries slots, args = .keyword entries → Slots.of? function = some slots →
        ∃ texts, call = objectText texts ∧ entries.KeyByKey (SlotText slots t) texts) ∧
      ((Slots.of? function = none ∨ ∃ items, args = .positional items) →
        call = args.callText ∧ t = { s with buffer := t.buffer }) := by
  unfold builtMaterial at h
  dsimp only at h
  split at h
  · rename_i entries slots hslots
    obtain ⟨arguments, u, harguments, hstatement⟩ := run_bind_eq_ok.1 h
    have hbuffer := (Silent.slotArguments _ _ _).buffer_of_ok harguments
    have hu : u.Extends t := (progresses.statement _).of_ok hstatement
    refine ⟨(Arguments.object arguments).text, ?_, ?_, ?_⟩
    · exact Prints.of_statements [_] hbuffer hstatement
    · rintro _ slots' ⟨⟩ hslots'
      obtain rfl : slots = slots' := Option.some.inj (hslots.symm.trans hslots')
      exact ⟨_, Arguments.text_object arguments, (slotArguments_texts harguments hu).map_right⟩
    · rintro (hnone | ⟨_, ⟨⟩⟩)
      rw [hslots] at hnone
      cases hnone
  · rename_i args _ _ hother
    refine ⟨(Arguments.ofArgs args).text, ?_, ?_, fun _ => ⟨Arguments.text_ofArgs args, ?_⟩⟩
    · exact Prints.of_statements [_] rfl h
    · intro entries slots hargs hslots
      exact (hother entries slots hargs hslots).elim
    · cases h
      rfl

/-- A material that is built by a constructor. With slots, and as a shader, it gets an object with
the keys of the arguments in their order, a shader without that of the extension flags, and each
flag has a line behind it. Otherwise the arguments stand in the call as the scene gives them, and
nothing but the buffer changes. -/
theorem material_arguments {object function : String} {args : Args} {glslify : Bool}
    (hargs : args.Distinct)
    (h : (material object (.call function args glslify)).run s = .ok () t) :
    ∃ (call : String) (flags : Entries Value),
      Prints s (materialLine object function call :: flags.map (flagLine object)) t ∧
      (∀ entries slots, args = .keyword entries → Slots.of? function = some slots →
        flags = [] ∧ ∃ texts, call = objectText texts ∧ texts.keys = entries.keys ∧
          texts.keys.Nodup ∧ entries.KeyByKey (SlotText slots t) texts) ∧
      (function = shaderFunction → ∃ entries texts, args = .keyword entries ∧
        call = objectText texts ∧ texts.keys = (entries.without "extensions").keys ∧
        (entries.without "extensions").KeyByKey (ShaderText s t) texts ∧
        (entries.get? "extensions" = some (.mapping flags) ∨ flags = [] ∧
          (entries.get? "extensions" = none ∨ entries.get? "extensions" = some .null))) ∧
      (function ≠ shaderFunction →
        (Slots.of? function = none ∨ ∃ items, args = .positional items) →
          flags = [] ∧ call = args.callText ∧ t = { s with buffer := t.buffer }) := by
  simp only [material] at h
  split at h
  · rename_i hfunction
    subst hfunction
    obtain ⟨entries, texts, flags, context, rfl, htexts, hflags, hprints⟩ :=
      shaderMaterial_texts hargs h
    refine ⟨objectText texts, flags, hprints, ?_, fun _ => ?_, fun hne => absurd rfl hne⟩
    · intro _ slots _ hslots
      have hnone : Slots.of? shaderFunction = none := by decide
      rw [hnone] at hslots
      cases hslots
    · exact ⟨entries, texts, rfl, rfl, htexts.keys_eq, htexts, extensionsOf_eq_ok hflags⟩
  · rename_i hfunction
    obtain ⟨call, hprints, hslots, hplain⟩ := builtMaterial_texts h
    refine ⟨call, [], hprints, ?_, fun heq => absurd heq hfunction, fun _ hother =>
      ⟨rfl, hplain hother⟩⟩
    rintro entries slots rfl htable
    obtain ⟨texts, hcall, htexts⟩ := hslots entries slots rfl htable
    refine ⟨rfl, texts, hcall, htexts.keys_eq, ?_, htexts⟩
    rw [htexts.keys_eq]
    exact hargs

/-- A shader with its source in a file and another one in place, an image, a time and a flag. -/
def water : Entries Value :=
  [("uniforms", .mapping [("sky", .string "sky.png"), ("time", .null)]),
    ("vertexShader", .string "v.glsl"),
    ("extensions", .mapping [("derivatives", .bool true)]),
    ("fragmentShader", .string "main()")]

/-- A disk with the source and the image. -/
def waterDisk : Disk where
  cwd := .root
  nodes :=
    [(⟨["v.glsl"]⟩, .file "v".toUTF8), (⟨["sky.png"]⟩, .file "A".toUTF8), (⟨["out"]⟩, .directory)]

/-- The flag has a line behind the constructor, and the other keys keep their order. -/
theorem material_arguments_water :
    ∃ (t : Session) (texts : Entries String),
      (material "sea" (.call shaderFunction (.keyword water) false)).run
        (.new ⟨"/"⟩ ⟨"/out"⟩ waterDisk) = .ok () t ∧
      texts.keys = ["uniforms", "vertexShader", "fragmentShader"] ∧
      (water.without "extensions").KeyByKey (ShaderText (.new ⟨"/"⟩ ⟨"/out"⟩ waterDisk) t) texts ∧
      Prints (.new ⟨"/"⟩ ⟨"/out"⟩ waterDisk)
        [materialLine "sea" shaderFunction (objectText texts),
          flagLine "sea" ("derivatives", .bool true)] t := by
  have hok : ((material "sea" (.call shaderFunction (.keyword water) false)).run'
      (.new ⟨"/"⟩ ⟨"/out"⟩ waterDisk)).isSome = true := by decide +kernel
  cases hrun : (material "sea" (.call shaderFunction (.keyword water) false)).run
      (.new ⟨"/"⟩ ⟨"/out"⟩ waterDisk) with
  | error e t =>
    delta EStateM.run' at hok
    rw [hrun] at hok
    cases hok
  | ok _ t =>
    have hdistinct : (Args.keyword water).Distinct := by
      show water.keys.Nodup
      decide
    obtain ⟨call, flags, hprints, -, hshader, -⟩ := material_arguments hdistinct hrun
    obtain ⟨_, texts, ⟨⟩, rfl, hkeys, htexts, hflags⟩ := hshader rfl
    obtain ⟨⟨⟩⟩ | ⟨-, ⟨⟨⟩⟩ | ⟨⟨⟩⟩⟩ := hflags
    exact ⟨t, texts, rfl, hkeys, htexts, hprints⟩

end Emit

end SceneScript
