import SceneScript.Proofs.Failures
import SceneScript.Proofs.ModuleUses

/-!
# The body of a program

The statements of a program are those about the scene itself, then one block for each object with a
geometry, then those of the lights (`assemble_body`).

A program that fails to assemble stops between two of these or inside one block, which is left with
the comment at its head and perhaps the statements of a material (`Opening`). `assemble_error_body`
says what is left of a whole program then.
-/

namespace SceneScript

/-- Whether a statement is about the scene itself. -/
def Statement.isSetting : Statement → Bool
  | .comment _ | .blank | .property _ _ | .background _ => true
  | _ => false

namespace Emit

/-- The statements of several lights. -/
def lightsStatements (parent : String) (nodes : Entries Light) : List Statement :=
  nodes.flatMap fun entry => lightStatements entry.1 parent entry.2

theorem mem_lightsStatements {parent : String} {nodes : Entries Light} {st : Statement}
    (h : st ∈ lightsStatements parent nodes) :
    (∃ text, st = .comment text) ∨ (∃ binding function args,
      st = .construct binding function (.ofArgs args)) ∨ (∃ object, st = .attach parent object) ∨
      (∃ object coordinates, st = .position object coordinates) ∨ st = .blank := by
  obtain ⟨⟨name, node⟩, -, h⟩ := List.mem_flatMap.1 h
  simp only [lightStatements, List.mem_append, List.mem_cons, List.not_mem_nil, or_false] at h
  rcases h with ((rfl | rfl | rfl) | h) | rfl
  · exact .inl ⟨_, rfl⟩
  · exact .inr (.inl ⟨_, _, _, rfl⟩)
  · exact .inr (.inr (.inl ⟨_, rfl⟩))
  · split at h
    · exact .inr (.inr (.inr (.inl ⟨_, _, List.mem_singleton.1 h⟩)))
    · cases h
  · exact .inr (.inr (.inr (.inr rfl)))

/-- The statements of a scene, with a property of its blocks. -/
def BodyOf (R : Visit → List Statement → Prop) (scene : Scene) (ss : List Statement) : Prop :=
  ∃ front blocks, (∀ st ∈ front, st.isSetting = true) ∧
    List.Forall₂ R (Object.forestVisits rootParent scene.objects) blocks ∧
    ss = front ++ blocks.flatten ++ lightsStatements rootParent scene.lights

variable {s t : Session}

/-! ## Programs that are assembled -/

theorem sceneProperty_setting {name : String} {v : Value}
    (h : (sceneProperty name v).run s = .ok () t) :
    ∃ st : Statement, st.isSetting = true ∧ s.Writes [st] t := by
  unfold sceneProperty at h
  split at h
  · obtain ⟨b, _, hb, hstatement⟩ := run_bind_eq_ok.1 h
    have hw : s.Writes [.background b] t :=
      ((background_adds hb).trans (statement_adds hstatement)).writes (by simp)
    exact ⟨.background b, rfl, hw⟩
  · exact ⟨.property name v, rfl, (statement_adds h).writes rfl⟩

theorem sceneProperties_setting {entries : Entries Value}
    (h : (sceneProperties entries).run s = .ok () t) :
    ∃ ss : List Statement, (∀ st ∈ ss, st.isSetting = true) ∧ s.Writes ss t := by
  induction entries generalizing s with
  | nil =>
    cases h
    exact ⟨[], List.forall_mem_nil _, .refl _⟩
  | cons entry rest ih =>
    obtain ⟨_, u, hentry, hrest⟩ := run_bind_eq_ok.1 h
    obtain ⟨st, hst, wst⟩ := sceneProperty_setting hentry
    obtain ⟨ss, hss, wss⟩ := ih hrest
    exact ⟨st :: ss, List.forall_mem_cons.2 ⟨hst, hss⟩, wst.trans wss⟩

theorem propertySection_setting {entries : Entries Value}
    (h : (propertySection entries).run s = .ok () t) :
    ∃ ss : List Statement, (∀ st ∈ ss, st.isSetting = true) ∧ s.Writes ss t := by
  unfold propertySection at h
  cases entries with
  | nil =>
    cases h
    exact ⟨[], List.forall_mem_nil _, .refl _⟩
  | cons entry rest =>
    obtain ⟨_, u, hcomment, rest₁⟩ := run_bind_eq_ok.1 h
    obtain ⟨_, w, hproperties, hblank⟩ := run_bind_eq_ok.1 rest₁
    obtain ⟨ss, hss, wss⟩ := sceneProperties_setting hproperties
    have wcomment : s.Writes [.comment "Scene properties"] u := (statement_adds hcomment).writes rfl
    have wblank : w.Writes [.blank] t := (statement_adds hblank).writes rfl
    refine ⟨_, ?_, wcomment.trans (wss.trans wblank)⟩
    simp only [List.forall_mem_append, List.forall_mem_singleton]
    exact ⟨rfl, hss, rfl⟩

theorem lights_writes {parent : String} {nodes : Entries Light}
    (h : (lights parent nodes).run s = .ok () t) : s.Writes (lightsStatements parent nodes) t := by
  induction nodes generalizing s with
  | nil =>
    cases h
    exact .refl _
  | cons entry rest ih =>
    obtain ⟨_, u, hentry, hrest⟩ := run_bind_eq_ok.1 h
    exact (light_writes hentry).trans (ih hrest)

theorem body_writes_of {R : Visit → List Statement → Prop} (hR : WritesEach R) {scene : Scene}
    (h : (body scene).run s = .ok () t) : ∃ ss, BodyOf R scene ss ∧ s.Writes ss t := by
  obtain ⟨_, s₁, hproperties, rest⟩ := run_bind_eq_ok.1 h
  obtain ⟨_, s₂, hobjects, hlights⟩ := run_bind_eq_ok.1 rest
  obtain ⟨front, hfront, wfront⟩ := propertySection_setting hproperties
  obtain ⟨blocks, hblocks, wblocks⟩ := objects_writes_of hR _ _ hobjects
  have written := (wfront.trans wblocks).trans (lights_writes hlights)
  exact ⟨_, ⟨front, blocks, hfront, hblocks, rfl⟩, written⟩

/-- A program is its statements in a frame, and its late inserts are those of the statistics and of
its statements. -/
theorem assemble_body {R : Visit → List Statement → Prop} (hR : WritesEach R) {scene : Scene}
    {base out : Path} {d : Disk} {text : String}
    (h : (assemble scene).run (.new base out d) = .ok text t) :
    ∃ ss : List Statement, BodyOf R scene ss ∧
      (draft (body scene)).run (.new base out d) =
        .ok (ss.map .statement) { t with inserts := .empty } ∧
      text = Template.imports ++ t.inserts.headerText ++ Template.beginning ++
        Buffer.textOf (ss.map .statement) ++
        Template.ending scene.options.showStats t.inserts.frameUpdates ∧
      t.inserts = Inserts.empty.askAll
        ((if scene.options.showStats then [.stats] else []) ++ ss.flatMap Statement.needs) := by
  obtain ⟨s₁, s₂, s₃, hproperties, hobjects, hlights, rfl, rfl⟩ := assemble_eq_ok h
  have hbody : (body scene).run (opened (withStats scene.options.showStats (.new base out d))) =
      .ok () s₃ :=
    run_bind_eq_ok.2 ⟨(), s₁, hproperties, run_bind_eq_ok.2 ⟨(), s₂, hobjects, hlights⟩⟩
  obtain ⟨ss, hss, hw⟩ := body_writes_of hR hbody
  refine ⟨ss, hss, draft_of_run (fun b => respects_body b scene) hbody hw .empty .empty, ?_, ?_⟩
  · rw [hw.buffer, Buffer.append_push, Buffer.finish_append rfl, finish_opened,
      Buffer.textOf_append, Buffer.textOf_singleton]
    simp only [String.append_assoc, Piece.text]
  · rw [Inserts.askAll_append]
    exact hw.inserts

/-! ## Programs that are not assembled -/

/-- The statements of an object that fails: the comment at its head, and those of its material if it
fails behind them. -/
def Opening (v : Visit) (ss : List Statement) : Prop :=
  ∃ material, (material = [] ∨ v.MaterialPart material) ∧
    ss = .comment (v.name ++ " object") :: material

/-- The statements of visits of which one fails: the blocks of those before it, and its opening. -/
def Interrupted (vs : List Visit) (ss : List Statement) : Prop :=
  ∃ done v rest blocks opening, vs = done ++ v :: rest ∧ List.Forall₂ Visit.Block done blocks ∧
    Opening v opening ∧ ss = blocks.flatten ++ opening

/-- What is left of visits of which one fails. -/
theorem Stops.interrupted {vs : List Visit} {e : Error} (h : Stops s vs e t) :
    ∃ ss, Interrupted vs ss ∧ t.buffer = s.buffer.append (ss.map .statement) := by
  obtain ⟨done, v, rest, blocks, u, ending, rfl, hdone, hfails⟩ := h
  have hopening : Opening v (.comment (v.name ++ " object") :: ending) := by
    refine ⟨ending, ?_, rfl⟩
    cases hfails with
    | material => exact .inl rfl
    | mesh _ _ hpart => exact .inr hpart
  refine ⟨_, ⟨done, v, rest, blocks, _, rfl, hdone.forall₂_block, hopening, rfl⟩, ?_⟩
  rw [hfails.buffer, hdone.buffer, Buffer.append_append, List.map_append]

theorem propertySection_error {entries : Entries Value} {e : Error}
    (h : (propertySection entries).run s = .error e t) :
    ∃ ss : List Statement, (∀ st ∈ ss, st.isSetting = true) ∧
      t.buffer = s.buffer.append (ss.map .statement) := by
  have properties {entries : Entries Value} {s : Session}
      (h : (sceneProperties entries).run s = .error e t) :
      ∃ ss : List Statement, (∀ st ∈ ss, st.isSetting = true) ∧
        t.buffer = s.buffer.append (ss.map .statement) := by
    induction entries generalizing s with
    | nil => cases h
    | cons entry rest ih =>
      rcases run_bind_eq_error.1 h with hentry | ⟨_, u, hentry, hrest⟩
      · refine ⟨[], List.forall_mem_nil _, ?_⟩
        rw [sceneProperty_error hentry, List.map_nil, Buffer.append_nil]
      · obtain ⟨st, hst, wst⟩ := sceneProperty_setting hentry
        obtain ⟨ss, hss, hbuffer⟩ := ih hrest
        refine ⟨st :: ss, List.forall_mem_cons.2 ⟨hst, hss⟩, ?_⟩
        rw [hbuffer, wst.buffer, Buffer.append_append]
        rfl
  unfold propertySection at h
  cases entries with
  | nil => cases h
  | cons entry rest =>
    rcases run_bind_eq_error.1 h with hcomment | ⟨_, u, hcomment, rest₁⟩
    · cases hcomment
    rcases run_bind_eq_error.1 rest₁ with hproperties | ⟨_, w, -, hblank⟩
    · obtain ⟨ss, hss, hbuffer⟩ := properties hproperties
      refine ⟨.comment "Scene properties" :: ss, List.forall_mem_cons.2 ⟨rfl, hss⟩, ?_⟩
      rw [hbuffer, (statement_adds hcomment).buffer, Buffer.append_append]
      rfl
    · cases hblank

theorem lights_ne_error (parent : String) (nodes : Entries Light) (s t : Session) (e : Error) :
    (lights parent nodes).run s ≠ .error e t := by
  induction nodes generalizing s with
  | nil => nofun
  | cons entry rest ih =>
    intro h
    rcases run_bind_eq_error.1 h with hentry | ⟨_, u, -, hrest⟩
    · exact statements_ne_error _ _ _ _ hentry
    · exact ih u hrest

/-- The statements of a scene that fails: some about the scene itself, and those of the objects up
to the one that fails, if a property has not failed before. -/
def InterruptedBody (scene : Scene) (ss : List Statement) : Prop :=
  ∃ front objects, (∀ st ∈ front, st.isSetting = true) ∧
    (objects = [] ∨ Interrupted (Object.forestVisits rootParent scene.objects) objects) ∧
    ss = front ++ objects

theorem body_error {scene : Scene} {e : Error} (h : (body scene).run s = .error e t) :
    ∃ ss, InterruptedBody scene ss ∧ t.buffer = s.buffer.append (ss.map .statement) := by
  rcases run_bind_eq_error.1 h with hproperties | ⟨_, s₁, hproperties, rest⟩
  · obtain ⟨front, hfront, hbuffer⟩ := propertySection_error hproperties
    exact ⟨front, ⟨front, [], hfront, .inl rfl, by simp⟩, hbuffer⟩
  · obtain ⟨front, hfront, wfront⟩ := propertySection_setting hproperties
    rcases run_bind_eq_error.1 rest with hobjects | ⟨_, s₂, -, hlights⟩
    · obtain ⟨objects, hobjects, hbuffer⟩ := (objects_stops _ _ hobjects).interrupted
      refine ⟨_, ⟨front, objects, hfront, .inr hobjects, rfl⟩, ?_⟩
      rw [hbuffer, wfront.buffer, Buffer.append_append, ← List.map_append]
    · exact absurd hlights (lights_ne_error _ _ _ _ _)

/-- What is left in the buffer of a program that fails to assemble. -/
theorem assemble_error_body {scene : Scene} {base out : Path} {d : Disk} {e : Error}
    (h : (assemble scene).run (.new base out d) = .error e t) :
    ∃ ss, InterruptedBody scene ss ∧
      t.buffer.body = .fixed Template.beginning :: ss.map .statement := by
  have hbody : (body scene).run (opened (withStats scene.options.showStats (.new base out d))) =
      .error e t := by
    unfold assemble at h
    dsimp only at h
    rw [run_ite_useStats] at h
    obtain ⟨_, _, ⟨⟩, rest₁⟩ := (run_bind_eq_error.1 h).resolve_left nofun
    obtain ⟨_, _, ⟨⟩, rest₂⟩ := (run_bind_eq_error.1 rest₁).resolve_left nofun
    obtain ⟨_, _, ⟨⟩, rest₃⟩ := (run_bind_eq_error.1 rest₂).resolve_left nofun
    rcases run_bind_eq_error.1 rest₃ with hproperties | ⟨_, s₁, hproperties, rest₄⟩
    · exact run_bind_eq_error.2 (.inl hproperties)
    refine run_bind_eq_error.2 (.inr ⟨(), s₁, hproperties, ?_⟩)
    rcases run_bind_eq_error.1 rest₄ with hobjects | ⟨_, s₂, hobjects, rest₅⟩
    · exact run_bind_eq_error.2 (.inl hobjects)
    rcases run_bind_eq_error.1 rest₅ with hlights | ⟨_, s₃, -, hend⟩
    · exact absurd hlights (lights_ne_error _ _ _ _ _)
    · cases hend
  obtain ⟨ss, hss, hbuffer⟩ := body_error hbody
  refine ⟨ss, hss, ?_⟩
  rw [hbuffer]
  rfl

end Emit

end SceneScript
