import SceneScript.Proofs.Blocks

/-!
# Assembling in two passes

The program of a scene is written in one pass, with a place that is filled in at the end. A plainer
way takes two passes: `firstPass` drafts each property, object and light on a page of its own, and
`Draft.program` lays the pages out behind the late inserts that their statements need, each once.

`draft_of_run`: what an emission writes and what it does otherwise do not depend on the buffer.
`assemble_eq_ok`: the parts of a run of `assemble`. `assemble_two_passes`: both ways give the same
program.
-/

namespace SceneScript

/-! ## Texts without repeats -/

theorem foldl_insertOnce (texts more : List String) :
    more.foldl insertOnce texts =
      texts ++ (more.filter fun text => !texts.contains text).eraseDups := by
  induction more generalizing texts with
  | nil => simp
  | cons text more ih =>
    rw [List.foldl_cons, ih]
    unfold insertOnce
    by_cases h : text ∈ texts
    · simp [h]
    · have hfilter : (more.filter fun other => !(texts ++ [text]).contains other) =
          (more.filter fun other => !texts.contains other).filter fun other => !other == text := by
        rw [List.filter_filter]
        refine List.filter_congr fun other _ => ?_
        by_cases ho : other = text <;> simp [ho]
      rw [if_neg h, hfilter, List.filter_cons_of_pos (by simp [h]), List.eraseDups_cons,
        List.append_assoc, List.singleton_append]

theorem foldl_insertOnce_nil (texts : List String) :
    texts.foldl insertOnce [] = texts.eraseDups := by
  simp [foldl_insertOnce]

theorem nodup_eraseDups (texts : List String) : texts.eraseDups.Nodup := by
  have nodup (more : List String) : ∀ texts : List String, texts.Nodup →
      (more.foldl insertOnce texts).Nodup := by
    induction more with
    | nil => exact fun _ h => h
    | cons text more ih => exact fun _ h => ih _ (nodup_insertOnce text h)
  rw [← foldl_insertOnce_nil]
  exact nodup texts [] .nil

/-! ## Drafts -/

/-- A buffer that is marked from the start. -/
def Buffer.page (ps : List Piece) : Buffer :=
  ⟨[], ps, true⟩

theorem Buffer.append_push (b : Buffer) (ps : List Piece) (p : Piece) :
    (b.append ps).push p = b.append (ps ++ [p]) := by
  unfold append push
  cases hb : b.marked <;> simp

theorem Buffer.append_injective {b : Buffer} {ps qs : List Piece} (h : b.append ps = b.append qs) :
    ps = qs := by
  unfold append at h
  cases hb : b.marked <;> simpa [hb] using h

theorem Buffer.textOf_cons (p : Piece) (ps : List Piece) :
    textOf (p :: ps) = p.text ++ textOf ps := by
  simp [textOf]

theorem Buffer.textOf_singleton (p : Piece) : textOf [p] = p.text := by
  simp [textOf]

/-- Behind the mark everything goes to the end of the whole text. -/
theorem Buffer.finish_append {b : Buffer} (h : b.marked = true) (ps : List Piece) (late : String) :
    (b.append ps).finish late = b.finish late ++ textOf ps := by
  simp [append, finish, h, textOf_append, String.append_assoc]

namespace Emit

/-- The same session but for the buffer and the late inserts: what comes behind `b` in the one
stands on a page of its own in the other. -/
def OnPage (b : Buffer) (s p : Session) : Prop :=
  ∃ ps i, s.buffer = b.append ps ∧ p = { s with buffer := .page ps, inserts := i }

/-- A change that looks neither at the buffer nor at the late inserts. -/
theorem OnPage.modify {b : Buffer} {f : Session → Session}
    (hbuffer : ∀ s, (f s).buffer = s.buffer)
    (hf : ∀ s b i, ∃ j, f { s with buffer := b, inserts := i } =
      { f s with buffer := b, inserts := j }) :
    Respects (OnPage b) (modify f) := by
  refine .modify ?_
  rintro s p ⟨ps, i, hs, rfl⟩
  obtain ⟨j, hj⟩ := hf s (.page ps) i
  exact ⟨ps, j, by rw [hbuffer, hs], hj⟩

/-- No emission looks at the buffer or at the late inserts. -/
theorem simulation_onPage (b : Buffer) : Simulation (OnPage b) where
  piece p := by
    refine .modify ?_
    rintro s _ ⟨ps, i, hs, rfl⟩
    exact ⟨ps ++ [p], i, by rw [hs, Buffer.append_push], rfl⟩
  warn w := OnPage.modify (fun _ => rfl) fun _ _ i => ⟨i, rfl⟩
  useObjLoader := OnPage.modify (fun _ => rfl) fun _ _ _ => ⟨_, rfl⟩
  useMtlLoader := OnPage.modify (fun _ => rfl) fun _ _ _ => ⟨_, rfl⟩
  addFrameUpdate update := OnPage.modify (fun _ => rfl) fun _ _ _ => ⟨_, rfl⟩
  embed file := respects_embed file
  texture files := by
    rintro s _ ⟨ps, i, hs, rfl⟩
    rw [run_texture, run_texture]
    dsimp only
    split
    · exact .error _ ⟨ps, i, hs, rfl⟩
    · exact .ok _ ⟨ps, _, hs, rfl⟩
  shaderSource glslify text := by
    unfold shaderSource
    split
    · exact .pure _
    · refine .bind (respects_embed text) fun name => ?_
      dsimp only
      split
      · refine .bind (OnPage.modify (fun s => ?_) fun s b i => ⟨i, ?_⟩) fun _ => .pure _
        · dsimp only
          split <;> rfl
        · dsimp only
          split <;> rfl
      · exact .pure _
  isImageFile := by
    rintro s _ ⟨ps, i, -, rfl⟩ file
    rfl
where
  respects_embed (file : String) : Respects (OnPage b) (embed file) := by
    rintro s _ ⟨ps, i, hs, rfl⟩
    rw [run_embed, run_embed]
    dsimp only
    split
    · exact .error _ ⟨ps, i, hs, rfl⟩
    · exact .ok _ ⟨ps, _, hs, rfl⟩

/-- What an emission writes, on a page of its own. The late inserts that it asks for are dropped. -/
def draft (m : Emit Unit) : Emit (List Piece) := do
  let s ← get
  set { s with buffer := .page [] }
  m
  let t ← get
  set { t with buffer := s.buffer, inserts := s.inserts }
  return t.buffer.body

/-- What is drafted is what would be written, and everything else is the same. -/
theorem draft_of_run {m : Emit Unit} {s t : Session} {ss : List Statement}
    (hm : ∀ b, Respects (OnPage b) m) (h : m.run s = .ok () t) (hw : s.Writes ss t) (b : Buffer)
    (i : Inserts) :
    (draft m).run { s with buffer := b, inserts := i } =
      .ok (ss.map .statement) { t with buffer := b, inserts := i } := by
  have agree := hm s.buffer s { s with buffer := .page [], inserts := i } ⟨[], i, by simp, rfl⟩
  rw [h] at agree
  generalize hp : m.run { s with buffer := .page [], inserts := i } = result at agree
  cases agree with
  | ok _ hpage =>
    obtain ⟨ps, j, hps, rfl⟩ := hpage
    obtain rfl : ps = ss.map .statement := Buffer.append_injective (hps.symm.trans hw.buffer)
    simp only [draft, EStateM.run_bind, EStateM.run_get, EStateM.run_set, hp, EStateM.run_pure]
    rfl

/-- Emissions for the entries of a map, one after the other. -/
def each {α : Type} (write : String → α → Emit Unit) : Entries α → Emit Unit
  | [] => pure ()
  | (name, a) :: rest => do
    write name a
    each write rest

/-- The drafts for the entries of a map, one after the other. -/
def draftEach {α : Type} (write : String → α → Emit Unit) : Entries α → Emit (List Piece)
  | [] => return []
  | (name, a) :: rest => do
    let here ← draft (write name a)
    let more ← draftEach write rest
    return here ++ more

theorem sceneProperties_eq_each (entries : Entries Value) :
    sceneProperties entries = each sceneProperty entries := by
  induction entries with
  | nil => rfl
  | cons entry rest ih => simp only [sceneProperties, each, ih]

theorem objects_eq_each (parent : String) (nodes : Entries Object) :
    objects parent nodes = each (fun name node => object name parent node) nodes := by
  induction nodes with
  | nil => rfl
  | cons entry rest ih => simp only [objects, each, ih]

theorem lights_eq_each (parent : String) (nodes : Entries Light) :
    lights parent nodes = each (fun name node => light name parent node) nodes := by
  induction nodes with
  | nil => rfl
  | cons entry rest ih => simp only [lights, each, ih]

theorem draftEach_of_run {α : Type} {write : String → α → Emit Unit}
    (hrespects : ∀ b name a, Respects (OnPage b) (write name a))
    (hwrites : ∀ name a s t, (write name a).run s = .ok () t → ∃ ss, s.Writes ss t)
    {entries : Entries α} {s t : Session} (h : (each write entries).run s = .ok () t) :
    ∃ ss, s.Writes ss t ∧
      ∀ b i, (draftEach write entries).run { s with buffer := b, inserts := i } =
        .ok (ss.map .statement) { t with buffer := b, inserts := i } := by
  induction entries generalizing s with
  | nil =>
    cases h
    exact ⟨[], .refl _, fun _ _ => rfl⟩
  | cons entry rest ih =>
    obtain ⟨name, a⟩ := entry
    obtain ⟨_, u, hentry, hrest⟩ := run_bind_eq_ok.1 h
    obtain ⟨ss, wentry⟩ := hwrites name a s u hentry
    obtain ⟨more, wrest, hmore⟩ := ih hrest
    refine ⟨ss ++ more, wentry.trans wrest, fun b i => ?_⟩
    have here := draft_of_run (fun b => hrespects b name a) hentry wentry b i
    simp only [draftEach, EStateM.run_bind, here, hmore b i, EStateM.run_pure, List.map_append]

theorem objects_of_run {parent : String} {nodes : Entries Object} {s t : Session}
    (h : (objects parent nodes).run s = .ok () t) :
    ∃ ss, s.Writes ss t ∧ ∀ b i,
      (draftEach (fun name node => object name parent node) nodes).run
          { s with buffer := b, inserts := i } =
        .ok (ss.map .statement) { t with buffer := b, inserts := i } := by
  rw [objects_eq_each] at h
  exact draftEach_of_run (fun b name => (simulation_onPage b).object name parent)
    (fun _ _ _ _ h => (object_writes _ _ _ h).elim fun _ w => ⟨_, w.2⟩) h

theorem lights_of_run {parent : String} {nodes : Entries Light} {s t : Session}
    (h : (lights parent nodes).run s = .ok () t) :
    ∃ ss, s.Writes ss t ∧ ∀ b i,
      (draftEach (fun name node => light name parent node) nodes).run
          { s with buffer := b, inserts := i } =
        .ok (ss.map .statement) { t with buffer := b, inserts := i } := by
  rw [lights_eq_each] at h
  exact draftEach_of_run (fun b name => (simulation_onPage b).light name parent)
    (fun _ _ _ _ h => ⟨_, light_writes h⟩) h

/-! ## The two passes -/

/-- The pages of a scene. -/
structure Draft where
  properties : List Piece
  objects : List Piece
  lights : List Piece

/-- Drafts the properties, objects and lights of a scene in the order of the document. -/
def firstPass (scene : Scene) : Emit Draft := do
  let properties ← draftEach sceneProperty scene.properties
  let objects ← draftEach (fun name node => object name rootParent node) scene.objects
  let lights ← draftEach (fun name node => light name rootParent node) scene.lights
  return ⟨properties, objects, lights⟩

namespace Draft

/-- Everything that a program needs elsewhere, the statistics first. -/
def needs (showStats : Bool) (o : Draft) : List Need :=
  (if showStats then [.stats] else []) ++
    (o.properties ++ o.objects ++ o.lights).flatMap Piece.needs

/-- The late inserts: what meets the needs, without repeats and in the order of the needs. -/
def inserts (showStats : Bool) (o : Draft) : Inserts where
  imports := ((o.needs showStats).flatMap Need.imports).eraseDups
  boilerplate := ((o.needs showStats).flatMap Need.boilerplate).eraseDups
  frameUpdates := ((o.needs showStats).flatMap Need.frameUpdates).eraseDups

/-- Lays out the program. -/
def program (scene : Scene) (o : Draft) : String :=
  let showStats := scene.options.showStats
  Template.imports ++ String.join (o.inserts showStats).imports ++
    String.join (o.inserts showStats).boilerplate ++ Template.beginning ++
    (if scene.properties.isEmpty then ""
      else "// Scene properties\n" ++ Buffer.textOf o.properties ++ "\n") ++
    Buffer.textOf o.objects ++ Buffer.textOf o.lights ++
    Template.ending showStats (o.inserts showStats).frameUpdates

end Draft

/-! ## The one pass -/

/-- The header is complete but for the late inserts, and the body is begun. -/
def opened (s : Session) : Session :=
  { s with
    buffer := ((s.buffer.push (.fixed Template.imports)).mark).push (.fixed Template.beginning) }

/-- The statistics are asked for if they are shown. -/
def withStats (showStats : Bool) (s : Session) : Session :=
  { s with inserts := s.inserts.askAll (if showStats then [.stats] else []) }

theorem run_ite_useStats {α : Type} (showStats : Bool) (rest : Unit → Emit α) (s : Session) :
    (if showStats = true then useStats >>= rest else rest ()).run s =
      (rest ()).run (withStats showStats s) := by
  cases showStats <;> rfl

/-- An assembly writes the properties, the objects and the lights behind the header and closes the
buffer. -/
theorem assemble_eq_ok {scene : Scene} {s t : Session} {text : String}
    (h : (assemble scene).run s = .ok text t) :
    ∃ s₁ s₂ s₃,
      (propertySection scene.properties).run (opened (withStats scene.options.showStats s)) =
        .ok () s₁ ∧
      (objects rootParent scene.objects).run s₁ = .ok () s₂ ∧
      (lights rootParent scene.lights).run s₂ = .ok () s₃ ∧
      t = { s₃ with buffer := .empty } ∧
      text = (s₃.buffer.push (.fixed (Template.ending scene.options.showStats
        s₃.inserts.frameUpdates))).finish s₃.inserts.headerText := by
  unfold assemble at h
  dsimp only at h
  rw [run_ite_useStats] at h
  obtain ⟨_, _, ⟨⟩, rest₁⟩ := run_bind_eq_ok.1 h
  obtain ⟨_, _, ⟨⟩, rest₂⟩ := run_bind_eq_ok.1 rest₁
  obtain ⟨_, _, ⟨⟩, rest₃⟩ := run_bind_eq_ok.1 rest₂
  obtain ⟨_, s₁, hproperties, rest₄⟩ := run_bind_eq_ok.1 rest₃
  obtain ⟨_, s₂, hobjects, rest₅⟩ := run_bind_eq_ok.1 rest₄
  obtain ⟨_, s₃, hlights, hend⟩ := run_bind_eq_ok.1 rest₅
  cases hend
  exact ⟨s₁, s₂, s₃, hproperties, hobjects, hlights, rfl, rfl⟩

/-- The statements of the section for the properties. -/
def sectionStatements (entries : Entries Value) (ss : List Statement) : List Statement :=
  if entries.isEmpty then [] else .comment "Scene properties" :: (ss ++ [.blank])

theorem propertySection_of_run {entries : Entries Value} {s t : Session}
    (h : (propertySection entries).run s = .ok () t) :
    ∃ ss : List Statement,
      s.Writes (sectionStatements entries ss) t ∧
      (entries.isEmpty = true → ss = []) ∧
      ∀ b i, (draftEach sceneProperty entries).run { s with buffer := b, inserts := i } =
        .ok (ss.map .statement) { t with buffer := b, inserts := i } := by
  unfold propertySection at h
  cases entries with
  | nil =>
    cases h
    exact ⟨[], .refl _, fun _ => rfl, fun _ _ => rfl⟩
  | cons entry rest =>
    obtain ⟨_, u, hcomment, rest₁⟩ := run_bind_eq_ok.1 h
    obtain ⟨_, v, hproperties, hblank⟩ := run_bind_eq_ok.1 rest₁
    have wcomment := (statement_adds hcomment).writes rfl
    have wblank := (statement_adds hblank).writes rfl
    cases hcomment
    cases hblank
    rw [sceneProperties_eq_each] at hproperties
    obtain ⟨ss, wproperties, hdraft⟩ := draftEach_of_run
      (fun b => (simulation_onPage b).sceneProperty)
      (fun _ _ _ _ h => (sceneProperty_writes h).elim fun _ w => ⟨_, w⟩) hproperties
    exact ⟨ss, (wcomment.trans (wproperties.trans wblank)), nofun, hdraft⟩

theorem needs_sectionStatements {entries : Entries Value} {ss : List Statement}
    (h : entries.isEmpty = true → ss = []) :
    (sectionStatements entries ss).flatMap Statement.needs = ss.flatMap Statement.needs := by
  unfold sectionStatements
  split
  · rename_i hempty
    rw [h hempty]
  · simp [Statement.needs]

theorem textOf_sectionStatements (entries : Entries Value) (ss : List Statement) :
    Buffer.textOf ((sectionStatements entries ss).map .statement) =
      if entries.isEmpty then ""
      else "// Scene properties\n" ++ Buffer.textOf (ss.map .statement) ++ "\n" := by
  unfold sectionStatements
  split
  · rfl
  · have comment : (Piece.statement (.comment "Scene properties")).text =
        "// Scene properties\n" := rfl
    have blank : (Piece.statement .blank).text = "\n" := rfl
    rw [List.map_cons, List.map_append, List.map_singleton, Buffer.textOf_cons,
      Buffer.textOf_append, Buffer.textOf_singleton, comment, blank, String.append_assoc]

theorem needs_statements (ss : List Statement) :
    (ss.map Piece.statement).flatMap Piece.needs = ss.flatMap Statement.needs := by
  simp only [List.flatMap_map]
  rfl

/-- A fresh session asks for each late insert once. -/
theorem askAll_empty (ns : List Need) :
    Inserts.empty.askAll ns =
      ⟨(ns.flatMap Need.imports).eraseDups, (ns.flatMap Need.boilerplate).eraseDups,
        (ns.flatMap Need.frameUpdates).eraseDups⟩ := by
  rw [Inserts.askAll_eq]
  simp only [Inserts.empty, foldl_insertOnce_nil]

theorem finish_opened (showStats : Bool) (base out : Path) (d : Disk) (late : String) :
    (opened (withStats showStats (.new base out d))).buffer.finish late =
      Template.imports ++ late ++ Template.beginning := by
  simp only [opened, withStats, Session.new]
  rw [Buffer.finish_push_of_marked rfl]
  simp [Buffer.empty, Buffer.push, Buffer.mark, Buffer.finish, Buffer.textOf, Piece.text]

/-- Assembling in one pass and in two gives the same program. The late inserts are what the
statements need, each once and in the order in which it is needed first, behind the statistics if
these are shown, and the buffer is empty again. -/
theorem assemble_two_passes {scene : Scene} {base out : Path} {d : Disk} {text : String}
    {t : Session} (h : (assemble scene).run (.new base out d) = .ok text t) :
    ∃ o : Draft,
      (firstPass scene).run (.new base out d) = .ok o { t with inserts := .empty } ∧
      text = o.program scene ∧
      t.inserts = o.inserts scene.options.showStats ∧
      t.inserts.imports.Nodup ∧ t.inserts.boilerplate.Nodup ∧ t.inserts.frameUpdates.Nodup ∧
      (scene.options.showStats = true →
        t.inserts.imports.head? = some Template.statsImport ∧
        t.inserts.boilerplate.head? = some Template.stats) ∧
      t.buffer = .empty := by
  obtain ⟨s₁, s₂, s₃, hproperties, hobjects, hlights, rfl, rfl⟩ := assemble_eq_ok h
  obtain ⟨ps, wproperties, hempty, dproperties⟩ := propertySection_of_run hproperties
  obtain ⟨os, wobjects, dobjects⟩ := objects_of_run hobjects
  obtain ⟨ls, wlights, dlights⟩ := lights_of_run hlights
  have written := (wproperties.trans wobjects).trans wlights
  let o : Draft := ⟨ps.map .statement, os.map .statement, ls.map .statement⟩
  have hfirst : (firstPass scene).run (.new base out d) =
      .ok o { s₃ with buffer := .empty, inserts := .empty } := by
    have first : (draftEach sceneProperty scene.properties).run (.new base out d) = _ :=
      dproperties .empty .empty
    simp only [firstPass, EStateM.run_bind, first, dobjects .empty .empty, dlights .empty .empty,
      EStateM.run_pure]
    rfl
  have hinserts : s₃.inserts = o.inserts scene.options.showStats := by
    have asked : (opened (withStats scene.options.showStats (.new base out d))).inserts =
      Inserts.empty.askAll (if scene.options.showStats then [.stats] else []) := rfl
    rw [written.inserts, asked, ← Inserts.askAll_append, askAll_empty]
    simp only [List.flatMap_append, needs_sectionStatements hempty, Draft.inserts, Draft.needs, o,
      needs_statements]
  refine ⟨o, hfirst, ?_, hinserts, ?_, ?_, ?_, ?_, rfl⟩
  · rw [written.buffer, Buffer.append_push, Buffer.finish_append rfl, finish_opened, hinserts]
    simp only [Draft.program, Inserts.headerText, List.map_append, Buffer.textOf_append,
      Buffer.textOf_singleton, textOf_sectionStatements, String.join_append, String.append_assoc, o,
      Piece.text]
  · rw [hinserts]
    exact nodup_eraseDups _
  · rw [hinserts]
    exact nodup_eraseDups _
  · rw [hinserts]
    exact nodup_eraseDups _
  · intro hstats
    rw [hinserts, hstats]
    simp [Draft.inserts, Draft.needs, Need.imports, Need.boilerplate, List.eraseDups_cons]

/-- A scene with a background, two objects with materials of their own and a light. -/
def litPair : Scene where
  objects :=
    [("left", ⟨some (.call "BoxGeometry" (.positional [])),
        some (.call shaderFunction (.keyword [("uniforms", .mapping [("time", .null)])]) false),
        [("position", [])],
        [("inner", ⟨some (.call "SphereGeometry" (.positional [])), none, [], []⟩)]⟩),
      ("right", ⟨some (.call "BoxGeometry" (.positional [])), none, [], []⟩)]
  lights := [("lamp", ⟨"PointLight", .positional [], none⟩)]
  properties := [("background", .string "red"), ("fog", .null)]
  options := ⟨true, []⟩

theorem assemble_two_passes_litPair :
    ∃ text t, (assemble litPair).run (.new ⟨"/"⟩ ⟨"/out"⟩ .empty) = .ok text t ∧
      ∃ o : Draft, (firstPass litPair).run (.new ⟨"/"⟩ ⟨"/out"⟩ .empty) =
          .ok o { t with inserts := .empty } ∧
        text = o.program litPair ∧ t.inserts = o.inserts true := by
  have run : ∃ text t, (assemble litPair).run (.new ⟨"/"⟩ ⟨"/out"⟩ .empty) = .ok text t :=
    ⟨_, _, rfl⟩
  obtain ⟨text, t, ht⟩ := run
  obtain ⟨o, hfirst, htext, hinserts, -⟩ := assemble_two_passes ht
  exact ⟨text, t, ht, o, hfirst, htext, hinserts⟩

end Emit

end SceneScript
