import SceneScript.Proofs.Disk
import SceneScript.Proofs.SceneGrammar
import SceneScript.Scene.Reading

/-!
# Reading a document

`Scene.reads_grammar` says all about reading a scene: it succeeds on the documents of the grammar
and on no other value, the scene has the names of its document in their order, and an error names
the first part of the document that does not fit.

A reader `Judges` a part by itself, and it `Tells` of several parts whether all of them fit. Both
are kept when one reading follows another (`Judges.bind`, `Tells.bind`), so that each reader is
treated once and for itself. Where the readers walk over entries they are brought into the form of
lookups first (`Object.childrenOf_eq`, `Object.groupOf_eq`, `Entries.readEach`).
-/

namespace SceneScript

/-! ## What a reading says about a value -/

/-- The place that an error about a part of a document names. -/
def Error.context? : Error → Option String
  | .missingField context _ => some context
  | .invalidArguments context _ => some context
  | _ => none

/-- A reading succeeds if a condition holds, and otherwise its error names a place. -/
structure Judges {α : Type} (result : Except Error α) (Ok : Prop) (context : String) : Prop where
  holds {a : α} : result = .ok a → Ok
  fails {e : Error} : result = .error e → ¬ Ok ∧ e.context? = some context

namespace Judges

variable {α β : Type} {x : Except Error α} {f : α → Except Error β} {P Q : Prop} {context : String}

theorem congr (h : Judges x P context) (hPQ : P ↔ Q) : Judges x Q context := by
  rwa [← propext hPQ]

theorem ok (a : α) (h : P) : Judges (.ok a) P context where
  holds _ := h
  fails h := by cases h

theorem error {e : Error} (h : ¬ P) (he : e.context? = some context) :
    Judges (.error e : Except Error α) P context where
  holds h := by cases h
  fails := by
    rintro e' ⟨⟩
    exact ⟨h, he⟩

theorem bind (hx : Judges x P context) (hf : ∀ a, x = .ok a → Judges (f a) Q context) :
    Judges (x >>= f) (P ∧ Q) context := by
  cases x with
  | error e =>
    obtain ⟨hP, he⟩ := hx.fails rfl
    exact error (fun h => hP h.1) he
  | ok a =>
    have hP := hx.holds rfl
    exact (hf a rfl).congr (by simp [hP])

theorem map (hx : Judges x P context) (g : α → β) : Judges (do return g (← x)) P context :=
  (hx.bind fun a _ => ok (g a) trivial).congr (iff_of_eq (and_true P))

theorem mapM {f : Value → Except Error α} {Ok : Value → Prop}
    (h : ∀ v, Judges (f v) (Ok v) context) (items : List Value) :
    Judges (items.mapM f) (∀ item ∈ items, Ok item) context := by
  induction items with
  | nil => exact ok _ (List.forall_mem_nil _)
  | cons item items ih =>
    rw [List.mapM_cons]
    exact ((h item).bind fun a _ => ih.map _).congr List.forall_mem_cons.symm

end Judges

theorem judges_asMapping (context : String) (v : Value) :
    Judges (v.asMapping context) v.IsMapping context := by
  cases v with
  | mapping entries => exact .ok _ ⟨entries, rfl⟩
  | _ => exact .error (by rintro ⟨entries, ⟨⟩⟩) rfl

theorem judges_asName (context key : String) (v : Value) :
    Judges (v.asName context key) (∃ s, v = .string s) context := by
  cases v with
  | string s => exact .ok _ ⟨s, rfl⟩
  | _ => exact .error (by rintro ⟨s, ⟨⟩⟩) rfl

theorem judges_args (context : String) (entries : Entries Value) :
    Judges (Args.ofEntries context entries) (entries.Has "ARGS") context := by
  unfold Args.ofEntries
  cases h : entries.field? "ARGS" with
  | none => exact .error (Entries.field?_eq_none_iff.1 h) rfl
  | some v => exact .ok _ (Entries.has_of_field? h)

/-- What a geometry and a material have to be is found out in the same way: if there is a function
it must be a text with arguments, and otherwise there must be a file. -/
theorem judges_component {α : Type} {x : Except Error α} {entries : Entries Value}
    {context : String}
    (call : ∀ v, entries.field? "FUNCTION" = some v →
      Judges x ((∃ s, v = .string s) ∧ entries.Has "ARGS") context)
    (file : entries.field? "FUNCTION" = none → ∀ v, entries.field? "FILE" = some v →
      Judges x (∃ s, v = .string s) context)
    (neither : entries.field? "FUNCTION" = none → entries.field? "FILE" = none →
      Judges x False context) : Judges x (Value.IsComponent (.mapping entries)) context := by
  cases hfunction : entries.field? "FUNCTION" with
  | some v =>
    refine (call v hfunction).congr ?_
    rw [← Entries.hasText_iff hfunction]
    constructor
    · rintro ⟨htext, hargs⟩
      exact .call htext hargs
    · intro h
      cases h with
      | call htext hargs => exact ⟨htext, hargs⟩
      | file habsent _ => exact absurd (Entries.has_of_field? hfunction) habsent
  | none =>
    have hiff : Value.IsComponent (.mapping entries) ↔ entries.HasText "FILE" := by
      constructor
      · intro h
        cases h with
        | call htext _ => exact absurd htext.has (Entries.field?_eq_none_iff.1 hfunction)
        | file _ htext => exact htext
      · exact .file (Entries.field?_eq_none_iff.1 hfunction)
    cases hfile : entries.field? "FILE" with
    | some v =>
      exact (file hfunction v hfile).congr ((Entries.hasText_iff hfile).symm.trans hiff.symm)
    | none =>
      refine (neither hfunction hfile).congr ?_
      rw [hiff, false_iff]
      exact fun htext => Entries.field?_eq_none_iff.1 hfile htext.has

theorem except_ok_bind {ε α β : Type} (a : α) (f : α → Except ε β) :
    ((Except.ok a : Except ε α) >>= f) = f a :=
  rfl

theorem judges_geometry (context : String) (v : Value) :
    Judges (Geometry.ofValue context v) v.IsComponent context := by
  cases v with
  | mapping entries =>
    simp only [Geometry.ofValue, Value.asMapping, except_ok_bind]
    refine judges_component (fun function h => ?_) (fun hnone name h => ?_) fun hnone h => ?_
    · simp only [h]
      exact (judges_asName ..).bind fun _ _ => (judges_args ..).map _
    · simp only [hnone, h]
      exact (judges_asName ..).map _
    · simp only [hnone, h]
      exact .error id rfl
  | _ => exact .error (by rintro ⟨⟩) rfl

theorem judges_material (context : String) (v : Value) :
    Judges (Material.ofValue context v) v.IsComponent context := by
  cases v with
  | mapping entries =>
    simp only [Material.ofValue, Value.asMapping, except_ok_bind]
    refine judges_component (fun function h => ?_) (fun hnone name h => ?_) fun hnone h => ?_
    · simp only [h]
      exact (judges_asName ..).bind fun _ _ => (judges_args ..).map _
    · simp only [hnone, h]
      exact (judges_asName ..).map _
    · simp only [hnone, h]
      exact .error id rfl
  | _ => exact .error (by rintro ⟨⟩) rfl

theorem judges_positionOf (context : String) (entries : Entries Value) :
    Judges (Light.positionOf context entries) (entries.Optional "POSITION" Value.IsTriple)
      context := by
  unfold Light.positionOf
  cases h : entries.field? "POSITION" with
  | none => exact .ok _ (Entries.optional_of_none h)
  | some v =>
    rw [Entries.optional_of_some h]
    split
    · rename_i hnone
      cases hnone
    · rename_i x y z hv
      cases hv
      exact .ok _ ⟨_, rfl, rfl⟩
    · rename_i v' hother hv
      cases hv
      refine .error ?_ rfl
      rintro ⟨items, rfl, hlength⟩
      obtain ⟨x, y, z, rfl⟩ := List.length_eq_three.1 hlength
      exact hother x y z rfl

theorem isLight_mapping_iff {entries : Entries Value} :
    Value.IsLight (.mapping entries) ↔
      entries.Optional "POSITION" Value.IsTriple ∧ entries.HasText "FUNCTION" ∧
        entries.Has "ARGS" := by
  constructor
  · rintro ⟨htext, hargs, hposition⟩
    exact ⟨hposition, htext, hargs⟩
  · rintro ⟨hposition, htext, hargs⟩
    exact ⟨htext, hargs, hposition⟩

theorem judges_light (context : String) (v : Value) :
    Judges (Light.ofValue context v) v.IsLight context := by
  cases v with
  | mapping entries =>
    simp only [Light.ofValue, Value.asMapping, except_ok_bind]
    cases hfunction : Entries.field? entries "FUNCTION" with
    | none =>
      refine .error (fun h => ?_) rfl
      exact Entries.field?_eq_none_iff.1 hfunction (isLight_mapping_iff.1 h).2.1.has
    | some function =>
      rw [isLight_mapping_iff, Entries.hasText_iff hfunction]
      exact (judges_positionOf ..).bind fun _ _ =>
        (judges_asName ..).bind fun _ _ => (judges_args ..).map _
  | _ => exact .error (by rintro ⟨⟩) rfl

theorem judges_modulesOf (v : Value) :
    Judges (SceneOptions.modulesOf v) v.IsModules (dotted ["SIHM", "extra_modules"]) := by
  cases v with
  | null => exact .ok _ (.inl rfl)
  | string s => exact .ok _ (.inr (.inl ⟨s, rfl⟩))
  | list items =>
    refine (Judges.mapM (judges_asName _ _) items).congr ⟨fun h => .inr (.inr ⟨items, rfl, h⟩), ?_⟩
    rintro (⟨⟨⟩⟩ | ⟨s, ⟨⟩⟩ | ⟨_, ⟨⟩, h⟩)
    exact h
  | _ => exact .error (by rintro (⟨⟨⟩⟩ | ⟨s, ⟨⟩⟩ | ⟨_, ⟨⟩, -⟩)) rfl

/-! ## What a reading says about several parts -/

/-- An error names the first part that does not fit. -/
def Error.Blames (e : Error) (parts : List Part) : Prop :=
  ∃ before p after, parts = before ++ p :: after ∧ (∀ q ∈ before, q.Fits) ∧ ¬ p.Fits ∧
    e.context? = some (dotted p.place)

/-- A reading succeeds if all parts fit, and otherwise its error names the first that does not. -/
structure Tells {α : Type} (result : Except Error α) (parts : List Part) : Prop where
  fits {a : α} : result = .ok a → ∀ p ∈ parts, p.Fits
  blames {e : Error} : result = .error e → e.Blames parts

namespace Tells

variable {α β : Type} {x : Except Error α} {f : α → Except Error β} {ps qs : List Part} {p : Part}

theorem ok (a : α) : Tells (.ok a) [] where
  fits _ := List.forall_mem_nil _
  blames h := by cases h

theorem bind (hx : Tells x ps) (hf : ∀ a, x = .ok a → Tells (f a) qs) :
    Tells (x >>= f) (ps ++ qs) := by
  cases x with
  | error e =>
    refine ⟨fun h => (by cases h), ?_⟩
    rintro e' ⟨⟩
    obtain ⟨before, p, after, rfl, hfit, hmisfit, he⟩ := hx.blames rfl
    exact ⟨before, p, after ++ qs, by simp, hfit, hmisfit, he⟩
  | ok a =>
    have hps := hx.fits rfl
    refine ⟨fun h => List.forall_mem_append.2 ⟨hps, (hf a rfl).fits h⟩, fun h => ?_⟩
    obtain ⟨before, p, after, rfl, hfit, hmisfit, he⟩ := (hf a rfl).blames h
    exact ⟨ps ++ before, p, after, by simp, List.forall_mem_append.2 ⟨hps, hfit⟩, hmisfit, he⟩

theorem map (hx : Tells x ps) (g : α → β) : Tells (do return g (← x)) ps := by
  have h := hx.bind fun a _ => ok (g a)
  rwa [List.append_nil] at h

/-- A part that nothing stands in is judged by itself. -/
theorem of_judges (hchildren : p.children = []) (h : Judges x p.Fits (dotted p.place)) :
    Tells x p.all := by
  rw [p.all_eq, hchildren, List.flatMap_nil]
  refine ⟨fun hx => List.forall_mem_singleton.2 (h.holds hx), fun hx => ?_⟩
  obtain ⟨hmisfit, he⟩ := h.fails hx
  exact ⟨[], p, [], rfl, List.forall_mem_nil _, hmisfit, he⟩

theorem cons (hp : p.Fits) (h : Tells x ps) : Tells x (p :: ps) := by
  have hpure : Tells (.ok () : Except Error Unit) [p] :=
    ⟨fun _ => List.forall_mem_singleton.2 hp, fun h => by cases h⟩
  exact hpure.bind fun _ _ => h

/-- Where a mapping is asked for, first the value is judged and then what stands in it. -/
theorem mapping {place : List String} {role : Role} {v : Value} {f : Entries Value → Except Error β}
    (hrole : role.Fits v ↔ v.IsMapping)
    (h : ∀ entries, v = .mapping entries →
      Tells (f entries) ((role.within place entries).flatMap Part.all)) :
    Tells (v.asMapping (dotted place) >>= f) (Part.all ⟨place, role, v⟩) := by
  cases v with
  | mapping entries =>
    rw [Part.all_eq]
    exact (h entries rfl).cons (hrole.2 ⟨entries, rfl⟩)
  | _ => exact of_judges rfl (.error (fun hfits => by rcases hrole.1 hfits with ⟨_, ⟨⟩⟩) rfl)

/-- First the part under one key, if it is there, and then those under the other keys. -/
theorem field {place : List String} {entries : Entries Value} {key : String} {role : Role}
    {fields : List (String × Role)} (absent : entries.field? key = none → ∃ a, x = .ok a)
    (present : ∀ v, entries.field? key = some v → Tells x (Part.all ⟨place ++ [key], role, v⟩))
    (rest : ∀ a, x = .ok a →
      Tells (f a) ((Role.fieldParts place entries fields).flatMap Part.all)) :
    Tells (x >>= f) ((Role.fieldParts place entries ((key, role) :: fields)).flatMap Part.all) := by
  cases hfield : entries.field? key with
  | none =>
    obtain ⟨a, rfl⟩ := absent hfield
    have hparts : Role.fieldParts place entries ((key, role) :: fields) =
        Role.fieldParts place entries fields := by
      simp [Role.fieldParts, hfield]
    rw [hparts]
    exact rest a rfl
  | some v =>
    have hparts : Role.fieldParts place entries ((key, role) :: fields) =
        ⟨place ++ [key], role, v⟩ :: Role.fieldParts place entries fields := by
      simp [Role.fieldParts, hfield]
    rw [hparts, List.flatMap_cons]
    exact (present v hfield).bind rest

end Tells

/-! ## Objects and lights -/

/-- Entries read one after the other, each with its name in its context. -/
def Entries.readEach {α : Type} (read : String → Value → Except Error α) (context : String)
    (entries : Entries Value) : Except Error (Entries α) :=
  entries.mapM fun entry => do return (entry.1, ← read (context ++ "." ++ entry.1) entry.2)

theorem Entries.readEach_cons {α : Type} (read : String → Value → Except Error α) (context : String)
    (entry : String × Value) (entries : Entries Value) :
    readEach read context (entry :: entries) = (do
      let part ← read (context ++ "." ++ entry.1) entry.2
      let more ← readEach read context entries
      return (entry.1, part) :: more) := by
  simp only [readEach, List.mapM_cons, bind_assoc, pure_bind]

theorem Object.ofEntries_eq (context : String) (entries : Entries Value) :
    Object.ofEntries context entries = entries.readEach Object.ofValue context := by
  induction entries with
  | nil => rfl
  | cons entry entries ih => rw [Object.ofEntries, ih, Entries.readEach_cons]

theorem Light.ofEntries_eq (context : String) (entries : Entries Value) :
    Light.ofEntries context entries = entries.readEach Light.ofValue context := by
  induction entries with
  | nil => rfl
  | cons entry entries ih => rw [Light.ofEntries, ih, Entries.readEach_cons]

theorem Object.groupOf_eq {v : Value} (h : v ≠ .null) (context : String) :
    Object.groupOf context v =
      v.asMapping context >>= (Entries.readEach Object.ofValue context ·) := by
  cases v with
  | null => exact absurd rfl h
  | mapping entries => rw [Object.groupOf, Object.ofEntries_eq]; rfl
  | _ => rfl

/-- The children of an object are looked up like its other fields. -/
theorem Object.childrenOf_eq (context : String) (entries : Entries Value) :
    Object.childrenOf context entries =
      (entries.field? "CHILDREN").elim (.ok []) (Object.groupOf (context ++ ".CHILDREN")) := by
  induction entries with
  | nil => rfl
  | cons entry entries ih =>
    obtain ⟨key, v⟩ := entry
    rw [Object.childrenOf]
    by_cases hkey : key = "CHILDREN"
    · rw [if_pos hkey, Entries.field?, Entries.get?, if_pos hkey]
      cases v <;> rfl
    · rw [if_neg hkey, ih, Entries.field?, Entries.field?, Entries.get?, if_neg hkey]

theorem Object.partOf_eq {α : Type} (read : String → Value → Except Error α) (context key : String)
    (entries : Entries Value) :
    Object.partOf read context key entries =
      (entries.field? key).elim (.ok none) fun v => do
        return some (← read (context ++ "." ++ key) v) := by
  unfold Object.partOf
  cases entries.field? key <;> rfl

theorem Object.animationsOf_eq (context : String) (entries : Entries Value) :
    Object.animationsOf context entries =
      (entries.field? "ANIMATIONS").elim (.ok []) fun v => do
        return (← v.asMapping (context ++ ".ANIMATIONS")).map fun entry =>
          (entry.1, Object.trackArgs entry.2) := by
  unfold Object.animationsOf
  cases entries.field? "ANIMATIONS" <;> rfl

theorem Object.ofValue_eq (context : String) (v : Value) :
    Object.ofValue context v = (do
      let entries ← v.asMapping context
      let geometry ← Object.partOf Geometry.ofValue context "GEOMETRY" entries
      let material ← Object.partOf Material.ofValue context "MATERIAL" entries
      let animations ← Object.animationsOf context entries
      let children ← Object.childrenOf context entries
      return ⟨geometry, material, animations, children⟩) := by
  cases v with
  | mapping entries => rw [Object.ofValue]; rfl
  | _ => rfl

theorem tells_readEach {α : Type} {read : String → Value → Except Error α} {place : List String}
    (hplace : place ≠ []) {role : Role} {entries : Entries Value}
    (h : ∀ entry ∈ entries, Tells (read (dotted (place ++ [entry.1])) entry.2)
      (Part.all ⟨place ++ [entry.1], role, entry.2⟩)) :
    Tells (entries.readEach read (dotted place))
      ((Role.entryParts place role entries).flatMap Part.all) := by
  induction entries with
  | nil => exact .ok _
  | cons entry entries ih =>
    obtain ⟨hentry, hentries⟩ := List.forall_mem_cons.1 h
    rw [Entries.readEach_cons, ← dotted_snoc hplace]
    exact hentry.bind fun _ _ => (ih hentries).map _

theorem tells_partOf {α β : Type} {read : String → Value → Except Error α} {place : List String}
    (hplace : place ≠ []) {entries : Entries Value} {key : String} {role : Role}
    {fields : List (String × Role)} {f : Option α → Except Error β}
    (hread : ∀ v, Tells (read (dotted (place ++ [key])) v) (Part.all ⟨place ++ [key], role, v⟩))
    (rest : ∀ a, Tells (f a) ((Role.fieldParts place entries fields).flatMap Part.all)) :
    Tells (Object.partOf read (dotted place) key entries >>= f)
      ((Role.fieldParts place entries ((key, role) :: fields)).flatMap Part.all) := by
  refine .field (fun h => ?_) (fun v h => ?_) fun a _ => rest a
  · exact ⟨none, by rw [Object.partOf, h]⟩
  · rw [Object.partOf, h, ← dotted_snoc hplace]
    exact (hread v).map _

theorem tells_group {place : List String} (hplace : place ≠ []) {v : Value} (hv : v ≠ .null)
    (h : ∀ entries, v = .mapping entries → ∀ entry ∈ entries,
      Tells (Object.ofValue (dotted (place ++ [entry.1])) entry.2)
        (Part.all ⟨place ++ [entry.1], .object, entry.2⟩)) :
    Tells (Object.groupOf (dotted place) v) (Part.all ⟨place, .objects, v⟩) := by
  rw [Object.groupOf_eq hv]
  exact .mapping Iff.rfl fun entries hentries => tells_readEach hplace (h entries hentries)

theorem tells_animations {place : List String} (hplace : place ≠ []) {entries : Entries Value}
    {v : Value} (h : entries.field? "ANIMATIONS" = some v) :
    Tells (Object.animationsOf (dotted place) entries)
      (Part.all ⟨place ++ ["ANIMATIONS"], .animations, v⟩) := by
  have hcontext : dotted place ++ ".ANIMATIONS" = dotted (place ++ ["ANIMATIONS"]) := by
    rw [dotted_snoc hplace, String.append_assoc]
    rfl
  rw [Object.animationsOf, h, hcontext]
  exact .mapping Iff.rfl fun _ _ => .ok _

theorem tells_object (v : Value) {place : List String} (hplace : place ≠ []) :
    Tells (Object.ofValue (dotted place) v) (Part.all ⟨place, .object, v⟩) := by
  induction v using Value.object_induction generalizing place with
  | h v ih =>
    rw [Object.ofValue_eq]
    refine .mapping Iff.rfl fun entries hentries => ?_
    refine tells_partOf hplace
      (fun v => .of_judges (Part.children_of_leaf rfl) (judges_geometry ..)) fun _ => ?_
    refine tells_partOf hplace
      (fun v => .of_judges (Part.children_of_leaf rfl) (judges_material ..)) fun _ => ?_
    refine .field (fun h => ⟨[], by rw [Object.animationsOf, h]⟩)
      (fun _ h => tells_animations hplace h) fun _ _ => ?_
    refine .field (fun h => ⟨[], by rw [Object.childrenOf_eq, h]; rfl⟩) (fun v h => ?_)
      fun _ _ => .ok _
    have hcontext : dotted place ++ ".CHILDREN" = dotted (place ++ ["CHILDREN"]) := by
      rw [dotted_snoc hplace, String.append_assoc]
      rfl
    rw [Object.childrenOf_eq, h, Option.elim_some, hcontext]
    refine tells_group (by simp) (Entries.field?_eq_some_iff.1 h).2
      fun children hv entry hentry => ?_
    subst hv
    exact ih entries hentries entry (by rwa [Entries.under_of_field? h]) (by simp)

/-! ## Documents -/

theorem SceneOptions.add_modules (options : SceneOptions) (v : Value) :
    options.add "extra_modules" v = (do
      let modules ← modulesOf v
      return { options with
        extraModules := modules.foldl (fun sorted name => insertSorted name sorted)
          options.extraModules }) := by
  rw [add, if_neg (by decide), if_pos rfl]

theorem SceneOptions.add_other (options : SceneOptions) {key : String} (h : key ≠ "extra_modules")
    (v : Value) : ∃ options', options.add key v = .ok options' := by
  unfold add
  split_ifs <;> exact ⟨_, rfl⟩

theorem tells_options (v : Value) :
    Tells (SceneOptions.ofValue v) (Part.all ⟨["SIHM"], .options, v⟩) := by
  change Tells (v.asMapping (dotted ["SIHM"]) >>= _) _
  refine .mapping Iff.rfl fun entries hv => ?_
  clear hv
  generalize SceneOptions.default = options
  induction entries generalizing options with
  | nil => exact .ok _
  | cons entry entries ih =>
    obtain ⟨key, v⟩ := entry
    simp only [Role.within, Role.entryParts] at ih ⊢
    rw [List.foldlM_cons]
    by_cases hkey : key = "extra_modules"
    · subst hkey
      rw [List.filter_cons_of_pos (by simp), List.map_cons, List.flatMap_cons,
        SceneOptions.add_modules]
      refine .bind (.map (.of_judges (Part.children_of_leaf rfl) ?_) _)
        fun options' _ => ih options'
      exact judges_modulesOf v
    · obtain ⟨options', h⟩ := options.add_other hkey v
      rw [List.filter_cons_of_neg (by simpa using hkey), h]
      exact ih options'

theorem tells_sectionOf {α β : Type} {root : Entries Value} {key : String} {absent : α}
    {read : Value → Except Error α} {f : α → Except Error β} {role : Role}
    {fields : List (String × Role)}
    (hread : ∀ v, v ≠ .null → Tells (read v) (Part.all ⟨[key], role, v⟩))
    (rest : ∀ a, Tells (f a) ((Role.fieldParts [] root fields).flatMap Part.all)) :
    Tells (Scene.sectionOf root key absent read >>= f)
      ((Role.fieldParts [] root ((key, role) :: fields)).flatMap Part.all) := by
  refine .field (fun h => ⟨absent, by rw [Scene.sectionOf, h]⟩) (fun v h => ?_) fun a _ => rest a
  rw [Scene.sectionOf, h]
  exact hread v (Entries.field?_eq_some_iff.1 h).2

theorem tells_lights (v : Value) :
    Tells (do Light.ofEntries "LIGHTS" (← v.asMapping "LIGHTS"))
      (Part.all ⟨["LIGHTS"], .lights, v⟩) := by
  change Tells (v.asMapping (dotted ["LIGHTS"]) >>= _) _
  refine .mapping Iff.rfl fun entries _ => ?_
  have hplace : ["LIGHTS"] ≠ [] := List.cons_ne_nil _ _
  rw [Light.ofEntries_eq]
  exact tells_readEach hplace fun entry _ =>
    .of_judges (Part.children_of_leaf rfl) (judges_light ..)

theorem tells_document (v : Value) : Tells (Scene.ofValue v) (Part.all ⟨[], .document, v⟩) := by
  change Tells (v.asMapping (dotted []) >>= _) _
  refine .mapping Iff.rfl fun root _ => ?_
  refine tells_sectionOf (fun v _ => tells_options v) fun _ => ?_
  refine tells_sectionOf (fun v _ => ?_) fun _ => ?_
  · exact .of_judges (Part.children_of_leaf rfl) (judges_asMapping ..)
  refine tells_sectionOf (fun v hv => ?_) fun _ => ?_
  · have hplace : ["OBJECTS"] ≠ [] := List.cons_ne_nil _ _
    exact tells_group hplace hv fun _ _ entry _ => tells_object entry.2 (by simp)
  exact tells_sectionOf (fun v _ => tells_lights v) fun _ => .ok _

/-! ## Names -/

/-- An object has the tracks and the children of a value, under the same names in the same order,
and so have its children. -/
inductive Object.Mirrors : Object → Value → Prop
  | mk {o : Object} {entries : Entries Value}
    (tracks : o.animations.keys = (entries.under "ANIMATIONS").keys)
    (children : Entries.keys o.children = (entries.under "CHILDREN").keys)
    (each : ∀ pair ∈ o.children.zip (entries.under "CHILDREN"), Mirrors pair.1.2 pair.2.2) :
    Mirrors o (.mapping entries)

/-- A scene has the objects and the lights of a document, under the same names in the same order,
and the objects have the names of theirs. -/
structure Scene.Mirrors (s : Scene) (root : Entries Value) : Prop where
  objects : s.objects.keys = (root.under "OBJECTS").keys
  each : ∀ pair ∈ s.objects.zip (root.under "OBJECTS"), pair.1.2.Mirrors pair.2.2
  lights : s.lights.keys = (root.under "LIGHTS").keys

/-- What is read from entries has their names, and each of it is read from its own entry. -/
theorem Entries.readEach_eq_ok {α : Type} {read : String → Value → Except Error α}
    {context : String} {entries : Entries Value} {named : Entries α}
    (h : entries.readEach read context = .ok named) :
    named.keys = entries.keys ∧
      ∀ pair ∈ named.zip entries, ∃ context', read context' pair.2.2 = .ok pair.1.2 := by
  induction entries generalizing named with
  | nil =>
    obtain rfl : [] = named := Except.ok.inj h
    exact ⟨rfl, List.forall_mem_nil _⟩
  | cons entry entries ih =>
    rw [readEach_cons] at h
    obtain ⟨part, hpart, h⟩ := except_bind_eq_ok.1 h
    obtain ⟨more, hmore, h⟩ := except_bind_eq_ok.1 h
    obtain rfl := Except.ok.inj h
    obtain ⟨hkeys, heach⟩ := ih hmore
    rw [keys] at hkeys
    exact ⟨by simp [keys, hkeys], List.forall_mem_cons.2 ⟨⟨_, hpart⟩, heach⟩⟩

theorem Scene.sectionOf_eq {α : Type} (root : Entries Value) (key : String) (absent : α)
    (read : Value → Except Error α) :
    Scene.sectionOf root key absent read = (root.field? key).elim (.ok absent) read := by
  unfold Scene.sectionOf
  cases root.field? key <;> rfl

/-- The same for the mapping under a key. -/
theorem Entries.readUnder_eq_ok {α : Type} {read : String → Value → Except Error α}
    {context key : String} {entries : Entries Value} {named : Entries α}
    {readAll : Value → Except Error (Entries α)}
    (hreadAll : ∀ v, v ≠ .null → readAll v = v.asMapping context >>= (readEach read context ·))
    (h : (entries.field? key).elim (.ok []) readAll = .ok named) :
    named.keys = (entries.under key).keys ∧
      ∀ pair ∈ named.zip (entries.under key),
        ∃ context', read context' pair.2.2 = .ok pair.1.2 := by
  cases hfield : entries.field? key with
  | none =>
    rw [hfield] at h
    obtain rfl : [] = named := Except.ok.inj h
    rw [under_of_none hfield]
    exact ⟨rfl, List.forall_mem_nil _⟩
  | some v =>
    rw [hfield, Option.elim_some, hreadAll v (field?_eq_some_iff.1 hfield).2] at h
    obtain ⟨es, hes, h⟩ := except_bind_eq_ok.1 h
    obtain ⟨es', rfl⟩ := (judges_asMapping context v).holds hes
    obtain rfl : es' = es := Except.ok.inj hes
    rw [under_of_field? hfield]
    exact readEach_eq_ok h

theorem Object.animationsOf_eq_ok {context : String} {entries : Entries Value}
    {tracks : Entries (List Value)} (h : Object.animationsOf context entries = .ok tracks) :
    tracks.keys = (entries.under "ANIMATIONS").keys := by
  unfold Object.animationsOf at h
  cases hfield : entries.field? "ANIMATIONS" with
  | none =>
    rw [hfield] at h
    obtain rfl := Except.ok.inj h
    simp [Entries.under_of_none hfield, Entries.keys]
  | some v =>
    rw [hfield] at h
    obtain ⟨es, hes, h⟩ := except_bind_eq_ok.1 h
    obtain ⟨es', rfl⟩ := (judges_asMapping _ v).holds hes
    obtain rfl : es' = es := Except.ok.inj hes
    obtain rfl := Except.ok.inj h
    rw [Entries.under_of_field? hfield]
    simp [Entries.keys, Value.mapping?]

theorem Object.mirrors_of_ofValue {v : Value} {context : String} {o : Object}
    (h : Object.ofValue context v = .ok o) : o.Mirrors v := by
  induction v using Value.object_induction generalizing context o with
  | h v ih =>
    rw [Object.ofValue_eq] at h
    obtain ⟨entries, hentries, h⟩ := except_bind_eq_ok.1 h
    obtain ⟨_, rfl⟩ := (judges_asMapping context v).holds hentries
    obtain rfl := Except.ok.inj hentries
    obtain ⟨geometry, -, h⟩ := except_bind_eq_ok.1 h
    obtain ⟨material, -, h⟩ := except_bind_eq_ok.1 h
    obtain ⟨animations, hanimations, h⟩ := except_bind_eq_ok.1 h
    obtain ⟨children, hchildren, h⟩ := except_bind_eq_ok.1 h
    obtain rfl := Except.ok.inj h
    rw [Object.childrenOf_eq] at hchildren
    obtain ⟨hkeys, heach⟩ := Entries.readUnder_eq_ok (fun _ hv => Object.groupOf_eq hv _) hchildren
    refine .mk (Object.animationsOf_eq_ok hanimations) hkeys fun pair hpair => ?_
    obtain ⟨_, hpart⟩ := heach pair hpair
    exact ih _ rfl pair.2 (List.of_mem_zip hpair).2 hpart

theorem Scene.mirrors_of_ofValue {v : Value} {s : Scene} (h : Scene.ofValue v = .ok s) :
    ∃ root, v = .mapping root ∧ s.Mirrors root := by
  obtain ⟨root, hroot, h⟩ := except_bind_eq_ok.1 h
  obtain ⟨_, rfl⟩ := (judges_asMapping _ v).holds hroot
  obtain rfl := Except.ok.inj hroot
  obtain ⟨options, -, h⟩ := except_bind_eq_ok.1 h
  obtain ⟨properties, -, h⟩ := except_bind_eq_ok.1 h
  obtain ⟨objects, hobjects, h⟩ := except_bind_eq_ok.1 h
  obtain ⟨lights, hlights, h⟩ := except_bind_eq_ok.1 h
  obtain rfl := Except.ok.inj h
  rw [Scene.sectionOf_eq] at hobjects hlights
  obtain ⟨hkeys, heach⟩ := Entries.readUnder_eq_ok (fun _ hv => Object.groupOf_eq hv _) hobjects
  simp only [Light.ofEntries_eq] at hlights
  obtain ⟨hlightKeys, -⟩ := Entries.readUnder_eq_ok (fun _ _ => rfl) hlights
  refine ⟨_, rfl, hkeys, fun pair hpair => ?_, hlightKeys⟩
  obtain ⟨_, hpart⟩ := heach pair hpair
  exact Object.mirrors_of_ofValue hpart

/-! ## Reading a document -/

/-- The grammar is what can be read: a document has a scene with its names, and any other value an
error that names the first part which does not fit. -/
theorem Scene.reads_grammar (v : Value) :
    ((∃ s, Scene.ofValue v = .ok s) ↔ v.IsDocument) ∧
    (∀ s, Scene.ofValue v = .ok s → ∃ root, v = .mapping root ∧ s.Mirrors root) ∧
    ∀ e, Scene.ofValue v = .error e → e.Blames (Part.all ⟨[], .document, v⟩) := by
  have htells := tells_document v
  refine ⟨⟨?_, fun hdocument => ?_⟩, fun s hs => Scene.mirrors_of_ofValue hs,
    fun e he => htells.blames he⟩
  · rintro ⟨s, hs⟩
    exact (isDocument_iff v).1 (htells.fits hs)
  · cases hread : Scene.ofValue v with
    | ok s => exact ⟨s, rfl⟩
    | error e =>
      obtain ⟨before, p, after, hparts, -, hmisfit, -⟩ := htells.blames hread
      have hfits := (isDocument_iff v).2 hdocument p (by simp [hparts])
      exact absurd hfits hmisfit

end SceneScript
