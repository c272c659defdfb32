import Mathlib.Data.List.Basic
import SceneScript.Value

/-!
# The grammar of a scene

`Value.IsDocument` says which values are documents: what each of their mappings must hold and what
it may lack. `Part.all` lists the parts of a value in the order in which a document is read, each
with the keys that lead to it and with what it stands for. A value is a document if all its parts
fit, each by itself (`isDocument_iff`).
-/

namespace SceneScript

namespace Entries

/-- Under a key stands nothing, or null, or a value as asked. -/
def Optional (entries : Entries Value) (key : String) (Ok : Value → Prop) : Prop :=
  ∀ v, entries.get? key = some v → v = .null ∨ Ok v

/-- Under a key stands a value other than null. -/
def Has (entries : Entries Value) (key : String) : Prop :=
  ∃ v, entries.get? key = some v ∧ v ≠ .null

/-- Under a key stands a text. -/
def HasText (entries : Entries Value) (key : String) : Prop :=
  ∃ s, entries.get? key = some (.string s)

/-- The entries of the mapping under a key; none if there is no mapping. -/
def under (entries : Entries Value) (key : String) : Entries Value :=
  ((entries.get? key).bind Value.mapping?).getD []

theorem field?_eq_some_iff {entries : Entries Value} {key : String} {v : Value} :
    entries.field? key = some v ↔ entries.get? key = some v ∧ v ≠ .null := by
  have hnull : v.isNull = true ↔ v = .null := by cases v <;> simp [Value.isNull]
  simp only [field?, Option.filter_eq_some_iff, Bool.not_eq_true', ← Bool.not_eq_true, hnull, ne_eq]

variable {entries : Entries Value} {key : String} {v : Value} {Ok : Value → Prop}

theorem field?_eq_none_iff : entries.field? key = none ↔ ¬ entries.Has key := by
  rw [Option.eq_none_iff_forall_ne_some]
  simp only [ne_eq, field?_eq_some_iff, Has, not_exists]

theorem has_of_field? (h : entries.field? key = some v) : entries.Has key :=
  ⟨v, field?_eq_some_iff.1 h⟩

theorem HasText.has (h : entries.HasText key) : entries.Has key := by
  obtain ⟨s, hs⟩ := h
  exact ⟨_, hs, Value.noConfusion⟩

theorem hasText_iff (h : entries.field? key = some v) :
    entries.HasText key ↔ ∃ s, v = .string s := by
  obtain ⟨hv, -⟩ := field?_eq_some_iff.1 h
  simp [HasText, hv]

theorem optional_iff : entries.Optional key Ok ↔ ∀ v, entries.field? key = some v → Ok v := by
  simp only [Optional, field?_eq_some_iff, and_imp, or_iff_not_imp_left, ne_eq]

theorem optional_of_none (h : entries.field? key = none) : entries.Optional key Ok := by
  simp [optional_iff, h]

theorem optional_of_some (h : entries.field? key = some v) : entries.Optional key Ok ↔ Ok v := by
  simp [optional_iff, h]

theorem under_of_field? (h : entries.field? key = some v) :
    entries.under key = v.mapping?.getD [] := by
  rw [under, (field?_eq_some_iff.1 h).1, Option.bind_some]

theorem exists_of_mem_under {entry : String × Value} (h : entry ∈ entries.under key) :
    ∃ es, (key, .mapping es) ∈ entries ∧ entry ∈ es := by
  unfold under at h
  cases hget : entries.get? key with
  | none => simp [hget] at h
  | some v =>
    rw [hget, Option.bind_some] at h
    cases v with
    | mapping es => exact ⟨es, mem_of_get? hget, h⟩
    | _ => cases h

theorem under_of_none (h : entries.field? key = none) : entries.under key = [] := by
  unfold under
  cases hget : entries.get? key with
  | none => rfl
  | some v =>
    obtain rfl : v = .null := by
      by_contra hv
      exact field?_eq_none_iff.1 h ⟨v, hget, hv⟩
    rfl

end Entries

/-! ## The grammar -/

namespace Value

/-- A mapping. -/
def IsMapping (v : Value) : Prop :=
  ∃ entries, v = .mapping entries

/-- A text, a list of texts, or null. -/
def IsModules (v : Value) : Prop :=
  v = .null ∨ (∃ s, v = .string s) ∨
    ∃ items, v = .list items ∧ ∀ item ∈ items, ∃ s, item = .string s

/-- A list of three values. -/
def IsTriple (v : Value) : Prop :=
  ∃ items, v = .list items ∧ items.length = 3

/-- The options of a run. -/
inductive IsOptions : Value → Prop
  | mk {entries : Entries Value}
    (modules : ∀ v, ("extra_modules", v) ∈ entries → IsModules v) : IsOptions (.mapping entries)

/-- The geometry or the material of an object: a call with arguments, or a file. -/
inductive IsComponent : Value → Prop
  | call {entries : Entries Value} (function : entries.HasText "FUNCTION")
    (args : entries.Has "ARGS") : IsComponent (.mapping entries)
  | file {entries : Entries Value} (function : ¬ entries.Has "FUNCTION")
    (file : entries.HasText "FILE") : IsComponent (.mapping entries)

/-- A light. -/
inductive IsLight : Value → Prop
  | mk {entries : Entries Value} (function : entries.HasText "FUNCTION")
    (args : entries.Has "ARGS") (position : entries.Optional "POSITION" IsTriple) :
    IsLight (.mapping entries)

/-- An object with all its children. -/
inductive IsObject : Value → Prop
  | mk {entries : Entries Value} (geometry : entries.Optional "GEOMETRY" IsComponent)
    (material : entries.Optional "MATERIAL" IsComponent)
    (animations : entries.Optional "ANIMATIONS" IsMapping)
    (children : entries.Optional "CHILDREN" IsMapping)
    (each : ∀ entry ∈ entries.under "CHILDREN", IsObject entry.2) : IsObject (.mapping entries)

/-- A document. -/
inductive IsDocument : Value → Prop
  | mk {root : Entries Value} (options : root.Optional "SIHM" IsOptions)
    (properties : root.Optional "SCENE" IsMapping) (objects : root.Optional "OBJECTS" IsMapping)
    (eachObject : ∀ entry ∈ root.under "OBJECTS", IsObject entry.2)
    (lights : root.Optional "LIGHTS" IsMapping)
    (eachLight : ∀ entry ∈ root.under "LIGHTS", IsLight entry.2) : IsDocument (.mapping root)

end Value

/-! ## The parts of a document -/

/-- What a value of a document stands for. -/
inductive Role where
  | document
  | options
  | modules
  | properties
  | objects
  | object
  | geometry
  | material
  | animations
  | lights
  | light
  deriving DecidableEq, Repr

/-- Whether a value is right for what it stands for, apart from the parts in it. -/
def Role.Fits : Role → Value → Prop
  | .modules, v => v.IsModules
  | .geometry, v => v.IsComponent
  | .material, v => v.IsComponent
  | .light, v => v.IsLight
  | _, v => v.IsMapping

/-- A value of a document with the keys that lead to it. -/
structure Part where
  place : List String
  role : Role
  value : Value

/-- The name of a place: its keys with points between them. -/
def dotted : List String → String
  | [] => "document"
  | key :: keys => keys.foldl (fun path key => path ++ "." ++ key) key

theorem dotted_snoc {place : List String} (h : place ≠ []) (key : String) :
    dotted (place ++ [key]) = dotted place ++ "." ++ key := by
  obtain ⟨first, keys, rfl⟩ := List.exists_cons_of_ne_nil h
  simp [dotted]

namespace Role

/-- The keys under which the parts of a mapping stand, in the order in which they are read. -/
def fields : Role → List (String × Role)
  | .document =>
    [("SIHM", .options), ("SCENE", .properties), ("OBJECTS", .objects), ("LIGHTS", .lights)]
  | .object =>
    [("GEOMETRY", .geometry), ("MATERIAL", .material), ("ANIMATIONS", .animations),
      ("CHILDREN", .objects)]
  | _ => []

/-- The parts under some keys, as far as they are there. -/
def fieldParts (place : List String) (entries : Entries Value) (fields : List (String × Role)) :
    List Part :=
  fields.filterMap fun field => (entries.field? field.1).map (⟨place ++ [field.1], field.2, ·⟩)

/-- Each entry as a part. -/
def entryParts (place : List String) (role : Role) (entries : Entries Value) : List Part :=
  entries.map fun entry => ⟨place ++ [entry.1], role, entry.2⟩

/-- The parts directly in a mapping, in the order in which they are read. -/
def within (role : Role) (place : List String) (entries : Entries Value) : List Part :=
  match role with
  | .options => entryParts place .modules (entries.filter fun entry => entry.1 = "extra_modules")
  | .objects => entryParts place .object entries
  | .lights => entryParts place .light entries
  | role => fieldParts place entries role.fields

end Role

namespace Part

def Fits (p : Part) : Prop :=
  p.role.Fits p.value

/-- The parts directly in a part. -/
def children (p : Part) : List Part :=
  p.value.mapping?.elim [] fun entries => p.role.within p.place entries

theorem sizeOf_lt_of_mem_entries {entries : Entries Value} {entry : String × Value}
    (h : entry ∈ entries) : sizeOf entry.2 < sizeOf (Value.mapping entries) := by
  have hentry := List.sizeOf_lt_of_mem h
  obtain ⟨key, v⟩ := entry
  simp only [Prod.mk.sizeOf_spec, Value.mapping.sizeOf_spec] at hentry ⊢
  omega

theorem mem_fieldParts {place : List String} {entries : Entries Value}
    {fields : List (String × Role)} {c : Part} :
    c ∈ Role.fieldParts place entries fields ↔
      ∃ field ∈ fields, ∃ v, entries.field? field.1 = some v ∧
        ⟨place ++ [field.1], field.2, v⟩ = c := by
  simp only [Role.fieldParts, List.mem_filterMap, Option.map_eq_some_iff]

theorem mem_of_mem_within {place : List String} {entries : Entries Value} {role : Role} {c : Part}
    (h : c ∈ role.within place entries) : ∃ key, (key, c.value) ∈ entries := by
  have hfields {fields : List (String × Role)} (h : c ∈ Role.fieldParts place entries fields) :
      ∃ key, (key, c.value) ∈ entries := by
    obtain ⟨field, -, v, hv, rfl⟩ := mem_fieldParts.1 h
    exact ⟨_, Entries.mem_of_get? (Entries.field?_eq_some_iff.1 hv).1⟩
  have hentries {role : Role} {some : Entries Value} (hsome : some ⊆ entries)
      (h : c ∈ Role.entryParts place role some) : ∃ key, (key, c.value) ∈ entries := by
    obtain ⟨entry, hentry, rfl⟩ := List.mem_map.1 h
    exact ⟨entry.1, hsome hentry⟩
  cases role with
  | options => exact hentries List.filter_sublist.subset h
  | objects => exact hentries (List.Subset.refl _) h
  | lights => exact hentries (List.Subset.refl _) h
  | _ => exact hfields h

/-- Nothing stands in a part whose role has no parts. -/
theorem children_of_leaf {p : Part} (h : p.role.within = fun _ _ => []) : p.children = [] := by
  unfold children
  rw [h]
  cases p.value.mapping? <;> rfl

theorem sizeOf_lt_of_mem_children {p c : Part} (h : c ∈ p.children) :
    sizeOf c.value < sizeOf p.value := by
  unfold children at h
  cases hv : p.value with
  | mapping entries =>
    rw [hv] at h
    obtain ⟨key, hkey⟩ := mem_of_mem_within h
    exact sizeOf_lt_of_mem_entries hkey
  | _ => simp [hv, Value.mapping?] at h

/-- A part and all parts in it, in the order in which they are read. -/
def all (p : Part) : List Part :=
  p :: p.children.attach.flatMap fun c => c.1.all
termination_by sizeOf p.value
decreasing_by exact sizeOf_lt_of_mem_children c.2

theorem all_eq (p : Part) : p.all = p :: p.children.flatMap all := by
  have h := List.flatMap_map Subtype.val all p.children.attach
  rw [List.attach_map_subtype_val] at h
  rw [all, h]

/-- All parts fit if a part fits by itself and all that is in it does. -/
theorem forall_mem_all {p : Part} :
    (∀ q ∈ p.all, q.Fits) ↔ p.Fits ∧ ∀ c ∈ p.children, ∀ q ∈ c.all, q.Fits := by
  rw [all_eq, List.forall_mem_cons]
  simp only [List.mem_flatMap, forall_exists_index, and_imp]
  exact and_congr_right fun _ => forall_comm.trans (forall_congr' fun _ => forall_comm)

end Part

/-- What holds of an object if it holds of its children holds of every object. -/
theorem Value.object_induction {P : Value → Prop}
    (h : ∀ v, (∀ entries, v = .mapping entries →
      ∀ entry ∈ Entries.under entries "CHILDREN", P entry.2) → P v) (v : Value) : P v := by
  refine h v fun entries hentries entry hentry => ?_
  obtain ⟨children, hchildren, hchild⟩ := Entries.exists_of_mem_under hentry
  have : sizeOf entry.2 < sizeOf v := by
    rw [hentries]
    exact Nat.lt_trans (Part.sizeOf_lt_of_mem_entries hchild)
      (Part.sizeOf_lt_of_mem_entries hchildren)
  exact object_induction h entry.2
termination_by sizeOf v

/-! ## The grammar by parts -/

theorem Part.forall_mem_all_of_leaf {p : Part} (h : p.role.within = fun _ _ => []) :
    (∀ q ∈ p.all, q.Fits) ↔ p.Fits := by
  rw [p.all_eq, children_of_leaf h, List.flatMap_nil, List.forall_mem_singleton]

theorem Role.forall_mem_fieldParts {place : List String} {entries : Entries Value} {key : String}
    {role : Role} {fields : List (String × Role)} {P : Part → Prop} :
    (∀ c ∈ fieldParts place entries ((key, role) :: fields), P c) ↔
      (∀ v, entries.field? key = some v → P ⟨place ++ [key], role, v⟩) ∧
        ∀ c ∈ fieldParts place entries fields, P c := by
  cases h : entries.field? key <;> simp [fieldParts, h]

/-- A group fits with all its members if it is a mapping and each member is as asked. -/
theorem group_fits_iff {entries : Entries Value} {key : String} {place : List String}
    {role member : Role} {Ok : Value → Prop} (hrole : ∀ v, role.Fits v ↔ v.IsMapping)
    (hwithin : role.within = fun place es => Role.entryParts place member es)
    (hOk : ∀ entry ∈ entries.under key, ∀ place,
      (∀ q ∈ Part.all ⟨place, member, entry.2⟩, q.Fits) ↔ Ok entry.2) :
    (∀ v, entries.field? key = some v → ∀ q ∈ Part.all ⟨place, role, v⟩, q.Fits) ↔
      entries.Optional key Value.IsMapping ∧ ∀ entry ∈ entries.under key, Ok entry.2 := by
  cases hfield : entries.field? key with
  | none => simp [Entries.optional_of_none hfield, Entries.under_of_none hfield]
  | some v =>
    simp only [Option.some.injEq, forall_eq', Entries.optional_of_some hfield]
    rw [Part.forall_mem_all]
    refine and_congr (hrole v) ?_
    rw [Entries.under_of_field? hfield] at hOk ⊢
    rw [Part.children, hwithin]
    cases hv : v.mapping? with
    | none => exact iff_of_true (List.forall_mem_nil _) (List.forall_mem_nil _)
    | some es =>
      rw [hv, Option.getD_some] at hOk
      simp only [Option.elim_some, Option.getD_some, Role.entryParts, List.forall_mem_map]
      exact forall_congr' fun entry => forall_congr' fun hentry => hOk entry hentry _

/-- A field that nothing stands in fits if it is as asked. -/
theorem leaf_fits_iff {entries : Entries Value} {key : String} {place : List String} {role : Role}
    (hwithin : role.within = fun _ _ => []) :
    (∀ v, entries.field? key = some v → ∀ q ∈ Part.all ⟨place, role, v⟩, q.Fits) ↔
      entries.Optional key role.Fits := by
  rw [Entries.optional_iff]
  exact forall_congr' fun v => imp_congr_right fun _ => Part.forall_mem_all_of_leaf hwithin

theorem isObject_mapping_iff {entries : Entries Value} :
    Value.IsObject (.mapping entries) ↔
      entries.Optional "GEOMETRY" Value.IsComponent ∧
      entries.Optional "MATERIAL" Value.IsComponent ∧
      entries.Optional "ANIMATIONS" Value.IsMapping ∧
      entries.Optional "CHILDREN" Value.IsMapping ∧
      ∀ entry ∈ entries.under "CHILDREN", entry.2.IsObject := by
  constructor
  · rintro ⟨hgeometry, hmaterial, hanimations, hchildren, heach⟩
    exact ⟨hgeometry, hmaterial, hanimations, hchildren, heach⟩
  · rintro ⟨hgeometry, hmaterial, hanimations, hchildren, heach⟩
    exact .mk hgeometry hmaterial hanimations hchildren heach

theorem isDocument_mapping_iff {root : Entries Value} :
    Value.IsDocument (.mapping root) ↔
      root.Optional "SIHM" Value.IsOptions ∧
      root.Optional "SCENE" Value.IsMapping ∧
      (root.Optional "OBJECTS" Value.IsMapping ∧
        ∀ entry ∈ root.under "OBJECTS", entry.2.IsObject) ∧
      root.Optional "LIGHTS" Value.IsMapping ∧ ∀ entry ∈ root.under "LIGHTS", entry.2.IsLight := by
  constructor
  · rintro ⟨hoptions, hproperties, hobjects, heachObject, hlights, heachLight⟩
    exact ⟨hoptions, hproperties, ⟨hobjects, heachObject⟩, hlights, heachLight⟩
  · rintro ⟨hoptions, hproperties, ⟨hobjects, heachObject⟩, hlights, heachLight⟩
    exact .mk hoptions hproperties hobjects heachObject hlights heachLight

theorem isObject_iff (v : Value) (place : List String) :
    (∀ q ∈ Part.all ⟨place, .object, v⟩, q.Fits) ↔ v.IsObject := by
  induction v using Value.object_induction generalizing place with
  | h v ih =>
    rw [Part.forall_mem_all]
    cases v with
    | mapping entries =>
      have hfits : Part.Fits ⟨place, .object, .mapping entries⟩ := ⟨entries, rfl⟩
      have hchildren : Part.children ⟨place, .object, .mapping entries⟩ =
        Role.fieldParts place entries (Role.fields .object) := rfl
      rw [isObject_mapping_iff, and_iff_right hfits, hchildren, Role.fields,
        Role.forall_mem_fieldParts, Role.forall_mem_fieldParts, Role.forall_mem_fieldParts,
        Role.forall_mem_fieldParts]
      refine and_congr (leaf_fits_iff rfl) (and_congr (leaf_fits_iff rfl)
        (and_congr (leaf_fits_iff rfl) ?_))
      rw [group_fits_iff (fun _ => Iff.rfl) rfl]
      · exact and_iff_left (List.forall_mem_nil _)
      · exact fun entry hentry place => ih entries rfl entry hentry place
    | _ =>
      refine iff_of_false ?_ (by rintro ⟨⟩)
      rintro ⟨⟨_, ⟨⟩⟩, -⟩

theorem isOptions_iff (v : Value) (place : List String) :
    (∀ q ∈ Part.all ⟨place, .options, v⟩, q.Fits) ↔ v.IsOptions := by
  rw [Part.forall_mem_all]
  cases v with
  | mapping entries =>
    have hfits : Part.Fits ⟨place, .options, .mapping entries⟩ := ⟨entries, rfl⟩
    have hchildren : Part.children ⟨place, .options, .mapping entries⟩ =
      Role.entryParts place .modules
        (entries.filter fun entry => entry.1 = "extra_modules") := rfl
    rw [and_iff_right hfits, hchildren, Role.entryParts, List.forall_mem_map]
    constructor
    · intro h
      refine .mk fun v hv => (Part.forall_mem_all_of_leaf rfl).1 (h _ (List.mem_filter.2 ⟨hv, ?_⟩))
      exact decide_eq_true rfl
    · rintro ⟨hmodules⟩ entry hentry
      obtain ⟨hmem, hkey⟩ := List.mem_filter.1 hentry
      obtain ⟨key, v⟩ := entry
      obtain rfl : key = "extra_modules" := of_decide_eq_true hkey
      exact (Part.forall_mem_all_of_leaf rfl).2 (hmodules v hmem)
  | _ =>
    refine iff_of_false ?_ (by rintro ⟨⟩)
    rintro ⟨⟨_, ⟨⟩⟩, -⟩

theorem isDocument_iff (v : Value) :
    (∀ q ∈ Part.all ⟨[], .document, v⟩, q.Fits) ↔ v.IsDocument := by
  rw [Part.forall_mem_all]
  cases v with
  | mapping root =>
    have hfits : Part.Fits ⟨[], .document, .mapping root⟩ := ⟨root, rfl⟩
    have hchildren : Part.children ⟨[], .document, .mapping root⟩ =
      Role.fieldParts [] root (Role.fields .document) := rfl
    rw [isDocument_mapping_iff, and_iff_right hfits, hchildren, Role.fields,
      Role.forall_mem_fieldParts, Role.forall_mem_fieldParts, Role.forall_mem_fieldParts,
      Role.forall_mem_fieldParts]
    refine and_congr ?_ (and_congr (leaf_fits_iff rfl) (and_congr ?_ ?_))
    · rw [Entries.optional_iff]
      exact forall_congr' fun v => imp_congr_right fun _ => isOptions_iff v _
    · exact group_fits_iff (fun _ => Iff.rfl) rfl fun entry _ => isObject_iff entry.2
    · refine (and_iff_left (List.forall_mem_nil _)).trans ?_
      exact group_fits_iff (fun _ => Iff.rfl) rfl fun entry _ _ => Part.forall_mem_all_of_leaf rfl
  | _ =>
    refine iff_of_false ?_ (by rintro ⟨⟩)
    rintro ⟨⟨_, ⟨⟩⟩, -⟩

end SceneScript
