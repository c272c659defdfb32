import Mathlib.Logic.Relation
import SceneScript.Proofs.SceneReading

/-!
# Edits that do not show

In the mappings of a document that have fixed keys (the document itself, objects, geometries,
materials and lights) the order of the entries says nothing, and neither do entries under other keys
or with null for a value. `Edit` is one such change at any depth. `Scene.reading_of_edits` says that
changes of this kind, however many, lead to the same scene or to the same error.

A reader of such a mapping only looks up its keys, so it is enough that the two mappings `Agree`
there: that they hold the same under each key, or parts that are read in the same way.
-/

namespace SceneScript

namespace Entries

theorem get?_append {α : Type} (l r : Entries α) (key : String) :
    get? (l ++ r) key = (l.get? key).or (r.get? key) := by
  induction l with
  | nil => rfl
  | cons entry l ih =>
    rw [List.cons_append, get?, get?, ih]
    split <;> rfl

/-- With distinct keys the order of the entries does not matter to a lookup. -/
theorem get?_of_perm {α : Type} {es es' : Entries α} (h : es.Perm es') (hkeys : es.keys.Nodup)
    (key : String) : es'.get? key = es.get? key := by
  induction h with
  | nil => rfl
  | cons entry _ ih => rw [get?, get?, ih (List.nodup_cons.1 hkeys).2]
  | swap a b es =>
    have hne : b.1 ≠ a.1 := fun e => (List.nodup_cons.1 hkeys).1 (by simp [e])
    simp only [get?]
    split_ifs with ha hb
    · exact absurd (hb.trans ha.symm) hne
    all_goals rfl
  | trans h _ ih ih' => rw [ih' ((h.map Prod.fst).nodup hkeys), ih hkeys]

variable {before after : Entries Value} {key other : String} {v v' : Value}

theorem field?_insert_of_ne (h : other ≠ key) :
    field? (before ++ (key, v) :: after) other = field? (before ++ after) other := by
  rw [field?, field?, get?_append, get?_append, get?, if_neg h.symm]

/-- Null under a new key is as good as nothing. -/
theorem field?_insert_null (h : key ∉ keys (before ++ after)) :
    field? (before ++ (key, .null) :: after) other = field? (before ++ after) other := by
  by_cases hother : other = key
  · subst hother
    have hnone := get?_eq_none_iff.2 h
    rw [get?_append, Option.or_eq_none_iff] at hnone
    simp [field?, get?_append, get?, hnone, Value.isNull]
  · exact field?_insert_of_ne hother

/-- Another value for an entry shows under its key, if an earlier entry does not hide it, and
nowhere else. -/
theorem field?_replace (hv : v ≠ .null) (hv' : v' ≠ .null) :
    field? (before ++ (key, v') :: after) other = field? (before ++ (key, v) :: after) other ∨
      other = key ∧ field? (before ++ (key, v) :: after) other = some v ∧
        field? (before ++ (key, v') :: after) other = some v' := by
  by_cases hother : other = key
  · subst hother
    cases hbefore : before.get? other with
    | some hidden => exact .inl (by simp [field?, get?_append, hbefore])
    | none =>
      have hget (w : Value) : get? (before ++ (other, w) :: after) other = some w := by
        simp [get?_append, hbefore, get?]
      exact .inr ⟨rfl, field?_eq_some_iff.2 ⟨hget v, hv⟩, field?_eq_some_iff.2 ⟨hget v', hv'⟩⟩
  · exact .inl (by rw [field?_insert_of_ne hother, field?_insert_of_ne hother])

end Entries

/-! ## Edits -/

namespace Role

/-- Whether a mapping is read by looking up fixed keys. -/
def isRecord : Role → Bool
  | .document | .object | .geometry | .material | .light => true
  | _ => false

/-- The keys that are looked up in a mapping. -/
def reads : Role → List String
  | .geometry => ["FUNCTION", "ARGS", "FILE"]
  | .material => ["FUNCTION", "ARGS", "USES_GLSLIFY", "FILE"]
  | .light => ["FUNCTION", "POSITION", "ARGS"]
  | role => role.fields.map Prod.fst

/-- What the value under a key of a mapping stands for. -/
def part? (role : Role) (key : String) : Option Role :=
  match role with
  | .objects => some .object
  | .lights => some .light
  | role => role.fields.lookup key

end Role

/-- One change in a part of a document that does not show in the scene. -/
inductive Edit : Role → Value → Value → Prop
  /-- The entries of a mapping with distinct keys, in another order. -/
  | reorder {role : Role} {es es' : Entries Value} (record : role.isRecord = true)
    (distinct : es.keys.Nodup) (perm : es.Perm es') : Edit role (.mapping es) (.mapping es')
  /-- One more entry, under a key that is not read, or with null under a new key. -/
  | insert {role : Role} {before after : Entries Value} {key : String} {v : Value}
    (record : role.isRecord = true)
    (idle : key ∉ role.reads ∨ v = .null ∧ key ∉ Entries.keys (before ++ after)) :
    Edit role (.mapping (before ++ after)) (.mapping (before ++ (key, v) :: after))
  /-- The same entry taken out again. -/
  | remove {role : Role} {before after : Entries Value} {key : String} {v : Value}
    (record : role.isRecord = true)
    (idle : key ∉ role.reads ∨ v = .null ∧ key ∉ Entries.keys (before ++ after)) :
    Edit role (.mapping (before ++ (key, v) :: after)) (.mapping (before ++ after))
  /-- A change in the part under a key. -/
  | inside {role part : Role} {before after : Entries Value} {key : String} {v v' : Value}
    (stands : role.part? key = some part) (edit : Edit part v v') :
    Edit role (.mapping (before ++ (key, v) :: after)) (.mapping (before ++ (key, v') :: after))

theorem Edit.ne_null {role : Role} {v v' : Value} (h : Edit role v v') :
    v ≠ .null ∧ v' ≠ .null := by
  cases h <;> exact ⟨Value.noConfusion, Value.noConfusion⟩

/-! ## Reading the same -/

namespace Role

/-- Two values are read in the same way for what they stand for. -/
def SameReading : Role → Value → Value → Prop
  | .document, v, v' => Scene.ofValue v' = Scene.ofValue v
  | .objects, v, v' => ∀ context, Object.groupOf context v' = Object.groupOf context v
  | .object, v, v' => ∀ context, Object.ofValue context v' = Object.ofValue context v
  | .geometry, v, v' => ∀ context, Geometry.ofValue context v' = Geometry.ofValue context v
  | .material, v, v' => ∀ context, Material.ofValue context v' = Material.ofValue context v
  | .lights, v, v' => ∀ context, v'.asMapping context >>= Light.ofEntries context =
      v.asMapping context >>= Light.ofEntries context
  | .light, v, v' => ∀ context, Light.ofValue context v' = Light.ofValue context v
  | _, v, v' => v' = v

/-- Two mappings hold the same under the keys that are read, or parts that are read in the same
way. -/
def Agree (role : Role) (es es' : Entries Value) : Prop :=
  ∀ key ∈ role.reads, es'.field? key = es.field? key ∨
    ∃ part v v', role.part? key = some part ∧ es.field? key = some v ∧ es'.field? key = some v' ∧
      part.SameReading v v'

variable {role part : Role} {es es' : Entries Value} {key : String}

theorem Agree.elim_eq {β : Type} (h : role.Agree es es') (hkey : key ∈ role.reads)
    (hpart : role.part? key = some part) {absent : β} {read : Value → β}
    (hread : ∀ v v', part.SameReading v v' → read v' = read v) :
    (es'.field? key).elim absent read = (es.field? key).elim absent read := by
  rcases h key hkey with heq | ⟨_, v, v', hpart', hv, hv', hsame⟩
  · rw [heq]
  · obtain rfl := Option.some.inj (hpart'.symm.trans hpart)
    rw [hv, hv', Option.elim_some, Option.elim_some, hread v v' hsame]

/-- Where nothing stands in a mapping, agreeing is holding the same. -/
theorem Agree.field?_eq (h : role.Agree es es') (hkey : key ∈ role.reads)
    (hpart : role.part? key = none) : es'.field? key = es.field? key := by
  rcases h key hkey with heq | ⟨_, _, _, hpart', -⟩
  · exact heq
  · rw [hpart] at hpart'
    cases hpart'

theorem sameReading_geometry (h : Agree .geometry es es') :
    SameReading .geometry (.mapping es) (.mapping es') := by
  intro context
  have hkey {key : String} (hkey : key ∈ reads .geometry) : es'.field? key = es.field? key :=
    h.field?_eq hkey rfl
  simp only [Geometry.ofValue, Value.asMapping, except_ok_bind, Args.ofEntries,
    hkey (by decide : "FUNCTION" ∈ _), hkey (by decide : "ARGS" ∈ _), hkey (by decide : "FILE" ∈ _)]

theorem sameReading_material (h : Agree .material es es') :
    SameReading .material (.mapping es) (.mapping es') := by
  intro context
  have hkey {key : String} (hkey : key ∈ reads .material) : es'.field? key = es.field? key :=
    h.field?_eq hkey rfl
  simp only [Material.ofValue, Value.asMapping, except_ok_bind, Args.ofEntries,
    hkey (by decide : "FUNCTION" ∈ _), hkey (by decide : "ARGS" ∈ _), hkey (by decide : "FILE" ∈ _),
    hkey (by decide : "USES_GLSLIFY" ∈ _)]

theorem sameReading_light (h : Agree .light es es') :
    SameReading .light (.mapping es) (.mapping es') := by
  intro context
  have hkey {key : String} (hkey : key ∈ reads .light) : es'.field? key = es.field? key :=
    h.field?_eq hkey rfl
  simp only [Light.ofValue, Light.positionOf, Value.asMapping, except_ok_bind, Args.ofEntries,
    hkey (by decide : "FUNCTION" ∈ _), hkey (by decide : "ARGS" ∈ _),
    hkey (by decide : "POSITION" ∈ _)]

theorem sameReading_object (h : Agree .object es es') :
    SameReading .object (.mapping es) (.mapping es') := by
  intro context
  simp only [Object.ofValue_eq, Value.asMapping, except_ok_bind, Object.partOf_eq,
    Object.animationsOf_eq, Object.childrenOf_eq]
  rw [h.elim_eq (by decide : "GEOMETRY" ∈ _) rfl fun v v' hsame => by rw [hsame],
    h.elim_eq (by decide : "MATERIAL" ∈ _) rfl fun v v' hsame => by rw [hsame],
    h.elim_eq (by decide : "ANIMATIONS" ∈ _) rfl fun v v' hsame => by rw [hsame],
    h.elim_eq (by decide : "CHILDREN" ∈ _) rfl fun v v' hsame => by rw [hsame]]

theorem sameReading_document (h : Agree .document es es') :
    SameReading .document (.mapping es) (.mapping es') := by
  simp only [SameReading, Scene.ofValue, Value.asMapping, except_ok_bind, Scene.sectionOf_eq]
  rw [h.elim_eq (by decide : "SIHM" ∈ _) rfl fun v v' hsame => by rw [hsame],
    h.elim_eq (by decide : "SCENE" ∈ _) rfl fun v v' hsame => by rw [hsame],
    h.elim_eq (by decide : "OBJECTS" ∈ _) rfl fun v v' hsame => by rw [hsame],
    h.elim_eq (by decide : "LIGHTS" ∈ _) rfl fun v v' hsame => by exact hsame _]

theorem sameReading_of_agree (hrecord : role.isRecord = true) (h : role.Agree es es') :
    role.SameReading (.mapping es) (.mapping es') := by
  cases role with
  | document => exact sameReading_document h
  | object => exact sameReading_object h
  | geometry => exact sameReading_geometry h
  | material => exact sameReading_material h
  | light => exact sameReading_light h
  | _ => cases hrecord

end Role

/-- A group is read in the same way if one of its members is replaced by one that is. -/
theorem Entries.readEach_replace {α : Type} {read : String → Value → Except Error α} {v v' : Value}
    (h : ∀ context, read context v' = read context v) (before after : Entries Value)
    (key context : String) :
    readEach read context (before ++ (key, v') :: after) =
      readEach read context (before ++ (key, v) :: after) := by
  induction before with
  | nil => rw [List.nil_append, List.nil_append, readEach_cons, readEach_cons, h]
  | cons entry before ih =>
    rw [List.cons_append, List.cons_append, readEach_cons, readEach_cons, ih]

theorem Role.sameReading_inside {role part : Role} {before after : Entries Value} {key : String}
    {v v' : Value} (hpart : role.part? key = some part) (hv : v ≠ .null) (hv' : v' ≠ .null)
    (h : part.SameReading v v') :
    role.SameReading (.mapping (before ++ (key, v) :: after))
      (.mapping (before ++ (key, v') :: after)) := by
  cases hrecord : role.isRecord with
  | true =>
    refine sameReading_of_agree hrecord fun other _ => ?_
    refine (Entries.field?_replace hv hv').imp_right ?_
    rintro ⟨rfl, hfield, hfield'⟩
    exact ⟨part, v, v', hpart, hfield, hfield', h⟩
  | false =>
    cases role with
    | objects =>
      obtain rfl := Option.some.inj hpart
      intro context
      simp only [Object.groupOf, Object.ofEntries_eq]
      exact Entries.readEach_replace h before after key context
    | lights =>
      obtain rfl := Option.some.inj hpart
      intro context
      simp only [Value.asMapping, except_ok_bind, Light.ofEntries_eq]
      exact Entries.readEach_replace h before after key context
    | document | object | geometry | material | light => cases hrecord
    | options | modules | properties | animations => cases hpart

/-- An entry that says nothing does not show under the keys that are read. -/
theorem Role.field?_insert {role : Role} {before after : Entries Value} {key other : String}
    {v : Value} (idle : key ∉ role.reads ∨ v = .null ∧ key ∉ Entries.keys (before ++ after))
    (hother : other ∈ role.reads) :
    Entries.field? (before ++ (key, v) :: after) other =
      Entries.field? (before ++ after) other := by
  rcases idle with hkey | ⟨rfl, hnew⟩
  · exact Entries.field?_insert_of_ne (ne_of_mem_of_not_mem hother hkey)
  · exact Entries.field?_insert_null hnew

/-- The induction is on the edit: on the way down to the mapping where it happens. -/
theorem Edit.sameReading {role : Role} {v v' : Value} (h : Edit role v v') :
    role.SameReading v v' := by
  induction h with
  | reorder record distinct perm =>
    refine Role.sameReading_of_agree record fun key _ => .inl ?_
    rw [Entries.field?, Entries.field?, Entries.get?_of_perm perm distinct]
  | insert record idle =>
    exact Role.sameReading_of_agree record fun key hkey => .inl (Role.field?_insert idle hkey)
  | remove record idle =>
    exact Role.sameReading_of_agree record fun key hkey => .inl (Role.field?_insert idle hkey).symm
  | inside stands edit ih =>
    exact Role.sameReading_inside stands edit.ne_null.1 edit.ne_null.2 ih

/-- Documents that differ by edits give the same scene or the same error. -/
theorem Scene.reading_of_edits {t t' : Value} (h : Relation.ReflTransGen (Edit .document) t t') :
    Scene.ofValue t' = Scene.ofValue t := by
  induction h with
  | refl => rfl
  | tail _ edit ih =>
    have hstep : Scene.ofValue _ = Scene.ofValue _ := edit.sameReading
    exact hstep.trans ih

/-- A document with the geometry of a child. -/
def Edit.nested (geometry : Entries Value) : Entries Value :=
  [("OBJECTS", .mapping [("arm", .mapping [("CHILDREN", .mapping
    [("hand", .mapping [("GEOMETRY", .mapping geometry)])])])])]

theorem Edit.inside_nested {es es' : Entries Value}
    (h : Edit .geometry (.mapping es) (.mapping es')) :
    Edit .document (.mapping (nested es)) (.mapping (nested es')) := by
  have hhand := @Edit.inside .object .geometry [] [] "GEOMETRY" _ _ rfl h
  have hgroup := @Edit.inside .objects .object [] [] "hand" _ _ rfl hhand
  have harm := @Edit.inside .object .objects [] [] "CHILDREN" _ _ rfl hgroup
  have hobjects := @Edit.inside .objects .object [] [] "arm" _ _ rfl harm
  exact @Edit.inside .document .objects [] [] "OBJECTS" _ _ rfl hobjects

theorem Scene.reading_of_edits_nested :
    Relation.ReflTransGen (Edit .document)
      (.mapping (Edit.nested [("FUNCTION", .string "BoxGeometry"), ("ARGS", .list [])]))
      (.mapping (("NOTES", .bool true) ::
        Edit.nested [("FILE", .null), ("ARGS", .list []), ("FUNCTION", .string "BoxGeometry")])) ∧
    Scene.ofValue (.mapping (("NOTES", .bool true) ::
        Edit.nested [("FILE", .null), ("ARGS", .list []), ("FUNCTION", .string "BoxGeometry")])) =
      Scene.ofValue
        (.mapping (Edit.nested [("FUNCTION", .string "BoxGeometry"), ("ARGS", .list [])])) := by
  have hreorder : Edit .geometry
      (.mapping [("FUNCTION", .string "BoxGeometry"), ("ARGS", .list [])])
      (.mapping [("ARGS", .list []), ("FUNCTION", .string "BoxGeometry")]) :=
    .reorder rfl (by decide) (.swap _ _ _)
  have hnull : Edit .geometry (.mapping [("ARGS", .list []), ("FUNCTION", .string "BoxGeometry")])
      (.mapping [("FILE", .null), ("ARGS", .list []), ("FUNCTION", .string "BoxGeometry")]) :=
    @Edit.insert .geometry [] _ "FILE" .null rfl (.inr ⟨rfl, by decide⟩)
  have hnotes (root : Entries Value) :
      Edit .document (.mapping root) (.mapping (("NOTES", .bool true) :: root)) :=
    @Edit.insert .document [] root "NOTES" _ rfl (.inl (by decide))
  have hedits := ((Relation.ReflTransGen.single hreorder.inside_nested).tail
    hnull.inside_nested).tail (hnotes _)
  exact ⟨hedits, Scene.reading_of_edits hedits⟩

end SceneScript
