import SceneScript.Proofs.TwoPass

/-!
# Replaying the objects of a program

A program has one scope: a declaration gives its variable a new value, and a later declaration of
the same name takes the place of an earlier one. `Replay` runs the statements of a program that way,
and `Replay.Rebuilds` says that the attachments are those of the tree that the program was made
from.

`Unshadowed` is the exact condition on the names of a tree: between the declaration of an object and
the attachment of one of its children, no other statement declares a variable of the object's name.
`rebuilds_iff_unshadowed`: where all parents have a geometry, the objects of a program rebuild the
tree if and only if its names are unshadowed. An object with a child of its own name is not rebuilt
(`twins_not_rebuilt`).
-/

namespace SceneScript

namespace Statement

/-- The object that a statement declares. -/
def object? : Statement → Option String
  | .mesh object _ | .parseMesh object _ => some object
  | _ => none

/-- The attachment that a statement makes. -/
def attachment? : Statement → Option (String × String)
  | .attach parent object => some (parent, object)
  | _ => none

end Statement

/-! ## Replaying statements -/

/-- A state of a program. Values are numbered in the order in which they are made, from the scene
on. `made` lists the values of the objects, and `attached` the parent and the child of each
attachment. -/
structure Replay where
  next : Nat
  env : String → Option Nat
  made : List Nat
  attached : List (Option Nat × Option Nat)

namespace Replay

/-- The value of the scene. -/
def sceneValue : Nat :=
  0

/-- Only the scene has been made. -/
def start : Replay where
  next := sceneValue + 1
  env x := if x = Emit.rootParent then some sceneValue else none
  made := []
  attached := []

/-- A declaration makes a new value, and an attachment takes the values of the moment. -/
def step (r : Replay) (st : Statement) : Replay where
  next := if st.binding?.isSome then r.next + 1 else r.next
  env x := if st.binding? = some x then some r.next else r.env x
  made := if st.object?.isSome then r.made ++ [r.next] else r.made
  attached := r.attached ++ st.attachment?.toList.map fun (parent, object) =>
    (r.env parent, r.env object)

/-- Replays statements one after the other. -/
def run (r : Replay) (ss : List Statement) : Replay :=
  ss.foldl step r

@[simp] theorem run_nil (r : Replay) : r.run [] = r := rfl

@[simp] theorem run_cons (r : Replay) (st : Statement) (ss : List Statement) :
    r.run (st :: ss) = (r.step st).run ss := rfl

theorem run_append (r : Replay) (ss ss' : List Statement) :
    r.run (ss ++ ss') = (r.run ss).run ss' :=
  List.foldl_append

theorem step_attach (r : Replay) (parent object : String) :
    r.step (.attach parent object) =
      { r with attached := r.attached ++ [(r.env parent, r.env object)] } := rfl

theorem step_recordUuid (r : Replay) (object : String) :
    r.step (.recordUuid object) =
      { r with
        next := r.next + 1
        env := fun x => if some (uuidVar object) = some x then some r.next else r.env x } := by
  simp [step, Statement.binding?, Statement.object?, Statement.attachment?]

variable {r : Replay} {ss : List Statement} {st : Statement}

theorem next_le_step (r : Replay) (st : Statement) : r.next ≤ (r.step st).next := by
  simp only [step]
  split <;> omega

theorem next_le_run (r : Replay) (ss : List Statement) : r.next ≤ (r.run ss).next := by
  induction ss generalizing r with
  | nil => exact Nat.le_refl _
  | cons st ss ih => exact Nat.le_trans (next_le_step r st) (ih (r.step st))

/-- A variable keeps a value that is there until it is declared again. -/
theorem env_run_iff {w : Nat} (hw : w < r.next) (ss : List Statement) (x : String) :
    (r.run ss).env x = some w ↔ r.env x = some w ∧ x ∉ ss.filterMap Statement.binding? := by
  induction ss generalizing r with
  | nil => simp
  | cons st ss ih =>
    have hstep : (r.step st).env x = some w ↔ r.env x = some w ∧ st.binding? ≠ some x := by
      simp only [step]
      split
      · rename_i hx
        simp only [hx, ne_eq, not_true, and_false, iff_false, Option.some.injEq]
        omega
      · rename_i hx
        simp [hx]
    rw [run_cons, ih (Nat.lt_of_lt_of_le hw (next_le_step r st)), hstep, and_assoc]
    cases hb : st.binding? with
    | none => simp [hb]
    | some y =>
      simp only [List.filterMap_cons, hb, List.mem_cons, not_or, ne_eq, Option.some.injEq]
      rw [eq_comm (a := y)]

theorem made_run (h : ∀ st ∈ ss, st.object? = none) : (r.run ss).made = r.made := by
  induction ss generalizing r with
  | nil => rfl
  | cons st ss ih =>
    rw [run_cons, ih fun st' h' => h st' (List.mem_cons_of_mem _ h')]
    simp [step, h st List.mem_cons_self]

theorem attached_run (h : ∀ st ∈ ss, st.attachment? = none) :
    (r.run ss).attached = r.attached := by
  induction ss generalizing r with
  | nil => rfl
  | cons st ss ih =>
    rw [run_cons, ih fun st' h' => h st' (List.mem_cons_of_mem _ h')]
    simp [step, h st List.mem_cons_self]

/-- A statement that neither declares nor attaches. -/
def Quiet (st : Statement) : Prop :=
  st.binding? = none ∧ st.object? = none ∧ st.attachment? = none

theorem run_of_quiet (h : ∀ st ∈ ss, Quiet st) : r.run ss = r := by
  induction ss generalizing r with
  | nil => rfl
  | cons st ss ih =>
    obtain ⟨hbinding, hobject, hattachment⟩ := h st List.mem_cons_self
    rw [run_cons, ih fun st' h' => h st' (List.mem_cons_of_mem _ h')]
    simp [step, hbinding, hobject, hattachment]

end Replay

/-! ## Replaying a block -/

/-- A statement that neither declares an object nor attaches one. -/
def Statement.Preparing (st : Statement) : Prop :=
  st.object? = none ∧ st.attachment? = none

namespace Visit

variable {v : Visit} {ss : List Statement}

/-- The variable of the material, if there is one. -/
def materialVariables (v : Visit) : List String :=
  if v.material.isSome then [materialVar v.binding] else []

/-- The variable of the geometry, if it is constructed. -/
def geometryVariables (v : Visit) : List String :=
  match v.geometry with
  | .call _ _ => [geometryVar v.binding]
  | .file _ => []

/-- The variables that an object declares before it is attached. -/
def opening (v : Visit) : List String :=
  v.materialVariables ++ v.geometryVariables ++ [v.binding]

/-- All variables that an object declares. -/
def bindings (v : Visit) : List String :=
  v.opening ++ [uuidVar v.binding]

theorem preparing_material (h : v.MaterialPart ss) :
    (∀ st ∈ ss, st.Preparing) ∧ ss.filterMap Statement.binding? = v.materialVariables := by
  unfold MaterialPart at h
  unfold materialVariables
  split at h
  · rename_i m hm
    cases m with
    | file path =>
      obtain ⟨asset, rfl⟩ := h
      refine ⟨?_, by simp [hm, Statement.binding?]⟩
      intro st hst
      simp only [List.mem_cons, List.not_mem_nil, or_false] at hst
      rcases hst with rfl | rfl | rfl <;> exact ⟨rfl, rfl⟩
    | call function args glslify =>
      obtain ⟨arguments, flags, -, rfl⟩ := h
      constructor
      · intro st hst
        rcases List.mem_cons.1 hst with rfl | hst
        · exact ⟨rfl, rfl⟩
        · obtain ⟨flag, -, rfl⟩ := List.mem_map.1 hst
          exact ⟨rfl, rfl⟩
      · simp [hm, Statement.binding?, List.filterMap_map, Function.comp_def]
  · rename_i hm
    subst h
    exact ⟨by simp, by simp [hm]⟩

/-- The one declaration of an object, between what prepares it and what works on it. -/
structure Core (v : Visit) (front : List Statement) (declared : Statement)
    (back : List Statement) : Prop where
  preparing : ∀ st ∈ front, st.Preparing
  object : declared.object? = some v.binding
  binding : declared.binding? = some v.binding
  attachment : declared.attachment? = none
  quiet : ∀ st ∈ back, Replay.Quiet st

theorem exists_core_declaration (h : v.Declaration ss) :
    ∃ front declared back, ss = front ++ declared :: back ∧ v.Core front declared back ∧
      front.filterMap Statement.binding? = v.geometryVariables := by
  unfold Declaration at h
  unfold geometryVariables
  cases hg : v.geometry with
  | call function args =>
    rw [hg] at h
    subst h
    refine ⟨[.construct (geometryVar v.binding) function (.ofArgs args)], _, [], rfl,
      ⟨?_, rfl, rfl, rfl, by simp⟩, rfl⟩
    intro st hst
    obtain rfl := List.mem_singleton.1 hst
    exact ⟨rfl, rfl⟩
  | file path =>
    rw [hg] at h
    obtain ⟨asset, rfl⟩ := h
    refine ⟨if v.material.any Material.isFile then [] else [.useMaterials none],
      .parseMesh v.binding asset,
      if v.material.any fun m => !m.isFile then [.paint v.binding] else [], by simp,
      ⟨?_, rfl, rfl, rfl, ?_⟩, ?_⟩
    · intro st hst
      split at hst
      · cases hst
      · obtain rfl := List.mem_singleton.1 hst
        exact ⟨rfl, rfl⟩
    · intro st hst
      split at hst
      · obtain rfl := List.mem_singleton.1 hst
        exact ⟨rfl, rfl, rfl⟩
      · cases hst
    · split <;> rfl

theorem quiet_tracks : ∀ st ∈ v.tracks, Replay.Quiet st := by
  intro st hst
  rcases mem_tracks hst with ⟨text, rfl⟩ | rfl | ⟨name, args, rfl⟩ <;> exact ⟨rfl, rfl, rfl⟩

theorem Block.exists_core (h : v.Block ss) :
    ∃ front declared back rest,
      ss = front ++ declared :: back ++ [.setName v.binding v.name, .attach v.parent v.binding,
        .recordUuid v.binding] ++ rest ∧
      v.Core front declared back ∧ (∀ st ∈ rest, Replay.Quiet st) ∧
      (front ++ [declared]).filterMap Statement.binding? = v.opening := by
  obtain ⟨material, declaration, hmaterial, hdeclaration, rfl⟩ := h
  obtain ⟨hpreparing, hbindings⟩ := preparing_material hmaterial
  obtain ⟨front, declared, back, rfl, hcore, hfront⟩ := exists_core_declaration hdeclaration
  refine ⟨.comment (v.name ++ " object") :: material ++ front, declared, back,
    .followable v.binding :: .blank :: v.tracks, by simp, ⟨?_, hcore.object, hcore.binding,
    hcore.attachment, hcore.quiet⟩, ?_, ?_⟩
  · intro st hst
    simp only [List.cons_append, List.mem_cons, List.mem_append] at hst
    rcases hst with rfl | hst | hst
    · exact ⟨rfl, rfl⟩
    · exact hpreparing st hst
    · exact hcore.preparing st hst
  · intro st hst
    simp only [List.mem_cons] at hst
    rcases hst with rfl | rfl | hst
    · exact ⟨rfl, rfl, rfl⟩
    · exact ⟨rfl, rfl, rfl⟩
    · exact quiet_tracks st hst
  · have comment : (Statement.comment (v.name ++ " object")).binding? = none := rfl
    simp only [List.filterMap_append, hbindings, hfront, hcore.binding, comment, opening,
      List.filterMap_cons, List.filterMap_nil, List.cons_append]

end Visit

namespace Replay

variable {v : Visit} {block : List Statement}

/-- What the block of an object does: it makes one value for the object, attaches it once, and
declares its variables. -/
structure Plays (v : Visit) (r r' : Replay) (value : Nat) (parent : Option Nat) : Prop where
  le : r.next ≤ value
  lt : value < r'.next
  made : r'.made = r.made ++ [value]
  attached : r'.attached = r.attached ++ [(parent, some value)]
  env_binding : r'.env v.binding = some value
  parent_iff {w : Nat} (hw : w < r.next) :
    parent = some w ↔ r.env v.parent = some w ∧ v.parent ∉ v.opening
  env_iff {w : Nat} (hw : w < r.next) (x : String) :
    r'.env x = some w ↔ r.env x = some w ∧ x ∉ v.bindings

theorem uuidVar_ne (x : String) : uuidVar x ≠ x := by
  intro h
  have hlength := congrArg String.length h
  simp [uuidVar] at hlength

theorem plays_block (r : Replay) (h : v.Block block) :
    ∃ value parent, Plays v r (r.run block) value parent := by
  obtain ⟨front, declared, back, rest, rfl, hcore, hrest, hopening⟩ := h.exists_core
  -- all that matters is the declaration, the attachment and the identity
  have hname (r : Replay) : r.step (.setName v.binding v.name) = r := by
    show r.run [.setName v.binding v.name] = r
    refine run_of_quiet fun st hst => ?_
    obtain rfl := List.mem_singleton.1 hst
    exact ⟨rfl, rfl, rfl⟩
  have hrun : r.run (front ++ declared :: back ++ [.setName v.binding v.name,
      .attach v.parent v.binding, .recordUuid v.binding] ++ rest) =
      r.run (front ++ [declared] ++ [.attach v.parent v.binding, .recordUuid v.binding]) := by
    simp only [run_append, run_cons, run_nil, run_of_quiet hrest, run_of_quiet hcore.quiet, hname]
  have hle : r.next ≤ (r.run front).next := next_le_run r front
  have hlt : (r.run front).next < ((r.run front).step declared).next := by
    simp [step, hcore.binding]
  have hmade : (r.run front).made = r.made := made_run fun st hst => (hcore.preparing st hst).1
  have hattached : (r.run front).attached = r.attached :=
    attached_run fun st hst => (hcore.preparing st hst).2
  have henv : ((r.run front).step declared).env v.binding = some (r.run front).next := by
    simp [step, hcore.binding]
  have hdeclared : ((r.run front).step declared).made = r.made ++ [(r.run front).next] := by
    simp [step, hcore.object, hmade]
  have hquiet : ((r.run front).step declared).attached = r.attached := by
    simp [step, hcore.attachment, hattached]
  refine ⟨(r.run front).next, ((r.run front).step declared).env v.parent, ?_⟩
  have hend : r.run (front ++ [declared] ++ [.attach v.parent v.binding, .recordUuid v.binding]) =
      (((r.run front).step declared).step (.attach v.parent v.binding)).step
        (.recordUuid v.binding) := by
    simp only [run_append, run_cons, run_nil]
  rw [hrun]
  constructor
  case le => exact hle
  case lt =>
    rw [hend, step_recordUuid, step_attach]
    exact Nat.lt_succ_of_lt hlt
  case made =>
    rw [hend, step_recordUuid, step_attach]
    exact hdeclared
  case attached =>
    rw [hend, step_recordUuid, step_attach]
    simp only [hquiet, henv]
  case env_binding =>
    rw [hend, step_recordUuid, step_attach]
    simp only [Option.some.injEq, uuidVar_ne, if_false, henv]
  case parent_iff =>
    intro w hw
    have hopened := env_run_iff hw (front ++ [declared]) v.parent
    rwa [run_append, hopening] at hopened
  case env_iff =>
    intro w hw x
    rw [env_run_iff hw, List.filterMap_append, hopening]
    rfl

end Replay

/-! ## Replaying a tree -/

/-- The variables that are declared behind the owner of visit `k` and before this visit. -/
def between (vs : List Visit) (k : Nat) : Option Nat → List String
  | none => (vs.take k).flatMap Visit.bindings
  | some j => ((vs.take k).drop (j + 1)).flatMap Visit.bindings

/-- When an object is attached, the name of its parent still means its parent: it has not been
declared again behind the parent, nor for the object itself. -/
def Unshadowed (vs : List Visit) (os : List (Option Nat)) : Prop :=
  ∀ k < vs.length, ∀ v ∈ vs[k]?, ∀ o ∈ os[k]?, v.parent ∉ between vs k o ++ v.opening

instance (vs : List Visit) (os : List (Option Nat)) : Decidable (Unshadowed vs os) :=
  inferInstanceAs (Decidable (∀ k < vs.length, ∀ v ∈ vs[k]?, ∀ o ∈ os[k]?,
    v.parent ∉ between vs k o ++ v.opening))

theorem between_append_of_le {vs : List Visit} {k : Nat} (hk : k ≤ vs.length) (v : Visit)
    (o : Option Nat) : between (vs ++ [v]) k o = between vs k o := by
  cases o <;> simp only [between, List.take_append_of_le_length hk]

namespace Replay

/-- The value of an owner. -/
def valueOf (r : Replay) : Option Nat → Option Nat
  | none => some sceneValue
  | some j => r.made[j]?

/-- The attachments are those of a tree in which the owners of the objects are `os`: each object has
a value of its own, and is attached once, to the value of its owner. -/
def Rebuilds (r : Replay) (os : List (Option Nat)) : Prop :=
  r.made.length = os.length ∧ (sceneValue :: r.made).Nodup ∧
    r.attached = List.zipWith (fun o value => (r.valueOf o, some value)) os r.made

/-- What holds when the blocks of the first visits have been replayed. The last field says when an
object has been attached to the right value. -/
structure Follows (os : List (Option Nat)) (vs : List Visit) (r : Replay) : Prop where
  scene_lt : sceneValue < r.next
  made_lt : ∀ w ∈ r.made, w < r.next
  made_length : r.made.length = vs.length
  attached_length : r.attached.length = vs.length
  nodup : (sceneValue :: r.made).Nodup
  scene_iff : r.env Emit.rootParent = some sceneValue ↔
    Emit.rootParent ∉ vs.flatMap Visit.bindings
  object_iff {j : Nat} {u : Visit} {w : Nat} (hu : vs[j]? = some u) (hw : r.made[j]? = some w) :
    r.env u.binding = some w ↔ u.binding ∉ (vs.drop (j + 1)).flatMap Visit.bindings
  attached_iff {k : Nat} {u : Visit} {o : Option Nat} (hu : vs[k]? = some u)
    (ho : os[k]? = some o) :
    ∃ parent, r.attached[k]? = some (parent, r.made[k]?) ∧
      (parent = r.valueOf o ↔ u.parent ∉ between vs k o ++ u.opening)

/-- A new visit is attached to the scene or to the visit of its owner. -/
def OwnedBy (vs : List Visit) (v : Visit) (o : Option Nat) : Prop :=
  (v.parent = Emit.rootParent ∧ o = none) ∨
    ∃ j u, j < vs.length ∧ vs[j]? = some u ∧ v.parent = u.binding ∧ o = some j

theorem follows_start (os : List (Option Nat)) : Follows os [] start where
  scene_lt := by decide
  made_lt := by simp [start]
  made_length := rfl
  attached_length := rfl
  nodup := by simp [start]
  scene_iff := by simp [start]
  object_iff hu := by simp at hu
  attached_iff hu := by simp at hu

namespace Follows

variable {os : List (Option Nat)} {vs : List Visit} {v : Visit} {r r' : Replay} {value : Nat}
  {parent : Option Nat}

/-- The new object is attached to its owner's value if the owner's name still means the owner. -/
theorem parent_iff (h : Follows os vs r) (hplays : Plays v r r' value parent) {o : Option Nat}
    (howned : OwnedBy vs v o) :
    parent = r.valueOf o ↔ v.parent ∉ between vs vs.length o ++ v.opening := by
  rw [List.mem_append, not_or]
  rcases howned with ⟨hparent, rfl⟩ | ⟨j, u, hj, hu, hparent, rfl⟩
  · simp only [valueOf, between, List.take_length]
    rw [hplays.parent_iff h.scene_lt, hparent, h.scene_iff]
  · have hlength := h.made_length
    have hw : r.made[j]? = some r.made[j] := List.getElem?_eq_getElem (by omega)
    simp only [valueOf, between, List.take_length]
    rw [hw, hplays.parent_iff (h.made_lt _ (List.mem_of_getElem? hw)), hparent,
      h.object_iff hu hw]

theorem eq_length_of_snoc {k : Nat} {u : Visit} (hk : ¬ k < vs.length)
    (hu : (vs ++ [v])[k]? = some u) : k = vs.length := by
  have hlt := (List.getElem?_eq_some_iff.1 hu).1
  rw [List.length_append, List.length_singleton] at hlt
  omega

/-- The owners so far keep their values. -/
theorem valueOf_eq (h : Follows os vs r) (hplays : Plays v r r' value parent)
    (hordered : ∀ k j : Nat, os[k]? = some (some j) → j < k) {k : Nat} {o : Option Nat}
    (ho : os[k]? = some o) (hk : k ≤ vs.length) : r'.valueOf o = r.valueOf o := by
  cases o with
  | none => rfl
  | some j =>
    have hj : j < r.made.length := by
      have hlt := hordered k j ho
      have hlength := h.made_length
      omega
    simp only [valueOf, hplays.made, List.getElem?_append_left hj]

theorem nodup_snoc (h : Follows os vs r) (hplays : Plays v r r' value parent) :
    (sceneValue :: r'.made).Nodup := by
  have hle := hplays.le
  rw [hplays.made, ← List.cons_append, List.nodup_append]
  refine ⟨h.nodup, by simp, ?_⟩
  intro w hw w' hw' heq
  rw [List.mem_singleton] at hw'
  rcases List.mem_cons.1 hw with rfl | hw
  · have := h.scene_lt
    omega
  · have := h.made_lt w hw
    omega

theorem object_iff_snoc (h : Follows os vs r) (hplays : Plays v r r' value parent) {j : Nat}
    {u : Visit} {w : Nat} (hu : (vs ++ [v])[j]? = some u) (hw : r'.made[j]? = some w) :
    r'.env u.binding = some w ↔
      u.binding ∉ ((vs ++ [v]).drop (j + 1)).flatMap Visit.bindings := by
  have hmade := h.made_length
  by_cases hj : j < vs.length
  · rw [List.getElem?_append_left hj] at hu
    rw [hplays.made, List.getElem?_append_left (by omega)] at hw
    rw [hplays.env_iff (h.made_lt w (List.mem_of_getElem? hw)), h.object_iff hu hw,
      List.drop_append_of_le_length (by omega), List.flatMap_append, List.mem_append, not_or,
      List.flatMap_singleton]
  · obtain rfl := eq_length_of_snoc hj hu
    obtain rfl : v = u := by simpa using hu
    rw [hplays.made, ← hmade] at hw
    obtain rfl : value = w := by simpa using hw
    simp [hplays.env_binding]

theorem attached_iff_snoc (h : Follows os vs r) (hplays : Plays v r r' value parent)
    (hordered : ∀ k j : Nat, os[k]? = some (some j) → j < k)
    (howned : ∀ o, os[vs.length]? = some o → OwnedBy vs v o) {k : Nat} {u : Visit}
    {o : Option Nat} (hu : (vs ++ [v])[k]? = some u) (ho : os[k]? = some o) :
    ∃ parent, r'.attached[k]? = some (parent, r'.made[k]?) ∧
      (parent = r'.valueOf o ↔ u.parent ∉ between (vs ++ [v]) k o ++ u.opening) := by
  have hmade := h.made_length
  have hattached := h.attached_length
  by_cases hk : k < vs.length
  · rw [List.getElem?_append_left hk] at hu
    obtain ⟨p, hp, hiff⟩ := h.attached_iff hu ho
    refine ⟨p, ?_, ?_⟩
    · rw [hplays.attached, hplays.made, List.getElem?_append_left (by omega),
        List.getElem?_append_left (by omega), hp]
    · rw [h.valueOf_eq hplays hordered ho (by omega), hiff, between_append_of_le (by omega)]
  · obtain rfl := eq_length_of_snoc hk hu
    obtain rfl : v = u := by simpa using hu
    refine ⟨parent, ?_, ?_⟩
    · rw [hplays.attached, hplays.made, ← hattached]
      simp [hattached, hmade]
    · rw [h.valueOf_eq hplays hordered ho (Nat.le_refl _), between_append_of_le (Nat.le_refl _),
        h.parent_iff hplays (howned o ho)]

/-- One more block. -/
theorem snoc (h : Follows os vs r) (hplays : Plays v r r' value parent)
    (hordered : ∀ k j : Nat, os[k]? = some (some j) → j < k)
    (howned : ∀ o, os[vs.length]? = some o → OwnedBy vs v o) : Follows os (vs ++ [v]) r' where
  scene_lt := Nat.lt_of_lt_of_le h.scene_lt (Nat.le_trans hplays.le (Nat.le_of_lt hplays.lt))
  made_lt := by
    intro w hw
    rw [hplays.made, List.mem_append, List.mem_singleton] at hw
    rcases hw with hw | rfl
    · have hold := h.made_lt w hw
      have hle := hplays.le
      have hlt := hplays.lt
      omega
    · exact hplays.lt
  made_length := by simp [hplays.made, h.made_length]
  attached_length := by simp [hplays.attached, h.attached_length]
  nodup := h.nodup_snoc hplays
  scene_iff := by
    rw [hplays.env_iff h.scene_lt, h.scene_iff, List.flatMap_append, List.mem_append, not_or,
      List.flatMap_singleton]
  object_iff := h.object_iff_snoc hplays
  attached_iff := h.attached_iff_snoc hplays hordered howned

/-- The blocks of all visits. -/
theorem run {rest : List Visit} {blocks : List (List Statement)} (h : Follows os vs r)
    (linked : Linked Emit.rootParent 0 none (vs ++ rest) os)
    (hblocks : List.Forall₂ Visit.Block rest blocks) :
    Follows os (vs ++ rest) (r.run blocks.flatten) := by
  induction hblocks generalizing vs r with
  | nil => simpa using h
  | @cons v block rest blocks hblock _ ih =>
    obtain ⟨value, parent, hplays⟩ := plays_block r hblock
    have hnext : Follows os (vs ++ [v]) (r.run block) := by
      refine h.snoc hplays (fun k j ho => linked.owner_lt ho) fun o ho => ?_
      rcases linked.link (k := vs.length) (v := v) (by simp) ho with
        hroot | ⟨j, u, hj, hu, hparent, rfl⟩
      · exact .inl hroot
      · rw [List.getElem?_append_left hj] at hu
        exact .inr ⟨j, u, hj, hu, hparent, by simp⟩
    rw [List.append_cons] at linked ⊢
    rw [List.flatten_cons, run_append]
    exact ih hnext linked

theorem rebuilds_iff (h : Follows os vs r) (hlength : os.length = vs.length) :
    r.Rebuilds os ↔ Unshadowed vs os := by
  have hmade := h.made_length
  have hattached := h.attached_length
  constructor
  · rintro ⟨-, -, hzip⟩ k hk v hv o ho
    obtain ⟨parent, hp, hiff⟩ := h.attached_iff hv ho
    obtain ⟨w, hw⟩ : ∃ w, r.made[k]? = some w := ⟨_, List.getElem?_eq_getElem (by omega)⟩
    refine hiff.1 ?_
    rw [hzip, List.getElem?_zipWith, Option.mem_def.1 ho, hw] at hp
    simpa using hp.symm
  · intro hun
    refine ⟨by omega, h.nodup, List.ext_getElem? fun k => ?_⟩
    by_cases hk : k < vs.length
    · obtain ⟨v, hv⟩ : ∃ v, vs[k]? = some v := ⟨_, List.getElem?_eq_getElem hk⟩
      obtain ⟨o, ho⟩ : ∃ o, os[k]? = some o := ⟨_, List.getElem?_eq_getElem (by omega)⟩
      obtain ⟨w, hw⟩ : ∃ w, r.made[k]? = some w := ⟨_, List.getElem?_eq_getElem (by omega)⟩
      obtain ⟨parent, hp, hiff⟩ := h.attached_iff hv ho
      rw [hp, hiff.2 (hun k hk v hv o ho), List.getElem?_zipWith, ho, hw]
    · rw [List.getElem?_eq_none (by omega), List.getElem?_eq_none (by
        rw [List.length_zipWith]; omega)]

end Follows

/-- The blocks of a forest rebuild it exactly if its names are unshadowed. -/
theorem rebuilds_forest_iff {nodes : List (String × Object)} {blocks : List (List Statement)}
    (hgrounded : Object.forestGrounded nodes = true)
    (hblocks : List.Forall₂ Visit.Block (Object.forestVisits Emit.rootParent nodes) blocks) :
    (start.run blocks.flatten).Rebuilds (Object.forestOwners 0 none nodes) ↔
      Unshadowed (Object.forestVisits Emit.rootParent nodes)
        (Object.forestOwners 0 none nodes) := by
  have linked := Object.forestLinked Emit.rootParent 0 none nodes hgrounded
  exact ((follows_start _).run linked hblocks).rebuilds_iff linked.length

end Replay

/-! ## The objects of a program -/

theorem Buffer.marked_append (b : Buffer) (ps : List Piece) : (b.append ps).marked = b.marked := by
  unfold append
  split <;> rfl

namespace Emit

/-- The blocks of the objects stand in the program one behind the other. -/
theorem assemble_objects {scene : Scene} {s t : Session} {text : String}
    (h : (assemble scene).run s = .ok text t) :
    ∃ (blocks : List (List Statement)) (before after : String),
      List.Forall₂ Visit.Block (Object.forestVisits rootParent scene.objects) blocks ∧
      text = before ++ Buffer.textOf (blocks.flatten.map .statement) ++ after := by
  obtain ⟨s₁, s₂, s₃, hproperties, hobjects, hlights, -, rfl⟩ := assemble_eq_ok h
  obtain ⟨ps, wproperties, -, -⟩ := propertySection_of_run hproperties
  obtain ⟨blocks, hblocks, wobjects⟩ := objects_writes _ _ hobjects
  obtain ⟨ls, wlights, -⟩ := lights_of_run hlights
  have hmarked : s₁.buffer.marked = true := by
    rw [wproperties.buffer, Buffer.marked_append]
    rfl
  let ending : Piece :=
    .fixed (Template.ending scene.options.showStats s₃.inserts.frameUpdates)
  refine ⟨blocks, s₁.buffer.finish s₃.inserts.headerText,
    Buffer.textOf (ls.map .statement ++ [ending]), hblocks, ?_⟩
  rw [wlights.buffer, wobjects.buffer, Buffer.append_append, Buffer.append_push,
    Buffer.finish_append hmarked, List.append_assoc, Buffer.textOf_append, String.append_assoc]

/-- The objects of a program, with their parents all declared, rebuild the tree that the program was
made from if and only if no name of a parent is declared again before a child is attached. -/
theorem rebuilds_iff_unshadowed {scene : Scene} {s t : Session} {text : String}
    (hgrounded : Object.forestGrounded scene.objects = true)
    (h : (assemble scene).run s = .ok text t) :
    ∃ (blocks : List (List Statement)) (before after : String),
      List.Forall₂ Visit.Block (Object.forestVisits rootParent scene.objects) blocks ∧
      text = before ++ Buffer.textOf (blocks.flatten.map .statement) ++ after ∧
      ((Replay.start.run blocks.flatten).Rebuilds (Object.forestOwners 0 none scene.objects) ↔
        Unshadowed (Object.forestVisits rootParent scene.objects)
          (Object.forestOwners 0 none scene.objects)) := by
  obtain ⟨blocks, before, after, hblocks, htext⟩ := assemble_objects h
  exact ⟨blocks, before, after, hblocks, htext, Replay.rebuilds_forest_iff hgrounded hblocks⟩

theorem rebuilds_iff_unshadowed_litPair :
    Object.forestGrounded litPair.objects = true ∧
      ∃ text t, (assemble litPair).run (.new ⟨"/"⟩ ⟨"/out"⟩ .empty) = .ok text t ∧
        ∃ (blocks : List (List Statement)) (before after : String),
          List.Forall₂ Visit.Block (Object.forestVisits rootParent litPair.objects) blocks ∧
          text = before ++ Buffer.textOf (blocks.flatten.map .statement) ++ after ∧
          (Replay.start.run blocks.flatten).Rebuilds
            (Object.forestOwners 0 none litPair.objects) := by
  have run : ∃ text t, (assemble litPair).run (.new ⟨"/"⟩ ⟨"/out"⟩ .empty) = .ok text t :=
    ⟨_, _, rfl⟩
  obtain ⟨text, t, ht⟩ := run
  obtain ⟨blocks, before, after, hblocks, htext, hiff⟩ := rebuilds_iff_unshadowed rfl ht
  exact ⟨rfl, text, t, ht, blocks, before, after, hblocks, htext, hiff.2 (by decide +kernel)⟩

/-- An object with a child of its own name. -/
def twins : Scene where
  objects :=
    [("a", ⟨some (.call "BoxGeometry" (.positional [])), none, [],
      [("a", ⟨some (.call "BoxGeometry" (.positional [])), none, [], []⟩)]⟩)]
  lights := []
  properties := []
  options := .default

/-- The second `a` takes the place of the first before it is attached to it. -/
theorem twins_not_rebuilt :
    Object.forestGrounded twins.objects = true ∧
      ∃ text t, (assemble twins).run (.new ⟨"/"⟩ ⟨"/out"⟩ .empty) = .ok text t ∧
        ∃ (blocks : List (List Statement)) (before after : String),
          List.Forall₂ Visit.Block (Object.forestVisits rootParent twins.objects) blocks ∧
          text = before ++ Buffer.textOf (blocks.flatten.map .statement) ++ after ∧
          ¬ (Replay.start.run blocks.flatten).Rebuilds
            (Object.forestOwners 0 none twins.objects) := by
  have run : ∃ text t, (assemble twins).run (.new ⟨"/"⟩ ⟨"/out"⟩ .empty) = .ok text t :=
    ⟨_, _, rfl⟩
  obtain ⟨text, t, ht⟩ := run
  obtain ⟨blocks, before, after, hblocks, htext⟩ := assemble_objects ht
  have hiff := Replay.rebuilds_forest_iff (show Object.forestGrounded twins.objects = true from rfl)
    hblocks
  exact ⟨rfl, text, t, ht, blocks, before, after, hblocks, htext, mt hiff.1 (by decide +kernel)⟩

end Emit

end SceneScript
