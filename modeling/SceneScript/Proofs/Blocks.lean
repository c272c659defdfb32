import Mathlib.Data.List.Forall2
import SceneScript.Proofs.Needs

/-!
# The blocks of a tree of objects

`Object.visits` lists the objects of a tree that have a geometry, each before its children and with
the variable it is attached to. `Visit.Block` says what the statements of one of them look like.
`object_writes` and `objects_writes`: an emission writes one block for each visit, in order, and
nothing else. `object_blocks` adds what follows about the order of the statements: a track comes
behind the identity it uses, and an object is attached behind the declaration of its parent.
-/

namespace SceneScript

/-- An object with a geometry, with its name and the variable it is attached to. -/
structure Visit where
  name : String
  parent : String
  geometry : Geometry
  material : Option Material
  animations : Entries (List Value)

namespace Visit

/-- The variable of the object. -/
def binding (v : Visit) : String :=
  Text.identifier v.name

/-- The statements for the material, if there is one. -/
def MaterialPart (v : Visit) (ss : List Statement) : Prop :=
  match v.material with
  | some m => Emit.MaterialStatements v.binding m ss
  | none => ss = []

/-- The statements that declare the object. A constructed geometry has a variable of its own; a
mesh file is read with the materials of a library file or with none, and painted afterwards with a
constructed material. -/
def Declaration (v : Visit) (ss : List Statement) : Prop :=
  match v.geometry with
  | .call function args =>
    ss = [.construct (geometryVar v.binding) function (.ofArgs args),
      .mesh v.binding (v.material.any fun m => !m.isFile)]
  | .file _ => ∃ asset, ss =
    (if v.material.any Material.isFile then [] else [.useMaterials none]) ++
      [.parseMesh v.binding asset] ++
      (if v.material.any fun m => !m.isFile then [.paint v.binding] else [])

/-- The statements for the animations: one track each, between a comment and a blank line. -/
def tracks (v : Visit) : List Statement :=
  if v.animations.isEmpty then []
  else
    .comment (v.name ++ " animations") ::
      (v.animations.map fun track => .track v.binding track.1 track.2) ++ [.blank]

/-- The statements of an object. -/
def Block (v : Visit) (ss : List Statement) : Prop :=
  ∃ material declaration, v.MaterialPart material ∧ v.Declaration declaration ∧
    ss = [.comment (v.name ++ " object")] ++ material ++ declaration ++
      [.setName v.binding v.name, .attach v.parent v.binding, .recordUuid v.binding,
        .followable v.binding, .blank] ++
      v.tracks

end Visit

namespace Object

mutual

/-- The objects of a tree that have a geometry, each before its children. One without geometry is
left out, but its children are attached to its name all the same. -/
def visits (name parent : String) : Object → List Visit
  | ⟨some g, m, tracks, children⟩ =>
    ⟨name, parent, g, m, tracks⟩ :: forestVisits (Text.identifier name) children
  | ⟨none, _, _, children⟩ => forestVisits (Text.identifier name) children

/-- The objects of several trees that have a geometry. -/
def forestVisits (parent : String) : List (String × Object) → List Visit
  | [] => []
  | (name, node) :: rest => node.visits name parent ++ forestVisits parent rest

end

mutual

/-- For each visit of a tree the number of the visit that it is a child of, where `number` visits
come before the tree and its root is a child of `owner`. -/
def owners (number : Nat) (owner : Option Nat) : Object → List (Option Nat)
  | ⟨some _, _, _, children⟩ => owner :: forestOwners (number + 1) (some number) children
  | ⟨none, _, _, children⟩ => forestOwners number owner children

/-- For each visit of several trees the number of the visit that it is a child of. -/
def forestOwners (number : Nat) (owner : Option Nat) : List (String × Object) → List (Option Nat)
  | [] => []
  | (_, node) :: rest =>
    let here := node.owners number owner
    here ++ forestOwners (number + here.length) owner rest

end

mutual

/-- Whether every object with children has a geometry. -/
def grounded : Object → Bool
  | ⟨g, _, _, children⟩ => (g.isSome || children.isEmpty) && forestGrounded children

/-- Whether in several trees every object with children has a geometry. -/
def forestGrounded : List (String × Object) → Bool
  | [] => true
  | (_, node) :: rest => node.grounded && forestGrounded rest

end

end Object

/-! ## Visits and their parents -/

/-- Each visit is attached to the variable of the visit that it is a child of, which comes before
it, or to `parent` where it is a child of `owner`. -/
structure Linked (parent : String) (number : Nat) (owner : Option Nat) (vs : List Visit)
    (os : List (Option Nat)) : Prop where
  length : os.length = vs.length
  link {k : Nat} {v : Visit} {o : Option Nat} (hv : vs[k]? = some v) (ho : os[k]? = some o) :
    (v.parent = parent ∧ o = owner) ∨
      ∃ j u, j < k ∧ vs[j]? = some u ∧ v.parent = u.binding ∧ o = some (number + j)

namespace Linked

variable {parent : String} {number : Nat} {owner : Option Nat} {vs vs' : List Visit}
  {os os' : List (Option Nat)}

theorem nil : Linked parent number owner [] [] :=
  ⟨rfl, by simp⟩

/-- The children of the first visit behind it. -/
theorem cons {v : Visit} (hv : v.parent = parent)
    (h : Linked v.binding (number + 1) (some number) vs os) :
    Linked parent number owner (v :: vs) (owner :: os) where
  length := by simp [h.length]
  link {k u o} hu ho := by
    cases k with
    | zero =>
      obtain rfl : v = u := by simpa using hu
      obtain rfl : owner = o := by simpa using ho
      exact .inl ⟨hv, rfl⟩
    | succ k =>
      rw [List.getElem?_cons_succ] at hu ho
      refine .inr ?_
      rcases h.link hu ho with ⟨hparent, rfl⟩ | ⟨j, w, hj, hw, hparent, rfl⟩
      · exact ⟨0, v, by omega, rfl, hparent, rfl⟩
      · exact ⟨j + 1, w, by omega, hw, hparent, by congr 1; omega⟩

theorem append (h : Linked parent number owner vs os)
    (h' : Linked parent (number + os.length) owner vs' os') :
    Linked parent number owner (vs ++ vs') (os ++ os') where
  length := by simp [h.length, h'.length]
  link {k v o} hv ho := by
    have hlength := h.length
    by_cases hk : k < vs.length
    · rw [List.getElem?_append_left hk] at hv
      rw [List.getElem?_append_left (by omega)] at ho
      rcases h.link hv ho with hroot | ⟨j, u, hj, hu, hparent, ho⟩
      · exact .inl hroot
      · exact .inr ⟨j, u, hj, by rwa [List.getElem?_append_left (by omega)], hparent, ho⟩
    · rw [List.getElem?_append_right (by omega)] at hv ho
      rw [hlength] at ho
      rcases h'.link hv ho with hroot | ⟨j, u, hj, hu, hparent, rfl⟩
      · exact .inl hroot
      · refine .inr ⟨vs.length + j, u, by omega, ?_, hparent, by congr 1; omega⟩
        rwa [List.getElem?_append_right (by omega), Nat.add_sub_cancel_left]

/-- An owner comes before its children. -/
theorem owner_lt (h : Linked parent 0 none vs os) {k j : Nat} (ho : os[k]? = some (some j)) :
    j < k := by
  have hk : k < vs.length := h.length ▸ (List.getElem?_eq_some_iff.1 ho).1
  rcases h.link (List.getElem?_eq_getElem hk) ho with ⟨-, hroot⟩ | ⟨i, u, hi, -, -, hi'⟩
  · cases hroot
  · obtain rfl : j = 0 + i := Option.some.inj hi'
    omega

end Linked

mutual

theorem Object.linked (name parent : String) (number : Nat) (owner : Option Nat) :
    ∀ node : Object, node.grounded = true →
      Linked parent number owner (node.visits name parent) (node.owners number owner)
  | ⟨some g, m, tracks, children⟩, h => by
    simp only [grounded, Option.isSome_some, Bool.true_or, Bool.true_and] at h
    exact .cons rfl (forestLinked _ _ _ children h)
  | ⟨none, m, tracks, []⟩, _ => .nil
  | ⟨none, m, tracks, _ :: _⟩, h => by simp [grounded] at h

theorem Object.forestLinked (parent : String) (number : Nat) (owner : Option Nat) :
    ∀ nodes : List (String × Object), Object.forestGrounded nodes = true →
      Linked parent number owner (Object.forestVisits parent nodes)
        (Object.forestOwners number owner nodes)
  | [], _ => .nil
  | (name, node) :: rest, h => by
    simp only [forestGrounded, Bool.and_eq_true] at h
    exact .append (Object.linked name parent number owner node h.1)
      (Object.forestLinked parent _ owner rest h.2)

end

namespace Emit

variable {s t : Session}

/-! ## One block for each visit -/

/-- A mesh file is embedded first, and all its statements come behind. -/
theorem geometry_file (object path : String) (material : Option Material) :
    geometry object material (.file path) = (do
      let asset ← embed path
      useObjLoader
      statements ((if material.any Material.isFile then [] else [.useMaterials none]) ++
        [.parseMesh object asset] ++
        (if material.any fun m => !m.isFile then [.paint object] else []))) := by
  unfold geometry
  cases material with
  | none => simp [statements]
  | some m => cases m <;> simp [statements, Material.isFile]

theorem geometry_writes (v : Visit)
    (h : (geometry v.binding v.material v.geometry).run s = .ok () t) :
    ∃ ss, v.Declaration ss ∧ s.Writes ss t := by
  unfold Visit.Declaration
  cases hg : v.geometry with
  | call function args =>
    rw [hg] at h
    obtain ⟨_, _, hconstruct, hmesh⟩ := run_bind_eq_ok.1 h
    refine ⟨_, rfl, ((statement_adds hconstruct).trans (statement_adds hmesh)).writes ?_⟩
    rw [List.flatMap_append, List.flatMap_singleton, needs_construct_ofArgs]
    rfl
  | file path =>
    rw [hg, geometry_file] at h
    obtain ⟨asset, _, hembed, rest⟩ := run_bind_eq_ok.1 h
    obtain ⟨_, _, hloader, hstatements⟩ := run_bind_eq_ok.1 rest
    refine ⟨_, ⟨asset, rfl⟩, ((embed_adds hembed).trans ((useObjLoader_adds hloader).trans
      (statements_adds hstatements))).writes ?_⟩
    cases v.material with
    | none => rfl
    | some m => cases m <;> rfl

theorem placement_needs (name object parent : String) :
    (placement name object parent).flatMap Statement.needs = [] := rfl

theorem tracks_needs (v : Visit) : v.tracks.flatMap Statement.needs = [] := by
  unfold Visit.tracks
  split
  · rfl
  · simp [List.flatMap_map, Statement.needs]

/-- The material of an object, if there is one. -/
def materialOf (v : Visit) : Emit Unit :=
  match v.material with
  | some m => material v.binding m
  | none => pure ()

theorem materialOf_writes (v : Visit) (h : (materialOf v).run s = .ok () t) :
    ∃ ss, v.MaterialPart ss ∧ s.Writes ss t := by
  unfold materialOf at h
  unfold Visit.MaterialPart
  cases hm : v.material with
  | none =>
    rw [hm] at h
    cases h
    exact ⟨[], rfl, .refl _⟩
  | some m =>
    rw [hm] at h
    exact material_writes h

theorem objectBlock_eq (v : Visit) (children : List (String × Object)) :
    objectBlock v.name v.binding ⟨some v.geometry, v.material, v.animations, children⟩ v.parent =
      (do
        statement (.comment (v.name ++ " object"))
        materialOf v
        geometry v.binding v.material v.geometry
        statements (placement v.name v.binding v.parent)
        statements v.tracks) := by
  unfold objectBlock materialOf
  cases v.material <;> rfl

/-- The block of an object with a geometry, with a property of the statements for its material. -/
theorem objectBlock_writes_of (v : Visit) {P : List Statement → Prop}
    (hP : ∀ {s t : Session}, (materialOf v).run s = .ok () t → ∃ ss, P ss ∧ s.Writes ss t)
    {children : List (String × Object)}
    (h : (objectBlock v.name v.binding ⟨some v.geometry, v.material, v.animations, children⟩
      v.parent).run s = .ok () t) :
    ∃ material declaration, P material ∧ v.Declaration declaration ∧
      s.Writes ([.comment (v.name ++ " object")] ++ material ++ declaration ++
        placement v.name v.binding v.parent ++ v.tracks) t := by
  rw [objectBlock_eq] at h
  obtain ⟨_, _, hcomment, rest₁⟩ := run_bind_eq_ok.1 h
  obtain ⟨_, _, hmaterial, rest₂⟩ := run_bind_eq_ok.1 rest₁
  obtain ⟨_, _, hgeometry, rest₃⟩ := run_bind_eq_ok.1 rest₂
  obtain ⟨_, _, hplacement, htracks⟩ := run_bind_eq_ok.1 rest₃
  obtain ⟨material, hmaterial, wmaterial⟩ := hP hmaterial
  obtain ⟨declaration, hdeclaration, wdeclaration⟩ := geometry_writes v hgeometry
  have wcomment := (statement_adds hcomment).writes rfl
  have wplacement := (statements_adds hplacement).writes (placement_needs _ _ _).symm
  have wtracks := (statements_adds htracks).writes (tracks_needs v).symm
  exact ⟨material, declaration, hmaterial, hdeclaration,
    (((wcomment.trans wmaterial).trans wdeclaration).trans wplacement).trans wtracks⟩

theorem objectBlock_writes (v : Visit) {children : List (String × Object)}
    (h : (objectBlock v.name v.binding ⟨some v.geometry, v.material, v.animations, children⟩
      v.parent).run s = .ok () t) : ∃ block, v.Block block ∧ s.Writes block t := by
  obtain ⟨material, declaration, hmaterial, hdeclaration, hw⟩ :=
    objectBlock_writes_of v (materialOf_writes v) h
  exact ⟨_, ⟨material, declaration, hmaterial, hdeclaration, rfl⟩, hw⟩

/-- An object without geometry writes nothing. -/
theorem objectBlock_none_writes {name object parent : String} {m : Option Material}
    {tracks : Entries (List Value)} {children : List (String × Object)}
    (h : (objectBlock name object ⟨none, m, tracks, children⟩ parent).run s = .ok () t) :
    s.Writes [] t := by
  unfold objectBlock at h
  dsimp only at h
  split at h
  · cases h
    exact ⟨by simp, rfl⟩
  · cases h
    exact .refl _

/-- Every object with a geometry writes a block with a property. -/
def WritesEach (R : Visit → List Statement → Prop) : Prop :=
  ∀ (v : Visit) (s t : Session),
    (objectBlock v.name v.binding ⟨some v.geometry, v.material, v.animations, []⟩ v.parent).run s =
        .ok () t →
      ∃ block, R v block ∧ s.Writes block t

theorem writesEach_block : WritesEach Visit.Block :=
  fun v _ _ h => objectBlock_writes v h

mutual

/-- What holds of the block of every object holds of the blocks of a tree. -/
theorem object_writes_of {R : Visit → List Statement → Prop} (hR : WritesEach R)
    (name parent : String) : ∀ (node : Object) {s t : Session},
    (object name parent node).run s = .ok () t →
      ∃ blocks, List.Forall₂ R (node.visits name parent) blocks ∧ s.Writes blocks.flatten t
  | ⟨some g, m, tracks, children⟩, s, t, h => by
    obtain ⟨_, _, hblock, hchildren⟩ := run_bind_eq_ok.1 h
    obtain ⟨block, hshape, wblock⟩ := hR ⟨name, parent, g, m, tracks⟩ _ _ hblock
    obtain ⟨blocks, hshapes, wblocks⟩ := objects_writes_of hR _ children hchildren
    exact ⟨block :: blocks, .cons hshape hshapes, wblock.trans wblocks⟩
  | ⟨none, m, tracks, children⟩, s, t, h => by
    obtain ⟨_, _, hblock, hchildren⟩ := run_bind_eq_ok.1 h
    obtain ⟨blocks, hshapes, wblocks⟩ := objects_writes_of hR _ children hchildren
    exact ⟨blocks, hshapes, (objectBlock_none_writes hblock).trans wblocks⟩

theorem objects_writes_of {R : Visit → List Statement → Prop} (hR : WritesEach R)
    (parent : String) : ∀ (nodes : List (String × Object)) {s t : Session},
    (objects parent nodes).run s = .ok () t →
      ∃ blocks, List.Forall₂ R (Object.forestVisits parent nodes) blocks ∧
        s.Writes blocks.flatten t
  | [], s, t, h => by
    cases h
    exact ⟨[], .nil, .refl _⟩
  | (name, node) :: rest, s, t, h => by
    obtain ⟨_, _, hnode, hrest⟩ := run_bind_eq_ok.1 h
    obtain ⟨blocks, hshapes, wblocks⟩ := object_writes_of hR name parent node hnode
    obtain ⟨more, hmore, wmore⟩ := objects_writes_of hR parent rest hrest
    refine ⟨blocks ++ more, List.rel_append hshapes hmore, ?_⟩
    rw [List.flatten_append]
    exact wblocks.trans wmore

end

theorem object_writes (name parent : String) (node : Object)
    (h : (object name parent node).run s = .ok () t) :
    ∃ blocks, List.Forall₂ Visit.Block (node.visits name parent) blocks ∧
      s.Writes blocks.flatten t :=
  object_writes_of writesEach_block name parent node h

theorem objects_writes (parent : String) (nodes : List (String × Object))
    (h : (objects parent nodes).run s = .ok () t) :
    ∃ blocks, List.Forall₂ Visit.Block (Object.forestVisits parent nodes) blocks ∧
      s.Writes blocks.flatten t :=
  objects_writes_of writesEach_block parent nodes h

end Emit

/-! ## The order of the statements -/

/-- A place in two lists is a place in the first or in the second. -/
theorem split_of_append {α : Type} {front rest before after : List α} {a : α}
    (h : front ++ rest = before ++ a :: after) :
    (∃ back, front = before ++ a :: back) ∨
      ∃ between, before = front ++ between ∧ rest = between ++ a :: after := by
  rcases List.append_eq_append_iff.1 h with hrest | ⟨back, rfl, hback⟩
  · exact .inr hrest
  · cases back with
    | nil => exact .inr ⟨[], by simp, by simpa using hback.symm⟩
    | cons b back =>
      obtain ⟨rfl, -⟩ := List.cons.inj hback
      exact .inl ⟨back, rfl⟩

/-- A place in several lists is a place in one of them. -/
theorem split_of_flatten {α : Type} {blocks : List (List α)} {before after : List α} {a : α}
    (h : blocks.flatten = before ++ a :: after) :
    ∃ k front back, blocks[k]? = some (front ++ a :: back) ∧
      before = (blocks.take k).flatten ++ front := by
  induction blocks generalizing before with
  | nil => simp at h
  | cons block blocks ih =>
    rcases split_of_append h with ⟨back, rfl⟩ | ⟨rest, rfl, hrest⟩
    · exact ⟨0, before, back, rfl, rfl⟩
    · obtain ⟨k, front, back, hk, rfl⟩ := ih hrest
      exact ⟨k + 1, front, back, hk, by simp⟩

theorem forall₂_getElem? {α β : Type} {R : α → β → Prop} {as : List α} {bs : List β}
    (h : List.Forall₂ R as bs) {k : Nat} {b : β} (hb : bs[k]? = some b) :
    ∃ a, as[k]? = some a ∧ R a b := by
  induction h generalizing k with
  | nil => simp at hb
  | cons hab _ ih =>
    cases k with
    | zero =>
      cases hb
      exact ⟨_, rfl, hab⟩
    | succ k => exact ih hb

namespace Statement

/-- The variable that a statement declares. -/
def binding? : Statement → Option String
  | .construct binding _ _ | .parseMaterials binding _ => some binding
  | .mesh object _ | .parseMesh object _ => some object
  | .recordUuid object => some (uuidVar object)
  | _ => none

/-- A text that starts by declaring a variable. -/
def Declares (x text : String) : Prop :=
  ∃ value, text = "var " ++ x ++ " = " ++ value

theorem Declares.start {x text : String} (value : String) (h : text = " = " ++ value) :
    Declares x ("var " ++ x ++ text) :=
  ⟨value, by rw [h, String.append_assoc, String.append_assoc, String.append_assoc]⟩

theorem Declares.append {x text : String} (h : Declares x text) (more : String) :
    Declares x (text ++ more) := by
  obtain ⟨value, rfl⟩ := h
  exact ⟨value ++ more, String.append_assoc⟩

theorem declares_of_binding? {st : Statement} {x : String} (h : st.binding? = some x) :
    Declares x st.code := by
  have mesh : Declares x ("var " ++ x ++ " = new THREE.Mesh(") := .start "new THREE.Mesh(" rfl
  cases st with
  | construct binding function args =>
    cases h
    exact ((((Declares.start "new THREE." rfl).append _).append _).append _).append _
  | parseMaterials binding asset =>
    cases h
    exact ((Declares.start "MTL_LOADER.parse(" rfl).append _).append _
  | mesh object withMaterial =>
    cases h
    cases withMaterial with
    | true => exact (((mesh.append _).append _).append _).append _
    | false => exact (mesh.append _).append _
  | parseMesh object asset =>
    cases h
    exact ((Declares.start "OBJ_LOADER.parse(" rfl).append _).append _
  | recordUuid object =>
    cases h
    exact ⟨object ++ ".uuid;", String.append_assoc⟩
  | _ => cases h

/-- Whether a statement makes an object, its geometry or its material. -/
def isMaking : Statement → Bool
  | .construct .. | .parseMaterials .. | .preload .. | .useMaterials .. | .extension ..
  | .mesh .. | .parseMesh .. | .paint .. => true
  | _ => false

end Statement

namespace Visit

variable {v : Visit} {ss before after : List Statement} {st : Statement}

theorem isMaking_of_material (h : v.MaterialPart ss) (hst : st ∈ ss) : st.isMaking = true := by
  unfold MaterialPart at h
  split at h
  · rename_i m _
    cases m with
    | file path =>
      obtain ⟨asset, rfl⟩ := h
      simp only [List.mem_cons, List.not_mem_nil, or_false] at hst
      rcases hst with rfl | rfl | rfl <;> rfl
    | call function args glslify =>
      obtain ⟨arguments, flags, -, rfl⟩ := h
      rcases List.mem_cons.1 hst with rfl | hst
      · rfl
      · obtain ⟨flag, -, rfl⟩ := List.mem_map.1 hst
        rfl
  · subst h
    cases hst

theorem isMaking_of_declaration (h : v.Declaration ss) (hst : st ∈ ss) : st.isMaking = true := by
  unfold Declaration at h
  split at h
  · subst h
    simp only [List.mem_cons, List.not_mem_nil, or_false] at hst
    rcases hst with rfl | rfl <;> rfl
  · obtain ⟨asset, rfl⟩ := h
    simp only [List.mem_append, List.mem_singleton] at hst
    rcases hst with (hst | rfl) | hst
    · split at hst <;> simp at hst
      subst hst
      rfl
    · rfl
    · split at hst <;> simp at hst
      subst hst
      rfl

theorem mem_tracks (h : st ∈ v.tracks) :
    (∃ text, st = .comment text) ∨ st = .blank ∨ ∃ name args, st = .track v.binding name args := by
  unfold tracks at h
  split at h
  · cases h
  · simp only [List.cons_append, List.mem_cons, List.mem_append, List.mem_map, List.not_mem_nil,
      or_false] at h
    rcases h with rfl | ⟨track, -, rfl⟩ | rfl
    · exact .inl ⟨_, rfl⟩
    · exact .inr (.inr ⟨track.1, track.2, rfl⟩)
    · exact .inr (.inl rfl)

namespace Block

theorem attach_eq {p x : String} (h : v.Block ss) (hst : .attach p x ∈ ss) :
    p = v.parent ∧ x = v.binding := by
  obtain ⟨material, declaration, hmaterial, hdeclaration, rfl⟩ := h
  simp only [List.mem_append, List.mem_cons, List.not_mem_nil, or_false] at hst
  rcases hst with (((hst | hst) | hst) | hst) | hst
  · cases hst
  · cases isMaking_of_material hmaterial hst
  · cases isMaking_of_declaration hdeclaration hst
  · rcases hst with hst | hst | hst | hst | hst
    on_goal 2 => cases hst; exact ⟨rfl, rfl⟩
    all_goals cases hst
  · rcases mem_tracks hst with ⟨text, hst⟩ | hst | ⟨name, args, hst⟩ <;> cases hst

theorem declares (h : v.Block ss) : ∃ st ∈ ss, st.binding? = some v.binding := by
  obtain ⟨material, declaration, -, hdeclaration, rfl⟩ := h
  unfold Declaration at hdeclaration
  split at hdeclaration
  · subst hdeclaration
    exact ⟨.mesh v.binding (v.material.any fun m => !m.isFile), by simp, rfl⟩
  · obtain ⟨asset, rfl⟩ := hdeclaration
    exact ⟨.parseMesh v.binding asset, by simp, rfl⟩

/-- A track stands behind everything else in its block. -/
theorem recordUuid_mem {x name : String} {args : List Value}
    (h : v.Block (before ++ .track x name args :: after)) : .recordUuid x ∈ before := by
  obtain ⟨material, declaration, hmaterial, hdeclaration, hblock⟩ := h
  rcases split_of_append hblock.symm with ⟨back, hfront⟩ | ⟨front, rfl, htracks⟩
  · have hst : Statement.track x name args ∈ before ++ .track x name args :: back := by simp
    rw [← hfront] at hst
    simp only [List.mem_append, List.mem_cons, List.not_mem_nil, or_false, reduceCtorEq,
      false_or] at hst
    rcases hst with hst | hst
    · cases isMaking_of_material hmaterial hst
    · cases isMaking_of_declaration hdeclaration hst
  · have hst : Statement.track x name args ∈ v.tracks := by simp [htracks]
    rcases mem_tracks hst with ⟨text, hst⟩ | hst | ⟨name, args, hst⟩ <;> cases hst
    simp

end Block

end Visit

namespace Emit

/-- Each object of a tree that has a geometry writes its block, before its children and in the order
of the document, and attached to its parent; nothing else is written. So a track finds the identity
it uses, and in a tree where all parents have a geometry an object finds its parent declared. -/
theorem object_blocks {name parent : String} {node : Object} {s t : Session}
    (h : (object name parent node).run s = .ok () t) :
    ∃ blocks : List (List Statement),
      List.Forall₂ Visit.Block (node.visits name parent) blocks ∧
      t.buffer = s.buffer.append (blocks.flatten.map .statement) ∧
      (∀ before after x track args, blocks.flatten = before ++ .track x track args :: after →
        .recordUuid x ∈ before) ∧
      (node.grounded = true → ∀ before after p x,
        blocks.flatten = before ++ .attach p x :: after → p ≠ parent →
          ∃ st ∈ before, Statement.Declares p st.code) := by
  obtain ⟨blocks, hblocks, hw⟩ := object_writes name parent node h
  refine ⟨blocks, hblocks, hw.buffer, ?_, ?_⟩
  · intro before after x track args hsplit
    obtain ⟨k, front, back, hk, rfl⟩ := split_of_flatten hsplit
    obtain ⟨v, -, hv⟩ := forall₂_getElem? hblocks hk
    exact List.mem_append_right _ hv.recordUuid_mem
  · intro hgrounded before after p x hsplit hp
    obtain ⟨k, front, back, hk, rfl⟩ := split_of_flatten hsplit
    obtain ⟨v, hvisit, hv⟩ := forall₂_getElem? hblocks hk
    obtain ⟨rfl, -⟩ := hv.attach_eq (List.mem_append_right _ List.mem_cons_self)
    have linked := node.linked name parent 0 none hgrounded
    -- the parent is not the given one, so it is an earlier visit
    have howner : ∃ o, (node.owners 0 none)[k]? = some o :=
      ⟨_, List.getElem?_eq_getElem (by
        rw [linked.length]; exact (List.getElem?_eq_some_iff.1 hvisit).1)⟩
    obtain ⟨o, ho⟩ := howner
    rcases linked.link hvisit ho with ⟨hparent, -⟩ | ⟨j, u, hj, hu, hparent, -⟩
    · exact absurd hparent hp
    · obtain ⟨block, hblock, hub⟩ := forall₂_getElem? hblocks.flip hu
      obtain ⟨st, hst, hbinding⟩ := Visit.Block.declares hub
      have hearlier : block ∈ blocks.take k := by
        refine List.mem_of_getElem? (i := j) ?_
        rw [List.getElem?_take_of_lt hj, hblock]
      refine ⟨st, List.mem_append_left _ (List.mem_flatten_of_mem hearlier hst), ?_⟩
      rw [hparent]
      exact Statement.declares_of_binding? hbinding

/-- A turning body with a child for which a material is made, and a leaf that only has a name. -/
def turningBody : Object where
  geometry := some (.call "BoxGeometry" (.positional [.string "1"]))
  material := none
  animations := [("position", []), ("quaternion", [])]
  children :=
    [("left arm", ⟨some (.call "SphereGeometry" (.positional [])),
        some (.call "MeshStandardMaterial" (.positional []) false), [], []⟩),
      ("2nd", ⟨none, none, [], []⟩)]

theorem object_blocks_turningBody :
    ∃ t, (object "the body" rootParent turningBody).run (.new ⟨"/"⟩ ⟨"/out"⟩ .empty) = .ok () t ∧
      ∃ blocks : List (List Statement),
        List.Forall₂ Visit.Block (turningBody.visits "the body" rootParent) blocks ∧
        blocks.length = 2 ∧ t.buffer = Buffer.empty.append (blocks.flatten.map .statement) ∧
        ∀ before after p x, blocks.flatten = before ++ .attach p x :: after → p ≠ rootParent →
          ∃ st ∈ before, Statement.Declares p st.code := by
  have run : ∃ t, (object "the body" rootParent turningBody).run
      (.new ⟨"/"⟩ ⟨"/out"⟩ .empty) = .ok () t := ⟨_, rfl⟩
  obtain ⟨t, ht⟩ := run
  obtain ⟨blocks, hblocks, hbuffer, -, hattach⟩ := object_blocks ht
  exact ⟨t, ht, blocks, hblocks, hblocks.length_eq.symm, hbuffer, hattach rfl⟩

end Emit

end SceneScript
