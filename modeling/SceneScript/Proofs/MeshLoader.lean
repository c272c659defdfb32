import SceneScript.Proofs.ProgramBody
import SceneScript.Proofs.Replay

/-!
# The mesh loader of a program

One loader reads all mesh files of a program. It reads them with the materials that were handed to
it last, whichever object they belong to, so every object has to set them anew. `MeshLoader` replays
the statements of a program with the state of the loader, and `ReadsOwn` says that each mesh file is
read with the materials that its own object has just loaded, or with none.

`Visit.Block.at_reading` finds the reading in the block of an object and `materials_at_reading` the
state of the loader there. `meshes_read_own_materials` puts the blocks of a program together, also
of one that fails to assemble, and adds that a program which uses a loader has its import and its
constant once in its header.
-/

namespace SceneScript

/-! ## Replaying the loader -/

/-- The mesh loader among the variables of a program. Its materials are null, or the value of the
variable that was handed over. -/
structure MeshLoader where
  program : Replay
  materials : Option (Option Nat)

namespace MeshLoader

/-- A new loader. -/
def start : MeshLoader :=
  ⟨.start, none⟩

/-- One statement hands materials over, with the value that their variable has then. -/
def step (l : MeshLoader) (st : Statement) : MeshLoader where
  program := l.program.step st
  materials :=
    match st with
    | .useMaterials binding => binding.map l.program.env
    | _ => l.materials

/-- Replays statements one after the other. -/
def run (l : MeshLoader) (ss : List Statement) : MeshLoader :=
  ss.foldl step l

theorem run_append (l : MeshLoader) (ss ss' : List Statement) :
    l.run (ss ++ ss') = (l.run ss).run ss' :=
  List.foldl_append

/-- Wherever a mesh file is read, this happens in the block of its object, and the loader has the
value of the object's own material variable, which was made in the same block, or null where the
material of the object is no file. -/
def ReadsOwn (vs : List Visit) (ss : List Statement) : Prop :=
  ∀ before x asset after, ss = before ++ .parseMesh x asset :: after →
    ∃ v ∈ vs, ∃ earlier own back,
      before = earlier ++ own ∧ v.Block (own ++ .parseMesh x asset :: back) ∧ x = v.binding ∧
      let block := start.run earlier
      let here := start.run before
      if v.material.any Material.isFile then
        ∃ value, block.program.next ≤ value ∧
          here.program.env (materialVar x) = some value ∧ here.materials = some (some value)
      else here.materials = none

theorem ReadsOwn.mono {vs ws : List Visit} {ss : List Statement} (h : ReadsOwn vs ss)
    (hsub : vs ⊆ ws) : ReadsOwn ws ss := by
  intro before x asset after hsplit
  obtain ⟨v, hv, here⟩ := h before x asset after hsplit
  exact ⟨v, hsub hv, here⟩

end MeshLoader

/-! ## The reading in a block -/

namespace Statement

/-- Whether a statement uses the mesh loader. -/
def usesObjLoader : Statement → Bool
  | .useMaterials _ | .parseMesh _ _ => true
  | _ => false

/-- Whether a statement reads a mesh file. -/
def isReading : Statement → Bool
  | .parseMesh _ _ => true
  | _ => false

variable {st : Statement}

theorem isReading_of_not_usesObjLoader (h : st.usesObjLoader = false) : st.isReading = false := by
  cases st with
  | parseMesh object asset => cases h
  | _ => rfl

theorem usesObjLoader_of_isSetting (h : st.isSetting = true) : st.usesObjLoader = false := by
  cases st with
  | useMaterials binding => cases h
  | parseMesh object asset => cases h
  | _ => rfl

theorem usesObjLoader_of_lights {parent : String} {nodes : Entries Light}
    (h : st ∈ Emit.lightsStatements parent nodes) : st.usesObjLoader = false := by
  rcases Emit.mem_lightsStatements h with
    ⟨_, rfl⟩ | ⟨_, _, _, rfl⟩ | ⟨_, rfl⟩ | ⟨_, _, rfl⟩ | rfl <;> rfl

end Statement

/-- The only element with a property is found in one place. -/
theorem eq_of_append_cons {α : Type} {p : α → Bool} {front rest before after : List α} {a b : α}
    (h : front ++ a :: rest = before ++ b :: after) (hfront : ∀ x ∈ front, p x = false)
    (hrest : ∀ x ∈ rest, p x = false) (hb : p b = true) : before = front ∧ a = b := by
  rcases split_of_append h with ⟨back, rfl⟩ | ⟨between, rfl, hbetween⟩
  · have := hfront b (by simp)
    simp [hb] at this
  · cases between with
    | nil => exact ⟨by simp, (List.cons.inj hbetween).1⟩
    | cons c between =>
      have hmem : b ∈ rest := by
        rw [(List.cons.inj hbetween).2]
        simp
      have := hrest b hmem
      simp [hb] at this

namespace Visit

variable {v : Visit} {ss : List Statement} {st : Statement}

theorem isReading_of_material (h : v.MaterialPart ss) (hst : st ∈ ss) : st.isReading = false := by
  unfold MaterialPart at h
  split at h
  · rename_i m _
    cases m with
    | file path =>
      obtain ⟨asset, rfl⟩ := h
      simp only [List.mem_cons, List.not_mem_nil, or_false] at hst
      rcases hst with rfl | rfl | rfl <;> rfl
    | call function args glslify =>
      obtain ⟨arguments, flags, -, rfl⟩ := h
      rcases List.mem_cons.1 hst with rfl | hst
      · rfl
      · obtain ⟨flag, -, rfl⟩ := List.mem_map.1 hst
        rfl
  · subst h
    cases hst

theorem isReading_of_tracks (hst : st ∈ v.tracks) : st.isReading = false := by
  rcases mem_tracks hst with ⟨text, rfl⟩ | rfl | ⟨name, args, rfl⟩ <;> rfl

/-- What stands before the reading in the block of an object with a mesh file. -/
def beforeReading (v : Visit) (material : List Statement) : List Statement :=
  .comment (v.name ++ " object") :: material ++
    (if v.material.any Material.isFile then [] else [.useMaterials none])

/-- A block reads a mesh file in one place, and only for an object whose geometry is a file. -/
theorem Block.at_reading {own back : List Statement} {x : String} {asset : ModuleName}
    (h : v.Block (own ++ .parseMesh x asset :: back)) :
    x = v.binding ∧ ∃ material, v.MaterialPart material ∧ own = v.beforeReading material := by
  obtain ⟨material, declaration, hmaterial, hdeclaration, hblock⟩ := h
  have hplaced : ∀ st ∈ [Statement.setName v.binding v.name, .attach v.parent v.binding,
      .recordUuid v.binding, .followable v.binding, .blank] ++ v.tracks, st.isReading = false := by
    simp only [List.forall_mem_append, List.forall_mem_cons]
    exact ⟨⟨rfl, rfl, rfl, rfl, rfl, List.forall_mem_nil _⟩, fun st => isReading_of_tracks⟩
  unfold Declaration at hdeclaration
  split at hdeclaration
  · -- a constructed geometry has no reading at all
    subst hdeclaration
    have hmem : Statement.parseMesh x asset ∈ own ++ .parseMesh x asset :: back := by simp
    rw [hblock, List.append_assoc] at hmem
    simp only [List.mem_append, List.mem_cons, List.not_mem_nil, or_false, reduceCtorEq,
      false_or] at hmem
    rcases hmem with hmem | hmem
    · exact absurd (isReading_of_material hmaterial hmem) (by simp [Statement.isReading])
    · exact absurd (isReading_of_tracks hmem) (by simp [Statement.isReading])
  · obtain ⟨asset', rfl⟩ := hdeclaration
    have hpaint : ∀ st ∈ (if (v.material.any fun m => !m.isFile) = true then
        [Statement.paint v.binding] else []), st.isReading = false := by
      split <;> simp [Statement.isReading]
    have hfront : ∀ st ∈ v.beforeReading material, st.isReading = false := by
      simp only [beforeReading, List.cons_append, List.forall_mem_cons, List.forall_mem_append]
      refine ⟨rfl, fun st => isReading_of_material hmaterial, ?_⟩
      split <;> simp [Statement.isReading]
    have hsplit : v.beforeReading material ++ .parseMesh v.binding asset' ::
        ((if (v.material.any fun m => !m.isFile) = true then [.paint v.binding] else []) ++
          ([.setName v.binding v.name, .attach v.parent v.binding, .recordUuid v.binding,
            .followable v.binding, .blank] ++ v.tracks)) = own ++ .parseMesh x asset :: back := by
      rw [hblock]
      simp [beforeReading]
    obtain ⟨hown, hreading⟩ := eq_of_append_cons hsplit hfront
      (List.forall_mem_append.2 ⟨hpaint, hplaced⟩) rfl
    cases hreading
    exact ⟨rfl, material, hmaterial, hown⟩

end Visit

namespace MeshLoader

variable {v : Visit}

/-- Whatever the loader has before a block, at the reading it has the materials of the block. -/
theorem materials_at_reading (l : MeshLoader) {material : List Statement}
    (h : v.MaterialPart material) :
    let here := l.run (v.beforeReading material)
    if v.material.any Material.isFile then
      here.program.env (materialVar v.binding) = some l.program.next ∧
        here.materials = some (some l.program.next)
    else here.materials = none := by
  intro here
  by_cases hfile : v.material.any Material.isFile = true
  · rw [if_pos hfile]
    obtain ⟨m, hm, hisFile⟩ := (Option.any_eq_true _ _).1 hfile
    unfold Visit.MaterialPart at h
    rw [hm] at h
    cases m with
    | call function args glslify => cases hisFile
    | file path =>
      obtain ⟨asset, rfl⟩ := h
      simp [here, Visit.beforeReading, hfile, run, step, Replay.step, Statement.binding?]
  · -- the last statement before the reading takes all materials away
    have last (ss : List Statement) : (l.run (ss ++ [.useMaterials none])).materials = none := by
      rw [run_append]
      rfl
    rw [if_neg hfile]
    simp only [here, Visit.beforeReading, if_neg hfile]
    exact last _

/-- The blocks of a program among statements that read no mesh files. -/
theorem readsOwn_of_blocks {vs : List Visit} {front back : List Statement}
    {blocks : List (List Statement)} (hfront : ∀ st ∈ front, st.isReading = false)
    (hblocks : List.Forall₂ Visit.Block vs blocks) (hback : ∀ st ∈ back, st.isReading = false) :
    ReadsOwn vs (front ++ blocks.flatten ++ back) := by
  intro before x asset after hsplit
  have elsewhere {ss : List Statement} (hss : ∀ st ∈ ss, st.isReading = false)
      (hmem : Statement.parseMesh x asset ∈ ss) : False := by
    have := hss _ hmem
    simp [Statement.isReading] at this
  rw [List.append_assoc] at hsplit
  rcases split_of_append hsplit with ⟨rest, hrest⟩ | ⟨before', rfl, hsplit'⟩
  · exact (elsewhere hfront (by simp [hrest])).elim
  rcases split_of_append hsplit' with ⟨rest, hrest⟩ | ⟨between, -, hbetween⟩
  · obtain ⟨k, own, rest', hk, rfl⟩ := split_of_flatten hrest
    obtain ⟨v, hv, hblock⟩ := forall₂_getElem? hblocks hk
    obtain ⟨rfl, material, hmaterial, rfl⟩ := hblock.at_reading
    refine ⟨v, List.mem_of_getElem? hv, front ++ (blocks.take k).flatten,
      v.beforeReading material, rest', by simp, hblock, rfl, ?_⟩
    have here := materials_at_reading (start.run (front ++ (blocks.take k).flatten)) hmaterial
    rw [← run_append, List.append_assoc] at here
    dsimp only at here ⊢
    split
    · rename_i hfile
      rw [if_pos hfile] at here
      exact ⟨_, Nat.le_refl _, here⟩
    · rename_i hfile
      rwa [if_neg hfile] at here
  · exact (elsewhere hback (by simp [hbetween])).elim

end MeshLoader

/-! ## The loaders in the header -/

namespace Statement

/-- Whether a statement uses the material library loader. -/
def usesMtlLoader : Statement → Bool
  | .parseMaterials _ _ => true
  | _ => false

theorem mtlLoader_mem_needs {st : Statement} (h : st.usesMtlLoader = true) :
    Need.mtlLoader ∈ st.needs := by
  cases st with
  | parseMaterials binding asset => simp [needs]
  | _ => cases h

end Statement

namespace Visit

variable {v : Visit} {ss : List Statement} {st : Statement}

/-- Materials are handed over only next to a statement that needs the loader. -/
theorem Block.objLoader_mem_needs (h : v.Block ss) (hst : st ∈ ss)
    (huses : st.usesObjLoader = true) : Need.objLoader ∈ ss.flatMap Statement.needs := by
  obtain ⟨material, declaration, hmaterial, hdeclaration, rfl⟩ := h
  have inMaterial (hst : st ∈ material) : Need.objLoader ∈ material.flatMap Statement.needs := by
    unfold MaterialPart at hmaterial
    split at hmaterial
    · rename_i m _
      cases m with
      | file path =>
        obtain ⟨asset, rfl⟩ := hmaterial
        simp [Statement.needs]
      | call function args glslify =>
        obtain ⟨arguments, flags, -, rfl⟩ := hmaterial
        rcases List.mem_cons.1 hst with rfl | hst
        · cases huses
        · obtain ⟨flag, -, rfl⟩ := List.mem_map.1 hst
          cases huses
    · subst hmaterial
      cases hst
  have inDeclaration (hst : st ∈ declaration) :
      Need.objLoader ∈ declaration.flatMap Statement.needs := by
    unfold Declaration at hdeclaration
    split at hdeclaration
    · subst hdeclaration
      simp only [List.mem_cons, List.not_mem_nil, or_false] at hst
      rcases hst with rfl | rfl <;> cases huses
    · obtain ⟨asset, rfl⟩ := hdeclaration
      simp [Statement.needs]
  simp only [List.flatMap_append, List.mem_append] at hst ⊢
  rcases hst with (((hst | hst) | hst) | hst) | hst
  · rw [List.mem_singleton.1 hst] at huses
    cases huses
  · exact .inl (.inl (.inl (.inr (inMaterial hst))))
  · exact .inl (.inl (.inr (inDeclaration hst)))
  · simp only [List.mem_cons, List.not_mem_nil, or_false] at hst
    rcases hst with rfl | rfl | rfl | rfl | rfl <;> cases huses
  · rcases mem_tracks hst with ⟨text, rfl⟩ | rfl | ⟨name, args, rfl⟩ <;> cases huses

end Visit

namespace Text

/-- A text that ends with a line feed has all its lines before what follows it. -/
theorem split_append_of_ended {text : String} (h : text.toList.getLast? = some '\n')
    (more : String) :
    ∃ lines, split '\n' text = lines ++ [""] ∧
      split '\n' (text ++ more) = lines ++ split '\n' more := by
  obtain ⟨body, hbody⟩ := List.getLast?_eq_some_iff.1 h
  refine ⟨(splitChars '\n' body).map String.ofList, ?_, ?_⟩
  · rw [split, hbody, splitChars_append_cons, List.map_append]
    rfl
  · rw [split, String.toList_append, hbody, List.append_assoc, List.singleton_append,
      splitChars_append_cons, List.map_append]
    rfl

/-- Texts that each end with a line feed have together the lines that each of them has. -/
theorem count_split_join {line : String} (hline : line ≠ "") {texts : List String}
    (h : ∀ text ∈ texts, text.toList.getLast? = some '\n') :
    (split '\n' (String.join texts)).count line = (texts.flatMap (split '\n')).count line := by
  have last : [""].count line = 0 := List.count_eq_zero.2 (by simpa using hline)
  induction texts with
  | nil => exact last
  | cons text texts ih =>
    obtain ⟨htext, htexts⟩ := List.forall_mem_cons.1 h
    obtain ⟨lines, hlines, hjoined⟩ := split_append_of_ended htext (String.join texts)
    rw [String.join_cons, hjoined, List.count_append, ih htexts, List.flatMap_cons,
      List.count_append, hlines, List.count_append, last, Nat.add_zero]

end Text

namespace Template

/-- The constants that are the same in all programs that have them. -/
def libraryConstants : List String :=
  [objLoader, mtlLoader, stats]

/-- The lines by which a program has its mesh loader. -/
def objLoaderLines : List String :=
  ["import \x7b OBJLoader \x7d from \"three/examples/jsm/loaders/OBJLoader\";",
   "const OBJ_LOADER = new OBJLoader();"]

/-- The lines by which a program has its material library loader. -/
def mtlLoaderLines : List String :=
  ["import \x7b MTLLoader \x7d from \"three/examples/jsm/loaders/MTLLoader\";",
   "const MTL_LOADER = new MTLLoader();"]

/-- Lines before a text are lines of the whole. -/
theorem split_lines_append {texts : List String} (h : ∀ text ∈ texts, '\n' ∉ text.toList)
    (more : String) : Text.split '\n' (lines texts ++ more) = texts ++ Text.split '\n' more := by
  induction texts with
  | nil => rw [lines, List.map_nil, String.join_nil, String.empty_append, List.nil_append]
  | cons text texts ih =>
    obtain ⟨htext, htexts⟩ := List.forall_mem_cons.1 h
    have hchars : (lines (text :: texts) ++ more).toList =
        text.toList ++ '\n' :: (lines texts ++ more).toList := by
      simp [lines, String.join_cons]
    rw [Text.split, hchars, Text.splitChars_append_cons, List.map_append,
      Text.splitChars_of_not_mem htext, List.cons_append, ← ih htexts]
    simp [Text.split]

/-- The imports that every program starts with have no line of a loader. -/
theorem exists_imports_eq : ∃ texts, imports = lines texts ∧
    (∀ text ∈ texts, '\n' ∉ text.toList) ∧
    ∀ line ∈ objLoaderLines ++ mtlLoaderLines, line ∉ texts :=
  ⟨_, rfl, by decide +kernel, by decide +kernel⟩

/-- The other texts of which the header of a program is made. -/
def HeaderText (text : String) : Prop :=
  text ∈ libraryImports ++ libraryConstants ∨ ∃ name : ModuleName, text = importLine name.text

/-- The import of a generated module is one line. -/
theorem importLine_eq_line (name : ModuleName) :
    ∃ body : List Char, (importLine name.text).toList = body ++ ['\n'] ∧ '\n' ∉ body ∧
      body.take 10 = "import \x7b E".toList := by
  have hname : '\n' ∉ name.text.toList := name.not_mem_text (by decide) (by decide)
  refine ⟨"import \x7b ".toList ++ name.text.toList ++ " \x7d from \"./".toList ++
    name.text.toList ++ "\";".toList, ?_, ?_, ?_⟩
  · simp [importLine]
  · simp [hname]
  · cases name <;> simp [ModuleName.text]

namespace HeaderText

variable {text line : String}

theorem ended (h : HeaderText text) : text.toList.getLast? = some '\n' := by
  have fixed : ∀ text ∈ libraryImports ++ libraryConstants,
      text.toList.getLast? = some '\n' := by
    decide +kernel
  rcases h with h | ⟨name, rfl⟩
  · exact fixed text h
  · obtain ⟨body, hbody, -⟩ := importLine_eq_line name
    rw [hbody, List.getLast?_concat]

/-- A line of a loader stands in the text that consists of this line, and in no other. -/
theorem count_split (h : HeaderText text) (hline : line ∈ objLoaderLines ++ mtlLoaderLines) :
    (Text.split '\n' text).count line = if text = line ++ "\n" then 1 else 0 := by
  have fixed : ∀ line ∈ objLoaderLines ++ mtlLoaderLines,
      ∀ text ∈ libraryImports ++ libraryConstants,
        (Text.split '\n' text).count line = if text = line ++ "\n" then 1 else 0 := by
    decide +kernel
  have start : ∀ line ∈ objLoaderLines ++ mtlLoaderLines,
      line ≠ "" ∧ line.toList.take 10 ≠ "import \x7b E".toList := by
    decide +kernel
  rcases h with h | ⟨name, rfl⟩
  · exact fixed line hline text h
  · obtain ⟨hempty, hstart⟩ := start line hline
    obtain ⟨body, hbody, hnewline, hbodyStart⟩ := importLine_eq_line name
    have hother : line.toList ≠ body := fun e => hstart (e ▸ hbodyStart)
    have hsplit : Text.split '\n' (importLine name.text) = [String.ofList body, ""] := by
      rw [Text.split, hbody, Text.splitChars_append_cons, Text.splitChars_of_not_mem hnewline]
      rfl
    have hne : importLine name.text ≠ line ++ "\n" := by
      intro e
      have := congrArg String.toList e
      rw [hbody, String.toList_append] at this
      exact hother (List.append_cancel_right this).symm
    rw [if_neg hne, hsplit, List.count_eq_zero]
    simp only [List.mem_cons, List.not_mem_nil, or_false, not_or]
    exact ⟨fun e => hother (by simp [e]), hempty⟩

end HeaderText

/-- A line of a loader stands in a header as often as its text was put there. -/
theorem count_header {texts : List String} {line : String} (h : ∀ text ∈ texts, HeaderText text)
    (hline : line ∈ objLoaderLines ++ mtlLoaderLines) :
    (Text.split '\n' (String.join texts)).count line = texts.count (line ++ "\n") := by
  have hempty : ∀ line ∈ objLoaderLines ++ mtlLoaderLines, line ≠ "" := by decide +kernel
  rw [Text.count_split_join (hempty line hline) fun text ht => (h text ht).ended]
  induction texts with
  | nil => rfl
  | cons text texts ih =>
    obtain ⟨htext, htexts⟩ := List.forall_mem_cons.1 h
    rw [List.flatMap_cons, List.count_append, htext.count_split hline, ih htexts, List.count_cons]
    simp only [beq_iff_eq]
    omega

end Template

namespace Emit

/-- The texts of a header are of the known kinds, and none is there twice. -/
theorem headerTexts (ns : List Need) :
    let texts := (Inserts.empty.askAll ns).imports ++ (Inserts.empty.askAll ns).boilerplate
    (∀ text ∈ texts, Template.HeaderText text) ∧ texts.Nodup := by
  rw [askAll_empty]
  dsimp only
  have himports : ∀ text ∈ (ns.flatMap Need.imports).eraseDups,
      text ∈ Template.libraryImports ∨ ∃ name : ModuleName, text = importLine name.text := by
    intro text ht
    obtain ⟨need, -, hneed⟩ := List.mem_flatMap.1 (List.mem_eraseDups.1 ht)
    exact need.library_or_generated hneed
  have hconstants : ∀ text ∈ (ns.flatMap Need.boilerplate).eraseDups,
      text ∈ Template.libraryConstants := by
    intro text ht
    obtain ⟨need, -, hneed⟩ := List.mem_flatMap.1 (List.mem_eraseDups.1 ht)
    cases need with
    | generated name => cases hneed
    | frameUpdate update => cases hneed
    | _ =>
      obtain rfl := List.mem_singleton.1 hneed
      simp [Template.libraryConstants]
  -- the two kinds of text differ in how they start
  have start : ∀ text ∈ (ns.flatMap Need.imports).eraseDups,
      text.toList.take 8 ∈ ["import \x7b".toList, "import S".toList] := by
    have library : ∀ text ∈ Template.libraryImports,
        text.toList.take 8 ∈ ["import \x7b".toList, "import S".toList] := by
      decide +kernel
    intro text ht
    rcases himports text ht with ht | ⟨name, rfl⟩
    · exact library text ht
    · simp [importLine]
  have constantStart : ∀ text ∈ Template.libraryConstants,
      text.toList.take 8 ∉ ["import \x7b".toList, "import S".toList] := by
    decide +kernel
  constructor
  · intro text ht
    rcases List.mem_append.1 ht with ht | ht
    · exact (himports text ht).imp_left (List.mem_append_left _)
    · exact .inl (List.mem_append_right _ (hconstants text ht))
  · refine (nodup_eraseDups _).append (nodup_eraseDups _) ?_
    intro text himport hconstant
    exact constantStart text (hconstants text hconstant) (start text himport)

/-- A line of a loader that meets a need stands once in the header. -/
theorem count_line_header {ns : List Need} {need : Need} (hneed : need ∈ ns) {line : String}
    (hline : line ∈ Template.objLoaderLines ++ Template.mtlLoaderLines)
    (hmeets : line ++ "\n" ∈ need.imports ++ need.boilerplate) :
    (Text.split '\n' (Template.imports ++ (Inserts.empty.askAll ns).headerText)).count line =
      1 := by
  obtain ⟨hknown, hnodup⟩ := headerTexts ns
  have hmem : line ++ "\n" ∈ (Inserts.empty.askAll ns).imports ++
      (Inserts.empty.askAll ns).boilerplate := by
    simp only [askAll_empty, List.mem_append, List.mem_eraseDups, List.mem_flatMap] at hmeets ⊢
    exact hmeets.imp (fun h => ⟨need, hneed, h⟩) fun h => ⟨need, hneed, h⟩
  obtain ⟨texts, himports, htexts, hnone⟩ := Template.exists_imports_eq
  rw [himports, Template.split_lines_append htexts, List.count_append,
    List.count_eq_zero.2 (hnone line hline), Nat.zero_add, Inserts.headerText,
    Template.count_header hknown hline]
  exact List.count_eq_one_of_mem hnodup hmem

/-- A program asks for the mesh loader if one of its statements uses it. -/
theorem BodyOf.objLoader_mem_needs {scene : Scene} {ss : List Statement}
    (h : BodyOf Visit.Block scene ss) {st : Statement} (hst : st ∈ ss)
    (huses : st.usesObjLoader = true) : Need.objLoader ∈ ss.flatMap Statement.needs := by
  obtain ⟨front, blocks, hfront, hblocks, rfl⟩ := h
  rcases List.mem_append.1 hst with hst | hst
  · rcases List.mem_append.1 hst with hst | hst
    · simp [Statement.usesObjLoader_of_isSetting (hfront st hst)] at huses
    · obtain ⟨block, hblock, hst⟩ := List.mem_flatten.1 hst
      obtain ⟨k, hk⟩ := List.mem_iff_getElem?.1 hblock
      obtain ⟨v, -, hv⟩ := forall₂_getElem? hblocks hk
      obtain ⟨other, hother, hneed⟩ := List.mem_flatMap.1 (hv.objLoader_mem_needs hst huses)
      refine List.mem_flatMap.2 ⟨other, ?_, hneed⟩
      exact List.mem_append_left _ (List.mem_append_right _ (List.mem_flatten_of_mem hblock hother))
  · simp [Statement.usesObjLoader_of_lights hst] at huses

theorem readsOwn_of_bodyOf {scene : Scene} {ss : List Statement}
    (h : BodyOf Visit.Block scene ss) :
    MeshLoader.ReadsOwn (Object.forestVisits rootParent scene.objects) ss := by
  obtain ⟨front, blocks, hfront, hblocks, rfl⟩ := h
  refine MeshLoader.readsOwn_of_blocks (fun st hst => ?_) hblocks fun st hst => ?_
  · exact st.isReading_of_not_usesObjLoader (st.usesObjLoader_of_isSetting (hfront st hst))
  · exact st.isReading_of_not_usesObjLoader (st.usesObjLoader_of_lights hst)

/-- An object that fails has not been read, so only complete blocks read mesh files. -/
theorem readsOwn_of_interrupted {scene : Scene} {ss : List Statement}
    (h : InterruptedBody scene ss) :
    MeshLoader.ReadsOwn (Object.forestVisits rootParent scene.objects) ss := by
  obtain ⟨front, objects, hfront, hobjects, rfl⟩ := h
  have hfront (st : Statement) (hst : st ∈ front) : st.isReading = false :=
    st.isReading_of_not_usesObjLoader (st.usesObjLoader_of_isSetting (hfront st hst))
  rcases hobjects with rfl | ⟨done, v, rest, blocks, opening, hvisits, hblocks, hopening, rfl⟩
  · have hread := MeshLoader.readsOwn_of_blocks hfront .nil (List.forall_mem_nil _)
    rw [List.flatten_nil, List.append_nil] at hread
    exact hread.mono (List.nil_subset _)
  · have hback : ∀ st ∈ opening, st.isReading = false := by
      obtain ⟨material, hmaterial, rfl⟩ := hopening
      refine List.forall_mem_cons.2 ⟨rfl, fun st hst => ?_⟩
      rcases hmaterial with rfl | hmaterial
      · cases hst
      · exact Visit.isReading_of_material hmaterial hst
    have hread := MeshLoader.readsOwn_of_blocks hfront hblocks hback
    rw [List.append_assoc] at hread
    rw [hvisits]
    exact hread.mono (List.subset_append_left _ _)

/-- Whether a program is assembled or fails half way, every mesh file is read with the materials of
its own object or with none. A program that is assembled and uses a loader has the import and the
constant of this loader in its header, each once. -/
theorem meshes_read_own_materials (scene : Scene) (base out : Path) (d : Disk) :
    match (assemble scene).run (.new base out d) with
    | .ok text t =>
      ∃ ss : List Statement,
        (draft (body scene)).run (.new base out d) =
          .ok (ss.map .statement) { t with inserts := .empty } ∧
        text = Template.imports ++ t.inserts.headerText ++ Template.beginning ++
          Buffer.textOf (ss.map .statement) ++
          Template.ending scene.options.showStats t.inserts.frameUpdates ∧
        MeshLoader.ReadsOwn (Object.forestVisits rootParent scene.objects) ss ∧
        let header := Text.split '\n' (Template.imports ++ t.inserts.headerText)
        ((∃ st ∈ ss, st.usesObjLoader = true) →
          ∀ line ∈ Template.objLoaderLines, header.count line = 1) ∧
        ((∃ st ∈ ss, st.usesMtlLoader = true) →
          ∀ line ∈ Template.mtlLoaderLines, header.count line = 1)
    | .error _ t =>
      ∃ ss : List Statement, t.buffer.body = .fixed Template.beginning :: ss.map .statement ∧
        MeshLoader.ReadsOwn (Object.forestVisits rootParent scene.objects) ss := by
  cases hrun : (assemble scene).run (.new base out d) with
  | error e t =>
    obtain ⟨ss, hss, hbuffer⟩ := assemble_error_body hrun
    exact ⟨ss, hbuffer, readsOwn_of_interrupted hss⟩
  | ok text t =>
    obtain ⟨ss, hss, hdraft, htext, hinserts⟩ := assemble_body writesEach_block hrun
    refine ⟨ss, hdraft, htext, readsOwn_of_bodyOf hss, ?_, ?_⟩
    · rintro ⟨st, hst, huses⟩ line hline
      rw [hinserts]
      refine count_line_header (List.mem_append_right _ (hss.objLoader_mem_needs hst huses))
        (List.mem_append_left _ hline) ?_
      have meets : ∀ line ∈ Template.objLoaderLines,
          line ++ "\n" ∈ Need.objLoader.imports ++ Need.objLoader.boilerplate := by
        decide +kernel
      exact meets line hline
    · rintro ⟨st, hst, huses⟩ line hline
      rw [hinserts]
      have hneed : Need.mtlLoader ∈ ss.flatMap Statement.needs :=
        List.mem_flatMap.2 ⟨st, hst, st.mtlLoader_mem_needs huses⟩
      refine count_line_header (List.mem_append_right _ hneed) (List.mem_append_right _ hline) ?_
      have meets : ∀ line ∈ Template.mtlLoaderLines,
          line ++ "\n" ∈ Need.mtlLoader.imports ++ Need.mtlLoader.boilerplate := by
        decide +kernel
      exact meets line hline

end Emit

end SceneScript
