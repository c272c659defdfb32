import SceneScript.Proofs.FrameUpdates
import SceneScript.Proofs.MeshLoader
import SceneScript.Proofs.ScriptTokens

/-!
# Names that are taken

A program declares variables for its objects and lights between fixed text that binds names of its
own. `Script.bindings` reads those names off the text, line by line. A variable with one of them, or
with a reserved word for its name, keeps the whole program from being loaded.

The variables for materials, geometries and identities end in a way that no such name does
(`not_mem_of_ends`), so they are always free. The variables of the objects and lights themselves are
not: `clashes_iff_taken` says that a program has a variable whose name is taken if and only if the
identifier of an object with a geometry or of a light is.
-/

namespace SceneScript

/-! ## Reading bindings -/

namespace Script

/-- The words that cannot name a variable of a module. -/
def reservedWords : List String :=
  ["await", "break", "case", "catch", "class", "const", "continue", "debugger", "default", "delete",
   "do", "else", "enum", "export", "extends", "false", "finally", "for", "function", "if",
   "implements", "import", "in", "instanceof", "interface", "let", "new", "null", "package",
   "private", "protected", "public", "return", "static", "super", "switch", "this", "throw", "true",
   "try", "typeof", "var", "void", "while", "with", "yield"]

/-- Reads a word. -/
def word? (cs : List Char) : Option (List Char × List Char) :=
  match token? cs with
  | some (.word name, rest) => some (name, rest)
  | _ => none

/-- Reads the name that an import binds, behind its keyword: for the module as a whole, for one name
of it, or for all its names. -/
def imported? (cs : List Char) : Option (List Char) :=
  match token? cs with
  | some (.word name, _) => some name
  | some (.mark '\x7b', rest) => (word? rest).map Prod.fst
  | some (.mark '*', rest) => do
    let (_, rest) ← word? rest
    let (name, _) ← word? rest
    return name
  | _ => none

/-- The keywords that stand before the name that they bind. -/
def declarators : List (List Char) :=
  [['v', 'a', 'r'], ['c', 'o', 'n', 's', 't'], ['l', 'e', 't'],
   ['f', 'u', 'n', 'c', 't', 'i', 'o', 'n'], ['c', 'l', 'a', 's', 's']]

/-- The name that a line binds for the whole program. What stands inside a function is indented. -/
def bound? (line : List Char) : Option (List Char) :=
  if line.head? = some ' ' then none
  else
    match word? line with
    | none => none
    | some (keyword, rest) =>
      if keyword ∈ declarators then (word? rest).map Prod.fst
      else if keyword = ['i', 'm', 'p', 'o', 'r', 't'] then imported? rest
      else none

/-- The names that the lines of a text bind. -/
def bindings (text : String) : List String :=
  (Text.split '\n' text).filterMap fun line => (bound? line.toList).map String.ofList

/-- A variable named `x` cannot be declared between the two texts: its name is a reserved word or
bound already. -/
def Taken (before after x : String) : Prop :=
  x ∈ reservedWords ∨ x ∈ bindings before ++ bindings after

theorem token?_space (cs : List Char) : token? (' ' :: cs) = token? cs := by
  rw [token?, token?]
  rfl

theorem IsName.word? {cs rest : List Char} (h : IsName cs) (hrest : endsWord rest = true) :
    word? (cs ++ rest) = some (cs, rest) := by
  rw [Script.word?, h.token? hrest]

/-- The declaration of a variable binds its name. -/
theorem bound?_var {x : String} (hx : IsName x.toList) (value : String) :
    bound? ("var " ++ x ++ " = " ++ value).toList = some x.toList := by
  have hline : ("var " ++ x ++ " = " ++ value).toList =
      ['v', 'a', 'r'] ++ ' ' :: (x.toList ++ ' ' :: ('=' :: ' ' :: value.toList)) := by
    simp
  have hvar : IsName ['v', 'a', 'r'] := ⟨_, _, rfl, by decide, List.all_eq_true.1 (by decide)⟩
  have hname : word? (' ' :: (x.toList ++ ' ' :: ('=' :: ' ' :: value.toList))) =
      some (x.toList, ' ' :: ('=' :: ' ' :: value.toList)) := by
    rw [word?, token?_space]
    exact hx.word? rfl
  rw [hline, bound?, if_neg (by simp), hvar.word? rfl]
  simp only [hname]
  rfl

/-- The import of one name binds it. -/
theorem bound?_import {x : String} (hx : IsName x.toList) (rest : List Char) :
    bound? ("import \x7b ".toList ++ (x.toList ++ ' ' :: rest)) = some x.toList := by
  have himport : IsName ['i', 'm', 'p', 'o', 'r', 't'] :=
    ⟨_, _, rfl, by decide, List.all_eq_true.1 (by decide)⟩
  have hname : word? (' ' :: (x.toList ++ ' ' :: rest)) = some (x.toList, ' ' :: rest) := by
    rw [word?, token?_space]
    exact hx.word? rfl
  have hbrace : imported? (' ' :: '\x7b' :: ' ' :: (x.toList ++ ' ' :: rest)) = some x.toList := by
    have hmark : token? (' ' :: '\x7b' :: ' ' :: (x.toList ++ ' ' :: rest)) =
        some (.mark '\x7b', ' ' :: (x.toList ++ ' ' :: rest)) := rfl
    rw [imported?, hmark]
    simp only [hname]
    rfl
  show bound? (['i', 'm', 'p', 'o', 'r', 't'] ++
    ' ' :: '\x7b' :: ' ' :: (x.toList ++ ' ' :: rest)) = _
  rw [bound?, if_neg (by simp), himport.word? rfl]
  simp only [hbrace]
  rfl

/-! ## Bindings of texts -/

theorem bindings_append_of_ended {text : String} (h : text.toList.getLast? = some '\n')
    (more : String) : bindings (text ++ more) = bindings text ++ bindings more := by
  obtain ⟨lines, hlines, hmore⟩ := Text.split_append_of_ended h more
  rw [bindings, bindings, bindings, hlines, hmore, List.filterMap_append, List.filterMap_append]
  simp [bound?, word?, token?, skipSpaces]

/-- Texts that each end with a line feed bind together what each of them binds. -/
theorem bindings_join_append {texts : List String}
    (h : ∀ text ∈ texts, text.toList.getLast? = some '\n') (more : String) :
    bindings (String.join texts ++ more) = texts.flatMap bindings ++ bindings more := by
  induction texts with
  | nil => rw [String.join_nil, String.empty_append, List.flatMap_nil, List.nil_append]
  | cons text texts ih =>
    obtain ⟨htext, htexts⟩ := List.forall_mem_cons.1 h
    rw [String.join_cons, String.append_assoc, bindings_append_of_ended htext, ih htexts,
      List.flatMap_cons, List.append_assoc]

/-- The bindings of a text, by its characters. -/
theorem bindings_eq {text : String} {cs : List Char} {names : List String}
    (hcs : text = String.ofList cs)
    (hnames : ((Text.splitChars '\n' cs).filterMap bound?).map String.ofList = names) :
    bindings text = names := by
  rw [bindings, Text.split, hcs, String.toList_ofList, List.filterMap_map, ← hnames,
    List.map_filterMap]
  simp only [Function.comp_def, String.toList_ofList]

theorem eq_map_ofList {texts : List String} {css : List (List Char)}
    (h : List.Forall₂ (fun text cs => text = String.ofList cs) texts css) :
    texts = css.map String.ofList := by
  rw [← List.forall₂_eq_eq_eq, List.forall₂_map_right_iff]
  exact h

/-- The bindings of lines before a text, by the characters of the lines. -/
theorem bindings_lines_append {texts : List String} {css : List (List Char)} {names : List String}
    (hcss : List.Forall₂ (fun text cs => text = String.ofList cs) texts css)
    (hnames : css.all (fun cs => !cs.contains '\n') = true ∧
      (css.filterMap bound?).map String.ofList = names) (more : String) :
    bindings (Template.lines texts ++ more) = names ++ bindings more := by
  obtain ⟨hlines, rfl⟩ := hnames
  have htexts := eq_map_ofList hcss
  have hfeed : ∀ text ∈ texts, '\n' ∉ text.toList := by
    rw [htexts]
    intro text htext
    obtain ⟨cs, hcs, rfl⟩ := List.mem_map.1 htext
    simpa using List.all_eq_true.1 hlines cs hcs
  rw [bindings, Template.split_lines_append hfeed, List.filterMap_append, htexts,
    List.filterMap_map, List.map_filterMap]
  simp only [Function.comp_def, String.toList_ofList]
  rfl

/-- Indented lines bind nothing. -/
theorem bindings_indented_append {texts : List String}
    (h : ∀ text ∈ texts, text.toList.head? = some ' ' ∧ '\n' ∉ text.toList) (more : String) :
    bindings (Template.lines texts ++ more) = bindings more := by
  have hnone : texts.filterMap (fun line => (bound? line.toList).map String.ofList) = [] := by
    refine List.filterMap_eq_nil_iff.2 fun text htext => ?_
    rw [bound?, if_pos (h text htext).1, Option.map_none]
  rw [bindings, Template.split_lines_append fun text htext => (h text htext).2,
    List.filterMap_append, hnone, List.nil_append]
  rfl

end Script

namespace Template

/-- The names that every program binds. -/
def boundNames : List String :=
  ["THREE", "OrbitControls", "MyGui", "MyMixer", "MyCamera", "renderer", "scene", "camera_per",
   "controls", "mixer", "camera", "followable_objects", "paused", "pause_play", "gui", "clock",
   "render", "animate"]

theorem bindings_imports_append (more : String) :
    Script.bindings (imports ++ more) =
      ["THREE", "OrbitControls", "MyGui", "MyMixer", "MyCamera"] ++ Script.bindings more := by
  apply Script.bindings_lines_append
  case hcss => repeat' constructor
  case hnames => decide +kernel

theorem bindings_beginning_append (more : String) :
    Script.bindings (beginning ++ more) =
      ["renderer", "scene", "camera_per", "controls", "mixer", "camera", "followable_objects"] ++
        Script.bindings more := by
  apply Script.bindings_lines_append
  case hcss => repeat' constructor
  case hnames => decide +kernel

/-- The updates of each frame are indented. -/
theorem bindings_updates_append {updates : List String} (h : ∀ u ∈ updates, '\n' ∉ u.toList)
    (more : String) :
    Script.bindings (String.join (updates.map updateLine) ++ more) = Script.bindings more := by
  have hlines : updates.map updateLine =
      (updates.map fun update => "        " ++ update).map (· ++ "\n") := by
    rw [List.map_map]
    rfl
  rw [hlines]
  refine Script.bindings_indented_append (fun text htext => ?_) more
  obtain ⟨update, hupdate, rfl⟩ := List.mem_map.1 htext
  rw [String.toList_append]
  refine ⟨rfl, fun hfeed => ?_⟩
  rcases List.mem_append.1 hfeed with hfeed | hfeed
  · exact absurd hfeed (by decide +kernel)
  · exact h update hupdate hfeed

/-- So are the statistics in the render loop. -/
theorem bindings_statistics_append (showStats : Bool) (more : String) :
    Script.bindings (statsBegin showStats ++ more) = Script.bindings more ∧
      Script.bindings (statsEnd showStats ++ more) = Script.bindings more := by
  cases showStats with
  | false => exact ⟨by rw [statsBegin]; simp, by rw [statsEnd]; simp⟩
  | true =>
    have hbegin : statsBegin true = lines ["    stats.begin();"] := by decide +kernel
    have hend : statsEnd true = lines ["    stats.end();"] := by decide +kernel
    rw [hbegin, hend]
    exact ⟨Script.bindings_indented_append (List.forall_mem_singleton.2 (by decide +kernel)) more,
      Script.bindings_indented_append (List.forall_mem_singleton.2 (by decide +kernel)) more⟩

theorem bindings_ending {updates : List String} (h : ∀ u ∈ updates, '\n' ∉ u.toList)
    (showStats : Bool) : Script.bindings (ending showStats updates) =
      ["paused", "pause_play", "gui", "clock", "render", "animate"] := by
  have hsetup (more : String) : Script.bindings (endingSetup ++ more) =
      ["paused", "pause_play", "gui", "clock", "render"] ++ Script.bindings more := by
    apply Script.bindings_lines_append
    case hcss => repeat' constructor
    case hnames => decide +kernel
  have hframe (more : String) : Script.bindings (endingFrame ++ more) =
      [] ++ Script.bindings more := by
    apply Script.bindings_lines_append
    case hcss => repeat' constructor
    case hnames => decide +kernel
  have hanimate (more : String) : Script.bindings (endingAnimate ++ more) =
      ["animate"] ++ Script.bindings more := by
    apply Script.bindings_lines_append
    case hcss => repeat' constructor
    case hnames => decide +kernel
  have hclose : Script.bindings (endingClose ++ "") = [] ++ Script.bindings "" := by
    apply Script.bindings_lines_append
    case hcss => repeat' constructor
    case hnames => decide +kernel
  rw [String.append_empty] at hclose
  simp only [ending, String.append_assoc]
  rw [hsetup, (bindings_statistics_append _ _).1, hframe, List.nil_append,
    (bindings_statistics_append _ _).2, hanimate, bindings_updates_append h, hclose]
  rfl

end Template

/-! ## Bindings of the header -/

theorem ModuleName.isName_text (name : ModuleName) : Script.IsName name.text.toList := by
  have hdigits (n : Nat) : ∀ c ∈ (toString n).toList, Text.isWordChar c = true := by
    intro c hc
    rw [Nat.toString_eq_repr, Nat.toList_repr] at hc
    have hdigit := Nat.isDigit_of_mem_toDigits (by decide) (by decide) hc
    simp [Text.isWordChar, Char.isAlphanum, hdigit]
  cases name with
  | file n =>
    rw [text, String.toList_append]
    exact .append ⟨_, _, rfl, by decide, List.all_eq_true.1 (by decide)⟩ (hdigits n)
  | texture n =>
    rw [text, String.toList_append]
    exact .append ⟨_, _, rfl, by decide, List.all_eq_true.1 (by decide)⟩ (hdigits n)

theorem bindings_importLine (name : ModuleName) :
    Script.bindings (importLine name.text) = [name.text] := by
  have hfeed : '\n' ∉ name.text.toList := name.not_mem_text (by decide) (by decide)
  have hline : (importLine name.text).toList = "import \x7b ".toList ++ (name.text.toList ++
      ' ' :: ("\x7d from \"./".toList ++ name.text.toList ++ "\";".toList)) ++ ['\n'] := by
    simp [importLine]
  have hbody : '\n' ∉ "import \x7b ".toList ++ (name.text.toList ++
      ' ' :: ("\x7d from \"./".toList ++ name.text.toList ++ "\";".toList)) := by
    simp [hfeed]
  rw [Script.bindings, Text.split, hline, Text.splitChars_append_cons,
    Text.splitChars_of_not_mem hbody, List.filterMap_map]
  simp only [List.cons_append, List.filterMap_cons, Function.comp_def, String.toList_ofList,
    Script.bound?_import name.isName_text, Option.map_some, String.ofList_toList]
  rfl

namespace Need

/-- The names that the header binds to meet a need. -/
def bound : Need → List String
  | .generated name => [name.text]
  | .objLoader => ["OBJLoader", "OBJ_LOADER"]
  | .mtlLoader => ["MTLLoader", "MTL_LOADER"]
  | .stats => ["Stats", "stats"]
  | .frameUpdate _ => []

theorem bindings_pair {first second x y : String} (hx : Script.bindings first = [x])
    (hy : Script.bindings second = [y]) :
    ([first] ++ [second]).flatMap Script.bindings = [x, y] := by
  rw [List.flatMap_append, List.flatMap_singleton, List.flatMap_singleton, hx, hy]
  rfl

theorem bindings_eq_bound (need : Need) :
    (need.imports ++ need.boilerplate).flatMap Script.bindings = need.bound := by
  cases need with
  | generated name =>
    rw [imports, boilerplate, List.append_nil, List.flatMap_singleton, bindings_importLine, bound]
  | objLoader =>
    exact bindings_pair (Script.bindings_eq rfl (by decide +kernel))
      (Script.bindings_eq rfl (by decide +kernel))
  | mtlLoader =>
    exact bindings_pair (Script.bindings_eq rfl (by decide +kernel))
      (Script.bindings_eq rfl (by decide +kernel))
  | stats =>
    exact bindings_pair (Script.bindings_eq rfl (by decide +kernel))
      (Script.bindings_eq rfl (by decide +kernel))
  | frameUpdate update => rfl

end Need

namespace Emit

theorem mem_bindings_header {ns : List Need} {x : String} :
    x ∈ ((Inserts.empty.askAll ns).imports ++ (Inserts.empty.askAll ns).boilerplate).flatMap
        Script.bindings ↔ ∃ need ∈ ns, x ∈ need.bound := by
  simp only [askAll_empty, ← Need.bindings_eq_bound, List.mem_flatMap, List.mem_append,
    List.mem_eraseDups]
  constructor
  · rintro ⟨text, ⟨need, hneed, htext⟩ | ⟨need, hneed, htext⟩, hx⟩
    · exact ⟨need, hneed, text, .inl htext, hx⟩
    · exact ⟨need, hneed, text, .inr htext, hx⟩
  · rintro ⟨need, hneed, text, htext, hx⟩
    exact ⟨text, htext.imp (fun h => ⟨need, hneed, h⟩) (fun h => ⟨need, hneed, h⟩), hx⟩

/-- The names that are bound around the statements of a program. -/
theorem mem_bindings_frame {ns : List Need} {updates : List String}
    (h : ∀ u ∈ updates, '\n' ∉ u.toList) (showStats : Bool) (x : String) :
    x ∈ Script.bindings (Template.imports ++ (Inserts.empty.askAll ns).headerText ++
          Template.beginning) ++ Script.bindings (Template.ending showStats updates) ↔
      x ∈ Template.boundNames ∨ ∃ need ∈ ns, x ∈ need.bound := by
  have hbeginning := Template.bindings_beginning_append ""
  rw [String.append_empty] at hbeginning
  rw [String.append_assoc, Template.bindings_imports_append, Inserts.headerText,
    Script.bindings_join_append fun text htext => ((headerTexts ns).1 text htext).ended,
    hbeginning, Template.bindings_ending h, ← mem_bindings_header]
  have hnames : Template.boundNames =
      ["THREE", "OrbitControls", "MyGui", "MyMixer", "MyCamera"] ++
      (["renderer", "scene", "camera_per", "controls", "mixer", "camera", "followable_objects"] ++
      ["paused", "pause_play", "gui", "clock", "render", "animate"]) := rfl
  have hnone : Script.bindings "" = [] := rfl
  rw [hnames, hnone, List.append_nil]
  simp only [List.mem_append]
  grind

end Emit

/-! ## Variables of a program -/

theorem Visit.Block.bindings_eq {v : Visit} {ss : List Statement} (h : v.Block ss) :
    ss.filterMap Statement.binding? = v.bindings := by
  have hquiet {ss : List Statement} (h : ∀ st ∈ ss, Replay.Quiet st) :
      ss.filterMap Statement.binding? = [] :=
    List.filterMap_eq_nil_iff.2 fun st hst => (h st hst).1
  obtain ⟨front, declared, back, rest, rfl, hcore, hrest, hopening⟩ := h.exists_core
  rw [List.append_cons front, List.filterMap_append, List.filterMap_append, List.filterMap_append,
    hopening, hquiet hcore.quiet, hquiet hrest, List.append_nil, List.append_nil]
  rfl

namespace Scene

/-- The variables that a program declares for its objects and lights. -/
def bindings (scene : Scene) : List String :=
  (Object.forestVisits Emit.rootParent scene.objects).flatMap Visit.bindings ++
    scene.lights.map fun entry => Text.identifier entry.1

/-- The names of the objects with a geometry and of the lights. -/
def shownNames (scene : Scene) : List String :=
  (Object.forestVisits Emit.rootParent scene.objects).map Visit.name ++ scene.lights.map Prod.fst

end Scene

namespace Emit

theorem bindings_lights (parent : String) (nodes : Entries Light) :
    (lightsStatements parent nodes).filterMap Statement.binding? =
      nodes.map fun entry => Text.identifier entry.1 := by
  induction nodes with
  | nil => rfl
  | cons entry rest ih =>
    have hlight : (lightStatements entry.1 parent entry.2).filterMap Statement.binding? =
        [Text.identifier entry.1] := by
      unfold lightStatements
      cases entry.2.position <;> rfl
    rw [lightsStatements, List.flatMap_cons, List.filterMap_append, hlight, List.map_cons]
    exact congrArg _ ih

/-- The statements of a program declare the variables of its objects and lights. -/
theorem BodyOf.bindings_eq {scene : Scene} {ss : List Statement}
    (h : BodyOf Visit.Block scene ss) : ss.filterMap Statement.binding? = scene.bindings := by
  obtain ⟨front, blocks, hfront, hblocks, rfl⟩ := h
  have hnone : front.filterMap Statement.binding? = [] := by
    refine List.filterMap_eq_nil_iff.2 fun st hst => ?_
    have hsetting := hfront st hst
    cases st <;> first | rfl | cases hsetting
  have hobjects : blocks.flatten.filterMap Statement.binding? =
      (Object.forestVisits rootParent scene.objects).flatMap Visit.bindings := by
    generalize Object.forestVisits rootParent scene.objects = vs at hblocks
    induction hblocks with
    | nil => rfl
    | cons hblock _ ih =>
      rw [List.flatten_cons, List.filterMap_append, hblock.bindings_eq, ih, List.flatMap_cons]
  rw [List.filterMap_append, List.filterMap_append, hnone, hobjects, bindings_lights,
    List.nil_append, Scene.bindings]

end Emit

/-! ## Variables that are free -/

/-- How the variables of materials, geometries and identities end. -/
def variableEnds : List (List Char) :=
  [['_', 'm', 'a', 't', 'e', 'r', 'i', 'a', 'l'], ['_', 'g', 'e', 'o', 'm', 'e', 't', 'r', 'y'],
   ['_', 'u', 'u', 'i', 'd']]

/-- No word of a list ends like a variable, by the characters of the words. -/
theorem not_mem_of_ends {words : List String} {css : List (List Char)} {x : String}
    {ending : List Char}
    (hcss : List.Forall₂ (fun text cs => text = String.ofList cs) words css)
    (hends : css.all (fun cs => variableEnds.all fun ending => !ending.isSuffixOf cs) = true)
    (hending : ending ∈ variableEnds) (hx : ending <:+ x.toList) : x ∉ words := by
  intro hmem
  rw [Script.eq_map_ofList hcss] at hmem
  obtain ⟨cs, hcs, rfl⟩ := List.mem_map.1 hmem
  rw [String.toList_ofList] at hx
  have hnone := List.all_eq_true.1 (List.all_eq_true.1 hends cs hcs) ending hending
  rw [List.isSuffixOf_iff_suffix.2 hx] at hnone
  cases hnone

/-- The name of a module ends with a digit. -/
theorem ModuleName.getLast?_text (name : ModuleName) :
    ∃ c, name.text.toList.getLast? = some c ∧ c.isDigit = true := by
  have hdigits (n : Nat) (front : List Char) :
      ∃ c, (front ++ (toString n).toList).getLast? = some c ∧ c.isDigit = true := by
    rw [Nat.toString_eq_repr, Nat.toList_repr]
    have hne : Nat.toDigits 10 n ≠ [] := Nat.toDigits_ne_nil
    refine ⟨(Nat.toDigits 10 n).getLast hne, ?_, ?_⟩
    · rw [List.getLast?_append_of_ne_nil _ hne, List.getLast?_eq_some_getLast hne]
    · exact Nat.isDigit_of_mem_toDigits (by decide) (by decide) (List.getLast_mem hne)
  cases name with
  | file n =>
    rw [text, String.toList_append]
    exact hdigits n _
  | texture n =>
    rw [text, String.toList_append]
    exact hdigits n _

theorem Need.not_mem_bound_of_ends (need : Need) {x : String} {ending : List Char}
    (hending : ending ∈ variableEnds) (hx : ending <:+ x.toList) : x ∉ need.bound := by
  cases need with
  | generated name =>
    intro hmem
    obtain rfl := List.mem_singleton.1 hmem
    have hword : variableEnds.all (fun ending =>
        !ending.isEmpty && ending.all fun c => !c.isDigit) = true := by decide
    have hletters := List.all_eq_true.1 hword ending hending
    simp only [Bool.and_eq_true, Bool.not_eq_true', List.isEmpty_eq_false_iff] at hletters
    obtain ⟨c, hlast, hdigit⟩ := name.getLast?_text
    obtain ⟨front, hfront⟩ := hx
    rw [← hfront, List.getLast?_append_of_ne_nil _ hletters.1] at hlast
    have hletter := List.all_eq_true.1 hletters.2 c (List.mem_of_getLast? hlast)
    rw [hdigit] at hletter
    cases hletter
  | objLoader => exact not_mem_of_ends (by repeat' constructor) (by decide +kernel) hending hx
  | mtlLoader => exact not_mem_of_ends (by repeat' constructor) (by decide +kernel) hending hx
  | stats => exact not_mem_of_ends (by repeat' constructor) (by decide +kernel) hending hx
  | frameUpdate update => exact List.not_mem_nil

namespace Emit

/-- A variable that ends like those of materials, geometries and identities is free. -/
theorem not_taken_of_ends {ns : List Need} {before after x : String} {ending : List Char}
    (hframe : ∀ x, x ∈ Script.bindings before ++ Script.bindings after ↔
      x ∈ Template.boundNames ∨ ∃ need ∈ ns, x ∈ need.bound)
    (hending : ending ∈ variableEnds) (hx : ending <:+ x.toList) :
    ¬ Script.Taken before after x := by
  rintro (hreserved | hbound)
  · exact not_mem_of_ends (by repeat' constructor) (by decide +kernel) hending hx hreserved
  · rcases (hframe x).1 hbound with hfixed | ⟨need, -, hneed⟩
    · exact not_mem_of_ends (by repeat' constructor) (by decide +kernel) hending hx hfixed
    · exact need.not_mem_bound_of_ends hending hx hneed

end Emit

namespace Scene

variable {scene : Scene} {x name : String}

/-- A variable is the identifier of an object or a light, or it is that of an object with one of the
ends. -/
theorem cases_of_mem_bindings (h : x ∈ scene.bindings) : ∃ name ∈ scene.shownNames,
    x = Text.identifier name ∨
      ∃ ending ∈ variableEnds, x.toList = (Text.identifier name).toList ++ ending := by
  rcases List.mem_append.1 h with h | h
  · obtain ⟨v, hv, h⟩ := List.mem_flatMap.1 h
    have hname : v.name ∈ scene.shownNames := List.mem_append_left _ (List.mem_map_of_mem hv)
    have hx : x = materialVar v.binding ∨ x = geometryVar v.binding ∨ x = v.binding ∨
        x = uuidVar v.binding := by
      simp only [Visit.bindings, Visit.opening, Visit.materialVariables, Visit.geometryVariables,
        List.mem_append, List.mem_singleton] at h
      rcases h with ((h | h) | h) | h
      · split at h
        · exact .inl (List.mem_singleton.1 h)
        · cases h
      · split at h
        · exact .inr (.inl (List.mem_singleton.1 h))
        · cases h
      · exact .inr (.inr (.inl h))
      · exact .inr (.inr (.inr h))
    refine ⟨v.name, hname, ?_⟩
    rcases hx with rfl | rfl | rfl | rfl
    · exact .inr ⟨_, List.mem_cons_self, String.toList_append⟩
    · exact .inr ⟨_, List.mem_cons_of_mem _ List.mem_cons_self, String.toList_append⟩
    · exact .inl rfl
    · exact .inr ⟨_, List.mem_cons_of_mem _ (List.mem_cons_of_mem _ List.mem_cons_self),
        String.toList_append⟩
  · obtain ⟨entry, hentry, rfl⟩ := List.mem_map.1 h
    exact ⟨entry.1, List.mem_append_right _ (List.mem_map_of_mem hentry), .inl rfl⟩

theorem identifier_mem_bindings (h : name ∈ scene.shownNames) :
    Text.identifier name ∈ scene.bindings := by
  rcases List.mem_append.1 h with h | h
  · obtain ⟨v, hv, rfl⟩ := List.mem_map.1 h
    refine List.mem_append_left _ (List.mem_flatMap.2 ⟨v, hv, ?_⟩)
    exact List.mem_append_left _ (List.mem_append_right _ (List.mem_singleton.2 rfl))
  · obtain ⟨entry, hentry, rfl⟩ := List.mem_map.1 h
    exact List.mem_append_right _ (List.mem_map.2 ⟨entry, hentry, rfl⟩)

theorem isName_of_mem_bindings (h : x ∈ scene.bindings) : Script.IsName x.toList := by
  obtain ⟨name, -, rfl | ⟨ending, hending, hx⟩⟩ := cases_of_mem_bindings h
  · exact Script.isName_identifier name
  · have hword : variableEnds.all (fun ending => ending.all Text.isWordChar) = true := by decide
    rw [hx]
    exact (Script.isName_identifier name).append
      (List.all_eq_true.1 (List.all_eq_true.1 hword ending hending))

end Scene

/-- The update of an object is one line. -/
theorem Visit.not_mem_timeUpdate (v : Visit) : '\n' ∉ v.timeUpdate.toList := by
  have hend : '\n' ∉ "_material".toList := by decide
  have hupdate : '\n' ∉ ".uniforms.time.value = mixer.clip_action.time;".toList := by decide +kernel
  rw [timeUpdate, Template.timeUpdate, materialVar, String.toList_append, String.toList_append]
  simp only [List.mem_append, hend, hupdate, or_false]
  exact fun hfeed => absurd ((Script.isName_identifier v.name).isWordChar hfeed) (by decide)

namespace Emit

variable {scene : Scene} {base out : Path} {d : Disk} {text : String} {t : Session}

/-- A program is its statements between two texts, and these texts bind the fixed names and those
that the statements need. -/
theorem assemble_frame (h : (assemble scene).run (.new base out d) = .ok text t) :
    ∃ before after ss, text = before ++ Buffer.textOf (ss.map .statement) ++ after ∧
      BodyOf Visit.Block scene ss ∧
      ∀ x, x ∈ Script.bindings before ++ Script.bindings after ↔ x ∈ Template.boundNames ∨
        ∃ need ∈ (if scene.options.showStats then [.stats] else []) ++ ss.flatMap Statement.needs,
          x ∈ need.bound := by
  obtain ⟨ss, hss, -, htext, hinserts⟩ := assemble_body writesEach_block h
  obtain ⟨ss', hss', -, -, hinserts'⟩ := assemble_body writesEach_drives h
  have hupdates : ∀ update ∈ t.inserts.frameUpdates, '\n' ∉ update.toList := by
    rw [hinserts', frameUpdates_of_bodyOf _ hss']
    intro update hupdate
    obtain ⟨v, -, rfl⟩ := List.mem_map.1 (List.mem_eraseDups.1 hupdate)
    exact v.not_mem_timeUpdate
  refine ⟨_, _, ss, htext, hss, fun x => ?_⟩
  rw [← mem_bindings_frame hupdates scene.options.showStats x, hinserts]

/-- A program declares a variable whose name is a reserved word or bound by the rest of the program
if and only if the identifier of one of its objects with a geometry or lights is such a name. The
other variables are always free. -/
theorem clashes_iff_taken (h : (assemble scene).run (.new base out d) = .ok text t) :
    ∃ before after ss, text = before ++ Buffer.textOf (ss.map .statement) ++ after ∧
      BodyOf Visit.Block scene ss ∧
      (∀ x, x ∈ Script.bindings before ++ Script.bindings after ↔ x ∈ Template.boundNames ∨
        ∃ need ∈ (if scene.options.showStats then [.stats] else []) ++ ss.flatMap Statement.needs,
          x ∈ need.bound) ∧
      ss.filterMap Statement.binding? = scene.bindings ∧
      (∀ st ∈ ss, ∀ x, st.binding? = some x → Script.bound? st.code.toList = some x.toList) ∧
      (∀ x ∈ scene.bindings, Script.Taken before after x →
        ∃ name ∈ scene.shownNames, x = Text.identifier name) ∧
      ((∃ x ∈ scene.bindings, Script.Taken before after x) ↔
        ∃ name ∈ scene.shownNames, Script.Taken before after (Text.identifier name)) := by
  obtain ⟨before, after, ss, htext, hss, hframe⟩ := assemble_frame h
  have hbindings := hss.bindings_eq
  have htaken : ∀ x ∈ scene.bindings, Script.Taken before after x →
      ∃ name ∈ scene.shownNames, x = Text.identifier name := by
    intro x hx hclash
    obtain ⟨name, hname, rfl | ⟨ending, hending, hchars⟩⟩ := Scene.cases_of_mem_bindings hx
    · exact ⟨name, hname, rfl⟩
    · exact absurd hclash (not_taken_of_ends hframe hending ⟨_, hchars.symm⟩)
  refine ⟨before, after, ss, htext, hss, hframe, hbindings, fun st hst x hx => ?_, htaken, ?_⟩
  · have hmem : x ∈ scene.bindings := hbindings ▸ List.mem_filterMap.2 ⟨st, hst, hx⟩
    obtain ⟨value, hvalue⟩ := Statement.declares_of_binding? hx
    rw [hvalue]
    exact Script.bound?_var (Scene.isName_of_mem_bindings hmem) value
  · constructor
    · rintro ⟨x, hx, hclash⟩
      obtain ⟨name, hname, rfl⟩ := htaken x hx hclash
      exact ⟨name, hname, hclash⟩
    · rintro ⟨name, hname, hclash⟩
      exact ⟨_, Scene.identifier_mem_bindings hname, hclash⟩

/-- An object named by a reserved word, and a light with the name of the scene. -/
def namesakes : Scene where
  objects := [("class", ⟨some (.call "BoxGeometry" (.positional [])), none, [], []⟩)]
  lights := [("scene", ⟨"AmbientLight", .positional [], none⟩)]
  properties := []
  options := .default

theorem clashes_iff_taken_namesakes :
    ∃ (text : String) (t : Session) (before after : String) (ss : List Statement),
    (assemble namesakes).run (.new ⟨"/"⟩ ⟨"/out"⟩ .empty) = .ok text t ∧
      text = before ++ Buffer.textOf (ss.map .statement) ++ after ∧
      ss.filterMap Statement.binding? = namesakes.bindings ∧ "class" ∈ namesakes.shownNames ∧
      ∃ x ∈ namesakes.bindings, Script.Taken before after x := by
  have hrun : ∃ text t, (assemble namesakes).run (.new ⟨"/"⟩ ⟨"/out"⟩ .empty) = .ok text t :=
    ⟨_, _, rfl⟩
  obtain ⟨text, t, ht⟩ := hrun
  obtain ⟨before, after, ss, htext, -, -, hbindings, -, -, hiff⟩ := clashes_iff_taken ht
  have hname : "class" ∈ namesakes.shownNames := by decide +kernel
  have hclass : Text.identifier "class" ∈ Script.reservedWords := by decide +kernel
  exact ⟨text, t, before, after, ss, ht, htext, hbindings, hname,
    hiff.2 ⟨"class", hname, .inl hclass⟩⟩

/-- A scene can make its program declare a variable `class`, and one with the name of a constant of
the program. -/
theorem taken_names_declared :
    ∃ (text : String) (t : Session) (before after : String) (ss : List Statement),
    (assemble namesakes).run (.new ⟨"/"⟩ ⟨"/out"⟩ .empty) = .ok text t ∧
      text = before ++ Buffer.textOf (ss.map .statement) ++ after ∧
      ss.filterMap Statement.binding? = ["class_geometry", "class", "class_uuid", "scene"] ∧
      "class" ∈ Script.reservedWords ∧
      "scene" ∈ Script.bindings before ++ Script.bindings after := by
  have hrun : ∃ text t, (assemble namesakes).run (.new ⟨"/"⟩ ⟨"/out"⟩ .empty) = .ok text t :=
    ⟨_, _, rfl⟩
  obtain ⟨text, t, ht⟩ := hrun
  obtain ⟨before, after, ss, htext, hss, hframe⟩ := assemble_frame ht
  have hbindings : namesakes.bindings = ["class_geometry", "class", "class_uuid", "scene"] := by
    decide +kernel
  exact ⟨text, t, before, after, ss, ht, htext, hss.bindings_eq.trans hbindings, by decide +kernel,
    (hframe "scene").2 (.inl (by decide +kernel))⟩

end Emit

end SceneScript
