import SceneScript.Text.Split

/-!
# Paths

A path is a text with `/` between its segments, kept as it was written: joining does not simplify.
Empty segments and `.` stand for nothing, except that a relative path may start with `.`; the last
other segment is the file name, unless it is `..`.
-/

namespace SceneScript

/-- A path as written. -/
structure Path where
  text : String
  deriving DecidableEq, Repr, Inhabited

namespace Path

/-- The texts between the slashes. -/
def segments (p : Path) : List String :=
  Text.split '/' p.text

/-- The path with the given texts between the slashes. -/
def ofSegments (segments : List String) : Path :=
  ⟨"/".intercalate segments⟩

/-- A segment that stands for nothing. -/
def isVoid (segment : String) : Bool :=
  segment = "" || segment = "."

/-- Whether a path starts at the root. -/
def isAbsolute (p : Path) : Bool :=
  p.text.toList.head? = some '/'

/-- `child` seen from `p`: an absolute path stays itself, any other follows a slash. -/
def join (p child : Path) : Path :=
  if child.isAbsolute then child
  else if p.text = "" || p.text.toList.getLast? = some '/' then ⟨p.text ++ child.text⟩
  else ⟨p.text ++ "/" ++ child.text⟩

/-- The segments up to the last that stands for something, last first. -/
def essential (p : Path) : List String :=
  p.segments.reverse.dropWhile isVoid

/-- The last segment that stands for something, unless it goes up. -/
def fileName? (p : Path) : Option String :=
  match p.essential with
  | [] => none
  | name :: _ => if name = ".." then none else some name

/-- A file name cut at its last point, unless nothing precedes that point. -/
def cutName (name : String) : String × Option String :=
  let reversed := name.toList.reverse
  let after := reversed.takeWhile (· ≠ '.')
  match reversed.dropWhile (· ≠ '.') with
  | [] => (name, none)
  | _ :: [] => (name, none)
  | _ :: before => (String.ofList before.reverse, some (String.ofList after.reverse))

/-- What follows the last point of the file name. -/
def extension? (p : Path) : Option String :=
  p.fileName?.bind fun name => (cutName name).2

/-- The extension in lower case. -/
def lowerExtension? (p : Path) : Option String :=
  p.extension?.map fun e => e.map Char.toLower

/-- The path without the extension at its very end. The point before that stays. -/
def dropExtension (p : Path) : Path :=
  match p.segments.reverse with
  | [] => p
  | name :: before =>
    match cutName name with
    | (_, none) => p
    | (stem, some _) => ofSegments (before.reverse ++ [stem ++ "."])

/-- The path with another extension. The old one goes first, and a path that is then without a file
name stays as it is: of `..x` only `..` is left. -/
def withExtension (p : Path) (extension : String) : Path :=
  let p := p.dropExtension
  match p.essential with
  | [] => p
  | name :: before =>
    if name = ".." then p
    else ofSegments (before.reverse ++ [(cutName name).1 ++ "." ++ extension])

/-- The path without its last segment that stands for something. -/
def parent? (p : Path) : Option Path :=
  match p.essential with
  | [] => if p.isAbsolute || p.text = "" then none else some ⟨""⟩
  | _ :: before =>
    match before.dropWhile isVoid with
    | [] =>
      if p.isAbsolute then some ⟨"/"⟩
      else if before.getLast? = some "." then some ⟨"."⟩
      else some ⟨""⟩
    | kept => some (ofSegments kept.reverse)

/-- The directory a file is in: the parent, or the current directory when that is empty. -/
def directory (p : Path) : Path :=
  match p.parent? with
  | some parent => if parent.text = "" then ⟨"."⟩ else parent
  | none => ⟨"."⟩

/-- At most `n` of the parents of a path, nearest first. -/
def parents : Nat → Path → List Path
  | 0, _ => []
  | n + 1, p =>
    match p.parent? with
    | none => []
    | some parent => parent :: parents n parent

/-- The path and all its parents, nearest first. -/
def ancestors (p : Path) : List Path :=
  p :: parents p.segments.length p

/-- The segments of a relative path stand at the end of those of the joined path. -/
theorem exists_segments_join_relative (p : Path) :
    ∃ before, ∀ child : Path, child.isAbsolute = false →
      (p.join child).segments = before ++ child.segments := by
  have behind (front : List Char) (child : Path) (text : String)
      (ht : text.toList = front ++ '/' :: child.text.toList) :
      segments ⟨text⟩ = (Text.splitChars '/' front).map String.ofList ++ child.segments := by
    rw [segments, segments, Text.split, Text.split, ht, Text.splitChars_append_cons, List.map_append]
  by_cases hempty : p.text = ""
  · exact ⟨[], fun child h => by simp [join, h, hempty]⟩
  by_cases hslash : p.text.toList.getLast? = some '/'
  · obtain ⟨front, hfront⟩ := List.getLast?_eq_some_iff.1 hslash
    refine ⟨(Text.splitChars '/' front).map String.ofList, fun child h => ?_⟩
    simp only [join, h, hslash, decide_true, Bool.or_true, Bool.false_eq_true, ↓reduceIte]
    exact behind front child _ (by simp [hfront])
  · refine ⟨(Text.splitChars '/' p.text.toList).map String.ofList, fun child h => ?_⟩
    simp only [join, h, hempty, hslash, decide_false, Bool.or_self, Bool.false_eq_true, ↓reduceIte]
    exact behind p.text.toList child _ (by simp)

end Path

end SceneScript
