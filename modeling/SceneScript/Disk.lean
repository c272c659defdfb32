import SceneScript.Path

/-!
# The disk

A tree of directories and files, held as a list of places with what stands there. The root is
always a directory. A path is walked from the root or from the current directory, segment by
segment; every step needs a directory to start from. The operations refuse with a `Fault`.

The tree has no symbolic and no hard links, so a place has one path without detours and two places
never share a file. It has no permissions either: what exists can be read and written, and a write
is refused for its path only. Names are texts, and names of other bytes are left out, as are devices
and all that stands in a file system besides names and contents.
-/

namespace SceneScript

/-- Why the disk refuses. -/
inductive Fault where
  /-- A place on the way does not exist. -/
  | notFound
  /-- A file stands where the path needs a directory. -/
  | notDirectory
  /-- A directory stands where a file is read or written. -/
  | isDirectory
  /-- The contents are not UTF-8 text. -/
  | notText
  /-- A name is longer than the disk can hold, or a path longer than it takes. -/
  | nameTooLong
  /-- The path holds a NUL character. -/
  | nulInPath
  /-- A directory is to be made where something else stands. -/
  | alreadyExists
  deriving DecidableEq, Repr

/-- A fault in the words of the operating system. -/
def Fault.message : Fault → String
  | .notFound => "No such file or directory (os error 2)"
  | .notDirectory => "Not a directory (os error 20)"
  | .isDirectory => "Is a directory (os error 21)"
  | .notText => "stream did not contain valid UTF-8"
  | .nameTooLong => "File name too long (os error 36)"
  | .nulInPath => "file name contained an unexpected NUL byte"
  | .alreadyExists => "File exists (os error 17)"

/-- A place in the tree: the names on the way from the root. -/
structure Location where
  names : List String
  deriving DecidableEq, Repr, Inhabited

namespace Location

/-- The root of the tree. -/
def root : Location :=
  ⟨[]⟩

/-- The place one name below. -/
def child (l : Location) (name : String) : Location :=
  ⟨l.names ++ [name]⟩

/-- The place one step up; the root stays. -/
def up (l : Location) : Location :=
  ⟨l.names.dropLast⟩

/-- The text of a place. -/
def text (l : Location) : String :=
  "/" ++ "/".intercalate l.names

/-- The absolute path to a place, without any detour. -/
def path (l : Location) : Path :=
  ⟨l.text⟩

/-- Whether the names come before other names or are the same: the first difference decides, and a
place comes before everything below it. -/
def namesLe : List String → List String → Bool
  | [], _ => true
  | _ :: _, [] => false
  | a :: as, b :: bs => a < b || (a == b && namesLe as bs)

/-- The order of places, name by name. -/
def le (a b : Location) : Bool :=
  namesLe a.names b.names

end Location

/-- What stands at a place. -/
inductive Node where
  | directory
  | file (contents : ByteArray)

/-- The tree, with the current directory. -/
structure Disk where
  cwd : Location
  nodes : List (Location × Node)
  deriving Inhabited

namespace Disk

/-- Only the root, which is also the current directory. -/
def empty : Disk :=
  ⟨.root, []⟩

/-- The node stored for a place. -/
def lookup : List (Location × Node) → Location → Option Node
  | [], _ => none
  | (place, node) :: rest, l => if place = l then some node else lookup rest l

/-- Stores a node for a place, in its old position if it has one. -/
def store : List (Location × Node) → Location → Node → List (Location × Node)
  | [], l, node => [(l, node)]
  | (place, old) :: rest, l, node =>
    if place = l then (l, node) :: rest else (place, old) :: store rest l node

/-- What stands at a place. -/
def node? (d : Disk) (l : Location) : Option Node :=
  if l = .root then some .directory else lookup d.nodes l

/-- Puts a node at a place. -/
def set (d : Disk) (l : Location) (node : Node) : Disk :=
  { d with nodes := store d.nodes l node }

/-- Takes away what stands at a place. -/
def erase (d : Disk) (l : Location) : Disk :=
  { d with nodes := d.nodes.filter fun entry => entry.1 ≠ l }

/-- The files with their places. -/
def files (d : Disk) : List (Location × ByteArray) :=
  d.nodes.filterMap fun
    | (l, .file contents) => some (l, contents)
    | (_, .directory) => none

theorem lookup_store_self (nodes : List (Location × Node)) (l : Location) (node : Node) :
    lookup (store nodes l node) l = some node := by
  fun_induction store nodes l node <;> simp_all [lookup]

theorem lookup_store_of_ne (nodes : List (Location × Node)) {l other : Location} (node : Node)
    (h : other ≠ l) : lookup (store nodes l node) other = lookup nodes other := by
  fun_induction store nodes l node with
  | case1 => simp [lookup, h.symm]
  | case2 => simp [lookup, h.symm]
  | case3 place old rest l node _ ih => simp [lookup, ih h]

/-- What is put at a place other than the root is found there. -/
theorem node?_set_self (d : Disk) {l : Location} (node : Node) (h : l ≠ .root) :
    (d.set l node).node? l = some node := by
  simp [node?, set, h, lookup_store_self]

/-- Putting a node at one place changes no other. -/
theorem node?_set_of_ne (d : Disk) {l other : Location} (node : Node) (h : other ≠ l) :
    (d.set l node).node? other = d.node? other := by
  simp [node?, set, lookup_store_of_ne _ _ h]

/-! ## Walking -/

/-- How many bytes a name may have. -/
def nameLimit : Nat :=
  255

/-- The place reached from `l` over the segments of a path. -/
def walk (d : Disk) (l : Location) : List String → Except Fault Location
  | [] => .ok l
  | segment :: rest =>
    match d.node? l with
    | none => .error .notFound
    | some (.file _) => .error .notDirectory
    | some .directory =>
      if Path.isVoid segment then walk d l rest
      else if segment = ".." then walk d l.up rest
      else if nameLimit < segment.utf8ByteSize then .error .nameTooLong
      else
        match d.node? (l.child segment) with
        | none => .error .notFound
        | some _ => walk d (l.child segment) rest

/-- Where the walk along a path starts. -/
def origin (d : Disk) (p : Path) : Location :=
  if p.isAbsolute then .root else d.cwd

/-- A path must hold no NUL and must not be empty. -/
def checkPath (p : Path) : Except Fault Unit :=
  if p.text.toList.contains '\x00' then .error .nulInPath
  else if p.text = "" then .error .notFound
  else .ok ()

/-- How many bytes a path may have that is used as a whole. -/
def pathLimit : Nat :=
  4095

/-- A path that is used as a whole must also not be too long. -/
def checkWholePath (p : Path) : Except Fault Unit := do
  checkPath p
  if pathLimit < p.text.utf8ByteSize then .error .nameTooLong else .ok ()

/-- The place a path leads to, found name by name. Everything on the way has to exist. -/
def locate (d : Disk) (p : Path) : Except Fault Location := do
  checkPath p
  d.walk (d.origin p) p.segments

/-- The place a path leads to when it is used as a whole. -/
def reach (d : Disk) (p : Path) : Except Fault Location := do
  checkWholePath p
  d.locate p

/-- What a path leads to. -/
def find (d : Disk) (p : Path) : Except Fault Node := do
  let l ← d.reach p
  match d.node? l with
  | some node => .ok node
  | none => .error .notFound

/-- Whether a path leads to a file. -/
def isFile (d : Disk) (p : Path) : Bool :=
  match d.find p with
  | .ok (.file _) => true
  | _ => false

/-- Whether a path leads to a directory. -/
def isDirectory (d : Disk) (p : Path) : Bool :=
  match d.find p with
  | .ok .directory => true
  | _ => false

/-! ## Reading and writing -/

/-- The bytes of the file at a place. -/
def readAt (d : Disk) (l : Location) : Except Fault ByteArray :=
  match d.node? l with
  | none => .error .notFound
  | some .directory => .error .isDirectory
  | some (.file contents) => .ok contents

/-- The text of the file at a place. -/
def readTextAt (d : Disk) (l : Location) : Except Fault String := do
  match String.fromUTF8? (← d.readAt l) with
  | none => .error .notText
  | some text => .ok text

/-- The bytes of a file. -/
def read (d : Disk) (p : Path) : Except Fault ByteArray := do
  d.readAt (← d.reach p)

/-- The text of a file. -/
def readText (d : Disk) (p : Path) : Except Fault String := do
  d.readTextAt (← d.reach p)

/-- A path cut before its last segment; slashes at the end are dropped and reported. -/
def cutLast (p : Path) : Option (List String × String × Bool) :=
  match p.segments.reverse.dropWhile (· = "") with
  | [] => none
  | last :: before => some (before.reverse, last, p.segments.getLast? = some "")

/-- The place where a path makes something new or replaces a file: its last name in the directory
that the rest of the path leads to. `none` when the path has no such name. -/
def target (d : Disk) (p : Path) : Except Fault (Option (Location × Bool)) := do
  checkWholePath p
  match cutLast p with
  | none => .ok none
  | some (before, last, slash) =>
    let parent ← d.walk (d.origin p) before
    match d.node? parent with
    | none => .error .notFound
    | some (.file _) => .error .notDirectory
    | some .directory =>
      if last = "." || last = ".." then .ok none
      else if nameLimit < last.utf8ByteSize && !slash then .error .nameTooLong
      else .ok (some (parent.child last, slash))

/-- Writes a file: a new one, or over an old one. Nothing changes when it is refused. -/
def write (d : Disk) (p : Path) (contents : ByteArray) : Except Fault Disk := do
  match ← d.target p with
  | none => .error .isDirectory
  | some (l, slash) =>
    if slash then .error .isDirectory
    else
      match d.node? l with
      | some .directory => .error .isDirectory
      | _ => .ok (d.set l (.file contents))

/-! ## Directories -/

/-- Makes one directory in an existing one. -/
def makeDirectory (d : Disk) (p : Path) : Except Fault Disk := do
  match ← d.target p with
  | none => .error .alreadyExists
  | some (l, _) =>
    if nameLimit < (l.names.getLast?.getD "").utf8ByteSize then .error .nameTooLong
    else
      match d.node? l with
      | some _ => .error .alreadyExists
      | none => .ok (d.set l .directory)

/-- Makes the directory at the head of a list of ancestors, after those behind it where they are
missing. Directories made before a refusal stay. -/
def makeDirectoriesFrom (d : Disk) : List Path → Except Fault Unit × Disk
  | [] => (.error .notFound, d)
  | p :: parents =>
    if p.text = "" then (.ok (), d)
    else
      match d.makeDirectory p with
      | .ok d' => (.ok (), d')
      | .error .notFound =>
        match makeDirectoriesFrom d parents with
        | (.error fault, d') => (.error fault, d')
        | (.ok (), d') =>
          match d'.makeDirectory p with
          | .ok d'' => (.ok (), d'')
          | .error fault => if d'.isDirectory p then (.ok (), d') else (.error fault, d')
      | .error fault => if d.isDirectory p then (.ok (), d) else (.error fault, d)

/-- Makes a directory and those on the way to it; one that exists is left alone. -/
def makeDirectories (d : Disk) (p : Path) : Except Fault Unit × Disk :=
  d.makeDirectoriesFrom p.ancestors

end Disk

end SceneScript
