import SceneScript.CommandLine
import SceneScript.Surroundings

/-!
# The program

Reads the command line, fills a `Disk` with the files that the run may look at, carries out the run
on it, and writes back what has changed.
-/

namespace SceneScript

/-- The disk with what stands at a place. -/
def observeAt (d : Disk) (l : Location) : IO Disk := do
  if (d.node? l).isSome then return d
  let here ← IO.currentDir
  let place := here / l.text
  if ← place.isDir then return d.set l .directory
  else if ← place.pathExists then return d.set l (.file (← IO.FS.readBinFile place))
  else return d

/-- The disk with everything along the segments of a path. -/
def observeFrom (d : Disk) (l : Location) : List String → IO Disk
  | [] => return d
  | segment :: rest => do
    if Path.isVoid segment then observeFrom d l rest
    else if segment = ".." then observeFrom d l.up rest
    else if segment.toList.contains '\x00' then return d
    else
      let child := l.child segment
      let d ← observeAt d child
      match d.node? child with
      | some .directory => observeFrom d child rest
      | _ => return d

/-- The disk with everything along a path. -/
def observe (d : Disk) (p : Path) : IO Disk :=
  observeFrom d (d.origin p) p.segments

/-- The disk with everything along some paths. -/
def observeAll (d : Disk) : List Path → IO Disk
  | [] => return d
  | p :: paths => do observeAll (← observe d p) paths

/-- The directories among the members of the output directory: no file can be written there. -/
def observeOutput (d : Disk) (out : Path) : IO Disk := do
  match d.locate out with
  | .error _ => return d
  | .ok l =>
    let here ← IO.currentDir
    let mut d := d
    for entry in ← (here / l.text).readDir do
      if ← entry.path.isDir then d := d.set (l.child entry.fileName) .directory
    return d

/-- The disk with only the current directory. -/
def currentDisk : IO Disk := do
  let here : Path := ⟨toString (← IO.currentDir)⟩
  let d ← observe .empty here
  match d.locate here with
  | .ok l => return { d with cwd := l }
  | .error _ => return d

/-- The disk that a run works on. -/
def surroundings (r : Request) : IO Disk := do
  let d ← observeAll (← currentDisk) (r.baseDirectory :: r.ownPaths)
  let assets := r.assetPaths d
  let d ← observeAll d assets
  let d ← observeAll d (assets.flatMap (Request.imagePaths d))
  observeOutput d r.outputDirectory

/-- Writes changed nodes. -/
def commit : List (Location × Node) → IO Unit
  | [] => return ()
  | (l, .directory) :: rest => do
    IO.FS.createDir l.text
    commit rest
  | (l, .file contents) :: rest => do
    IO.FS.writeBinFile l.text contents
    commit rest

/-- Carries out a command and tells its outcome. -/
def perform (command : Command) : IO UInt32 := do
  let before ←
    match command with
    | .transpile r => surroundings r
    | _ => pure .empty
  let (outcome, after, warnings) := command.run before
  commit (before.changes after)
  for w in warnings do
    IO.eprintln w.message
  IO.print outcome.stdout
  IO.eprint outcome.stderr
  return UInt32.ofNat outcome.exit

end SceneScript

/-- The program. -/
def main (args : List String) : IO UInt32 :=
  SceneScript.perform (SceneScript.Command.ofArguments args)
