import SceneScript.Program.Object

/-!
# Assembling a program

The program of a scene: fixed imports, then the late inserts, then the fixed beginning, the
statements of the scene, and the fixed end with the updates of each frame.
-/

namespace SceneScript.Emit

/-- What the objects and lights at the top are attached to. -/
def rootParent : String :=
  "scene"

/-- Asks for the frame statistics. -/
def useStats : Emit Unit :=
  insert fun i => (i.addImport Template.statsImport).addBoilerplate Template.stats

/-- The section for the properties of the scene, unless there are none. -/
def propertySection (properties : Entries Value) : Emit Unit := do
  if !properties.isEmpty then
    statement (.comment "Scene properties")
    sceneProperties properties
    statement .blank

/-- The program of a scene. Afterwards the buffer is empty. -/
def assemble (scene : Scene) : Emit String := do
  if scene.options.showStats then useStats
  fixed Template.imports
  modify fun s => { s with buffer := s.buffer.mark }
  fixed Template.beginning
  propertySection scene.properties
  objects rootParent scene.objects
  lights rootParent scene.lights
  let s ← get
  fixed (Template.ending scene.options.showStats s.inserts.frameUpdates)
  let s ← get
  set { s with buffer := Buffer.empty }
  return s.buffer.finish s.inserts.headerText

end SceneScript.Emit
