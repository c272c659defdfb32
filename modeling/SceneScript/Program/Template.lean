/-!
# Fixed text

The parts of the program that do not come from the scene. The program runs beside the files `gui`,
`animator` and `camera` of a template project.
-/

namespace SceneScript.Template

/-- Lines of text. -/
def lines (texts : List String) : String :=
  String.join (texts.map (· ++ "\n"))

/-- The imports that every program starts with. -/
def imports : String :=
  lines
    ["import * as THREE from \"three\";",
     "import \x7b OrbitControls \x7d from \"three/examples/jsm/controls/OrbitControls\";",
     "import \x7b MyGui \x7d from \"./gui\";",
     "import \x7b MyMixer \x7d from \"./animator\";",
     "import \x7b MyCamera \x7d from \"./camera\";"]

/-- Renderer, scene, camera, controls and mixer. -/
def beginning : String :=
  lines
    ["",
     "// Create renderer",
     "var renderer = new THREE.WebGLRenderer(\x7b antialias: true \x7d);",
     "renderer.setSize(window.innerWidth, window.innerHeight);",
     "document.body.appendChild(renderer.domElement);",
     "",
     "// Create scene",
     "const scene = new THREE.Scene();",
     "",
     "// Create camera",
     "var camera_per = new THREE.PerspectiveCamera(",
     "    75,",
     "    window.innerWidth / window.innerHeight,",
     "    0.1,",
     "    1000,",
     ");",
     "camera_per.position.z = 25;",
     "",
     "// Create controls",
     "const controls = new OrbitControls(camera_per, renderer.domElement);",
     "",
     "// Create instance of mixer",
     "const mixer = new MyMixer(scene);",
     "",
     "// Add camera",
     "const camera = new MyCamera(scene, camera_per);",
     "",
     "// Followable objects",
     "var followable_objects = [];",
     ""]

/-- The import of the mesh loader. -/
def objLoaderImport : String :=
  "import \x7b OBJLoader \x7d from \"three/examples/jsm/loaders/OBJLoader\";\n"

/-- The one mesh loader. -/
def objLoader : String :=
  "const OBJ_LOADER = new OBJLoader();\n"

/-- The import of the material library loader. -/
def mtlLoaderImport : String :=
  "import \x7b MTLLoader \x7d from \"three/examples/jsm/loaders/MTLLoader\";\n"

/-- The one material library loader. -/
def mtlLoader : String :=
  "const MTL_LOADER = new MTLLoader();\n"

/-- The import of the frame statistics. -/
def statsImport : String :=
  "import Stats from \"three/examples/jsm/libs/stats.module\";\n"

/-- The frame statistics. -/
def stats : String :=
  "const stats = Stats();\ndocument.body.appendChild(stats.dom);\n"

/-- The statement that drives the time of a shader material from the time of the animation. -/
def timeUpdate (material : String) : String :=
  material ++ ".uniforms.time.value = mixer.clip_action.time;"

/-- The start of the render loop when statistics are shown. -/
def statsBegin (showStats : Bool) : String :=
  if showStats then "    stats.begin();\n" else ""

/-- The end of the render loop when statistics are shown. -/
def statsEnd (showStats : Bool) : String :=
  if showStats then "    stats.end();\n" else ""

/-- A statement in the animation function. -/
def updateLine (update : String) : String :=
  "        " ++ update ++ "\n"

/-- The part of the end before the body of the render loop. -/
def endingSetup : String :=
  lines
    ["",
     "// Add geometry to camera",
     "camera.addFollowableObjects(followable_objects);",
     "",
     "// Lock the mixer (this generates the clip and clip action)",
     "mixer.lock();",
     "",
     "// Create basic video functions and variables",
     "var paused = false;",
     "function pause_play() \x7b",
     "    if (paused) \x7b",
     "        paused = false;",
     "        clock.start();",
     "        gui.play();",
     "    \x7d else \x7b",
     "        paused = true;",
     "        clock.stop();",
     "        gui.pause();",
     "    \x7d",
     "\x7d",
     "",
     "// Create GUI",
     "const gui = new MyGui();",
     "gui.addVideoControls(pause_play, mixer);",
     "gui.addCameraControls(camera);",
     "",
     "const clock = new THREE.Clock();",
     "",
     "// Render Loop",
     "var render = function () \x7b",
     "    // Render scene",
     "    requestAnimationFrame(render);"]

/-- The drawing of a frame. -/
def endingFrame : String :=
  lines
    ["    animate();",
     "    renderer.render(scene, camera_per);"]

/-- The start of the animation function. -/
def endingAnimate : String :=
  lines
    ["\x7d;",
     "",
     "// Animation",
     "function animate() \x7b",
     "    if (!paused) \x7b",
     "        // Update animation",
     "        var delta = clock.getDelta();",
     "        mixer.update(delta);",
     "        gui.updateTime();"]

/-- The end of the animation function, and the start of the program's run. -/
def endingClose : String :=
  lines
    ["        camera.update();",
     "    \x7d",
     "\x7d",
     "",
     "controls.update();",
     "render();"]

/-- The end of the program. The updates of each frame stand between those of the controls and of the
camera. -/
def ending (showStats : Bool) (updates : List String) : String :=
  endingSetup ++ statsBegin showStats ++ endingFrame ++ statsEnd showStats ++ endingAnimate ++
    String.join (updates.map updateLine) ++ endingClose

end SceneScript.Template
