/-!
# Slots of materials

Which arguments of the built-in materials take a texture and which take a color.
-/

namespace SceneScript

/-- The arguments of a material that take a texture, and those that take a color. -/
structure Slots where
  textures : List String
  colors : List String

namespace Slots

/-- Maps of an unlit surface. -/
def basicMaps : List String :=
  ["map", "alphaMap", "aoMap", "envMap", "lightMap", "specularMap"]

/-- Maps of a lit surface. -/
def litMaps : List String :=
  ["map", "alphaMap", "aoMap", "bumpMap", "displacementMap", "emissiveMap", "envMap", "lightMap",
   "normalMap", "specularMap"]

/-- Maps of a surface with metalness and roughness. -/
def standardMaps : List String :=
  ["map", "alphaMap", "aoMap", "bumpMap", "displacementMap", "emissiveMap", "envMap", "lightMap",
   "metalnessMap", "normalMap", "roughnessMap"]

/-- Maps of a surface with all physical effects. -/
def physicalMaps : List String :=
  standardMaps ++
    ["clearcoatMap", "clearcoatNormalMap", "clearcoatRoughnessMap", "iridescenceMap",
     "iridescenceThicknessMap", "sheenColorMap", "sheenRoughnessMap", "specularColorMap",
     "specularIntensityMap", "thicknessMap", "transmissionMap"]

/-- Maps of a surface with stepped shading. -/
def toonMaps : List String :=
  ["map", "alphaMap", "aoMap", "bumpMap", "displacementMap", "emissiveMap", "gradientMap",
   "lightMap", "normalMap"]

/-- The built-in materials. -/
def table : List (String × Slots) :=
  [("MeshBasicMaterial", ⟨basicMaps, ["color"]⟩),
   ("MeshLambertMaterial", ⟨litMaps, ["color", "emissive"]⟩),
   ("MeshPhongMaterial", ⟨litMaps, ["color", "emissive", "specular"]⟩),
   ("MeshStandardMaterial", ⟨standardMaps, ["color", "emissive"]⟩),
   ("MeshPhysicalMaterial",
    ⟨physicalMaps, ["color", "emissive", "sheenColor", "specularColor", "attenuationColor"]⟩),
   ("MeshToonMaterial", ⟨toonMaps, ["color", "emissive"]⟩),
   ("MeshMatcapMaterial",
    ⟨["map", "alphaMap", "bumpMap", "displacementMap", "matcap", "normalMap"], ["color"]⟩),
   ("MeshNormalMaterial", ⟨["bumpMap", "displacementMap", "normalMap"], []⟩),
   ("MeshDepthMaterial", ⟨["map", "alphaMap", "displacementMap"], []⟩),
   ("PointsMaterial", ⟨["map", "alphaMap"], ["color"]⟩),
   ("SpriteMaterial", ⟨["map", "alphaMap"], ["color"]⟩),
   ("LineBasicMaterial", ⟨["map"], ["color"]⟩),
   ("LineDashedMaterial", ⟨["map"], ["color"]⟩),
   ("ShadowMaterial", ⟨[], ["color"]⟩)]

/-- The slots of a material, if it is built in. -/
def of? (function : String) : Option Slots :=
  table.lookup function

/-- Whether an argument takes a texture. -/
def isTexture (s : Slots) (key : String) : Bool :=
  s.textures.contains key

/-- Whether an argument takes a color. -/
def isColor (s : Slots) (key : String) : Bool :=
  s.colors.contains key

end Slots

end SceneScript
