import SceneScript.Color
import SceneScript.CommandLine
import SceneScript.Config
import SceneScript.Decimal.Layout
import SceneScript.Decimal.Reading
import SceneScript.Decimal.Shortest
import SceneScript.Disk
import SceneScript.Entries
import SceneScript.Error
import SceneScript.Image
import SceneScript.Ini
import SceneScript.Ini.Tree
import SceneScript.Json
import SceneScript.Json.Reader
import SceneScript.Json.Token
import SceneScript.Main
import SceneScript.Material.Slots
import SceneScript.Module.Embedder
import SceneScript.Module.Mtl
import SceneScript.Module.Name
import SceneScript.Module.Texture
import SceneScript.Path
import SceneScript.Program.Assembly
import SceneScript.Program.Buffer
import SceneScript.Program.Inserts
import SceneScript.Program.Material
import SceneScript.Program.Object
import SceneScript.Program.Session
import SceneScript.Program.Statement
import SceneScript.Program.Template
import SceneScript.Proofs.Asks
import SceneScript.Proofs.Blocks
import SceneScript.Proofs.Deliveries
import SceneScript.Proofs.Disk
import SceneScript.Proofs.Embedding
import SceneScript.Proofs.Emission
import SceneScript.Proofs.FrameUpdates
import SceneScript.Proofs.GeneratedModules
import SceneScript.Proofs.JsonText
import SceneScript.Proofs.MeshLoader
import SceneScript.Proofs.ModuleUses
import SceneScript.Proofs.Needs
import SceneScript.Proofs.OutputDirectory
import SceneScript.Proofs.Registry
import SceneScript.Proofs.Replay
import SceneScript.Proofs.TextureKeys
import SceneScript.Proofs.TextureSets
import SceneScript.Proofs.Transpile
import SceneScript.Proofs.TwoPass
import SceneScript.Scene
import SceneScript.Scene.Reading
import SceneScript.Surroundings
import SceneScript.Text.Base64
import SceneScript.Text.Blank
import SceneScript.Text.Identifier
import SceneScript.Text.Quoted
import SceneScript.Text.Split
import SceneScript.Transpile
import SceneScript.Value
import SceneScript.Value.Literal
import SceneScript.Yaml
import SceneScript.Yaml.Cursor
import SceneScript.Yaml.Lexeme
import SceneScript.Yaml.Node
import SceneScript.Yaml.Scalar
import SceneScript.Yaml.Token
import SceneScript.Yaml.Token.Scan
import SceneScript.Proofs.Picks
import SceneScript.Proofs.Serving
import SceneScript.Proofs.Asking
import SceneScript.Proofs.Undisturbed
import SceneScript.Proofs.SecondRun
import SceneScript.Proofs.Interleaving
import SceneScript.Proofs.Overwriting
import SceneScript.Proofs.SceneGrammar
import SceneScript.Proofs.SceneReading
import SceneScript.Proofs.SceneEdits
import SceneScript.Proofs.TextureLines
import SceneScript.Proofs.ImageInlining
import SceneScript.Proofs.QuotedText
import SceneScript.Proofs.TextureModules
import SceneScript.Proofs.Progress
import SceneScript.Proofs.Failures
import SceneScript.Proofs.MaterialArguments
import SceneScript.Proofs.ColorArguments
import SceneScript.Proofs.SectionTree
import SceneScript.Proofs.InertNames
import SceneScript.Proofs.TakenNames
import SceneScript.Proofs.CommandPhrases
import SceneScript.Proofs.Identifiers
import SceneScript.Proofs.ShortestDecimals
import SceneScript.Proofs.Numerals
import SceneScript.Proofs.DataReading
import SceneScript.Proofs.Brackets
import SceneScript.Proofs.Literals
