import SceneScript.Error
import SceneScript.Text.Base64

/-!
# Images

The image formats that are known by their file extension, and image files as data URLs.
-/

namespace SceneScript.Image

/-- The media type of each known extension. -/
def formats : List (String × String) :=
  [("avif", "image/avif"),
   ("jpg", "image/jpeg"), ("jpeg", "image/jpeg"), ("jfif", "image/jpeg"),
   ("png", "image/png"), ("apng", "image/png"),
   ("gif", "image/gif"),
   ("webp", "image/webp"),
   ("tif", "image/tiff"), ("tiff", "image/tiff"),
   ("tga", "image/x-targa"),
   ("dds", "image/vnd-ms.dds"),
   ("bmp", "image/bmp"),
   ("ico", "image/x-icon"),
   ("hdr", "image/vnd.radiance"),
   ("exr", "image/x-exr"),
   ("pbm", "image/x-portable-anymap"), ("pam", "image/x-portable-anymap"),
   ("ppm", "image/x-portable-anymap"), ("pgm", "image/x-portable-anymap"),
   ("pnm", "image/x-portable-anymap"),
   ("ff", "application/octet-stream"),
   ("qoi", "image/x-qoi")]

/-- The media type of a path with a known extension, whatever its case. -/
def knownType? (p : Path) : Option String :=
  p.lowerExtension?.bind fun e => formats.lookup e

/-- The media type of a path: an unknown extension names its own type. -/
def mediaType (p : Path) : String :=
  match knownType? p with
  | some type => type
  | none => "image/" ++ p.lowerExtension?.getD "octet-stream"

/-- Bytes as a data URL. -/
def dataUrl (type : String) (bytes : ByteArray) : String :=
  "data:" ++ type ++ ";base64," ++ String.ofList (Text.Base64.encode bytes.data.toList)

/-- Whether a path leads to a file with a known image extension. -/
def isImageFile (d : Disk) (p : Path) : Bool :=
  (knownType? p).isSome && d.isFile p

/-- An image file as a data URL. -/
def fileDataUrl (d : Disk) (p : Path) : Except Error String :=
  match d.read p with
  | .error fault => .error (.assetRead p fault)
  | .ok bytes => .ok (dataUrl (mediaType p) bytes)

/-- The image file at a place as a data URL. -/
def locationDataUrl (d : Disk) (l : Location) : Except Error String :=
  match d.readAt l with
  | .error fault => .error (.assetRead l.path fault)
  | .ok bytes => .ok (dataUrl (mediaType l.path) bytes)

end SceneScript.Image
