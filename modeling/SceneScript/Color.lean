import SceneScript.Error
import SceneScript.Value.Literal

/-!
# Colors

A color in a scene is a list of three components, a number, a hexadecimal literal or a name. Each
becomes the arguments of a color constructor; a name becomes a quoted text, so it cannot bring in
any other code.
-/

namespace SceneScript

/-- A color as a scene gives it. -/
inductive Color where
  | components (r g b : Value)
  | hex (digits : String)
  | named (name : String)
  | number (n : Number)

namespace Color

/-- A hexadecimal digit. -/
def isHexDigit (c : Char) : Bool :=
  c.isDigit || ('a' ≤ c && c ≤ 'f') || ('A' ≤ c && c ≤ 'F')

/-- `0x` or `0X` and exactly six hexadecimal digits. -/
def isHexLiteral : List Char → Bool
  | '0' :: x :: digits => (x = 'x' || x = 'X') && digits.length == 6 && digits.all isHexDigit
  | _ => false

/-- The color of a text, without the blanks around it. -/
def ofText (s : String) : Color :=
  let trimmed := Text.trim s
  if isHexLiteral trimmed.toList then .hex trimmed else .named trimmed

/-- The color that a value means. -/
def ofValue : Value → Except Error Color
  | .list [r, g, b] => .ok (.components r g b)
  | .list items => .error (.invalidColor (.list items) .componentCount)
  | .string s => .ok (ofText s)
  | .number n => .ok (.number n)
  | v => .error (.invalidColor v .kind)

/-- The arguments of the constructor. -/
def arguments : Color → String
  | .components r g b => Value.positionalText [r, g, b]
  | .hex digits => digits
  | .named name => Text.quote name
  | .number n => n.text

/-- The constructor call. -/
def text (c : Color) : String :=
  "new THREE.Color(" ++ c.arguments ++ ")"

end Color

end SceneScript
