import SceneScript.Program.Statement

/-!
# The buffer of a program

Text with one place that is filled in at the end: what is written before the mark is the header,
what is written after it the body, and the late text goes between them.
-/

namespace SceneScript

/-- A piece of a program: fixed text or a statement. -/
inductive Piece where
  | fixed (text : String)
  | statement (s : Statement)

/-- The text of a piece. -/
def Piece.text : Piece → String
  | .fixed text => text
  | .statement s => s.text

/-- The pieces before and after the mark, and whether the mark is set. -/
structure Buffer where
  header : List Piece
  body : List Piece
  marked : Bool

namespace Buffer

/-- Nothing written and no mark set. -/
def empty : Buffer :=
  ⟨[], [], false⟩

/-- One more piece. -/
def push (b : Buffer) (p : Piece) : Buffer :=
  if b.marked then { b with body := b.body ++ [p] } else { b with header := b.header ++ [p] }

/-- One more text. -/
def write (b : Buffer) (text : String) : Buffer :=
  b.push (.fixed text)

/-- One more line. -/
def line (b : Buffer) (text : String) : Buffer :=
  b.write (text ++ "\n")

/-- Sets the mark. -/
def mark (b : Buffer) : Buffer :=
  { b with marked := true }

/-- The text of several pieces. -/
def textOf (pieces : List Piece) : String :=
  String.join (pieces.map Piece.text)

/-- The whole text, with the late text at the mark. -/
def finish (b : Buffer) (late : String) : String :=
  textOf b.header ++ late ++ textOf b.body

theorem textOf_append (ps qs : List Piece) : textOf (ps ++ qs) = textOf ps ++ textOf qs := by
  simp [textOf]

/-- Behind the mark a piece goes to the end of the whole text. -/
theorem finish_push_of_marked {b : Buffer} (h : b.marked = true) (p : Piece) (late : String) :
    (b.push p).finish late = b.finish late ++ p.text := by
  simp [push, finish, h, textOf, String.append_assoc]

/-- Before the mark a piece goes to the end of the header. -/
theorem finish_push_of_not_marked {b : Buffer} (h : b.marked = false) (p : Piece)
    (late : String) :
    (b.push p).finish late = textOf b.header ++ p.text ++ late ++ textOf b.body := by
  simp [push, finish, h, textOf]

end Buffer

end SceneScript
