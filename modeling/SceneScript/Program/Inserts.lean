/-!
# Late inserts

Lines that are found necessary while statements are written and belong elsewhere in the program.
Each is kept once, in the order in which it was first asked for.
-/

namespace SceneScript

/-- One more text, unless it is there. -/
def insertOnce (texts : List String) (text : String) : List String :=
  if text ∈ texts then texts else texts ++ [text]

@[simp]
theorem mem_insertOnce {texts : List String} {text other : String} :
    other ∈ insertOnce texts text ↔ other ∈ texts ∨ other = text := by
  unfold insertOnce
  split
  · constructor
    · exact Or.inl
    · rintro (h | rfl) <;> assumption
  · simp

theorem nodup_insertOnce {texts : List String} (text : String) (h : texts.Nodup) :
    (insertOnce texts text).Nodup := by
  unfold insertOnce
  split
  · exact h
  · rename_i hm
    rw [List.nodup_append]
    refine ⟨h, by simp, ?_⟩
    intro a ha b hb
    rw [List.mem_singleton.1 hb]
    exact fun e => hm (e ▸ ha)

/-- Imports, constants behind them, and statements of each frame. -/
structure Inserts where
  imports : List String
  boilerplate : List String
  frameUpdates : List String

namespace Inserts

/-- Nothing asked for. -/
def empty : Inserts :=
  ⟨[], [], []⟩

/-- Asks for an import. -/
def addImport (i : Inserts) (line : String) : Inserts :=
  { i with imports := insertOnce i.imports line }

/-- Asks for a constant. -/
def addBoilerplate (i : Inserts) (text : String) : Inserts :=
  { i with boilerplate := insertOnce i.boilerplate text }

/-- Asks for a statement of each frame. -/
def addFrameUpdate (i : Inserts) (statement : String) : Inserts :=
  { i with frameUpdates := insertOnce i.frameUpdates statement }

/-- The text for the header: imports before constants. -/
def headerText (i : Inserts) : String :=
  String.join (i.imports ++ i.boilerplate)

end Inserts

end SceneScript
