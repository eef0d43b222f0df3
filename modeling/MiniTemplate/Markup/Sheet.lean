import MiniTemplate.Node.Traversal

/-!
# Sheets of lines

Both writers of markup put down one line after another, each indented by the level
of the element it stands in. A sheet holds the lines so far and the current level.
-/

namespace MiniTemplate

/-- A sheet that is being written. -/
structure Sheet where
  /-- The lines so far, the latest first. -/
  written : List String
  level : Int
  deriving DecidableEq, Repr

namespace Sheet

/-- The empty sheet. -/
def empty : Sheet := ⟨[], 0⟩

/-- The indentation of a level; a product that is negative gives none. -/
def indentation (indent level : Int) : String :=
  String.ofList (List.replicate (level * indent).toNat ' ')

/-- Put down a line at the current level. -/
def put (s : Sheet) (indent : Int) (content : String) : Sheet :=
  { s with written := (indentation indent s.level ++ content) :: s.written }

/-- Go one level deeper. -/
def deeper (s : Sheet) : Sheet := { s with level := s.level + 1 }

/-- Come back one level. -/
def shallower (s : Sheet) : Sheet := { s with level := s.level - 1 }

/-- The lines, in order. -/
def lines (s : Sheet) : List String := s.written.reverse

/-- The text of the lines. -/
def text (s : Sheet) : String := "\n".intercalate s.lines

end Sheet

end MiniTemplate
