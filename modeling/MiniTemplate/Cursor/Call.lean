import MiniTemplate.Cursor

/-!
# Calls on a cursor

A tool that steers a cursor from outside does so by a sequence of calls, each
answered before the next. A `MiniTemplate.Cursor.Call` is one request,
`MiniTemplate.Cursor.answer` its answer, and `MiniTemplate.Cursor.after` the cursor it
leaves behind. Two of the calls move the cursor; the others only look.
-/

namespace MiniTemplate.Cursor

/-- What can be asked of a cursor. -/
inductive Call where
  /-- The character under the cursor. -/
  | current
  /-- The character at a distance. -/
  | peek (distance : Int)
  /-- Whether the text ahead begins with a given text. -/
  | startsWith (literal : String)
  /-- Pass one character, and give it. -/
  | advance
  /-- Pass the blanks. -/
  | skipBlanks
  /-- Whether nothing is ahead. -/
  | atEnd
  /-- The place of the cursor. -/
  | position
  deriving DecidableEq, Repr

/-- What a cursor answers. -/
inductive Answer where
  /-- The character there, if there is one. -/
  | char (c : Option Char)
  | truth (b : Bool)
  | place (p : Position)
  /-- Nothing to say. -/
  | done
  deriving DecidableEq, Repr

/-- The answer to a call, read off the cursor before it moves. -/
def answer (c : Cursor) : Call → Answer
  | .current => .char c.current?
  | .peek n => .char (c.peek? n)
  | .startsWith s => .truth (c.startsWith s.toList)
  | .advance => .char c.current?
  | .skipBlanks => .done
  | .atEnd => .truth c.atEnd
  | .position => .place c.position

/-- The cursor after a call. -/
def after (c : Cursor) : Call → Cursor
  | .advance => c.advance
  | .skipBlanks => c.skipBlanks
  | .current | .peek _ | .startsWith _ | .atEnd | .position => c

/-- **A session**: the answers to a sequence of calls, each with the cursor that
the call leaves behind. -/
def session (c : Cursor) : List Call → List (Answer × Cursor)
  | [] => []
  | q :: qs => (c.answer q, c.after q) :: (c.after q).session qs

end MiniTemplate.Cursor
