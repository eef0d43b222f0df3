import MiniTemplate.Number.Double

/-!
# JSON values

The values that reports are made of. An object keeps its members in order, since
the order shows when it is written; a number is an integer, of any size, or a
decimal as it was written.
-/

namespace MiniTemplate

/-- A JSON value. -/
inductive Json where
  | null
  | bool (b : Bool)
  | int (n : Int)
  | real (d : Decimal)
  | str (s : String)
  | arr (items : List Json)
  | obj (members : List (String × Json))
  deriving Repr

namespace Json

/-- An array of texts. -/
def strings (ss : List String) : Json := .arr (ss.map .str)

/-- The member of an object under a key; the last one, should the key be
repeated. -/
def get? : Json → String → Option Json
  | .obj members, key => (members.reverse.find? fun m => m.1 == key).map (·.2)
  | _, _ => none

end Json

end MiniTemplate
