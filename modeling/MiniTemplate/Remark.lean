import MiniTemplate.Cursor

/-!
# Remarks on a template

Reading a template never fails; what is wrong with it is remarked on. A *fault* is
malformed markup, a *caution* is markup that is read without doubt but is likely a
mistake. A remark carries the place it is about, and its text names the line and the
column of that place.
-/

namespace MiniTemplate

/-- Malformed markup. -/
inductive Fault where
  /-- A `<` that no tag name follows. -/
  | missingTagName
  /-- A tag that does not end. -/
  | missingTagEnd
  /-- A closing tag that does not end. -/
  | missingClosingTagEnd
  /-- A closing tag where no element is open. -/
  | unexpectedClosing (name : String)
  /-- A closing tag of another name than the element it closes. -/
  | mismatchedClosing (expected found : String)
  /-- A quoted value that the text ends in. -/
  | unterminatedValue (quote : Char)
  /-- An element nested deeper than allowed. -/
  | tooDeep (limit : Int)
  deriving DecidableEq, Repr

/-- Markup that is likely a mistake. -/
inductive Caution where
  /-- An attribute whose name the tag already has. -/
  | duplicateAttribute (name tag : String)
  /-- An element that the text ends in. -/
  | unclosed (name : String)
  deriving DecidableEq, Repr

/-- The wording of a fault. -/
def Fault.message : Fault → String
  | missingTagName => "expected tag name"
  | missingTagEnd => "expected \">\""
  | missingClosingTagEnd => "expected \">\" to finish closing tag"
  | unexpectedClosing name => "unexpected closing tag </" ++ name ++ ">"
  | mismatchedClosing expected found =>
    "mismatched closing tag: expected </" ++ expected ++ ">, found </" ++ found ++ ">"
  | unterminatedValue quote => "unterminated attribute value, expected " ++ String.ofList [quote]
  | tooDeep limit => "element nesting is deeper than " ++ toString limit ++ " levels"

/-- The wording of a caution. -/
def Caution.message : Caution → String
  | duplicateAttribute name tag => "duplicate attribute '" ++ name ++ "' on <" ++ tag ++ ">"
  | unclosed name => "element <" ++ name ++ "> is not closed before end of input"

/-- A remark with the place it is about. -/
structure Located (α : Type) where
  place : Position
  what : α
  deriving DecidableEq, Repr

/-- The text of a message about a place. -/
def Position.report (p : Position) (message : String) : String :=
  "line " ++ toString p.line ++ " column " ++ toString p.column ++ ": " ++ message

/-- The text of a fault with its place. -/
def Located.faultText (r : Located Fault) : String := r.place.report r.what.message

/-- The text of a caution with its place. -/
def Located.cautionText (r : Located Caution) : String := r.place.report r.what.message

end MiniTemplate
