import MiniTemplate.Node
import MiniTemplate.Text.Blank
import MiniTemplate.Text.Quoted

/-!
# The outline of a forest

For a quick look at a tree: one line for each node, in document order, indented by
its level. Contents and values are shown between quotes, so that none of them breaks
a line, and a long text is cut short.

The lines of a tree are made by recursion on it. A machine ends such a recursion at some depth;
that limit is left out here, and a tree of any depth has an outline.
-/

namespace MiniTemplate.Forest

/-- The number of characters of a text that an outline shows. -/
def previewLength : Nat := 50

/-- A text as an outline shows it: trimmed, and cut short if it is long. -/
def preview (content : String) : String :=
  let cs := Text.trimChars content.toList
  if cs.length > previewLength then String.ofList (cs.take previewLength ++ ['.', '.', '.'])
  else String.ofList cs

/-- The indentation of a level: two spaces each, none below the first. -/
def outlineIndent (level : Int) : String :=
  String.ofList (List.replicate (2 * level.toNat) ' ')

/-- The attributes of an element on its line, each behind a space. -/
def outlineAttributes (as : List Attribute) : String :=
  String.join (as.map fun a => " " ++ a.name ++ "=" ++ Text.quoted a.value)

mutual

/-- The lines of one tree. -/
def nodeOutline (level : Int) : Node → List String
  | .element name attributes children selfClosing _ =>
    (outlineIndent level ++ "<" ++ name ++ outlineAttributes attributes ++
      (if selfClosing then " />" else ">")) :: outlineLines (level + 1) children
  | .text content _ => [outlineIndent level ++ "Text(" ++ Text.quoted (preview content) ++ ")"]
  | .comment content _ => [outlineIndent level ++ "Comment(" ++ Text.quoted content ++ ")"]

/-- The lines of the trees of a forest. -/
def outlineLines (level : Int) : List Node → List String
  | [] => []
  | n :: ns => nodeOutline level n ++ outlineLines level ns

end

/-- **The outline of a forest**, its top-level nodes at a level. -/
def outline (f : Forest) (level : Int) : String :=
  "\n".intercalate (outlineLines level f)

end MiniTemplate.Forest
