import MiniTemplate.Markup.Sheet
import MiniTemplate.Markup.Value
import MiniTemplate.Text.Blank

/-!
# Writing a forest as markup

A forest is written back in its own dialect: attributes in their order, an attribute
without a value by its name alone. An element that was written `<x/>` and has no
children is written `<x />`, any other element without children `<x></x>`. An element
all of whose children are texts takes one line; every other element with children is
a block, its children indented between its two tags.

The writer follows the traversal of the forest: it writes on the way in, and closes
blocks on the way out.
-/

namespace MiniTemplate

/-- Is it an element with children, all of which are texts? -/
def Node.isInline : Node → Bool
  | .element _ _ children _ _ => !children.isEmpty && children.all Node.isText
  | .text .. | .comment .. => false

/-- The content of a text without the blanks around it; nothing for other nodes. -/
def Node.trimmedText : Node → String
  | .text content _ => Text.trim content
  | .element .. | .comment .. => ""

namespace Markup

/-- An attribute, as written. -/
def attributeText (a : Attribute) : String :=
  if a.value.isEmpty then a.name else assign a.name a.value

/-- A tag without its end. -/
def tagHead (name : String) (attributes : List String) : String :=
  let text := " ".intercalate attributes
  if text.isEmpty then "<" ++ name else "<" ++ name ++ " " ++ text

/-- Write a node on the way in. -/
def enter (indent : Int) (s : Sheet) : Node → Sheet
  | .text content _ =>
    let t := Text.trim content
    if t.isEmpty then s else s.put indent t
  | .comment content _ => s.put indent ("<!--" ++ content ++ "-->")
  | .element name attributes children selfClosing span =>
    let head := tagHead name (attributes.map attributeText)
    if children.isEmpty then
      s.put indent (if selfClosing then head ++ " />" else head ++ "></" ++ name ++ ">")
    else if (Node.element name attributes children selfClosing span).isInline then
      let content := String.join (children.map Node.trimmedText)
      s.put indent (head ++ ">" ++ content ++ "</" ++ name ++ ">")
    else (s.put indent (head ++ ">")).deeper

/-- Write a node on the way out: a block is closed. -/
def leave (indent : Int) (s : Sheet) (n : Node) : Sheet :=
  match n with
  | .element name _ children _ _ =>
    if children.isEmpty || n.isInline then s else s.shallower.put indent ("</" ++ name ++ ">")
  | .text .. | .comment .. => s

/-- One visit of the traversal. What stands in an inline element was written with it. -/
def visit (indent : Int) (s : Sheet) (v : Visit) : Sheet :=
  match v.passage with
  | .leave => leave indent s v.node
  | .enter => if v.parent.any Node.isInline then s else enter indent s v.node

/-- **A forest as markup**, indented by so many spaces a level. -/
def write (indent : Int) (f : Forest) : String :=
  (f.traverse.foldl (visit indent) .empty).text

end Markup

end MiniTemplate
