import MiniTemplate.Markup.Write
import MiniTemplate.Vue.Attributes

/-!
# Converting a forest to Vue

The forest is written with the names of the target: one line for a text, a comment or
an element without children; an element with children is a block. An element without
children whose tag is void in the target is written `<tag />`, any other
`<tag></tag>`.

The writer follows the traversal of the forest. What a log has to say about a
conversion is read off the forest separately (`MiniTemplate.Vue.notes`): it has no part in
the output.
-/

namespace MiniTemplate.Vue

/-- The opening tag of an element, without its end. -/
def head (t : Target) (name : String) (as : List Attribute) : String :=
  Markup.tagHead (t.tagName name) ((bindings t as).map Binding.text)

/-- Write a node on the way in. -/
def enter (t : Target) (s : Sheet) : Node → Sheet
  | .text content _ =>
    let text := Text.trim content
    if text.isEmpty then s else s.put t.indent text
  | .comment content _ => s.put t.indent ("<!--" ++ content ++ "-->")
  | .element name attributes children _ _ =>
    let tag := t.tagName name
    if !children.isEmpty then (s.put t.indent (head t name attributes ++ ">")).deeper
    else if t.isVoid tag then s.put t.indent (head t name attributes ++ " />")
    else s.put t.indent (head t name attributes ++ "></" ++ tag ++ ">")

/-- Write a node on the way out: a block is closed. -/
def leave (t : Target) (s : Sheet) : Node → Sheet
  | .element name _ children _ _ =>
    if children.isEmpty then s else s.shallower.put t.indent ("</" ++ t.tagName name ++ ">")
  | .text .. | .comment .. => s

/-- One visit of the traversal. -/
def visit (t : Target) (s : Sheet) (v : Visit) : Sheet :=
  match v.passage with
  | .enter => enter t s v.node
  | .leave => leave t s v.node

/-- The lines of a forest in Vue. -/
def lines (t : Target) (f : Forest) : List String :=
  (f.traverse.foldl (visit t) .empty).lines

/-- **A forest in Vue.** -/
def convert (t : Target) (f : Forest) : String :=
  "\n".intercalate (lines t f)

/-! ### What a log says about a conversion -/

/-- An event of a conversion that is worth a line in a log. -/
inductive Note where
  /-- A directive that is not known passes through. -/
  | unknownDirective (name : String)
  /-- An attribute is dropped, since its name is already written. -/
  | droppedAttribute (key element : String)
  deriving DecidableEq, Repr

/-- The wording of a note. -/
def Note.message : Note → String
  | unknownDirective name => "Passing through unknown directive " ++ name
  | droppedAttribute key element =>
    "Dropping duplicate attribute " ++ key ++ " on <" ++ element ++ ">"

/-- The notes on one node. -/
def nodeNotes (t : Target) : Node → List Note
  | .element name attributes _ _ _ =>
    (unknownDirectives attributes).map .unknownDirective ++
      (droppedKeys [] (candidates t attributes)).map (.droppedAttribute · name)
  | .text .. | .comment .. => []

/-- The notes on a conversion, in the order of the work. -/
def notes (t : Target) (f : Forest) : List Note :=
  f.walk.flatMap fun n => nodeNotes t n.1

end MiniTemplate.Vue
