import MiniTemplate.Json.Basic
import MiniTemplate.Node

/-!
# Trees as JSON

The JSON of a node says everything that is known of it: for an element its name, its
attributes with both of their views, its children and whether it closes itself; for a
text or a comment its content; and for every node its position, if it has one.

It is made by recursion on the tree. That a machine ends such a recursion at some depth is left out.
-/

namespace MiniTemplate

/-- The JSON of a span. -/
def Span.toJson (s : Span) : Json :=
  .obj [("start", .int s.start), ("end", .int s.stop), ("line", .int s.line),
    ("column", .int s.column)]

/-- The JSON of a directive. -/
def Directive.toJson (d : Directive) : Json :=
  .obj [("name", .str d.name), ("value", .str d.value), ("modifiers", .strings d.modifiers)]

/-- The JSON of a directive whose name is said elsewhere. -/
def Directive.valueJson (d : Directive) : Json :=
  .obj [("value", .str d.value), ("modifiers", .strings d.modifiers)]

namespace Attribute

/-- The JSON of an attribute; the directive is left out if there is none. -/
def toJson (a : Attribute) : Json :=
  .obj ([("name", .str a.name), ("value", .str a.value), ("isDirective", .bool a.isDirective)] ++
    a.directive.toList.map fun d => ("directive", d.toJson))

/-- The JSON of the attributes of an element: the two views, and the list. -/
def listJson (as : List Attribute) : Json :=
  .obj [
    ("props", .obj ((props as).entries.map fun e => (e.1, .str e.2))),
    ("directives", .obj ((directives as).entries.map fun e => (e.1, e.2.valueJson))),
    ("all", .arr (as.map toJson))]

end Attribute

namespace Node

/-- The member that says where a node stands, if it is known. -/
def positionMember (span : Option Span) : List (String × Json) :=
  span.toList.map fun s => ("position", s.toJson)

mutual

/-- **The JSON of a node.** -/
def toJson : Node → Json
  | .element name attributes children selfClosing span =>
    .obj ([("type", .str "element"), ("name", .str name),
      ("attributes", Attribute.listJson attributes), ("children", .arr (listJson children)),
      ("selfClosing", .bool selfClosing)] ++ positionMember span)
  | .text content span =>
    .obj ([("type", .str "text"), ("content", .str content)] ++ positionMember span)
  | .comment content span =>
    .obj ([("type", .str "comment"), ("content", .str content)] ++ positionMember span)

/-- The JSON of the nodes of a list. -/
def listJson : List Node → List Json
  | [] => []
  | n :: ns => n.toJson :: listJson ns

end

end Node

end MiniTemplate
