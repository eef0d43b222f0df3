import MiniTemplate.Node.Traversal

/-!
# Refs

A ref marks an element with where it stands: an attribute whose value is a stem, the
path of the element and its tag name. The path of every top-level element is `1`; the
path of a child is that of its parent and the number of the child among the elements
there. Texts and comments are not counted.

An element has one ref. If it already has attributes of that name, the first is
replaced and the others are dropped; if not, the ref is added at the end.

A forest is copied along its traversal. Between the way in and the way out of an
element its copy is open: it has its path, the number of the elements counted in it so
far, and the children copied so far. The open copies are a list, the innermost first.
-/

namespace MiniTemplate

/-- How refs are written. -/
structure RefStyle where
  /-- The name of the attribute. -/
  name : String
  /-- What a value begins with. -/
  stem : String
  deriving DecidableEq, Repr

namespace RefStyle

/-- The refs that are written where nothing else is said. -/
def standard : RefStyle := ⟨"wx:ref", "devtools"⟩

/-- The text of a path. -/
def pathText (path : List Nat) : String := "-".intercalate (path.map toString)

/-- The value of the ref of an element. -/
def value (r : RefStyle) (path : List Nat) (name : String) : String :=
  r.stem ++ "_" ++ pathText path ++ "_" ++ name

/-- An attribute that holds a ref. It is a directive if its name says so, under its
whole name. -/
def attributeOf (name value : String) : Attribute :=
  if Directive.isName name then ⟨name, value, true, some ⟨name, value, []⟩⟩
  else Attribute.plain name value

/-- Put an attribute in the place of the first of its name and drop the others, or at
the end if there is none. -/
def place (a : Attribute) : List Attribute → List Attribute
  | [] => [a]
  | b :: bs =>
    if b.name = a.name then a :: bs.filter (fun b => b.name != a.name) else b :: place a bs

/-- The attributes of an element with its ref among them. -/
def attributes (r : RefStyle) (path : List Nat) (name : String) (as : List Attribute) :
    List Attribute :=
  place (attributeOf r.name (r.value path name)) as

end RefStyle

/-- The copy of an element that has been entered and not left. -/
structure OpenCopy where
  name : String
  attributes : List Attribute
  selfClosing : Bool
  span : Option Span
  path : List Nat
  /-- The number of elements counted in it so far. -/
  count : Nat
  /-- The children copied so far, the latest first. -/
  children : List Node

/-- The copy of an element that is left. -/
def OpenCopy.toNode (c : OpenCopy) : Node :=
  .element c.name c.attributes c.children.reverse c.selfClosing c.span

/-- A copy with refs that is being made. -/
structure Marking where
  /-- The copies of the elements that have not been left, the innermost first. -/
  copies : List OpenCopy
  /-- The finished top-level nodes, the latest first. -/
  roots : List Node

namespace Marking

/-- Nothing is copied yet. -/
def empty : Marking := ⟨[], []⟩

/-- Add a finished node to the innermost copy, or to the top level. -/
def add (s : Marking) (n : Node) : Marking :=
  match s.copies with
  | c :: cs => { s with copies := { c with children := n :: c.children } :: cs }
  | [] => { s with roots := n :: s.roots }

/-- The path of the element that is entered next. -/
def nextPath (s : Marking) : List Nat :=
  match s.copies with
  | c :: _ => c.path ++ [c.count + 1]
  | [] => [1]

/-- Count an element in the innermost copy. At the top level nothing is counted. -/
def counted (s : Marking) : Marking :=
  match s.copies with
  | c :: cs => { s with copies := { c with count := c.count + 1 } :: cs }
  | [] => s

/-- Open the copy of an element. -/
def openCopy (s : Marking) (c : OpenCopy) : Marking := { s with copies := c :: s.copies }

/-- Copy a node on the way in: an element gets its ref, and its children are to come. -/
def enter (r : RefStyle) (s : Marking) : Node → Marking
  | .element name as _ selfClosing span =>
    s.counted.openCopy
      ⟨name, r.attributes s.nextPath name as, selfClosing, span, s.nextPath, 0, []⟩
  | .text content span => s.add (.text content span)
  | .comment content span => s.add (.comment content span)

/-- The copy of an element is finished on the way out. -/
def leave (s : Marking) : Node → Marking
  | .element .. =>
    match s.copies with
    | c :: cs => { s with copies := cs }.add c.toNode
    | [] => s
  | .text .. | .comment .. => s

/-- One visit of the traversal. -/
def visit (r : RefStyle) (s : Marking) (v : Visit) : Marking :=
  match v.passage with
  | .enter => s.enter r v.node
  | .leave => s.leave v.node

end Marking

/-- **A forest with refs.** -/
def Forest.annotate (r : RefStyle) (f : Forest) : Forest :=
  (f.traverse.foldl (Marking.visit r) .empty).roots.reverse

end MiniTemplate
