import MiniTemplate.Attribute

/-!
# Trees of a template

A template is a forest: its nodes are elements, which have a name, attributes and
children, and texts and comments, which have a content. A node read from a text
knows its span there; a node made by hand may have none.
-/

namespace MiniTemplate

/-- Where a node stands in its text: the offsets of its first character and of the
one after its last, and the line and column of the first. A span that is made by hand
may say anything. -/
structure Span where
  start : Int
  stop : Int
  line : Int
  column : Int
  deriving DecidableEq, Repr

/-- A node of a template. -/
inductive Node where
  | element (name : String) (attributes : List Attribute) (children : List Node)
      (selfClosing : Bool) (span : Option Span)
  | text (content : String) (span : Option Span)
  | comment (content : String) (span : Option Span)
  deriving Inhabited, Repr

/-- The top-level nodes of a template. -/
abbrev Forest := List Node

namespace Node

/-- The children of a node: texts and comments have none. -/
def children : Node → List Node
  | element _ _ children _ _ => children
  | text .. | comment .. => []

/-- The attributes of a node: texts and comments have none. -/
def attributes : Node → List Attribute
  | element _ attributes _ _ _ => attributes
  | text .. | comment .. => []

/-- The span of a node. -/
def span : Node → Option Span
  | element _ _ _ _ span => span
  | text _ span | comment _ span => span

def isElement : Node → Bool
  | element .. => true
  | text .. | comment .. => false

def isText : Node → Bool
  | text .. => true
  | element .. | comment .. => false

mutual

/-- The number of nodes of a tree. -/
def size : Node → Nat
  | element _ _ children _ _ => sizes children + 1
  | text .. | comment .. => 1

/-- The number of nodes of a forest. -/
def sizes : List Node → Nat
  | [] => 0
  | n :: ns => n.size + sizes ns

end

theorem size_eq (n : Node) : n.size = sizes n.children + 1 := by
  cases n <;> simp [size, children, sizes]

@[simp] theorem sizes_append (ns ms : List Node) : sizes (ns ++ ms) = sizes ns + sizes ms := by
  induction ns with
  | nil => simp [sizes]
  | cons n ns ih => simp [sizes, ih]; omega

end Node

end MiniTemplate
