import MiniTemplate.Directive
import MiniTemplate.Table

/-!
# Attributes and their views

The attributes of an element are a list, in the order of the text and with all
repetitions. Two views are computed from it: the *props*, which are the plain
attributes by name, and the *directives*, by the directive's name. In both, a
repeated name keeps its first place and its last value.

An attribute says on its own whether it counts as a directive and which one it
stands for. For attributes read from a text the two agree with the name
(`MiniTemplate.Attribute.ofWritten`); a tree made by hand may say anything, and then a
directive that does not name one is in neither view.
-/

namespace MiniTemplate

/-- An attribute of an element. -/
structure Attribute where
  /-- The name as written, with modifiers. -/
  name : String
  value : String
  /-- Does it count as a directive? -/
  isDirective : Bool
  /-- The directive it stands for. -/
  directive : Option Directive
  deriving DecidableEq, Repr

namespace Attribute

/-- A plain attribute. -/
def plain (name value : String) : Attribute := ⟨name, value, false, none⟩

/-- **The attribute of a written name** and value: a directive if the name says so. -/
def ofWritten (name value : String) : Attribute :=
  if Directive.isName name then ⟨name, value, true, some (Directive.ofWritten name value)⟩
  else plain name value

/-- The name under which a repetition is noticed: that of the directive, if there
is one. -/
def key (a : Attribute) : String :=
  match a.directive with
  | some d => d.name
  | none => a.name

/-- The directive of an attribute that counts as one and names one. -/
def directive? (a : Attribute) : Option Directive :=
  if a.isDirective then a.directive else none

/-- **The plain attributes** by name. -/
def props (as : List Attribute) : Table String :=
  Table.ofList ((as.filter fun a => !a.isDirective).map fun a => (a.name, a.value))

/-- **The directives** by their own names. -/
def directives (as : List Attribute) : Table Directive :=
  Table.ofList ((as.filterMap directive?).map fun d => (d.name, d))

/-- The last attribute of a written name. -/
def find? (as : List Attribute) (name : String) : Option Attribute :=
  as.reverse.find? fun a => a.name == name

end Attribute

end MiniTemplate
