import Mathlib.Data.List.Infix
import MiniTemplate.Proofs.Tree
import MiniTemplate.Reading.Scan

/-!
# Well-formed forests

A forest made by hand may say anything. This file says which forests a template could have
been read as. As far as a single node shows it (`MiniTemplate.Node.Proper`), names are made of
the characters of names, directives go with the names they were written under, a self-closing
element is empty, a text has no `<` and is not blank, and a comment does not hold the mark that
ends it. In a well-formed forest (`MiniTemplate.Node.AllWellFormed`) moreover two texts do not
meet.

What the values of attributes are like is kept apart (`MiniTemplate.Node.AllValues`), since most
statements restrict only that. Both can be computed.
-/

namespace MiniTemplate

/-! ### Characters of a text, computed -/

instance decidableAllChars (p : Char → Bool) (cs : List Char) : Decidable (∀ c ∈ cs, p c) :=
  decidable_of_iff (cs.all p) List.all_eq_true

instance decidableSomeChar (p : Char → Bool) (cs : List Char) :
    Decidable (∃ c ∈ cs, p c = false) :=
  decidable_of_iff (cs.any fun c => !p c) (by simp)

/-! ### Nodes -/

/-- **A well-formed attribute**: its name is made of the characters of such names, and it is the
attribute of that name and its value. -/
def Attribute.WellFormed (a : Attribute) : Prop :=
  a.name.toList ≠ [] ∧ (∀ c ∈ a.name.toList, isAttributeChar c) ∧ a = .ofWritten a.name a.value

instance (a : Attribute) : Decidable a.WellFormed :=
  inferInstanceAs (Decidable (_ ∧ _ ∧ _))

namespace Node

/-- **A proper node**: what a single node shows of being well-formed. -/
def Proper : Node → Prop
  | element name attributes children selfClosing _ =>
    name.toList ≠ [] ∧ (∀ c ∈ name.toList, isTagChar c) ∧ (∀ a ∈ attributes, a.WellFormed) ∧
      (selfClosing → children = [])
  | text content _ => '<' ∉ content.toList ∧ ∃ c ∈ content.toList, Text.isBlank c = false
  | comment content _ => ¬"-->".toList <:+: content.toList

instance : (n : Node) → Decidable n.Proper
  | element _ _ _ _ _ => inferInstanceAs (Decidable (_ ∧ _ ∧ _ ∧ _))
  | text _ _ => inferInstanceAs (Decidable (_ ∧ _))
  | comment _ _ => inferInstanceAs (Decidable (¬_))

mutual

/-- A well-formed tree. -/
def WellFormed : Node → Prop
  | element name attributes children selfClosing span =>
    (element name attributes children selfClosing span).Proper ∧ AllWellFormed children
  | text content span => (text content span).Proper
  | comment content span => (comment content span).Proper

/-- **A well-formed forest**: well-formed trees, and no text next to a text. -/
def AllWellFormed : List Node → Prop
  | [] => True
  | n :: ns => n.WellFormed ∧ (n.isText → ∀ m ∈ ns.head?, m.isText = false) ∧ AllWellFormed ns

end

mutual

/-- The values of the attributes in a tree are all as `P` says. -/
def Values (P : String → Prop) : Node → Prop
  | element _ attributes children _ _ => (∀ a ∈ attributes, P a.value) ∧ AllValues P children
  | text .. | comment .. => True

/-- **The values of the attributes in a forest** are all as `P` says. -/
def AllValues (P : String → Prop) : List Node → Prop
  | [] => True
  | n :: ns => n.Values P ∧ AllValues P ns

end

mutual

/-- Being well-formed can be computed. -/
def decidableWellFormed : (n : Node) → Decidable n.WellFormed
  | element name attributes children selfClosing span =>
    have := decidableAllWellFormed children
    inferInstanceAs (Decidable ((element name attributes children selfClosing span).Proper ∧ _))
  | text content span => inferInstanceAs (Decidable (text content span).Proper)
  | comment content span => inferInstanceAs (Decidable (comment content span).Proper)

def decidableAllWellFormed : (f : List Node) → Decidable (AllWellFormed f)
  | [] => isTrue trivial
  | n :: ns =>
    have := decidableWellFormed n
    have := decidableAllWellFormed ns
    inferInstanceAs (Decidable (_ ∧ _ ∧ _))

end

instance (f : List Node) : Decidable (AllWellFormed f) := decidableAllWellFormed f

mutual

/-- What holds of all values can be computed if it can be of one. -/
def decidableValues {P : String → Prop} [DecidablePred P] : (n : Node) → Decidable (n.Values P)
  | element _ _ children _ _ =>
    have := decidableAllValues (P := P) children
    inferInstanceAs (Decidable (_ ∧ _))
  | text _ _ | comment _ _ => isTrue trivial

def decidableAllValues {P : String → Prop} [DecidablePred P] :
    (f : List Node) → Decidable (AllValues P f)
  | [] => isTrue trivial
  | n :: ns =>
    have := decidableValues (P := P) n
    have := decidableAllValues (P := P) ns
    inferInstanceAs (Decidable (_ ∧ _))

end

instance {P : String → Prop} [DecidablePred P] (f : List Node) : Decidable (AllValues P f) :=
  decidableAllValues f

end Node

end MiniTemplate
