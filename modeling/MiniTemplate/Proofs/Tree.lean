import Mathlib.Data.List.Basic
import MiniTemplate.Node

/-!
# Trees of a template: induction, spans left out, nesting

What a statement about all templates needs to say of their trees.

* **Induction.** A forest is empty, or it begins with a text, with a comment or with an
  element, and then the children of the element are a smaller forest beside the rest.
  `MiniTemplate.Node.forest_induction` is that principle. Where the kind of a node does not matter,
  `MiniTemplate.Node.children_induction` has one case for all three.
* **The nodes of a forest.** `MiniTemplate.Node.Occurs` says that a node is one of them, at the top
  or below.
* **Trees without places.** `MiniTemplate.Node.recast` forgets the spans of a tree and changes its
  texts and its attributes by two given functions. With two functions that change nothing it
  is `MiniTemplate.Node.unplaced`, the tree without its places.
* **Nesting.** `MiniTemplate.Node.nestings` counts how many open tags a forest has inside one
  another. A self-closing element opens nothing.
-/

namespace MiniTemplate

namespace Node

/-- **Induction on a forest**: the children of an element and the nodes after it are both
smaller. -/
@[elab_as_elim]
theorem forest_induction {motive : List Node → Prop} (nil : motive [])
    (text : ∀ content span ns, motive ns → motive (.text content span :: ns))
    (comment : ∀ content span ns, motive ns → motive (.comment content span :: ns))
    (element : ∀ name as children selfClosing span ns, motive children → motive ns →
      motive (.element name as children selfClosing span :: ns))
    (f : List Node) : motive f := by
  refine @Node.rec_1 (fun n => ∀ ns, motive ns → motive (n :: ns)) motive ?_ ?_ ?_ nil ?_ f
  · intro name as children selfClosing span ih ns hns
    exact element name as children selfClosing span ns ih hns
  · intro content span ns hns
    exact text content span ns hns
  · intro content span ns hns
    exact comment content span ns hns
  · intro n ns hn hns
    exact hn ns hns

/-- Induction on a forest where only the children of a node matter: those of a text or a comment
are none. -/
@[elab_as_elim]
theorem children_induction {motive : List Node → Prop} (nil : motive [])
    (cons : ∀ n ns, motive n.children → motive ns → motive (n :: ns)) (f : List Node) :
    motive f := by
  induction f using forest_induction with
  | nil => exact nil
  | text content span ns ih => exact cons _ ns nil ih
  | comment content span ns ih => exact cons _ ns nil ih
  | element name as children selfClosing span ns ihc ihn => exact cons _ ns ihc ihn

/-! ### The nodes of a forest -/

/-- **A node occurs in a forest**, at the top or below. -/
inductive Occurs (n : Node) : List Node → Prop
  | here {ns : List Node} : n ∈ ns → Occurs n ns
  | within {m : Node} {ns : List Node} : m ∈ ns → Occurs n m.children → Occurs n ns

/-- **Every node of a forest**, at the top or below, is as `P` says. -/
def Everywhere (P : Node → Prop) (f : List Node) : Prop := ∀ n, Occurs n f → P n

section Everywhere

variable {P : Node → Prop} {f : List Node} {n : Node}

theorem everywhere_nil : Everywhere P [] := by
  intro n hn
  cases hn with
  | here hn => exact absurd hn (by simp)
  | within hm _ => exact absurd hm (by simp)

theorem Everywhere.cons (hf : Everywhere P f) (hn : P n) (hc : Everywhere P n.children) :
    Everywhere P (n :: f) := by
  intro m hm
  cases hm with
  | here hm =>
    rcases List.mem_cons.mp hm with rfl | hm
    · exact hn
    · exact hf m (.here hm)
  | within hx hm =>
    rcases List.mem_cons.mp hx with rfl | hx
    · exact hc m hm
    · exact hf m (.within hx hm)

theorem Everywhere.reverse (hf : Everywhere P f) : Everywhere P f.reverse := by
  intro n hn
  cases hn with
  | here hn => exact hf n (.here (List.mem_reverse.mp hn))
  | within hm hn => exact hf n (.within (List.mem_reverse.mp hm) hn)

theorem everywhere_cons :
    Everywhere P (n :: f) ↔ (P n ∧ Everywhere P n.children) ∧ Everywhere P f := by
  constructor
  · intro h
    refine ⟨⟨h n (.here List.mem_cons_self), fun m hm => ?_⟩, fun m hm => ?_⟩
    · exact h m (.within List.mem_cons_self hm)
    · cases hm with
      | here hm => exact h m (.here (List.mem_cons_of_mem n hm))
      | within hx hm => exact h m (.within (List.mem_cons_of_mem n hx) hm)
  · rintro ⟨⟨hn, hc⟩, hf⟩
    exact hf.cons hn hc

mutual

/-- What holds of all nodes can be computed if it can be of one. -/
def decidableBelow [DecidablePred P] : (n : Node) → Decidable (Everywhere P n.children)
  | element _ _ children _ _ => decidableEverywhere children
  | text .. | comment .. => isTrue everywhere_nil

def decidableEverywhere [DecidablePred P] : (f : List Node) → Decidable (Everywhere P f)
  | [] => isTrue everywhere_nil
  | n :: ns =>
    have := decidableBelow n
    have := decidableEverywhere ns
    decidable_of_iff _ everywhere_cons.symm

end

instance [DecidablePred P] (f : List Node) : Decidable (Everywhere P f) := decidableEverywhere f

end Everywhere

/-! ### Trees without places -/

mutual

/-- A tree without its spans, its texts changed by `g` and its attributes by `h`. -/
def recast (g : String → String) (h : Attribute → Attribute) : Node → Node
  | element name attributes children selfClosing _ =>
    element name (attributes.map h) (recastAll g h children) selfClosing none
  | text content _ => text (g content) none
  | comment content _ => comment content none

/-- The trees of a forest without their spans, changed in the same way. -/
def recastAll (g : String → String) (h : Attribute → Attribute) : List Node → List Node
  | [] => []
  | n :: ns => n.recast g h :: recastAll g h ns

end

section Recast

variable (g g' : String → String) (h h' : Attribute → Attribute)

@[simp] theorem recastAll_nil : recastAll g h [] = [] := rfl

@[simp] theorem recastAll_cons (n : Node) (ns : List Node) :
    recastAll g h (n :: ns) = n.recast g h :: recastAll g h ns := rfl

@[simp] theorem recast_element (name : String) (as : List Attribute) (children : List Node)
    (selfClosing : Bool) (span : Option Span) :
    (element name as children selfClosing span).recast g h =
      element name (as.map h) (recastAll g h children) selfClosing none := rfl

@[simp] theorem recast_text (content : String) (span : Option Span) :
    (text content span).recast g h = text (g content) none := rfl

@[simp] theorem recast_comment (content : String) (span : Option Span) :
    (comment content span).recast g h = comment content none := rfl

theorem recastAll_eq_map (f : List Node) : recastAll g h f = f.map (recast g h) := by
  induction f with
  | nil => rfl
  | cons n ns ih => rw [recastAll_cons, List.map_cons, ih]

/-- **Two changes in a row** are one. -/
theorem recastAll_recastAll (f : List Node) :
    recastAll g h (recastAll g' h' f) = recastAll (g ∘ g') (h ∘ h') f := by
  induction f using forest_induction with
  | nil => rfl
  | text content span ns ih => simp [ih]
  | comment content span ns ih => simp [ih]
  | element name as children selfClosing span ns ihc ihn => simp [ihc, ihn]

end Recast

/-- A tree without its spans. -/
def unplaced (n : Node) : Node := n.recast id id

/-- The trees of a forest without their spans. -/
def unplacedAll (f : List Node) : List Node := recastAll id id f

@[simp] theorem unplacedAll_nil : unplacedAll [] = [] := rfl

@[simp] theorem unplacedAll_cons (n : Node) (ns : List Node) :
    unplacedAll (n :: ns) = n.unplaced :: unplacedAll ns := rfl

@[simp] theorem unplaced_element (name : String) (as : List Attribute) (children : List Node)
    (selfClosing : Bool) (span : Option Span) :
    (element name as children selfClosing span).unplaced =
      element name as (unplacedAll children) selfClosing none := by
  simp [unplaced, unplacedAll]

@[simp] theorem unplaced_text (content : String) (span : Option Span) :
    (text content span).unplaced = text content none := rfl

@[simp] theorem unplaced_comment (content : String) (span : Option Span) :
    (comment content span).unplaced = comment content none := rfl

theorem recastAll_unplacedAll (g : String → String) (h : Attribute → Attribute) (f : List Node) :
    recastAll g h (unplacedAll f) = recastAll g h f :=
  recastAll_recastAll g id h id f

/-! ### Nesting -/

mutual

/-- The number of elements that are open at once inside a tree, where it is greatest. -/
def nesting : Node → Nat
  | element _ _ children selfClosing _ => nestings children + if selfClosing then 0 else 1
  | text .. | comment .. => 0

/-- **The nesting of a forest**: the greatest of its trees. -/
def nestings : List Node → Nat
  | [] => 0
  | n :: ns => max n.nesting (nestings ns)

end

@[simp] theorem nestings_nil : nestings [] = 0 := rfl

@[simp] theorem nestings_cons (n : Node) (ns : List Node) :
    nestings (n :: ns) = max n.nesting (nestings ns) := rfl

@[simp] theorem nesting_text (content : String) (span : Option Span) :
    (text content span).nesting = 0 := rfl

@[simp] theorem nesting_comment (content : String) (span : Option Span) :
    (comment content span).nesting = 0 := rfl

@[simp] theorem nesting_element (name : String) (as : List Attribute) (children : List Node)
    (selfClosing : Bool) (span : Option Span) :
    (element name as children selfClosing span).nesting =
      nestings children + if selfClosing then 0 else 1 := rfl

theorem nestings_recastAll (g : String → String) (h : Attribute → Attribute) (f : List Node) :
    nestings (recastAll g h f) = nestings f := by
  induction f using forest_induction with
  | nil => rfl
  | text content span ns ih => simp [ih]
  | comment content span ns ih => simp [ih]
  | element name as children selfClosing span ns ihc ihn => simp [ihc, ihn]

end Node

end MiniTemplate
