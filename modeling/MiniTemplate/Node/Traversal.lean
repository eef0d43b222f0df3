import MiniTemplate.Node

/-!
# Going through a forest

A traversal passes every node twice: on the way in, before its children, and on the
way out, after them. It is driven by a stack of pending visits, the next one on top:
entering a node puts its children on the stack, and under them its own leaving. So
the depth of a tree costs a longer list and nothing else.

`MiniTemplate.Forest.visits` says the same thing by recursion on the tree, and
`MiniTemplate.Forest.walk` is the way in alone: the nodes in document order, each with its
parent. A walk can be stopped after some nodes (`MiniTemplate.Forest.walkUpTo`).

Who goes along a traversal need not hear of all of it. A `MiniTemplate.Visitor` has a function
for the way in, or one for the way out, or both, and `MiniTemplate.Forest.tour` calls what
there is.
-/

namespace MiniTemplate

/-- Which way a node is passed. -/
inductive Passage where
  | enter
  | leave
  deriving DecidableEq, Repr

/-- One step of a traversal: a node is passed, coming from its parent. -/
structure Visit where
  passage : Passage
  node : Node
  parent : Option Node
  deriving Repr

namespace Visit

/-- The pending entries of some nodes with a common parent. -/
def entries (parent : Option Node) (ns : List Node) : List Visit :=
  ns.map fun n => ⟨.enter, n, parent⟩

/-- The number of visits that a pending visit stands for. -/
def weight (v : Visit) : Nat :=
  match v.passage with
  | .enter => 2 * v.node.size
  | .leave => 1

/-- The number of visits that a stack of pending visits stands for. -/
def weights : List Visit → Nat
  | [] => 0
  | v :: vs => v.weight + weights vs

theorem weights_append (vs ws : List Visit) : weights (vs ++ ws) = weights vs + weights ws := by
  induction vs with
  | nil => simp [weights]
  | cons v vs ih => simp [weights, ih]; omega

theorem weights_entries (parent : Option Node) (ns : List Node) :
    weights (entries parent ns) = 2 * Node.sizes ns := by
  induction ns with
  | nil => rfl
  | cons n ns ih =>
    simp only [entries, List.map_cons, weights, Node.sizes] at ih ⊢
    simp only [ih, weight]
    omega

/-- Carry out the pending visits, the top of the stack first. -/
def run : List Visit → List Visit
  | [] => []
  | ⟨.leave, n, p⟩ :: vs => ⟨.leave, n, p⟩ :: run vs
  | ⟨.enter, n, p⟩ :: vs =>
    ⟨.enter, n, p⟩ :: run (entries (some n) n.children ++ ⟨.leave, n, p⟩ :: vs)
termination_by vs => weights vs
decreasing_by
  · simp [weights, weight]
  · simp only [weights_append, weights_entries, weights, weight, Node.size_eq]
    omega

end Visit

/-- What is called along a traversal, with a state that is handed on. Either of the two
functions may be missing. -/
structure Visitor (σ : Type) where
  enter : Option (σ → Node → Option Node → σ)
  leave : Option (σ → Node → Option Node → σ)

namespace Visitor

variable {σ : Type}

/-- What is called on a passage. -/
def callback (v : Visitor σ) : Passage → Option (σ → Node → Option Node → σ)
  | .enter => v.enter
  | .leave => v.leave

/-- Call what there is for a visit. -/
def call (v : Visitor σ) (s : σ) (x : Visit) : σ :=
  match v.callback x.passage with
  | some f => f s x.node x.parent
  | none => s

/-- Carry out the pending visits, the top of the stack first, calling the visitor. -/
def run (v : Visitor σ) (s : σ) : List Visit → σ
  | [] => s
  | ⟨.leave, n, p⟩ :: vs => run v (v.call s ⟨.leave, n, p⟩) vs
  | ⟨.enter, n, p⟩ :: vs =>
    run v (v.call s ⟨.enter, n, p⟩) (Visit.entries (some n) n.children ++ ⟨.leave, n, p⟩ :: vs)
termination_by vs => Visit.weights vs
decreasing_by
  · simp [Visit.weights, Visit.weight]
  · simp only [Visit.weights_append, Visit.weights_entries, Visit.weights, Visit.weight,
      Node.size_eq]
    omega

end Visitor

namespace Forest

/-- **The traversal of a forest**: every visit, in order. -/
def traverse (f : Forest) : List Visit := Visit.run (Visit.entries none f)

/-- **A tour**: a visitor is taken through a forest. -/
def tour {σ : Type} (v : Visitor σ) (s : σ) (f : Forest) : σ := v.run s (Visit.entries none f)

mutual

/-- The visits of one tree, by recursion on it. -/
def nodeVisits (parent : Option Node) : Node → List Visit
  | .element name attributes children selfClosing span =>
    let n := Node.element name attributes children selfClosing span
    ⟨.enter, n, parent⟩ :: (visits (some n) children ++ [⟨.leave, n, parent⟩])
  | .text content span =>
    [⟨.enter, .text content span, parent⟩, ⟨.leave, .text content span, parent⟩]
  | .comment content span =>
    [⟨.enter, .comment content span, parent⟩, ⟨.leave, .comment content span, parent⟩]

/-- The visits of the trees of a forest under a common parent. -/
def visits (parent : Option Node) : List Node → List Visit
  | [] => []
  | n :: ns => nodeVisits parent n ++ visits parent ns

end

/-- Carry out the pending entries, the top of the stack first, without coming back. -/
def walkFrom : List (Node × Option Node) → List (Node × Option Node)
  | [] => []
  | (n, p) :: ps => (n, p) :: walkFrom (n.children.map (fun c => (c, some n)) ++ ps)
termination_by ps => Node.sizes (ps.map (·.1))
decreasing_by
  have h : (n.children.map fun c => (c, some n)).map (·.1) = n.children := by
    simp [List.map_map, Function.comp_def]
  simp only [List.map_append, h, Node.sizes_append, List.map_cons, Node.sizes, Node.size_eq]
  omega

/-- **The nodes of a forest** in document order, each with its parent. -/
def walk (f : Forest) : List (Node × Option Node) :=
  walkFrom (f.map fun n => (n, none))

/-- The next node of a walk, and the entries that are pending behind it. -/
def walkNext :
    List (Node × Option Node) → Option ((Node × Option Node) × List (Node × Option Node))
  | [] => none
  | (n, p) :: ps => some ((n, p), n.children.map (fun c => (c, some n)) ++ ps)

/-- Take so many nodes of a walk one by one, and then no more. -/
def walkNodes : Nat → List (Node × Option Node) → List (Node × Option Node)
  | 0, _ => []
  | k + 1, ps =>
    match walkNext ps with
    | none => []
    | some (n, ps) => n :: walkNodes k ps

/-- A walk that is stopped after so many nodes. -/
def walkUpTo (f : Forest) (k : Nat) : List (Node × Option Node) :=
  walkNodes k (f.map fun n => (n, none))

end Forest

end MiniTemplate
