import MiniTemplate.Node.Traversal
import MiniTemplate.Proofs.Tree

/-!
# The stack of a traversal

A traversal is driven by a stack of pending visits. Whatever lies below them on the stack,
the entries of a forest are carried out as the recursion on the forest says
(`MiniTemplate.Visit.run_entries`), and then the rest of the stack is. With nothing below, this
is the traversal of the forest. The loop that calls a visitor and the loop of a walk have stacks of
their own, and the same is shown of each of them.

## Main statements

* `MiniTemplate.Forest.tour_walk_eq`: every way of going through a forest follows the recursion
  on it.
-/

namespace MiniTemplate

namespace Forest

@[simp] theorem visits_nil (parent : Option Node) : visits parent [] = [] := rfl

@[simp] theorem visits_cons (parent : Option Node) (n : Node) (ns : List Node) :
    visits parent (n :: ns) = nodeVisits parent n ++ visits parent ns := rfl

/-- **The visits of a tree**: its root is entered, its children are passed, its root is left. -/
theorem nodeVisits_eq (parent : Option Node) (n : Node) :
    nodeVisits parent n = ⟨.enter, n, parent⟩ :: (visits (some n) n.children ++
      [⟨.leave, n, parent⟩]) := by
  cases n <;> rfl

end Forest

namespace Visit

@[simp] theorem entries_nil (parent : Option Node) : entries parent [] = [] := rfl

@[simp] theorem entries_cons (parent : Option Node) (n : Node) (ns : List Node) :
    entries parent (n :: ns) = ⟨.enter, n, parent⟩ :: entries parent ns := rfl

/-- **The entries of a forest** on a stack are carried out before what lies below them. -/
theorem run_entries (f : List Node) (parent : Option Node) (vs : List Visit) :
    run (entries parent f ++ vs) = Forest.visits parent f ++ run vs := by
  induction f using Node.children_induction generalizing parent vs with
  | nil => simp
  | cons n ns ihc ihn =>
    rw [entries_cons, List.cons_append, run, ihc, run, ihn, Forest.visits_cons,
      Forest.nodeVisits_eq]
    simp

end Visit

namespace Visitor

variable {σ : Type} (v : Visitor σ)

/-- **The entries of a forest** on the stack of a visitor: it is called on the visits of the
forest before what lies below. -/
theorem run_entries (f : List Node) (parent : Option Node) (vs : List Visit) (s : σ) :
    v.run s (Visit.entries parent f ++ vs) =
      v.run ((Forest.visits parent f).foldl v.call s) vs := by
  induction f using Node.children_induction generalizing parent vs s with
  | nil => rfl
  | cons n ns ihc ihn =>
    rw [Visit.entries_cons, List.cons_append, run, ihc, run, ihn, Forest.visits_cons,
      Forest.nodeVisits_eq]
    simp

end Visitor

namespace Forest

theorem traverse_eq (f : Forest) : f.traverse = visits none f := by
  have h := Visit.run_entries f none []
  rwa [List.append_nil, Visit.run, List.append_nil] at h

theorem tour_eq {σ : Type} (v : Visitor σ) (s : σ) (f : Forest) :
    f.tour v s = (visits none f).foldl v.call s := by
  have h := v.run_entries f none [] s
  rwa [List.append_nil, Visitor.run] at h

/-! ### The way in alone -/

/-- The nodes that are entered among some visits, each with its parent. -/
def entered (vs : List Visit) : List (Node × Option Node) :=
  (vs.filter fun x => x.passage == .enter).map fun x => (x.node, x.parent)

@[simp] theorem entered_enter (n : Node) (parent : Option Node) (vs : List Visit) :
    entered (⟨.enter, n, parent⟩ :: vs) = (n, parent) :: entered vs := rfl

@[simp] theorem entered_leave (n : Node) (parent : Option Node) (vs : List Visit) :
    entered (⟨.leave, n, parent⟩ :: vs) = entered vs := rfl

@[simp] theorem entered_append (vs ws : List Visit) :
    entered (vs ++ ws) = entered vs ++ entered ws := by
  simp [entered]

/-- **The entries of a forest** on the stack of a walk come before what lies below. -/
theorem walkFrom_append (f : List Node) (parent : Option Node) (ps : List (Node × Option Node)) :
    walkFrom (f.map (fun n => (n, parent)) ++ ps) = entered (visits parent f) ++ walkFrom ps := by
  induction f using Node.children_induction generalizing parent ps with
  | nil => rfl
  | cons n ns ihc ihn =>
    rw [List.map_cons, List.cons_append, walkFrom, ihc, ihn, visits_cons, nodeVisits_eq]
    simp

theorem walk_eq (f : Forest) : f.walk = entered (visits none f) := by
  have h := walkFrom_append f none []
  rwa [List.append_nil, walkFrom, List.append_nil] at h

/-- A walk that is stopped has taken the first of its nodes. -/
theorem walkNodes_eq (k : Nat) (ps : List (Node × Option Node)) :
    walkNodes k ps = (walkFrom ps).take k := by
  induction k generalizing ps with
  | zero => rfl
  | succ k ih =>
    cases ps with
    | nil => rw [walkNodes, walkNext, walkFrom, List.take_nil]
    | cons p ps =>
      obtain ⟨n, parent⟩ := p
      rw [walkFrom, List.take_succ_cons, ← ih]
      rfl

/-! ### What is called -/

/-- What two functions make of a visit: one is for the way in, the other for the way out, and both
are told the node and its parent. -/
def told {σ : Type} (enter leave : σ → Node → Option Node → σ) (s : σ) : Visit → σ
  | ⟨.enter, n, parent⟩ => enter s n parent
  | ⟨.leave, n, parent⟩ => leave s n parent

section Callbacks

variable {σ : Type} (enter leave : σ → Node → Option Node → σ)

theorem call_both : (Visitor.mk (some enter) (some leave)).call = told enter leave := by
  funext s x
  obtain ⟨passage, n, parent⟩ := x
  cases passage <;> rfl

theorem call_enter :
    (Visitor.mk (some enter) none).call =
      fun s x => if x.passage == .enter then enter s x.node x.parent else s := by
  funext s x
  obtain ⟨passage, n, parent⟩ := x
  cases passage <;> rfl

theorem call_leave :
    (Visitor.mk none (some leave)).call =
      fun s x => if x.passage == .leave then leave s x.node x.parent else s := by
  funext s x
  obtain ⟨passage, n, parent⟩ := x
  cases passage <;> rfl

theorem foldl_call_none (vs : List Visit) (s : σ) :
    vs.foldl (Visitor.mk none none).call s = s := by
  induction vs with
  | nil => rfl
  | cons x vs ih =>
    obtain ⟨passage, n, parent⟩ := x
    cases passage <;> exact ih

end Callbacks

/-- **Every way of going through a forest follows the recursion on it.** The traversal carries out
the visits of the forest. Two functions are called along it, one on the way in and one on the way
out, each with the node and its parent; if only one of them is there, it is called on its own visits
and nothing else is, and if none is there, nothing is called. A walk gives the nodes that are
entered, and one that is stopped the first of them. -/
theorem tour_walk_eq (f : Forest) :
    f.traverse = visits none f ∧
      (∀ (σ : Type) (enter leave : σ → Node → Option Node → σ) (s : σ),
        f.tour ⟨some enter, some leave⟩ s = (visits none f).foldl (told enter leave) s ∧
        f.tour ⟨some enter, none⟩ s =
          ((visits none f).filter fun x => x.passage == .enter).foldl
            (fun s x => enter s x.node x.parent) s ∧
        f.tour ⟨none, some leave⟩ s =
          ((visits none f).filter fun x => x.passage == .leave).foldl
            (fun s x => leave s x.node x.parent) s ∧
        f.tour ⟨none, none⟩ s = s) ∧
      f.walk = ((visits none f).filter fun x => x.passage == .enter).map
        (fun x => (x.node, x.parent)) ∧
      ∀ k, f.walkUpTo k = f.walk.take k := by
  refine ⟨traverse_eq f, fun σ enter leave s => ⟨?_, ?_, ?_, ?_⟩, walk_eq f,
    fun k => walkNodes_eq k _⟩
  · rw [tour_eq, call_both]
  · rw [tour_eq, call_enter, List.foldl_filter]
  · rw [tour_eq, call_leave, List.foldl_filter]
  · rw [tour_eq, foldl_call_none]

end Forest

end MiniTemplate
