import MiniTemplate.Proofs.Address
import MiniTemplate.Proofs.Reading
import MiniTemplate.Proofs.Traversal

/-!
# Document order

The **roll** of a forest lists its nodes in the order in which they begin in the text, each by
itself and with its address (`MiniTemplate.Forest.roll`). It is the order of a walk
(`MiniTemplate.Forest.map_snd_roll`), and since the address of a node begins with that of its
parent, the roll says of each node where it belongs.

A state of a reading has a roll too (`MiniTemplate.Progress.roll`), in which an element stands
from its opening tag on. So the roll of a state only grows: a leaf and an opening tag put their
node at its end, and the end of an element changes nothing in it. Of an element the roll leaves
out the span, which is not known before the element ends.

## Main statements

* `MiniTemplate.Progress.prefix_roll_finish`: the nodes that a state has are the first of those
  that the reading gives in the end.
-/

namespace MiniTemplate

namespace Node

/-- **A node by itself**, without its children; an element is taken without its span as well. -/
def bare : Node → Node
  | element name attributes _ selfClosing _ => element name attributes [] selfClosing none
  | n => n

mutual

/-- The nodes of a tree in document order, each with its address, where `is` is the address of
the root. -/
def roll (is : List Nat) : Node → List (List Nat × Node)
  | element name attributes children selfClosing span =>
    (is, (element name attributes children selfClosing span).bare) :: rollAll is 0 children
  | text content span => [(is, (text content span).bare)]
  | comment content span => [(is, (comment content span).bare)]

/-- The nodes of some trees side by side in the node of address `is`, the first of which has
the index `i` there. -/
def rollAll (is : List Nat) (i : Nat) : List Node → List (List Nat × Node)
  | [] => []
  | n :: ns => n.roll (is ++ [i]) ++ rollAll is (i + 1) ns

end

@[simp] theorem rollAll_nil (is : List Nat) (i : Nat) : rollAll is i [] = [] := rfl

@[simp] theorem rollAll_cons (is : List Nat) (i : Nat) (n : Node) (ns : List Node) :
    rollAll is i (n :: ns) = n.roll (is ++ [i]) ++ rollAll is (i + 1) ns := rfl

theorem roll_eq (is : List Nat) (n : Node) :
    n.roll is = (is, n.bare) :: rollAll is 0 n.children := by
  cases n <;> rfl

theorem rollAll_append (is : List Nat) (i : Nat) (f g : List Node) :
    rollAll is i (f ++ g) = rollAll is i f ++ rollAll is (i + f.length) g := by
  induction f generalizing i with
  | nil => rfl
  | cons n ns ih =>
    rw [List.cons_append, rollAll_cons, ih, rollAll_cons, List.append_assoc, List.length_cons,
      Nat.add_right_comm, Nat.add_assoc]

/-- A node that is found among some trees is in their roll, under its address. -/
theorem mem_rollAll {f : List Node} {k : Nat} {n m : Node} {js : List Nat}
    (hn : f[k]? = some n) (hm : n.descendant? js = some m) (is : List Nat) (i : Nat) :
    (is ++ (i + k) :: js, m.bare) ∈ rollAll is i f := by
  induction f using children_induction generalizing k n js is i with
  | nil => exact absurd hn (by simp)
  | cons x xs ihc ihn =>
    rw [rollAll_cons, List.mem_append]
    cases k with
    | zero =>
      obtain rfl : x = n := by simpa using hn
      rw [roll_eq]
      cases js with
      | nil =>
        obtain rfl : x = m := by simpa using hm
        simp
      | cons j js =>
        obtain ⟨c, hc, hcm⟩ := exists_child hm
        have hmem := ihc hc hcm (is ++ [i]) 0
        rw [List.append_assoc, Nat.zero_add] at hmem
        exact Or.inl (List.mem_cons_of_mem _ hmem)
    | succ k =>
      have hmem := ihn (List.getElem?_cons_succ.symm.trans hn) hm is (i + 1)
      rw [Nat.add_right_comm, Nat.add_assoc] at hmem
      exact Or.inr hmem

/-- What is in the roll of some trees is one of their nodes. -/
theorem exists_occurs_of_mem_rollAll {f : List Node} {is js : List Nat} {i : Nat} {m : Node}
    (h : (js, m) ∈ rollAll is i f) : ∃ n, Occurs n f ∧ n.bare = m := by
  induction f using children_induction generalizing is i with
  | nil => exact absurd h (by simp)
  | cons n ns ihc ihn =>
    rw [rollAll_cons, roll_eq, List.mem_append, List.mem_cons] at h
    rcases h with (h | h) | h
    · exact ⟨n, .here List.mem_cons_self, (Prod.mk.inj h).2.symm⟩
    · obtain ⟨x, hx, hm⟩ := ihc h
      exact ⟨x, .within List.mem_cons_self hx, hm⟩
    · obtain ⟨x, hx, hm⟩ := ihn h
      refine ⟨x, ?_, hm⟩
      cases hx with
      | here hx => exact .here (List.mem_cons_of_mem n hx)
      | within hy hx => exact .within (List.mem_cons_of_mem n hy) hx

theorem map_snd_rollAll (f : List Node) (is : List Nat) (i : Nat) (parent : Option Node) :
    (rollAll is i f).map Prod.snd =
      (Forest.entered (Forest.visits parent f)).map fun x => x.1.bare := by
  induction f using children_induction generalizing is i parent with
  | nil => rfl
  | cons n ns ihc ihn =>
    rw [rollAll_cons, roll_eq, Forest.visits_cons, Forest.nodeVisits_eq]
    simp [ihc _ _ (some n), ihn _ _ parent, Forest.entered]

end Node

namespace Forest

/-- **The roll of a forest**: its nodes in document order, each by itself and with its address. -/
def roll (f : Forest) : List (List Nat × Node) := Node.rollAll [] 0 f

/-- The nodes of the roll are those of a walk, in the same order. -/
theorem map_snd_roll (f : Forest) : f.roll.map Prod.snd = f.walk.map fun x => x.1.bare := by
  rw [roll, walk_eq, Node.map_snd_rollAll f [] 0 none]

theorem mem_roll {f : Forest} {i : Nat} {is : List Nat} {n : Node}
    (h : f.node? i is = some n) : (i :: is, n.bare) ∈ f.roll := by
  obtain ⟨x, hx, hn⟩ := exists_root h
  have hmem := Node.mem_rollAll hx hn [] 0
  rwa [List.nil_append, Nat.zero_add] at hmem

end Forest

/-! ### The roll of a state -/

namespace Progress

variable {p : Progress} {f : Frame} {fs : List Frame}

/-- The address at which the next node comes: behind what is finished in the innermost of the
open elements, or at the top. -/
def seat (roots : List Node) : List Frame → List Nat
  | [] => [roots.length]
  | f :: fs => seat roots fs ++ [f.children.length]

/-- The nodes that are finished, and the elements that are open, in document order. -/
def rollFrom (roots : List Node) : List Frame → List (List Nat × Node)
  | [] => Node.rollAll [] 0 roots.reverse
  | f :: fs => rollFrom roots fs ++
      (seat roots fs, .element f.name f.attributes [] false none) ::
        Node.rollAll (seat roots fs) 0 f.children.reverse

/-- **The roll of a state.** -/
def roll (p : Progress) : List (List Nat × Node) := rollFrom p.roots p.frames

theorem length_seat (roots : List Node) (fs : List Frame) :
    (seat roots fs).length = fs.length + 1 := by
  induction fs with
  | nil => rfl
  | cons f fs ih => rw [seat, List.length_append, ih, List.length_singleton, List.length_cons]

theorem roll_of_nil (h : p.frames = []) : p.roll = Forest.roll p.roots.reverse := by
  rw [roll, h]
  rfl

/-- **A finished node** comes at the end of the roll, with all that is in it. -/
theorem roll_add (p : Progress) (n : Node) :
    (p.add n).roll = p.roll ++ n.roll (seat p.roots p.frames) := by
  unfold add roll
  split
  · rename_i f fs hfs
    rw [hfs, rollFrom, rollFrom, seat, List.reverse_cons, Node.rollAll_append]
    simp
  · rename_i hfs
    rw [hfs, rollFrom, rollFrom, seat, List.reverse_cons, Node.rollAll_append]
    simp

/-- **An element that opens** comes at the end of the roll. -/
theorem roll_push (p : Progress) (hf : f.children = []) :
    (p.push f).roll =
      p.roll ++ [(seat p.roots p.frames, .element f.name f.attributes [] false none)] := by
  rw [roll, push, rollFrom, hf]
  rfl

/-- **An element that ends** is in the roll already. -/
theorem roll_ending (hfs : p.frames = f :: fs) (stop : Nat) :
    ({ p with frames := fs }.add (f.toNode stop)).roll = p.roll := by
  rw [roll_add, Node.roll_eq, roll, roll, hfs]
  rfl

theorem roll_finish (p : Progress) : p.finish.roll = p.roll := by
  refine finish_induction (motive := fun q => q.roll = p.roll) ?_ p rfl
  intro q f fs hfs hq
  refine motive_endElement (motive := fun q => q.roll = p.roll) ?_ ?_ hq hfs
  · rintro q ⟨_, _, _, _, _, _⟩ rfl rfl rfl hq
    exact hq
  · intro q f fs hfs hq
    rw [roll_ending hfs, hq]

/-- **The roll only grows.** -/
theorem prefix_roll_finish (limit : Int) (p : Progress) :
    p.roll <+: (p.run limit).finish.roll := by
  refine reading_induction (motive := fun q => p.roll <+: q.roll) ?_ ?_ ?_ ?_ ?_ p
    List.prefix_rfl
  · rintro q ⟨_, _, _, _, _, _⟩ rfl rfl rfl hq
    exact hq
  · intro q d _ hq
    exact hq
  · intro q a t n _ _ _ hq
    rw [roll_add]
    exact hq.trans (List.prefix_append _ _)
  · intro q name as start _ _ _ hq
    rw [roll_push _ rfl]
    exact hq.trans (List.prefix_append _ _)
  · intro q f fs hfs hq
    rw [roll_ending hfs]
    exact hq

end Progress

end MiniTemplate
