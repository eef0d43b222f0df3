import MiniTemplate.Proofs.Address
import MiniTemplate.Proofs.Traversal
import MiniTemplate.Ref

/-!
# What refs do to a forest

Refs are put in along a traversal, with a list of open copies that are counted in. Said by
recursion on the tree (`MiniTemplate.RefStyle.markNode`), each element gets the ref of its own
path, and hands its path on to its children. That the two agree, `MiniTemplate.Forest.annotate_eq`,
comes from what one tree does to *any* state it is copied in
(`MiniTemplate.Marking.foldl_nodeVisits`): it is counted, if it is an element, and added.

The recursion still says how a forest is marked. `MiniTemplate.Forest.marks_annotate` says what
comes out, node by node and without it: at each address of the forest stands the node that stood
there before, and an element has lost its refs but for one, which is where the first of them
was and names the path to the address.
-/

namespace MiniTemplate

/-! ### Marking by recursion -/

namespace RefStyle

mutual

/-- Mark one tree, whose root has a path. -/
def markNode (r : RefStyle) (path : List Nat) : Node → Node
  | .element name as children selfClosing span =>
    .element name (r.attributes path name as) (markAll r path 1 children) selfClosing span
  | .text content span => .text content span
  | .comment content span => .comment content span

/-- Mark the children of an element with a path, the next element being the `k`-th. -/
def markAll (r : RefStyle) (path : List Nat) (k : Nat) : List Node → List Node
  | [] => []
  | n :: ns => markNode r (path ++ [k]) n :: markAll r path (if n.isElement then k + 1 else k) ns

end

variable (r : RefStyle)

@[simp] theorem markAll_nil (path : List Nat) (k : Nat) : r.markAll path k [] = [] := rfl

theorem markAll_cons (path : List Nat) (k : Nat) (n : Node) (ns : List Node) :
    r.markAll path k (n :: ns) =
      r.markNode (path ++ [k]) n :: r.markAll path (if n.isElement then k + 1 else k) ns := rfl

@[simp] theorem isElement_markNode (path : List Nat) (n : Node) :
    (r.markNode path n).isElement = n.isElement := by
  cases n <;> rfl

theorem children_markNode (path : List Nat) (n : Node) :
    (r.markNode path n).children = r.markAll path 1 n.children := by
  cases n <;> rfl

end RefStyle

/-! ### The traversal marks by recursion -/

namespace Marking

variable (r : RefStyle)

/-- The state that has counted a node, if it is an element. -/
def tally (s : Marking) (n : Node) : Marking := if n.isElement then s.counted else s

theorem visit_enter (s : Marking) (n : Node) (parent : Option Node) :
    visit r s ⟨.enter, n, parent⟩ = s.enter r n := rfl

theorem visit_leave (s : Marking) (n : Node) (parent : Option Node) :
    visit r s ⟨.leave, n, parent⟩ = s.leave n := rfl

/-- **Below an open copy** a forest is counted and added, and nothing else changes. -/
theorem foldl_visits (f : List Node) (parent : Option Node) (s : Marking) (c : OpenCopy) :
    (Forest.visits parent f).foldl (visit r) (s.openCopy c) =
      s.openCopy { c with
        count := c.count + f.countP Node.isElement
        children := (r.markAll c.path (c.count + 1) f).reverse ++ c.children } := by
  induction f using Node.forest_induction generalizing parent s c with
  | nil => rfl
  | text content span ns ih =>
    rw [Forest.visits_cons, List.foldl_append, Forest.nodeVisits, List.foldl_cons,
      List.foldl_cons, List.foldl_nil, visit_enter, visit_leave, enter, leave]
    have hadd : (s.openCopy c).add (.text content span) =
        s.openCopy { c with children := .text content span :: c.children } := rfl
    rw [hadd, ih, RefStyle.markAll_cons]
    simp [RefStyle.markNode, Node.isElement]
  | comment content span ns ih =>
    rw [Forest.visits_cons, List.foldl_append, Forest.nodeVisits, List.foldl_cons,
      List.foldl_cons, List.foldl_nil, visit_enter, visit_leave, enter, leave]
    have hadd : (s.openCopy c).add (.comment content span) =
        s.openCopy { c with children := .comment content span :: c.children } := rfl
    rw [hadd, ih, RefStyle.markAll_cons]
    simp [RefStyle.markNode, Node.isElement]
  | element name as children selfClosing span ns ihc ihn =>
    rw [Forest.visits_cons, List.foldl_append, Forest.nodeVisits, List.foldl_cons,
      List.foldl_append, visit_enter, enter, ihc, List.foldl_cons, List.foldl_nil, visit_leave]
    -- the copy of the element is closed into the copy it was opened in, where it was counted
    have hleave : ∀ d : OpenCopy, ((s.openCopy c).counted.openCopy d).leave
        (.element name as children selfClosing span) =
        s.openCopy { c with count := c.count + 1, children := d.toNode :: c.children } :=
      fun _ => rfl
    have hcount : (Node.element name as children selfClosing span :: ns).countP Node.isElement =
        ns.countP Node.isElement + 1 := List.countP_cons_of_pos rfl
    rw [hleave, ihn, RefStyle.markAll_cons, hcount, Nat.add_right_comm, Nat.add_assoc]
    simp [RefStyle.markNode, OpenCopy.toNode, Node.isElement, nextPath, openCopy]

/-- **One tree**, copied in any state: it is counted, if it is an element, and added with its
refs. -/
theorem foldl_nodeVisits (n : Node) (parent : Option Node) (s : Marking) :
    (Forest.nodeVisits parent n).foldl (visit r) s =
      (s.tally n).add (r.markNode s.nextPath n) := by
  cases n with
  | text content span => rfl
  | comment content span => rfl
  | element name as children selfClosing span =>
    rw [Forest.nodeVisits, List.foldl_cons, List.foldl_append, visit_enter, enter, foldl_visits,
      List.foldl_cons, List.foldl_nil, visit_leave]
    simp [leave, openCopy, tally, Node.isElement, OpenCopy.toNode, RefStyle.markNode]

/-- At the top level nothing is counted. -/
theorem foldl_visits_top (f : List Node) (parent : Option Node) (roots : List Node) :
    (Forest.visits parent f).foldl (visit r) ⟨[], roots⟩ =
      ⟨[], (f.map (r.markNode [1])).reverse ++ roots⟩ := by
  induction f generalizing roots with
  | nil => rfl
  | cons n ns ih =>
    have hnode : (tally ⟨[], roots⟩ n).add (r.markNode (nextPath ⟨[], roots⟩) n) =
        ⟨[], r.markNode [1] n :: roots⟩ := by
      unfold tally
      split <;> rfl
    rw [Forest.visits_cons, List.foldl_append, foldl_nodeVisits, hnode, ih]
    simp

end Marking

/-- **Marking along the traversal is marking by recursion.** -/
theorem Forest.annotate_eq (r : RefStyle) (f : Forest) :
    f.annotate r = f.map (r.markNode [1]) := by
  rw [annotate, traverse_eq, Marking.empty, Marking.foldl_visits_top]
  simp

/-! ### Marking, address by address -/

namespace RefStyle

variable (r : RefStyle)

theorem getElem?_markAll (path : List Nat) (k : Nat) (ns : List Node) (i : Nat) :
    (r.markAll path k ns)[i]? =
      ns[i]?.map (r.markNode (path ++ [k + (ns.take i).countP Node.isElement])) := by
  induction ns generalizing k i with
  | nil => rfl
  | cons n ns ih =>
    rw [markAll_cons]
    cases i with
    | zero => rfl
    | succ i =>
      rw [List.getElem?_cons_succ, List.getElem?_cons_succ, ih, List.take_succ_cons,
        List.countP_cons]
      congr 4
      split <;> omega

theorem getElem?_markAll_one (path : List Nat) (ns : List Node) (i : Nat) :
    (r.markAll path 1 ns)[i]? = ns[i]?.map (r.markNode (path ++ [Node.ordinal ns i])) := by
  rw [getElem?_markAll, Node.ordinal, Nat.add_comm]

/-- **Below a marked node** stands at each address the node that stood there, marked with its
path. -/
theorem descendant?_markNode (path : List Nat) (n : Node) (is : List Nat) :
    (r.markNode path n).descendant? is =
      (n.descendant? is).map (r.markNode (path ++ n.pathTo is)) := by
  induction is generalizing path n with
  | nil => simp
  | cons i is ih =>
    rw [Node.descendant?_cons, Node.descendant?_cons, children_markNode, getElem?_markAll_one]
    cases hc : n.children[i]? with
    | none => rfl
    | some c =>
      rw [Option.map_some, Option.bind_some, Option.bind_some, ih, Node.pathTo_cons hc]
      simp

theorem countP_isElement_markAll (path : List Nat) (k : Nat) (ns : List Node) (i : Nat) :
    ((r.markAll path k ns).take i).countP Node.isElement =
      (ns.take i).countP Node.isElement := by
  induction ns generalizing k i with
  | nil => rfl
  | cons n ns ih =>
    cases i with
    | zero => rfl
    | succ i => simp [markAll_cons, List.countP_cons, ih]

/-- Refs change no path. -/
theorem pathTo_markNode (path : List Nat) (n : Node) (is : List Nat) :
    (r.markNode path n).pathTo is = n.pathTo is := by
  induction is generalizing path n with
  | nil => rfl
  | cons i is ih =>
    rw [Node.pathTo, Node.pathTo, children_markNode, Node.ordinal, countP_isElement_markAll,
      getElem?_markAll]
    cases n.children[i]? with
    | none => rfl
    | some c => simp [Node.ordinal, ih]

end RefStyle

namespace Forest

variable (r : RefStyle) (f : Forest)

theorem node?_annotate (i : Nat) (is : List Nat) :
    (f.annotate r).node? i is = (f.node? i is).map (r.markNode (1 :: f.path i is)) := by
  rw [annotate_eq, node?, node?, path, List.getElem?_map]
  cases f[i]? with
  | none => rfl
  | some n => exact r.descendant?_markNode [1] n is

theorem path_annotate (i : Nat) (is : List Nat) : (f.annotate r).path i is = f.path i is := by
  rw [annotate_eq, path, path, List.getElem?_map]
  cases f[i]? with
  | none => rfl
  | some n => exact r.pathTo_markNode [1] n is

end Forest

/-! ### The attributes of a marked element -/

namespace RefStyle

/-- The other attributes stay, in their order. -/
theorem filter_ne_place (a : Attribute) (as : List Attribute) :
    (place a as).filter (fun b => b.name != a.name) = as.filter fun b => b.name != a.name := by
  induction as with
  | nil => simp [place]
  | cons b bs ih =>
    rw [place]
    split
    · rename_i hb
      simp [hb]
    · rw [List.filter_cons, List.filter_cons, ih]

/-- One attribute of the name is left. -/
theorem filter_eq_place (a : Attribute) (as : List Attribute) :
    (place a as).filter (fun b => b.name == a.name) = [a] := by
  induction as with
  | nil => simp [place]
  | cons b bs ih =>
    rw [place]
    split
    · simp
    · rename_i hb
      rw [List.filter_cons_of_neg (by simpa using hb), ih]

/-- It stands where the first of its name stood. -/
theorem findIdx_place (a : Attribute) (as : List Attribute) :
    (place a as).findIdx (fun b => b.name == a.name) = as.findIdx fun b => b.name == a.name := by
  induction as with
  | nil => simp [place, List.findIdx_cons]
  | cons b bs ih =>
    rw [place]
    split
    · rename_i hb
      simp [List.findIdx_cons, hb]
    · rename_i hb
      simp [List.findIdx_cons, ih]

@[simp] theorem name_attributeOf (name value : String) : (attributeOf name value).name = name := by
  unfold attributeOf
  split <;> rfl

@[simp] theorem value_attributeOf (name value : String) :
    (attributeOf name value).value = value := by
  unfold attributeOf
  split <;> rfl

/-! ### What a ref says -/

theorem pathText_singleton (k : Nat) : pathText [k] = toString k := by
  simp [pathText]

/-- The path of a child is written behind that of its parent. -/
theorem pathText_append {path : List Nat} (hp : path ≠ []) (k : Nat) :
    pathText (path ++ [k]) = pathText path ++ "-" ++ toString k := by
  induction path with
  | nil => exact absurd rfl hp
  | cons a path ih =>
    cases path with
    | nil => simp [pathText, String.intercalate_cons_cons]
    | cons b path =>
      have h := ih (by simp)
      simp only [pathText, List.cons_append, List.map_cons, String.intercalate_cons_cons] at h ⊢
      rw [h]
      simp [String.append_assoc]

end RefStyle

/-- **The path as it is written**, from a node with the path `q` to an address below it: each
child adds its number among the elements. -/
def Node.route : String → Node → List Nat → String
  | q, _, [] => q
  | q, n, i :: is =>
    n.children[i]?.elim q fun c => c.route (q ++ "-" ++ toString (ordinal n.children i)) is

/-- The path of an address of a forest, as it is written: every tree begins with `1`. -/
def Forest.route (f : Forest) (i : Nat) (is : List Nat) : String :=
  f[i]?.elim "" fun n => n.route "1" is

theorem Node.route_eq {n m : Node} {is : List Nat} (hm : n.descendant? is = some m)
    {path : List Nat} (hp : path ≠ []) :
    n.route (RefStyle.pathText path) is = RefStyle.pathText (path ++ n.pathTo is) := by
  induction is generalizing n path with
  | nil => simp [route]
  | cons i is ih =>
    obtain ⟨c, hc, hcm⟩ := exists_child hm
    rw [route, hc, Option.elim_some, ← RefStyle.pathText_append hp, ih hcm (by simp),
      pathTo_cons hc]
    simp

theorem Forest.route_eq {f : Forest} {i : Nat} {is : List Nat} {m : Node}
    (hm : f.node? i is = some m) : f.route i is = RefStyle.pathText (1 :: f.path i is) := by
  obtain ⟨n, hn, hnm⟩ := exists_root hm
  rw [route, path, hn, Option.elim_some, Option.elim_some]
  exact Node.route_eq hnm (List.cons_ne_nil 1 [])

/-- **What refs do to one node**, at a path. A text or a comment stays as it is. An element keeps
its name, whether it closes itself and its span; of its attributes it keeps the others, and has
one of the name, where the first of them stood, or at the end. -/
def RefStyle.Marks (r : RefStyle) (path : String) : Node → Node → Prop
  | .element name as _ selfClosing span, m =>
    ∃ as' children' a, m = .element name as' children' selfClosing span ∧
      as'.filter (fun b => b.name != r.name) = as.filter (fun b => b.name != r.name) ∧
      as'.filter (fun b => b.name == r.name) = [a] ∧
      as'.findIdx (fun b => b.name == r.name) = as.findIdx (fun b => b.name == r.name) ∧
      a.value = r.stem ++ "_" ++ path ++ "_" ++ name
  | .text content span, m => m = .text content span
  | .comment content span, m => m = .comment content span

theorem RefStyle.marks_markNode (r : RefStyle) (path : List Nat) (n : Node) :
    r.Marks (pathText path) n (r.markNode path n) := by
  cases n with
  | text content span => rfl
  | comment content span => rfl
  | element name as children selfClosing span =>
    have hname := name_attributeOf r.name (r.value path name)
    have hothers := filter_ne_place (attributeOf r.name (r.value path name)) as
    have hone := filter_eq_place (attributeOf r.name (r.value path name)) as
    have hplace := findIdx_place (attributeOf r.name (r.value path name)) as
    rw [hname] at hothers hone hplace
    exact ⟨_, _, _, rfl, hothers, hone, hplace, value_attributeOf _ _⟩

/-- **Refs change nothing else.** A forest with refs has the shape of the forest, and at every
address the node that stood there, marked by its path. -/
theorem Forest.marks_annotate (r : RefStyle) (f : Forest) (i : Nat) (is : List Nat) :
    Option.Rel (r.Marks (f.route i is)) (f.node? i is) ((f.annotate r).node? i is) := by
  rw [node?_annotate]
  cases hn : f.node? i is with
  | none => exact .none
  | some n =>
    rw [route_eq hn]
    exact .some (r.marks_markNode _ n)

end MiniTemplate
