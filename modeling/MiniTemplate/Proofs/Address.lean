import MiniTemplate.Proofs.Tree

/-!
# Addresses and paths

A node of a forest is found by its **address**: the index of its tree, and then again and
again the index of a child. Every node has one. The **path** of an element leaves out what is
not an element: for each step down it says which of the *elements* there is taken, counted from
one.

Among the elements of one tree a path says as much as an address does
(`MiniTemplate.Node.pathTo_injective`). For other nodes it does not: a text has the path of the
element behind it.
-/

namespace MiniTemplate

namespace Node

/-! ### Addresses -/

/-- **The node at an address** below a node. -/
def descendant? : Node → List Nat → Option Node
  | n, [] => some n
  | n, i :: is => n.children[i]?.bind fun c => c.descendant? is

@[simp] theorem descendant?_nil (n : Node) : n.descendant? [] = some n := rfl

theorem descendant?_cons (n : Node) (i : Nat) (is : List Nat) :
    n.descendant? (i :: is) = n.children[i]?.bind fun c => c.descendant? is := rfl

theorem exists_child {n m : Node} {i : Nat} {is : List Nat}
    (h : n.descendant? (i :: is) = some m) :
    ∃ c, n.children[i]? = some c ∧ c.descendant? is = some m := by
  rw [descendant?_cons] at h
  exact Option.bind_eq_some_iff.mp h

/-- Only elements have nodes below them. -/
theorem isElement_of_descendant? {n m : Node} {is : List Nat} (h : n.descendant? is = some m)
    (hm : m.isElement) : n.isElement := by
  cases is with
  | nil =>
    obtain rfl : n = m := by simpa using h
    exact hm
  | cons i is =>
    obtain ⟨c, hc, -⟩ := exists_child h
    cases n with
    | element _ _ _ _ _ => rfl
    | text _ _ => exact absurd hc (by simp [children])
    | comment _ _ => exact absurd hc (by simp [children])

theorem occurs_of_descendant? {n m : Node} {is : List Nat} (h : n.descendant? is = some m)
    {f : List Node} (hn : n ∈ f) : Occurs m f := by
  induction is generalizing n f with
  | nil =>
    obtain rfl : n = m := by simpa using h
    exact .here hn
  | cons i is ih =>
    obtain ⟨c, hc, hcm⟩ := exists_child h
    exact .within hn (ih hcm (List.mem_of_getElem? hc))

/-! ### Paths -/

/-- **The number of an element** among its siblings, counted from one: how many elements stand
before its index, and one. -/
def ordinal (ns : List Node) (i : Nat) : Nat := (ns.take i).countP isElement + 1

/-- **The path** from a node to an address below it: for each step down, which of the elements
there is taken. -/
def pathTo : Node → List Nat → List Nat
  | _, [] => []
  | n, i :: is => ordinal n.children i :: n.children[i]?.elim [] fun c => c.pathTo is

@[simp] theorem pathTo_nil (n : Node) : n.pathTo [] = [] := rfl

theorem pathTo_cons {n c : Node} {i : Nat} (hc : n.children[i]? = some c) (is : List Nat) :
    n.pathTo (i :: is) = ordinal n.children i :: c.pathTo is := by
  rw [pathTo, hc, Option.elim_some]

/-- An element behind another has a greater number. -/
theorem ordinal_lt {ns : List Node} {i j : Nat} {n : Node} (hn : ns[i]? = some n)
    (he : n.isElement) (hij : i < j) : ordinal ns i < ordinal ns j := by
  have hprefix : ns.take (i + 1) <+: ns.take j := List.take_prefix_take_left hij
  have hle := hprefix.sublist.countP_le (p := isElement)
  rw [List.take_add_one, hn, List.countP_append] at hle
  have hone : [n].countP isElement = 1 := by simp [he]
  rw [Option.toList_some, hone] at hle
  unfold ordinal
  omega

/-- **Elements of one number are at one index.** -/
theorem ordinal_injective {ns : List Node} {i j : Nat} {m n : Node} (hm : ns[i]? = some m)
    (hn : ns[j]? = some n) (em : m.isElement) (en : n.isElement)
    (h : ordinal ns i = ordinal ns j) : i = j := by
  rcases Nat.lt_trichotomy i j with hij | hij | hij
  · have := ordinal_lt hm em hij
    omega
  · exact hij
  · have := ordinal_lt hn en hij
    omega

/-- **A path determines the address** of an element below a node. -/
theorem pathTo_injective {n a b : Node} {is js : List Nat} (ha : n.descendant? is = some a)
    (hb : n.descendant? js = some b) (ea : a.isElement) (eb : b.isElement)
    (h : n.pathTo is = n.pathTo js) : is = js := by
  induction is generalizing n js with
  | nil =>
    cases js with
    | nil => rfl
    | cons j js => exact absurd h (by simp [pathTo])
  | cons i is ih =>
    cases js with
    | nil => exact absurd h (by simp [pathTo])
    | cons j js =>
      obtain ⟨c, hc, hca⟩ := exists_child ha
      obtain ⟨d, hd, hdb⟩ := exists_child hb
      rw [pathTo_cons hc, pathTo_cons hd] at h
      obtain ⟨hord, hrest⟩ := List.cons.inj h
      -- both children lead to elements, so they are elements themselves and are counted
      obtain rfl := ordinal_injective hc hd (isElement_of_descendant? hca ea)
        (isElement_of_descendant? hdb eb) hord
      obtain rfl : c = d := Option.some.inj (hc.symm.trans hd)
      rw [ih hca hdb hrest]

end Node

/-! ### In a forest -/

namespace Forest

/-- **The node at an address** of a forest: in the tree of an index, below its root. -/
def node? (f : Forest) (i : Nat) (is : List Nat) : Option Node :=
  f[i]?.bind fun n => n.descendant? is

/-- **The path** of an address in a forest, from the root of its tree on. -/
def path (f : Forest) (i : Nat) (is : List Nat) : List Nat :=
  f[i]?.elim [] fun n => n.pathTo is

theorem exists_root {f : Forest} {i : Nat} {is : List Nat} {m : Node}
    (h : f.node? i is = some m) : ∃ n, f[i]? = some n ∧ n.descendant? is = some m :=
  Option.bind_eq_some_iff.mp h

/-- What stands at an address occurs in the forest. -/
theorem occurs_of_node? {f : Forest} {i : Nat} {is : List Nat} {m : Node}
    (h : f.node? i is = some m) : Node.Occurs m f := by
  obtain ⟨n, hn, hnm⟩ := exists_root h
  exact Node.occurs_of_descendant? hnm (List.mem_of_getElem? hn)

theorem path_of_root {f : Forest} {i : Nat} {n : Node} (h : f[i]? = some n) (is : List Nat) :
    f.path i is = n.pathTo is := by
  rw [path, h, Option.elim_some]

end Forest

end MiniTemplate
