import MiniTemplate.Yaml.Schema

/-!
# The nodes of a document

The nodes of a document are scalars, lists and mappings, each with a tag that says what it is. A
node may be part of several others, and even of itself; so nodes have numbers, and a node is given
the numbers of its parts.

An entry with the merge mark stands for the entries of another mapping, or of several. They go in
front of the entries of the mapping itself. A mapping that is merged is first merged itself, and
since the mark is taken out of a mapping before what it stands for is looked at, a mapping may be
merged into itself.
-/

namespace MiniTemplate.Yaml

/-- The numbers of a key and its value. -/
abbrev Entry := Nat × Nat

/-- A node of a document. -/
inductive Node where
  | scalar (tag : Tag) (text : String)
  | list (tag : Tag) (items : List Nat)
  /-- A mapping, with the entries that are merged into it and those of its own. -/
  | mapping (tag : Tag) (merged own : List Entry)
  deriving Repr

namespace Node

/-- The tag of a node. -/
def tag : Node → Tag
  | scalar t _ | list t _ | mapping t _ _ => t

/-- The number of parts of a node. -/
def size : Node → Nat
  | scalar .. => 0
  | list _ items => items.length
  | mapping _ merged own => merged.length + own.length

end Node

/-- The nodes of a document, by their numbers. -/
abbrev Graph := Array Node

namespace Graph

/-- The tag of a node. -/
def tag (g : Graph) (n : Nat) : Tag := (g[n]?.map Node.tag).getD .other

/-- The entries of a mapping, the merged ones in front. -/
def entries (g : Graph) (n : Nat) : List Entry :=
  match g[n]? with
  | some (.mapping _ merged own) => merged ++ own
  | _ => []

/-- The graph with other entries in a mapping of its own. -/
def setOwn (g : Graph) (n : Nat) (own : List Entry) : Graph :=
  match g[n]? with
  | some (.mapping tag merged _) => g.setIfInBounds n (.mapping tag merged own)
  | _ => g

/-- The graph with other entries merged into a mapping, if there are any. -/
def setMerged (g : Graph) (n : Nat) (merged : List Entry) : Graph :=
  match g[n]? with
  | some (.mapping tag _ own) =>
    if merged.isEmpty then g else g.setIfInBounds n (.mapping tag merged own)
  | _ => g

/-- The graph with a scalar being a text. -/
def setText (g : Graph) (n : Nat) : Graph :=
  match g[n]? with
  | some (.scalar _ text) => g.setIfInBounds n (.scalar .text text)
  | _ => g

/-- The number of parts of all nodes. -/
def weight (g : Graph) : Nat := g.foldl (fun m n => m + n.size) 0

mutual

/-- The graph with a mapping merged. -/
def mergeNode (g : Graph) (n : Nat) : Nat → Except Fault Graph
  | 0 => .error .malformed
  | fuel + 1 =>
    match g[n]? with
    | some (.mapping _ _ own) => mergeEntries g n [] [] own fuel
    | _ => .error .malformed

/-- The graph with a mapping merged of which the last entries are given: `kept` holds those before
them, the latest first, and `merged` what has been found to be merged. The merge mark may occur
twice only if there was nothing to merge at first; a mark that stands for a value is a text
as a key. -/
def mergeEntries (g : Graph) (n : Nat) (kept merged : List Entry) :
    List Entry → Nat → Except Fault Graph
  | _, 0 => .error .malformed
  | [], _ + 1 => .ok ((g.setOwn n kept.reverse).setMerged n merged)
  | (k, v) :: es, fuel + 1 =>
    match g.tag k with
    | .merge =>
      if !merged.isEmpty then .error .malformed
      else do
        let g := g.setOwn n (kept.reverse ++ es)
        let (g, merged) ←
          match g[v]? with
          | some (.mapping ..) => mergeItems g [v] fuel
          | some (.list _ items) => mergeItems g items fuel
          | _ => .error .malformed
        mergeEntries g n kept merged es fuel
    | .standIn => mergeEntries (g.setText k) n ((k, v) :: kept) merged es fuel
    | _ => mergeEntries g n ((k, v) :: kept) merged es fuel

/-- The graph with several mappings merged, and all their entries, those of the last in front. -/
def mergeItems (g : Graph) : List Nat → Nat → Except Fault (Graph × List Entry)
  | _, 0 => .error .malformed
  | [], _ + 1 => .ok (g, [])
  | m :: ms, fuel + 1 => do
    let g ← mergeNode g m fuel
    let front := g.entries m
    let (g, later) ← mergeItems g ms fuel
    return (g, later ++ front)

end

/-- **The graph with a mapping merged.** What is merged lies at most as deep as there are merge
marks, and each level has no more steps than there are parts of nodes. -/
def merge (g : Graph) (n : Nat) : Except Fault Graph :=
  mergeNode g n ((g.weight + 4) * (g.weight + 4))

end Graph

end MiniTemplate.Yaml
