import MiniTemplate.Yaml.Node

/-!
# What nodes denote

Every node denotes a thing: a value that has no parts, or a list, a set or a mapping of other
things. Things are made in an order that shows, since of several faults the first one counts.

* A list or a mapping is made empty at first, and it is filled after everything that is made
  together with it. So things are filled level by level, the outermost first, and a thing may be
  part of itself.
* Keys have to be known at once. So in a key things are filled as soon as they are made. A list
  that was made before and is not yet filled is an empty key.

Keys of a mapping are compared by their values, and none may occur twice; numbers are the same if
they are equal, truth values count as one and zero, and timestamps with a zone are compared in
universal time. A list may be a key if its items are no lists or mappings, and a mapping cannot. If
something is merged into a mapping, a key may occur twice, and the last one counts.
-/

namespace MiniTemplate.Yaml

/-! ### Keys -/

/-- A number as a fraction, in double precision if it is not an integer; a truth value counts
as one or zero. -/
def Value.fraction? : Value → Option (Int × Nat)
  | .bool b => some (if b then 1 else 0, 1)
  | .int n => some (n, 1)
  | .real (.finite d) =>
    d.double?.map fun x =>
      (if d.negative then -(x.numerator : Int) else x.numerator, x.denominator)
  | _ => none

mutual

/-- Are two keys the same? -/
def Value.sameKey : Value → Value → Bool
  | .text a, .text b => a == b
  | .stamp a, .stamp b => a.same b
  | .tuple as, .tuple bs => sameItems as bs
  | a, b =>
    match a.fraction?, b.fraction? with
    | some (m, d), some (n, e) => m * e == n * d
    | none, none => a.display == b.display
    | _, _ => false

/-- Are the items of two keys the same? -/
def Value.sameItems : List Value → List Value → Bool
  | [], [] => true
  | a :: as, b :: bs => a.sameKey b && sameItems as bs
  | _, _ => false

end

/-- Entries with one more: under a key that is there, the value is replaced. -/
def putEntry {α : Type} (key : Value) (value : α) : List (Value × α) → List (Value × α)
  | [] => [(key, value)]
  | (k, v) :: es => if k.sameKey key then (k, value) :: es else (k, v) :: putEntry key value es

/-! ### Things -/

/-- What a node denotes. The parts that are no keys are given by the numbers of their nodes. -/
inductive Thing where
  | value (v : Value)
  | list (items : List Nat)
  | pairs (entries : List Entry)
  | set (items : List Value)
  | mapping (entries : List (Value × Nat))
  | ordered (entries : List (Value × Nat))
  deriving Repr

/-- The things made so far. -/
structure Things where
  graph : Graph
  /-- What has been made of each node. -/
  made : Array (Option Thing)
  /-- The nodes whose things are to be filled, the latest first. -/
  waiting : List Nat

namespace Things

/-- What has been made of a node. -/
def get? (w : Things) (n : Nat) : Option Thing := w.made[n]?.join

/-- Something made of a node. -/
def put (w : Things) (n : Nat) (t : Thing) : Things :=
  { w with made := w.made.setIfInBounds n (some t) }

/-- The value of a node that has no parts. -/
def simple? (w : Things) (n : Nat) : Option Value :=
  match w.get? n with
  | some (.value v) => some v
  | _ => none

/-- What is made of a node as a key. A list becomes a tuple, and it is not known yet whether its
items can be compared: if they cannot, nothing is given. -/
def key (w : Things) (n : Nat) : Except Fault (Option Value) :=
  match w.get? n with
  | some (.value v) => .ok (some v)
  | some (.list items) => .ok ((items.mapM w.simple?).map .tuple)
  | some (.pairs entries) =>
    let pair (e : Entry) : Option Value := do return .tuple [← w.simple? e.1, ← w.simple? e.2]
    .ok ((entries.mapM pair).map .tuple)
  | _ => .error .malformed

/-- The text of a node that is said to be something without parts: that of a scalar, or of the value
that stands for a mapping. The bound is on the number of mappings. -/
def text (g : Graph) (n : Nat) : Nat → Except Fault String
  | 0 => .error .malformed
  | fuel + 1 =>
    match g[n]? with
    | some (.scalar _ s) => .ok s
    | some (.mapping ..) =>
      match (g.entries n).find? fun e => g.tag e.1 == .standIn with
      | some e => text g e.2 fuel
      | none => .error .malformed
    | _ => .error .malformed

/-- What is made of a node at first. -/
def begin (v : Version) (w : Things) (n : Nat) : Except Fault Thing :=
  match w.graph.tag n with
  | .list => .ok (.list [])
  | .pairs => .ok (.pairs [])
  | .set => .ok (.set [])
  | .mapping => .ok (.mapping [])
  | .ordered => .ok (.ordered [])
  | .stamp =>
    match w.graph[n]? with
    | some (.scalar _ s) => (scalarValue v .stamp s).map .value
    | _ => .error .malformed
  | .merge | .standIn | .other => .error .malformed
  | t => do return .value (← scalarValue v t (← text w.graph n (w.graph.size + 1)))

/-- The one entry of a mapping in a list of entries. -/
def soleEntry (g : Graph) (n : Nat) : Except Fault Entry :=
  match g[n]?, g.entries n with
  | some (.mapping ..), [e] => .ok e
  | _, _ => .error .malformed

/-- The items of a node that has to be a list. -/
def listItems (g : Graph) (n : Nat) : Except Fault (List Nat) :=
  match g[n]? with
  | some (.list _ items) => .ok items
  | _ => .error .malformed

mutual

/-- The thing of a node is made, if it is not there yet: with its parts if `deep` holds, and
otherwise it is to be filled later. -/
def make (v : Version) (deep : Bool) (w : Things) (n : Nat) : Nat → Except Fault Things
  | 0 => .error .malformed
  | fuel + 1 =>
    if (w.get? n).isSome then .ok w
    else do
      let w := w.put n (← w.begin v n)
      if !(w.graph.tag n).isContainer then return w
      else if deep then fill v true w n fuel
      else return { w with waiting := n :: w.waiting }

/-- The thing of a node is filled. -/
def fill (v : Version) (deep : Bool) (w : Things) (n : Nat) : Nat → Except Fault Things
  | 0 => .error .malformed
  | fuel + 1 =>
    match w.graph.tag n with
    | .list => do
      let items ← listItems w.graph n
      let w ← items.foldlM (fun w m => make v deep w m fuel) w
      return w.put n (.list items)
    | .pairs => do
      let items ← listItems w.graph n
      let (w, entries) ← items.foldlM (fun (w, es) m => do
        let e ← soleEntry w.graph m
        let w ← make v deep w e.1 fuel
        let w ← make v deep w e.2 fuel
        return (w, e :: es)) (w, [])
      return w.put n (.pairs entries.reverse)
    | .ordered => do
      let items ← listItems w.graph n
      let (w, entries) ← items.foldlM (fun (w, es) m => do
        let e ← soleEntry w.graph m
        let w ← make v deep w e.1 fuel
        match w.simple? e.1 with
        | none => .error .nestedKey
        | some key =>
          if es.any fun e => e.1.sameKey key then .error .repeatedKey
          else
            let w ← make v deep w e.2 fuel
            return (w, (key, e.2) :: es)) (w, [])
      return w.put n (.ordered entries.reverse)
    | .mapping => do
      let (w, entries) ← fillEntries v deep w n fuel
      return w.put n (.mapping entries)
    | .set => do
      let (w, entries) ← fillEntries v deep w n fuel
      return w.put n (.set (entries.map (·.1)))
    | _ => .error .malformed

/-- The entries of a mapping. -/
def fillEntries (v : Version) (deep : Bool) (w : Things) (n : Nat) :
    Nat → Except Fault (Things × List (Value × Nat))
  | 0 => .error .malformed
  | fuel + 1 => do
    let g ← w.graph.merge n
    let strict :=
      match g[n]? with
      | some (.mapping _ merged _) => merged.isEmpty
      | _ => true
    (g.entries n).foldlM (fun (w, es) e => do
      let w ← make v true w e.1 fuel
      let key? ← w.key e.1
      let w ← make v deep w e.2 fuel
      match key? with
      | none => .error .nestedKey
      | some key =>
        if strict && es.any fun e => e.1.sameKey key then .error .malformed
        else return (w, putEntry key e.2 es)) ({ w with graph := g }, [])

end

/-- The things that wait are filled, level by level. The bound is on the number of levels. -/
def finish (v : Version) (w : Things) : Nat → Except Fault Things
  | 0 => .error .malformed
  | levels + 1 =>
    if w.waiting.isEmpty then .ok w
    else do
      let fuel := 3 * w.graph.size + 3
      let w ← w.waiting.reverse.foldlM (fun w n => fill v false w n fuel) { w with waiting := [] }
      finish v w levels

end Things

/-- **The things of a document.** -/
def Document.things (d : Document) : Except Fault Things := do
  let size := d.graph.size
  let w : Things := ⟨d.graph, Array.replicate size none, []⟩
  Things.finish d.version (← Things.make d.version false w d.root 1) (size + 1)

end MiniTemplate.Yaml
