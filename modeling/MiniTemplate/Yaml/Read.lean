import MiniTemplate.Yaml.Build

/-!
# Reading YAML

The value of a document is what its root denotes. A thing may be part of itself, and a value
cannot; so the value of a part that stands inside itself is only a mark. The root itself does not
count here: each of its parts is given in full, as far as the part by itself goes.

A thing may be part of many others. Its value is made only once, unless there are marks in it.

Settings may be loaded by any `MiniTemplate.Yaml.Loader`. This reader is one of them,
`MiniTemplate.Yaml.load`; of a text that is not YAML it does not say more than that.
-/

namespace MiniTemplate.Yaml

/-- Values that have been made, by the numbers of nodes. -/
abbrev Memo := Array (Option Value)

/-- A value, whether there are marks in it, and the values that have been made. -/
abbrev Unrolled (α : Type) := α × Bool × Memo

/-- How a thing is marked inside itself. -/
def Thing.enclosing : Thing → Enclosing
  | .mapping _ => .mapping
  | .ordered _ => .ordered
  | _ => .list

/-- The values of several parts, given how to make that of one. -/
def unrollAll {α β : Type} (one : α → Memo → Unrolled β) (parts : List α) (memo : Memo) :
    Unrolled (List β) :=
  let (values, marked, memo) := parts.foldl (fun (vs, marked, memo) p =>
    let (v, m, memo) := one p memo
    (v :: vs, marked || m, memo)) (([] : List β), false, memo)
  (values.reverse, marked, memo)

mutual

/-- The value of a thing, `around` being the nodes that it stands in. -/
def Thing.unroll (w : Things) (around : List Nat) (t : Thing) (memo : Memo) :
    Nat → Unrolled Value
  | 0 => (.null, true, memo)
  | fuel + 1 =>
    let part (n : Nat) (memo : Memo) := w.unrollNode around n memo fuel
    let entry (e : Value × Nat) (memo : Memo) : Unrolled (Value × Value) :=
      let (v, marked, memo) := part e.2 memo
      ((e.1, v), marked, memo)
    let pair (e : Entry) (memo : Memo) : Unrolled Value :=
      let (a, marked, memo) := part e.1 memo
      let (b, more, memo) := part e.2 memo
      (.tuple [a, b], marked || more, memo)
    match t with
    | .value v => (v, false, memo)
    | .set items => (.set items, false, memo)
    | .list items =>
      let (vs, marked, memo) := unrollAll part items memo
      (.list vs, marked, memo)
    | .pairs entries =>
      let (vs, marked, memo) := unrollAll pair entries memo
      (.list vs, marked, memo)
    | .mapping entries =>
      let (es, marked, memo) := unrollAll entry entries memo
      (.mapping es, marked, memo)
    | .ordered entries =>
      let (es, marked, memo) := unrollAll entry entries memo
      (.ordered es, marked, memo)

/-- The value of the thing of a node. -/
def Things.unrollNode (w : Things) (around : List Nat) (n : Nat) (memo : Memo) :
    Nat → Unrolled Value
  | 0 => (.null, true, memo)
  | fuel + 1 =>
    match w.get? n, memo[n]?.join with
    | none, _ => (.null, false, memo)
    | some _, some v => (v, false, memo)
    | some t, none =>
      if around.contains n then (.inner t.enclosing, true, memo)
      else
        let (v, marked, memo) := t.unroll w (n :: around) memo fuel
        (v, marked, if marked then memo else memo.setIfInBounds n (some v))

end

/-- The value of a document. -/
def Document.value (d : Document) : Except Fault Value := do
  let w ← d.things
  let size := d.graph.size
  match w.get? d.root with
  | none => return .null
  | some t => return (t.unroll w [] (Array.replicate size none) (2 * size + 4)).1

/-- **The value of a YAML document.** An empty document is null. -/
def read (s : String) : Except Fault Value := do
  match ← readDocument (tokens s.toList) with
  | none => return .null
  | some d => d.value

/-- **The reader as a loader.** -/
def load : Loader := fun s =>
  match read s with
  | .ok v => .ok v
  | .error .malformed => .error (.malformed "not a readable document")
  | .error fault => .error (.unusable fault)

end MiniTemplate.Yaml
