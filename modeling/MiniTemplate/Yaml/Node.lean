import MiniTemplate.Yaml.Graph
import MiniTemplate.Yaml.Scan

/-!
# From tokens to nodes

The tokens of a document describe its nodes. A node may be given a name, by an anchor in front of
it, and an alias stands for the node that was last given its name. The name is given before the
parts of the node are read, so a node may be a part of itself.

Since nodes contain nodes, the readers carry a bound on the number of their calls; a document of
`n` tokens needs no more than a small multiple of `n`.
-/

namespace MiniTemplate.Yaml

/-- What is known while nodes are read. -/
structure Context where
  version : Version
  /-- What handles stand for in tags. -/
  handles : List (String × String)

/-- The nodes so far, and those that have names, the latest first. -/
structure Nodes where
  graph : Graph
  names : List (String × Nat)

namespace Nodes

/-- One more node, which may be given a name, and its number. -/
def add (ns : Nodes) (n : Node) (name : Option String) : Nat × Nodes :=
  let number := ns.graph.size
  (number, ⟨ns.graph.push n, (name.map fun a => (a, number)).toList ++ ns.names⟩)

/-- Another node under a number. -/
def set (ns : Nodes) (number : Nat) (n : Node) : Nodes :=
  ⟨ns.graph.setIfInBounds number n, ns.names⟩

end Nodes

/-- The number of a node with the tokens behind it, and the nodes known there. -/
abbrev NodeRun := Except Fault (Nat × List Token × Nodes)

/-- The numbers of items with the tokens behind them, and the nodes known there. -/
abbrev ItemsRun := Except Fault (List Nat × List Token × Nodes)

/-- The numbers of entries with the tokens behind them, and the nodes known there. -/
abbrev EntriesRun := Except Fault (List Entry × List Token × Nodes)

/-- What is wrong if the tokens cannot go on like this. -/
def unexpected : List Token → Fault
  | .fault f :: _ => f
  | _ => .malformed

/-- What stands in front of a node. -/
structure Properties where
  anchor : Option String
  /-- The handle and the rest of a tag. -/
  tag : Option (Option String × String)

/-- Nothing in front of a node. -/
def Properties.none : Properties := ⟨.none, .none⟩

/-- What stands in front of a node, in either order, and the tokens behind it. -/
def properties : List Token → Properties × List Token
  | .anchor a :: .tag h s :: ts => (⟨some a, some (h, s)⟩, ts)
  | .tag h s :: .anchor a :: ts => (⟨some a, some (h, s)⟩, ts)
  | .anchor a :: ts => (⟨some a, none⟩, ts)
  | .tag h s :: ts => (⟨none, some (h, s)⟩, ts)
  | ts => (.none, ts)

/-- The full name of a tag, or nothing if it leaves open what the node is. -/
def fullName (stem suffix : String) : Option String :=
  let name := stem ++ String.ofList (unescapeBytes suffix.toList)
  if name = "!" then none else some name

/-- What a tag says: its full name, or nothing if it leaves open what the node is. -/
def tagName (c : Context) : Option (Option String × String) → Except Fault (Option String)
  | none => .ok none
  | some (none, suffix) => .ok (fullName "" suffix)
  | some (some handle, suffix) =>
    match c.handles.find? fun h => h.1 == handle with
    | some h => .ok (fullName h.2 suffix)
    | none => .error .malformed

/-- The tag of a node: the one that is written, or else the one given. -/
def tagOr (name : Option String) (otherwise : Tag) : Tag :=
  match name with
  | some n => .ofName n
  | none => otherwise

/-- The tag of a scalar. Only a scalar that is neither tagged nor quoted is taken for what
it looks like; a tag that leaves open what it is makes it so, even between quotes. -/
def scalarTag (c : Context) (p : Properties) (name : Option String) (plain : Bool)
    (text : String) : Except Fault Tag :=
  match name with
  | some n => .ok (.ofName n)
  | none =>
    if plain || p.tag.isSome then
      if c.version = .standard ∨ c.version.isOld then .ok (tagOf c.version text)
      else .error (.unknownVersion c.version.major c.version.minor)
    else .ok .text

/-- A scalar that is not there, with what stands in front of it. -/
def emptyScalar (c : Context) (p : Properties) (ts : List Token) (ns : Nodes) : NodeRun := do
  let name ← tagName c p.tag
  let (n, ns) := ns.add (.scalar (← scalarTag c p name true "") "") p.anchor
  return (n, ts, ns)

/-- Nothing where a node could be. A version that is declared directly behind it, where all blocks
end, counts already. -/
def missing (c : Context) (ts : List Token) (ns : Nodes) : NodeRun :=
  match ts.dropWhile (· == .blockEnd) with
  | .declaration (.version v) :: _ => emptyScalar ⟨v, c.handles⟩ .none ts ns
  | _ => emptyScalar c .none ts ns

/-- Where a node stands: between brackets, in a block, or in a block where a list need not be
indented. -/
inductive Place where
  | brackets
  | block
  | value
  deriving DecidableEq, Repr

mutual

/-- **A node.** -/
def readNode (c : Context) (place : Place) (ts : List Token) (ns : Nodes) : Nat → NodeRun
  | 0 => .error .malformed
  | fuel + 1 =>
    match ts with
    | .alias a :: ts =>
      match ns.names.find? fun n => n.1 == a with
      | some n => .ok (n.2, ts, ns)
      | none => .error .malformed
    | _ => do
      let (p, ts) := properties ts
      let name ← tagName c p.tag
      -- a list or a mapping gets its number before its parts get theirs
      let asList (read : Nodes → ItemsRun) : NodeRun := do
        let (n, ns) := ns.add (.list (tagOr name .list) []) p.anchor
        let (items, ts, ns) ← read ns
        return (n, ts, ns.set n (.list (tagOr name .list) items))
      let asMapping (read : Nodes → EntriesRun) : NodeRun := do
        let (n, ns) := ns.add (.mapping (tagOr name .mapping) [] []) p.anchor
        let (entries, ts, ns) ← read ns
        return (n, ts, ns.set n (.mapping (tagOr name .mapping) [] entries))
      match ts with
      | .scalar plain text :: ts => do
        let (n, ns) := ns.add (.scalar (← scalarTag c p name plain text) text) p.anchor
        return (n, ts, ns)
      | .flowList :: ts => asList fun ns => readFlowList c true ts ns fuel
      | .flowMapping :: ts => asMapping fun ns => readFlowMapping c true ts ns fuel
      | .item :: ts' =>
        if place = .value then asList fun ns => readLooseList c (.item :: ts') ns fuel
        else if p.anchor.isSome || p.tag.isSome then emptyScalar c p (.item :: ts') ns
        else .error .malformed
      | .blockList :: ts' =>
        if place = .brackets then .error .malformed
        else asList fun ns => readBlockList c ts' ns fuel
      | .blockMapping :: ts' =>
        if place = .brackets then .error .malformed
        else asMapping fun ns => readBlockMapping c ts' ns fuel
      | .fault f :: _ => .error f
      | ts =>
        if p.anchor.isSome || p.tag.isSome then emptyScalar c p ts ns else .error .malformed

/-- The items of a block list. -/
def readBlockList (c : Context) (ts : List Token) (ns : Nodes) : Nat → ItemsRun
  | 0 => .error .malformed
  | fuel + 1 =>
    match ts with
    | .blockEnd :: ts => .ok ([], ts, ns)
    | .item :: ts => do
      let (n, ts, ns) ←
        match ts with
        | .item :: _ | .blockEnd :: _ => missing c ts ns
        | _ => readNode c .block ts ns fuel
      let (more, ts, ns) ← readBlockList c ts ns fuel
      return (n :: more, ts, ns)
    | ts => .error (unexpected ts)

/-- The items of a list that is not indented deeper than its key. -/
def readLooseList (c : Context) (ts : List Token) (ns : Nodes) : Nat → ItemsRun
  | 0 => .error .malformed
  | fuel + 1 =>
    match ts with
    | .item :: ts => do
      let (n, ts, ns) ←
        match ts with
        | .item :: _ | .key :: _ | .value :: _ | .blockEnd :: _ => missing c ts ns
        | _ => readNode c .block ts ns fuel
      let (more, ts, ns) ← readLooseList c ts ns fuel
      return (n :: more, ts, ns)
    | _ => .ok ([], ts, ns)

/-- A key or a value in a block, which may be missing. -/
def readBlockPart (c : Context) (ts : List Token) (ns : Nodes) : Nat → NodeRun
  | 0 => .error .malformed
  | fuel + 1 =>
    match ts with
    | .key :: _ | .value :: _ | .blockEnd :: _ => missing c ts ns
    | _ => readNode c .value ts ns fuel

/-- The entries of a block mapping. -/
def readBlockMapping (c : Context) (ts : List Token) (ns : Nodes) : Nat → EntriesRun
  | 0 => .error .malformed
  | fuel + 1 =>
    match ts with
    | .blockEnd :: ts => .ok ([], ts, ns)
    | _ => do
      let (key, ts, ns) ←
        match ts with
        | .key :: ts => readBlockPart c ts ns fuel
        | .value :: _ =>
          if c.version.isLater then missing c ts ns else .error .malformed
        | ts => .error (unexpected ts)
      let (value, ts, ns) ←
        match ts with
        | .value :: ts => readBlockPart c ts ns fuel
        | .fault f :: _ => .error f
        | _ => missing c ts ns
      let (more, ts, ns) ← readBlockMapping c ts ns fuel
      return ((key, value) :: more, ts, ns)

/-- A key or a value between brackets, which may be missing. -/
def readFlowPart (c : Context) (ts : List Token) (ns : Nodes) (isKey : Bool) : Nat → NodeRun
  | 0 => .error .malformed
  | fuel + 1 =>
    match ts with
    | .comma :: _ => missing c ts ns
    | .flowListEnd :: _ | .flowMappingEnd :: _ => missing c ts ns
    | .value :: _ => if isKey then missing c ts ns else .error .malformed
    | _ => readNode c .brackets ts ns fuel

/-- An entry behind the mark of a key, between brackets. -/
def readFlowEntry (c : Context) (ts : List Token) (ns : Nodes) :
    Nat → Except Fault (Entry × List Token × Nodes)
  | 0 => .error .malformed
  | fuel + 1 => do
    let (key, ts, ns) ← readFlowPart c ts ns true fuel
    let (value, ts, ns) ←
      match ts with
      | .value :: ts => readFlowPart c ts ns false fuel
      | .fault f :: _ => .error f
      | _ => missing c ts ns
    return ((key, value), ts, ns)

/-- The items of a list between brackets. An item behind the mark of a key is a mapping of
one entry. -/
def readFlowList (c : Context) (first : Bool) (ts : List Token) (ns : Nodes) : Nat → ItemsRun
  | 0 => .error .malformed
  | fuel + 1 =>
    match ts with
    | .flowListEnd :: ts => .ok ([], ts, ns)
    | _ => do
      let ts ←
        match ts with
        | .comma :: r => if first then pure ts else pure r
        | _ => if first then pure ts else .error (unexpected ts)
      match ts with
      | .flowListEnd :: ts => return ([], ts, ns)
      | .key :: ts =>
        let (entry, ts, ns) ← readFlowEntry c ts ns fuel
        let (n, ns) := ns.add (.mapping .mapping [] [entry]) none
        let (more, ts, ns) ← readFlowList c false ts ns fuel
        return (n :: more, ts, ns)
      | _ =>
        let (n, ts, ns) ← readNode c .brackets ts ns fuel
        let (more, ts, ns) ← readFlowList c false ts ns fuel
        return (n :: more, ts, ns)

/-- The entries of a mapping between brackets. A node that is not marked as a key has no
value. -/
def readFlowMapping (c : Context) (first : Bool) (ts : List Token) (ns : Nodes) :
    Nat → EntriesRun
  | 0 => .error .malformed
  | fuel + 1 =>
    match ts with
    | .flowMappingEnd :: ts => .ok ([], ts, ns)
    | _ => do
      let ts ←
        match ts with
        | .comma :: r => if first then pure ts else pure r
        | _ => if first then pure ts else .error (unexpected ts)
      match ts with
      | .flowMappingEnd :: ts => return ([], ts, ns)
      | .key :: ts =>
        let (entry, ts, ns) ← readFlowEntry c ts ns fuel
        let (more, ts, ns) ← readFlowMapping c false ts ns fuel
        return (entry :: more, ts, ns)
      | .value :: ts =>
        if c.version.isLater then
          let (key, ts, ns) ← missing c ts ns
          let (value, ts, ns) ← readFlowPart c ts ns false fuel
          let (more, ts, ns) ← readFlowMapping c false ts ns fuel
          return ((key, value) :: more, ts, ns)
        else .error .malformed
      | _ =>
        let (key, ts, ns) ← readNode c .brackets ts ns fuel
        let (value, ts, ns) ← missing c ts ns
        let (more, ts, ns) ← readFlowMapping c false ts ns fuel
        return ((key, value) :: more, ts, ns)

end

/-! ### Documents -/

/-- A document: its version, its nodes, and the number of the node that is its root. -/
structure Document where
  version : Version
  graph : Graph
  root : Nat

/-- The handles that are known without a declaration. -/
def standardHandles : List (String × String) := [("!", "!"), ("!!", tagStem)]

/-- The declarations in front of a document: its version, what they say of handles, and the tokens
behind them. -/
def readDeclarations (version : Option Version) (handles : List (String × String)) :
    List Token → Except Fault (Context × List Token)
  | .declaration (.version v) :: ts =>
    if version.isSome || v.major != 1 then .error .malformed
    else readDeclarations (some v) handles ts
  | .declaration (.handle h stem) :: ts =>
    if handles.any fun k => k.1 == h then .error .malformed
    else readDeclarations version ((h, stem) :: handles) ts
  | .declaration .other :: ts => readDeclarations version handles ts
  | ts => .ok (⟨version.getD .standard, handles ++ standardHandles⟩, ts)

/-- The first document, and the tokens behind it. Behind the marker that begins a document
there may be nothing. -/
def readRoot (ts : List Token) : Except Fault (Document × List Token) := do
  let fuel := 4 * ts.length + 4
  let (c, behind) ← readDeclarations none [] ts
  let (n, rest, ns) ←
    match ts with
    | .declaration _ :: _ | .documentStart :: _ =>
      match behind with
      | .documentStart :: ts =>
        match ts with
        | [] | .documentEnd :: _ | .documentStart :: _ | .declaration _ :: _ =>
          missing c ts ⟨#[], []⟩
        | _ => readNode c .block ts ⟨#[], []⟩ fuel
      | ts => .error (unexpected ts)
    | _ => readNode c .block ts ⟨#[], []⟩ fuel
  return (⟨c.version, ns.graph, n⟩, rest)

/-- The tokens behind the end of a document. The older rules let it end more than once. -/
def behindDocument (v : Version) : List Token → List Token
  | .documentEnd :: ts => if v.isOld then ts.dropWhile (· == .documentEnd) else ts
  | ts => ts

/-- **The one document** of the tokens, if there is one. -/
def readDocument (ts : List Token) : Except Fault (Option Document) :=
  if ts.isEmpty then .ok none
  else do
    let (d, ts) ← readRoot ts
    match behindDocument d.version ts with
    | [] => return some d
    | ts => .error (unexpected ts)

end MiniTemplate.Yaml
