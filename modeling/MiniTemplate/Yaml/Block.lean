import MiniTemplate.Yaml.Token

/-!
# Block scalars

A block scalar is a text on lines of its own, which are indented. Its header says whether lines
are kept or folded; behind that, it may say how deep the indentation is, and what becomes of the
line breaks at the end: all are kept, none, or one. Without a number in the header, the first line
that is not empty sets the indentation.
-/

namespace MiniTemplate.Yaml

/-- What becomes of the line breaks at the end of a block scalar. -/
inductive Ending where
  | one
  | all
  | no
  deriving DecidableEq, Repr

/-- What the header of a block scalar says. -/
structure BlockHeader where
  ending : Ending
  /-- The depth of the indentation, beyond that of the block around it. -/
  depth : Option Nat

/-- The ending that a sign stands for. -/
def endingOf? : Char → Option Ending
  | '+' => some .all
  | '-' => some .no
  | _ => none

/-- The depth that a digit stands for; zero is not a depth. -/
def depthOf (c : Char) : Except Fault (Option Nat) :=
  if c = '0' then .error .malformed
  else if c.isDigit then .ok (some (c.toNat - '0'.toNat))
  else .ok none

/-- The signs behind the mark of a block scalar: what they say, and their number. -/
def blockSigns : List Char → Except Fault (BlockHeader × Nat)
  | [] => .ok (⟨.one, none⟩, 0)
  | a :: cs => do
    match endingOf? a with
    | some ending =>
      match cs with
      | [] => .ok (⟨ending, none⟩, 1)
      | b :: _ =>
        match ← depthOf b with
        | some n => .ok (⟨ending, some n⟩, 2)
        | none => .ok (⟨ending, none⟩, 1)
    | none =>
      match ← depthOf a with
      | none => .ok (⟨.one, none⟩, 0)
      | some n =>
        match cs.head?.bind endingOf? with
        | some ending => .ok (⟨ending, some n⟩, 2)
        | none => .ok (⟨.one, some n⟩, 1)

/-- The place behind the header of a block scalar, and what the header says. -/
def blockHeader (s : Source) : Except Fault (BlockHeader × Source) := do
  let (header, width) ← blockSigns s.rest
  let s := s.skip width
  if spaceOrEnd s.rest then return (header, ← emptyLineRest s) else .error .malformed

/-- The empty lines at the beginning of a block scalar. -/
structure BlockLead where
  breaks : List Char
  /-- The greatest column that spaces lead to. -/
  depth : Nat
  source : Source

/-- The empty lines at the beginning of a block scalar without a depth in its header: `first` is
the column of the first line break, and no line may be indented deeper than that. The bound is on
the number of characters. -/
def blockLead (breaks : List Char) (first : Option Nat) (depth : Nat) (s : Source) :
    Nat → Except Fault BlockLead
  | 0 => .error .malformed
  | fuel + 1 =>
    if s.peek? = some ' ' then blockLead breaks first (max depth s.next.column) s.next fuel
    else
      match s.peek?.filter isBreak with
      | some c => blockLead (breaks ++ [breakText c]) (some (first.getD s.column)) depth s.next fuel
      | none =>
        if first.any fun n => 0 < n && n < depth then .error .malformed
        else .ok ⟨breaks, depth, s⟩

/-- The empty lines at a place in a block scalar, with the indentation of the line behind them.
The bound is on the number of characters. -/
def blockBreaks (indent : Nat) (breaks : List Char) (s : Source) : Nat → List Char × Source
  | 0 => (breaks, s)
  | fuel + 1 =>
    if s.peek? = some ' ' ∧ s.column < indent then blockBreaks indent breaks s.next fuel
    else
      match s.peek?.filter isBreak with
      | some c => blockBreaks indent (breaks ++ [breakText c]) s.next fuel
      | none => (breaks, s)

/-- What stands between two lines of a block scalar, `breaks` being the empty lines between
them: in a folded one, a newline between lines that do not begin with a blank is a space. -/
def betweenLines (folded : Bool) (line next lineBreak breaks : List Char) : List Char :=
  let flush (cs : List Char) : Bool := !(cs.head?.any isInlineBlank)
  if folded && lineBreak == ['\n'] && flush line && flush next then
    if breaks.isEmpty then [' '] else breaks
  else lineBreak ++ breaks

/-- What the line breaks at the end of a block scalar become. -/
def atEnd (ending : Ending) (lineBreak breaks : List Char) : List Char :=
  match ending with
  | .one => lineBreak
  | .all => lineBreak ++ breaks
  | .no => []

/-- The lines of a block scalar from a place on, whose indentation has been passed. In a scalar
that need not be indented, a marker between documents ends it. The bound is on the number of
lines. -/
def blockLines (folded : Bool) (ending : Ending) (indent : Nat) (unindented : Bool) (s : Source) :
    Nat → List Char × Source
  | 0 => ([], s)
  | fuel + 1 =>
    let line := lineRest s.rest
    let behind := s.skip line.length
    let lineBreak := (behind.rest.take 1).map breakText
    let (breaks, there) := blockBreaks indent [] behind.next behind.rest.length
    let ends := there.rest.isEmpty || there.column != indent ||
      (unindented && there.column == 0 && isMarker there.rest)
    if ends then (line ++ atEnd ending lineBreak breaks, there)
    else
      let (more, last) := blockLines folded ending indent unindented there fuel
      (line ++ betweenLines folded line there.rest lineBreak breaks ++ more, last)

/-- **A block scalar** at the place behind its mark, in a block that is indented by
`parent`. -/
def blockScalar (folded : Bool) (parent : Int) (s : Source) :
    Except Fault (List Char × Source) := do
  let (header, s) ← blockHeader s
  let least := (parent + 1).toNat
  let (breaks, indent, s) ←
    match header.depth with
    | some n =>
      let indent := max least 1 + n - 1
      let (breaks, s) := blockBreaks indent [] s s.rest.length
      pure (breaks, indent, s)
    | none =>
      let lead ← blockLead [] none 0 s (s.rest.length + 1)
      pure (lead.breaks, max least lead.depth, lead.source)
  if s.column == indent && !s.rest.isEmpty then
    let (text, behind) := blockLines folded header.ending indent (least == 0) s s.rest.length
    return (breaks ++ text, behind)
  else return (if header.ending = .all then breaks else [], s)

end MiniTemplate.Yaml
