import MiniTemplate.Yaml.Block
import MiniTemplate.Yaml.Plain
import MiniTemplate.Yaml.Quoted
import MiniTemplate.Yaml.Token

/-!
# From characters to tokens

Tokens are found one after the other. Two things cannot be told from the next characters alone.

* **Where blocks begin and end.** A block begins with its first token, at a column beyond that of
  the block around it, and it ends before the first token at a lesser column. So the columns of
  the open blocks are kept. Between brackets, columns mean nothing.
* **What is a key.** A key in front of a colon has no mark of its own. So the last token at each
  level of brackets that may turn out to be a key is kept as a candidate, and if a colon follows on
  the same line and within 1024 characters, the mark of a key, and perhaps the beginning of a
  mapping, is put in front of it. A candidate at the column of a mapping has to turn out
  to be a key.

A colon between brackets depends on what stands before it: in a list, and in a mapping directly
behind another colon, it is a mark only if a blank follows. That another colon stands directly
before it is known only while there is a candidate, since only then is the token before it still
at hand.
-/

namespace MiniTemplate.Yaml

/-- A token that may turn out to be a key. -/
structure Candidate where
  /-- The number of brackets that are open around it. -/
  level : Nat
  /-- The number of tokens before it. -/
  number : Nat
  /-- Does it have to be a key? -/
  required : Bool
  index : Nat
  line : Nat
  column : Nat
  deriving Repr

/-- A bracket that is open. -/
inductive Bracket where
  | list
  | mapping
  deriving DecidableEq, Repr

/-- How far a document has been read. -/
structure Scan where
  source : Source
  version : Version
  /-- The tokens so far, the latest first. -/
  tokens : List Token
  /-- Their number. -/
  count : Nat
  /-- The column of the innermost block, or -1. -/
  indent : Int
  /-- The columns of the blocks around it. -/
  outer : List Int
  /-- The open brackets, the innermost first. -/
  brackets : List Bracket
  /-- May a key stand here? -/
  keyAllowed : Bool
  candidates : List Candidate

namespace Scan

/-- The beginning of a document. -/
def start (cs : List Char) : Scan := ⟨.ofList cs, .standard, [], 0, -1, [], [], true, []⟩

/-- The number of open brackets. -/
def level (s : Scan) : Nat := s.brackets.length

/-- Is the place between brackets? -/
def inBrackets (s : Scan) : Bool := !s.brackets.isEmpty

/-- One more token. -/
def push (s : Scan) (t : Token) : Scan := { s with tokens := t :: s.tokens, count := s.count + 1 }

/-- Pass so many characters. -/
def pass (s : Scan) (n : Nat) : Scan := { s with source := s.source.skip n }

/-- One more token, of so many characters. -/
def mark (s : Scan) (t : Token) (width : Nat) : Scan := (s.push t).pass width

/-- Tokens put in front of the one with so many before it. -/
def insert (s : Scan) (number : Nat) (ts : List Token) : Scan :=
  let later := s.count - number
  { s with
    tokens := s.tokens.take later ++ ts.reverse ++ s.tokens.drop later
    count := s.count + ts.length }

/-! ### Blocks -/

/-- End the blocks beyond a column, of which there are as many as the list is long. -/
def endBlocks (s : Scan) (column : Int) : List Int → Scan
  | [] => s
  | o :: os =>
    if column < s.indent then
      endBlocks ({ s with indent := o, outer := os }.push .blockEnd) column os
    else s

/-- End the blocks beyond a column. Between brackets none ends. -/
def unwind (s : Scan) (column : Int) : Scan :=
  if s.inBrackets then s else s.endBlocks column s.outer

/-- Is a column beyond that of the innermost block? -/
def isDeeper (s : Scan) (column : Nat) : Bool := s.indent < column

/-- Begin a block at a column. -/
def indentTo (s : Scan) (column : Nat) : Scan :=
  { s with indent := column, outer := s.indent :: s.outer }

/-- Begin a block with a token here, if the place is deeper than the block around it. -/
def openBlock (s : Scan) (t : Token) : Scan :=
  if s.isDeeper s.source.column then (s.indentTo s.source.column).push t else s

/-! ### Candidates for keys -/

/-- Can the candidate no longer be a key, with the place so far behind it? -/
def isStale (s : Scan) (c : Candidate) : Bool :=
  c.line != s.source.line || c.index + 1024 < s.source.index

/-- Drop the candidates of which some property holds; none that has to be a key may be among
them. -/
def drop (s : Scan) (p : Candidate → Bool) : Except Fault Scan :=
  if s.candidates.any fun c => p c && c.required then .error .malformed
  else .ok { s with candidates := s.candidates.filter fun c => !p c }

/-- Drop the candidates that can no longer be keys. -/
def dropStale (s : Scan) : Except Fault Scan := s.drop s.isStale

/-- Drop the candidate at this level of brackets. -/
def dropHere (s : Scan) : Except Fault Scan := s.drop fun c => c.level == s.level

/-- The next token may turn out to be a key, if one may stand here. -/
def offer (s : Scan) : Except Fault Scan :=
  if s.keyAllowed then do
    let s ← s.dropHere
    let here := s.source
    let c : Candidate := ⟨s.level, s.count, !s.inBrackets && s.indent == here.column,
      here.index, here.line, here.column⟩
    return { s with candidates := c :: s.candidates }
  else .ok s

/-! ### Tokens -/

/-- The blanks, line breaks and comments at a place: their width, and whether a line is broken.
Outside brackets, tabs are not among them. -/
def gap (inBrackets inComment : Bool) : List Char → Nat × Bool
  | [] => (0, false)
  | c :: cs =>
    if isBreak c then ((gap inBrackets false cs).1 + 1, true)
    else if inComment || c == '#' then
      let (width, broken) := gap inBrackets true cs
      (width + 1, broken)
    else if c == ' ' || (inBrackets && c == '\t') then
      let (width, broken) := gap inBrackets false cs
      (width + 1, broken)
    else (0, false)

/-- Pass everything up to the next token. At the beginning of a line a key may stand. -/
def toNext (s : Scan) : Scan :=
  let (width, broken) := gap s.inBrackets false s.source.rest
  let s := s.pass width
  if broken && !s.inBrackets then { s with keyAllowed := true } else s

/-- End all blocks, and go on where no key may stand. -/
def endAll (s : Scan) : Except Fault Scan := do
  let s ← (s.unwind (-1)).dropHere
  return { s with keyAllowed := false }

/-- A bracket that opens. -/
def openBracket (s : Scan) (b : Bracket) (t : Token) : Except Fault Scan := do
  let s ← s.offer
  return { s with brackets := b :: s.brackets, keyAllowed := true }.mark t 1

/-- A bracket that closes. -/
def closeBracket (s : Scan) (t : Token) : Except Fault Scan := do
  let s ← s.dropHere
  return { s with brackets := s.brackets.drop 1, keyAllowed := false }.mark t 1

/-- A comma. -/
def comma (s : Scan) : Except Fault Scan := do
  let s ← s.dropHere
  return { s with keyAllowed := true }.mark .comma 1

/-- A mark that may begin a block: the dash of an item, or the mark of a key. -/
def blockMark (s : Scan) (block t : Token) (keyAllowed : Bool) : Except Fault Scan :=
  if s.inBrackets then do
    let s ← s.dropHere
    return { s with keyAllowed }.mark t 1
  else if s.keyAllowed then do
    let s ← (s.openBlock block).dropHere
    return { s with keyAllowed }.mark t 1
  else .error .malformed

/-- A colon that is a mark. -/
def colon (s : Scan) : Except Fault Scan :=
  match s.candidates.find? fun c => c.level == s.level with
  | some c =>
    let s := { s with
      candidates := s.candidates.filter fun d => d.level != s.level
      keyAllowed := false }
    if !s.inBrackets && s.isDeeper c.column then
      .ok (((s.indentTo c.column).insert c.number [.blockMapping, .key]).mark .value 1)
    else .ok ((s.insert c.number [.key]).mark .value 1)
  | none => s.blockMark .blockMapping .value (!s.inBrackets)

/-- A token that may turn out to be a key, behind which none may stand. -/
def named (s : Scan) (t : Token) (behind : Source) : Scan :=
  { s with keyAllowed := false, source := behind }.push t

/-- An anchor or an alias. -/
def name (s : Scan) (make : String → Token) : Except Fault Scan := do
  let s ← s.offer
  let (name, behind) ← anchorName s.source
  return s.named (make name) behind

/-- A tag. -/
def tag (s : Scan) : Except Fault Scan := do
  let s ← s.offer
  let (t, behind) ← tagToken s.version s.source
  return s.named t behind

/-- A quoted scalar. -/
def quoted (s : Scan) : Except Fault Scan := do
  let s ← s.offer
  let (text, behind) ← quotedScalar s.source
  return s.named (.scalar false (String.ofList text)) behind

/-- A plain scalar. At the beginning of a line behind it a key may stand. -/
def plain (s : Scan) : Except Fault Scan := do
  let s ← s.offer
  let run := plainScalar ⟨s.inBrackets, s.version.isOld, s.indent + 1⟩ s.source
  return { s with keyAllowed := run.newline, source := run.source }.push
    (.scalar true (String.ofList run.text))

/-- A block scalar. Behind it a key may stand. -/
def block (s : Scan) (folded : Bool) : Except Fault Scan := do
  let s ← s.dropHere
  let (text, behind) ← blockScalar folded s.indent s.source.next
  return { s with keyAllowed := true, source := behind }.push
    (.scalar false (String.ofList text))

/-- A declaration. -/
def declare (s : Scan) : Except Fault Scan := do
  let s ← s.endAll
  let (d, behind) ← declaration s.version s.source
  let version := match d with
    | .version v => v
    | _ => s.version
  return { s with source := behind, version }.push (.declaration d)

/-- Is a colon here a mark? -/
def isColonMark (s : Scan) (behindColon : Bool) (cs : List Char) : Bool :=
  match s.brackets with
  | [] => blankOrEnd cs
  | b :: _ => s.version.isOld || !(b == .list || behindColon) || blankOrEnd cs

/-- Can a plain scalar begin with this character, `cs` being the characters behind it? -/
def startsPlain (s : Scan) (c : Char) (cs : List Char) : Bool :=
  if c = '-' then !blankOrEnd cs
  else if c = '?' then !s.inBrackets && !blankOrEnd cs
  else if c = ':' then !blankOrEnd cs && (!s.inBrackets || !s.version.isOld)
  else !(isInlineBlank c || isBreak c || isFlowMark c ||
    ['#', '&', '*', '!', '|', '>', '\'', '"', '%', '@', '\x60'].contains c)

/-- The token that begins with a character at the place, `cs` being the characters behind
it. -/
def token (s : Scan) (behindColon : Bool) (c : Char) (cs : List Char) : Except Fault Scan :=
  let atMarker := s.source.column == 0 && isMarker (c :: cs)
  if c = '%' ∧ s.source.column = 0 then s.declare
  else if atMarker ∧ c = '-' then do return (← s.endAll).mark .documentStart 3
  else if atMarker ∧ c = '.' then do return (← s.endAll).mark .documentEnd 3
  else if c = '[' then s.openBracket .list .flowList
  else if c = '\x7b' then s.openBracket .mapping .flowMapping
  else if c = ']' then s.closeBracket .flowListEnd
  else if c = '\x7d' then s.closeBracket .flowMappingEnd
  else if c = ',' then s.comma
  else if c = '-' ∧ blankOrEnd cs then s.blockMark .blockList .item true
  else if c = '?' ∧ (s.inBrackets ∨ blankOrEnd cs) then
    s.blockMark .blockMapping .key (!s.inBrackets)
  else if c = ':' ∧ s.isColonMark behindColon cs then s.colon
  else if c = '*' then s.name .alias
  else if c = '&' then s.name .anchor
  else if c = '!' then s.tag
  else if c = '|' ∧ ¬ s.inBrackets then s.block false
  else if c = '>' ∧ ¬ s.inBrackets then s.block true
  else if c = '\'' ∨ c = '"' then s.quoted
  else if s.startsPlain c cs then s.plain
  else .error .malformed

/-- The next token, and whether there is one. At the end, all blocks end. -/
def step (s : Scan) : Except Fault (Scan × Bool) := do
  let behindColon := !s.candidates.isEmpty && s.tokens.head? == some .value
  let s ← s.toNext.dropStale
  let s := s.unwind s.source.column
  match s.source.rest with
  | [] => return (← s.endAll, false)
  | c :: cs => return (← s.token behindColon c cs, true)

/-- The tokens up to a fault. A token that may still turn out to be a key is not yet settled, and
the fault stands in front of it. -/
def fail (s : Scan) (f : Fault) : List Token :=
  let settled := s.candidates.foldl (fun n c => min n c.number) s.count
  s.tokens.reverse.take settled ++ [.fault f]

/-- The tokens from a place on. The bound is on their number. -/
def run (s : Scan) : Nat → List Token
  | 0 => s.fail .malformed
  | fuel + 1 =>
    match s.dropStale with
    | .error f => s.fail f
    | .ok s =>
      match s.step with
      | .error f => s.fail f
      | .ok (s, false) => s.tokens.reverse
      | .ok (s, true) => s.run fuel

end Scan

/-- **The tokens of a document.** -/
def tokens (cs : List Char) : List Token :=
  if cs.all isDocumentChar then (Scan.start cs).run (cs.length + 1) else [.fault .malformed]

end MiniTemplate.Yaml
