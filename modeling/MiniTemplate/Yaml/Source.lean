import MiniTemplate.Yaml.Fault

/-!
# Places in a document

A document is read character by character. Four characters break a line, but only the newline
begins a new line as far as indentation is concerned: behind the others the columns go on. A byte
order mark has no width.
-/

namespace MiniTemplate.Yaml

/-- What is left of a document, and where it begins. -/
structure Source where
  rest : List Char
  /-- The number of characters before it. -/
  index : Nat
  /-- The number of newlines before it. -/
  line : Nat
  /-- The width of what stands before it on its line. -/
  column : Nat
  deriving Repr

namespace Source

/-- The place behind the next character. -/
def next (s : Source) : Source :=
  match s.rest with
  | [] => s
  | c :: cs =>
    if c = '\n' then ⟨cs, s.index + 1, s.line + 1, 0⟩
    else ⟨cs, s.index + 1, s.line, if c = '\ufeff' then s.column else s.column + 1⟩

/-- The place behind so many characters. -/
def skip (s : Source) : Nat → Source
  | 0 => s
  | n + 1 => s.next.skip n

/-- The next character. -/
def peek? (s : Source) : Option Char := s.rest.head?

/-- A document from its beginning; a byte order mark there is passed. -/
def ofList (cs : List Char) : Source :=
  let s : Source := ⟨cs, 0, 0, 0⟩
  if cs.head? = some '\ufeff' then s.next else s

end Source

/-! ### Characters -/

/-- The characters a document may have. -/
def isDocumentChar (c : Char) : Bool :=
  let n := c.toNat
  n == 0x09 || n == 0x0A || (0x20 ≤ n && n ≤ 0x7E) || n == 0x85 ||
    (0xA0 ≤ n && n ≤ 0xFFFD) || 0x10000 ≤ n

/-- Does the character break a line? -/
def isBreak (c : Char) : Bool := c == '\n' || c == '\u0085' || c == '\u2028' || c == '\u2029'

/-- What a line break stands for in a text: two of them for themselves, the others for a
newline. -/
def breakText (c : Char) : Char := if c = '\u0085' then '\n' else c

/-- A blank on a line. -/
def isInlineBlank (c : Char) : Bool := c == ' ' || c == '\t'

/-- A blank, a line break, or nothing. -/
def blankOrEnd : List Char → Bool
  | [] => true
  | c :: _ => isInlineBlank c || isBreak c

/-- A line break, or nothing. -/
def breakOrEnd : List Char → Bool
  | [] => true
  | c :: _ => isBreak c

/-- A space, a line break, or nothing. -/
def spaceOrEnd (cs : List Char) : Bool := cs.head? == some ' ' || breakOrEnd cs

/-- The characters that have a meaning between brackets. -/
def isFlowMark (c : Char) : Bool :=
  c == ',' || c == '[' || c == ']' || c == '\x7b' || c == '\x7d'

/-- Does it begin like a marker between documents? -/
def isMarker (cs : List Char) : Bool :=
  (['-', '-', '-'].isPrefixOf cs || ['.', '.', '.'].isPrefixOf cs) && blankOrEnd (cs.drop 3)

/-- The rest of a line. -/
def lineRest (cs : List Char) : List Char := cs.takeWhile fun c => !isBreak c

/-- What a line break and the breaks after it fold into: a single newline into a space, and of
several the first is dropped. -/
def foldBreaks (first : Char) (more : List Char) : List Char :=
  if breakText first ≠ '\n' then breakText first :: more
  else if more.isEmpty then [' '] else more

end MiniTemplate.Yaml
