import MiniTemplate.Json.Read
import MiniTemplate.Text.Utf8
import MiniTemplate.Yaml.Source

/-!
# Tokens of a document

A document is a row of tokens. Some of them are written: marks, scalars, and what stands in front
of a value to name it or to say what it is. The others say where blocks begin and end, which the
document tells by its indentation.

A tag has a handle, which is declared to stand for the beginning of a name, and the rest of the
name. The rest is kept as it is written, with bytes of characters as percent signs and two
hexadecimal digits each; but the bytes have to be UTF-8. Two exclamation marks in front are a handle
by themselves, unless a handle begins with the second one.
-/

namespace MiniTemplate.Yaml

/-- A version of YAML. -/
structure Version where
  major : Nat
  minor : Nat
  deriving DecidableEq, Repr

namespace Version

/-- The version of a document that does not say. -/
def standard : Version := ⟨1, 2⟩

/-- Do the older rules hold, which make more of plain scalars and less of colons? -/
def isOld (v : Version) : Bool := v == ⟨1, 1⟩

/-- Is the version later than that of the older rules? -/
def isLater (v : Version) : Bool := 1 < v.major || (v.major == 1 && 1 < v.minor)

end Version

/-- A line that says something about the document behind it. -/
inductive Declaration where
  | version (v : Version)
  /-- What a handle stands for in tags. -/
  | handle (handle stem : String)
  /-- Something that is not understood. -/
  | other
  deriving DecidableEq, Repr

/-- A token of a document. -/
inductive Token where
  | declaration (d : Declaration)
  | documentStart
  | documentEnd
  | blockList
  | blockMapping
  | blockEnd
  | flowList
  | flowListEnd
  | flowMapping
  | flowMappingEnd
  /-- A dash in front of an item. -/
  | item
  /-- A comma. -/
  | comma
  | key
  | value
  | anchor (name : String)
  | alias (name : String)
  /-- A tag: its handle, if it has one, and what stands behind it. -/
  | tag (handle : Option String) (suffix : String)
  | scalar (plain : Bool) (text : String)
  /-- A place from which on there are no tokens. -/
  | fault (f : Fault)
  deriving DecidableEq, Repr

/-! ### Names, tags and declarations -/

/-- The characters of the names that values are given. -/
def isNameChar (c : Char) : Bool :=
  let n := c.toNat
  !isFlowMark c && c != '\ufeff' &&
    ((0x21 ≤ n && n ≤ 0x7E) || (0xA0 ≤ n && n ≤ 0xFFFD) || 0x10000 ≤ n)

/-- The name behind the mark of an anchor or an alias, and the place behind it. -/
def anchorName (s : Source) : Except Fault (String × Source) :=
  let name := s.next.rest.takeWhile isNameChar
  let behind := s.next.skip name.length
  if name.isEmpty then .error .malformed
  else if blankOrEnd behind.rest || behind.peek?.any isFlowMark then
    .ok (String.ofList name, behind)
  else .error .malformed

/-- An ASCII letter or digit. -/
def isWordChar (c : Char) : Bool := c.isAlphanum

/-- The characters of a handle between its exclamation marks. -/
def isHandleChar (c : Char) : Bool := isWordChar c || c == '-' || c == '_'

/-- The characters of the rest of a tag, percent signs apart. -/
def isTagSuffixChar (v : Version) (c : Char) : Bool :=
  isWordChar c || "-;/?:@&=+$,_.!~*'()[]".toList.contains c || (v.isLater && c == '#')

/-- The handle of a tag: an exclamation mark, or two with letters between them. -/
def tagHandle (s : Source) : Except Fault (String × Source) :=
  match s.rest with
  | '!' :: cs =>
    if cs.head? = some ' ' then .ok ("!", s.next)
    else
      let name := cs.takeWhile isHandleChar
      let behind := s.next.skip name.length
      if behind.peek? = some '!' then .ok (String.ofList ('!' :: name ++ ['!']), behind.next)
      else .error .malformed
  | _ => .error .malformed

/-- Are these bytes UTF-8, the latest being the first? -/
def areUtf8 (bytes : List UInt8) : Bool :=
  match Utf8.decode bytes.reverse with
  | .ok _ => true
  | .error _ => false

/-- The rest of a tag at the beginning, behind the escaped bytes `bytes`, the latest of which is
the first. -/
def tagSuffixChars (v : Version) (bytes : List UInt8) : List Char → Except Fault (List Char)
  | [] => if areUtf8 bytes then .ok [] else .error .malformed
  | '%' :: a :: b :: cs =>
    match Json.hexValue? a, Json.hexValue? b with
    | some m, some n => do
      return '%' :: a :: b :: (← tagSuffixChars v (UInt8.ofNat (16 * m + n) :: bytes) cs)
    | _, _ => .error .malformed
  | c :: cs =>
    if c = '%' ∨ ¬ areUtf8 bytes then .error .malformed
    else if isTagSuffixChar v c then do return c :: (← tagSuffixChars v [] cs)
    else .ok []

/-- What stands behind the handle of a tag. -/
def tagSuffix (v : Version) (s : Source) : Except Fault (String × Source) := do
  let suffix ← tagSuffixChars v [] s.rest
  if suffix.isEmpty then .error .malformed
  else return (String.ofList suffix, s.skip suffix.length)

/-- A text with its escaped bytes as characters, each by itself. -/
def unescapeBytes : List Char → List Char
  | '%' :: a :: b :: cs =>
    match Json.hexValue? a, Json.hexValue? b with
    | some m, some n => Char.ofNat (16 * m + n) :: unescapeBytes cs
    | _, _ => '%' :: unescapeBytes (a :: b :: cs)
  | c :: cs => c :: unescapeBytes cs
  | [] => []

/-- A tag, and the place behind it. -/
def tagToken (v : Version) (s : Source) : Except Fault (Token × Source) := do
  -- of two exclamation marks the second is the place from which on the tag is read
  let (short, s) := if s.next.peek? = some '!' then ("!!", s.next) else ("!", s)
  let (token, behind) ←
    if s.next.peek? = some '<' then
      let (suffix, behind) ← tagSuffix v (s.skip 2)
      if behind.peek? = some '>' then pure (Token.tag none suffix, behind.next)
      else .error .malformed
    else if blankOrEnd s.next.rest then pure (Token.tag none "!", s.next)
    else
      let word := s.next.rest.takeWhile fun c => c != ' ' && !isBreak c
      let (handle, behind) ← if word.contains '!' then tagHandle s else pure (short, s.next)
      let (suffix, behind) ← tagSuffix v behind
      pure (Token.tag (some handle) suffix, behind)
  if spaceOrEnd behind.rest then return (token, behind) else .error .malformed

/-- The place behind spaces. -/
def skipSpaces (s : Source) : Source := s.skip (s.rest.takeWhile (· == ' ')).length

/-- A number, and the place behind it. -/
def versionNumber (s : Source) : Except Fault (Nat × Source) :=
  let ds := s.rest.takeWhile Char.isDigit
  if ds.isEmpty then .error .malformed
  else .ok (ds.foldl (fun n c => 10 * n + (c.toNat - '0'.toNat)) 0, s.skip ds.length)

/-- The place behind the rest of a line that may hold a comment and nothing else. -/
def emptyLineRest (s : Source) : Except Fault Source :=
  let s := skipSpaces s
  let s := if s.peek? = some '#' then s.skip (lineRest s.rest).length else s
  if breakOrEnd s.rest then .ok s.next else .error .malformed

/-- A declaration, and the place behind its line. -/
def declaration (v : Version) (s : Source) : Except Fault (Declaration × Source) := do
  let name := s.next.rest.takeWhile fun c => isHandleChar c || c == ':' || c == '.'
  let s := s.next.skip name.length
  if name.isEmpty || !spaceOrEnd s.rest then .error .malformed
  else if name = "YAML".toList then
    let (major, s) ← versionNumber (skipSpaces s)
    if s.peek? ≠ some '.' then .error .malformed
    else
      let (minor, s) ← versionNumber s.next
      if !spaceOrEnd s.rest then .error .malformed
      else return (.version ⟨major, minor⟩, ← emptyLineRest s)
  else if name = "TAG".toList then
    let (handle, s) ← tagHandle (skipSpaces s)
    if s.peek? ≠ some ' ' then .error .malformed
    else
      let (stem, s) ← tagSuffix v (skipSpaces s)
      if !spaceOrEnd s.rest then .error .malformed
      else return (.handle handle stem, ← emptyLineRest s)
  else return (.other, ← emptyLineRest (s.skip (lineRest s.rest).length))

end MiniTemplate.Yaml
