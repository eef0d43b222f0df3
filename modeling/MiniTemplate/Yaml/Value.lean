import MiniTemplate.Json.Basic
import MiniTemplate.Number.Double
import MiniTemplate.Number.Integer
import MiniTemplate.Yaml.Fault
import MiniTemplate.Yaml.Timestamp

/-!
# YAML values

What a YAML document denotes. It is more than JSON in several ways: any value may be a key
of a mapping, a number may be infinite or undefined, there are dates and times, bytes, sets, and
mappings that are written as lists, and a value may contain itself.

A value can be shown to a person, as part of a message: texts between quotes, lists
and mappings in brackets, and `None`, `True` and `False` for the three constants. A list that
is a key cannot change any more; it is a tuple, and shown between parentheses, with a comma behind
it if it has only one item. Where a value occurs inside itself, only its brackets are shown.
Not every value can be shown: an integer of too many digits is not written out, be it by itself or
inside of another value, and what is nested too deep is not either. How deep that is depends on the
calls that are under way, so it is left open: whoever shows a value says which values fit
(`MiniTemplate.Yaml.Value.display?`).

Who makes values of documents is left open, too. A `MiniTemplate.Yaml.Loader` takes a text and
gives its value, or says that the text is not YAML, or fails in some other way.
-/

namespace MiniTemplate.Yaml

/-- What can contain itself. -/
inductive Enclosing where
  | list
  | mapping
  | ordered
  deriving DecidableEq, Repr

/-- A YAML value. -/
inductive Value where
  | null
  | bool (b : Bool)
  | int (n : Int)
  | real (r : RealNumber)
  | text (s : String)
  | stamp (t : Timestamp)
  | bytes (bs : List UInt8)
  | list (items : List Value)
  | tuple (items : List Value)
  | set (items : List Value)
  | mapping (entries : List (Value × Value))
  /-- A mapping that is written as a list. -/
  | ordered (entries : List (Value × Value))
  /-- A value inside itself. -/
  | inner (around : Enclosing)
  deriving Repr

/-- A byte between quotes: printable ASCII as the character, and others by an escape. -/
def showByte (quote : Char) (b : UInt8) : List Char :=
  if b.toNat < 0x7F then Text.showChar quote (Char.ofNat b.toNat)
  else '\\' :: 'x' :: Text.hexDigits b.toNat 2

/-- Bytes as they are shown. -/
def displayBytes (bs : List UInt8) : String :=
  let quote := Text.showQuote (bs.map fun b => Char.ofNat b.toNat)
  String.ofList ('b' :: quote :: (bs.flatMap (showByte quote) ++ [quote]))

/-- What is shown of a value inside itself. -/
def Enclosing.display : Enclosing → String
  | list => "[...]"
  | mapping => "\x7b...\x7d"
  | ordered => "..."

namespace Value

mutual

/-- **A value as it is shown.** -/
def display : Value → String
  | .null => "None"
  | .bool b => if b then "True" else "False"
  | .int n => toString n
  | .real r => r.text
  | .text s => Text.quoted s
  | .stamp t => t.display
  | .bytes bs => displayBytes bs
  | .list items => "[" ++ ", ".intercalate (displayItems items) ++ "]"
  | .tuple items =>
    match displayItems items with
    | [s] => "(" ++ s ++ ",)"
    | ss => "(" ++ ", ".intercalate ss ++ ")"
  | .set items =>
    match displayItems items with
    | [] => "set()"
    | ss => "\x7b" ++ ", ".intercalate ss ++ "\x7d"
  | .mapping entries => "\x7b" ++ ", ".intercalate (displayEntries entries) ++ "\x7d"
  | .ordered entries =>
    match displayPairs entries with
    | [] => "ordereddict()"
    | ss => "ordereddict([" ++ ", ".intercalate ss ++ "])"
  | .inner around => around.display

/-- The items of a list, each as it is shown. -/
def displayItems : List Value → List String
  | [] => []
  | v :: vs => v.display :: displayItems vs

/-- The entries of a mapping, each as it is shown. -/
def displayEntries : List (Value × Value) → List String
  | [] => []
  | (k, v) :: es => (k.display ++ ": " ++ v.display) :: displayEntries es

/-- The entries of a mapping that is written as a list, each as it is shown. -/
def displayPairs : List (Value × Value) → List String
  | [] => []
  | (k, v) :: es => ("(" ++ k.display ++ ", " ++ v.display ++ ")") :: displayPairs es

end

mutual

/-- Can all integers in a value be written out? Not if one of them has too many digits. -/
def showable : Value → Bool
  | .int n => (Nat.toDigits 10 n.natAbs).length ≤ Number.digitLimit
  | .list items | .tuple items | .set items => showableItems items
  | .mapping entries | .ordered entries => showableEntries entries
  | .null | .bool _ | .real _ | .text _ | .stamp _ | .bytes _ | .inner _ => true

/-- Can all integers in the items of a list be written out? -/
def showableItems : List Value → Bool
  | [] => true
  | v :: vs => v.showable && showableItems vs

/-- Can all integers in the entries of a mapping be written out? -/
def showableEntries : List (Value × Value) → Bool
  | [] => true
  | (k, v) :: es => k.showable && v.showable && showableEntries es

end

/-- The entries of a mapping, however it is written. -/
def entries? : Value → Option (List (Value × Value))
  | .mapping entries | .ordered entries => some entries
  | _ => none

/-- A key as a part of a path: texts and timestamps stand for themselves. -/
def label : Value → String
  | .text s => s
  | .stamp t => t.text
  | v => v.display

/-- **A value as it is shown, if it can be**: the calls that show it have to fit, and its integers
have to be written out. -/
def display? (fits : Value → Bool) (v : Value) : Option String :=
  if fits v && v.showable then some v.display else none

/-- A key as a part of a path, if it can be shown. -/
def label? (fits : Value → Bool) (v : Value) : Option String :=
  if fits v && v.showable then some v.label else none

/-- Does a document of this value say nothing? -/
def isEmptyish : Value → Bool
  | .null => true
  | .bool b => !b
  | .int n => n == 0
  | .real r => r.isZero
  | .text s => s.isEmpty
  | .stamp _ | .inner _ => false
  | .bytes bs => bs.isEmpty
  | .list items | .tuple items | .set items => items.isEmpty
  | .mapping entries | .ordered entries => entries.isEmpty

mutual

/-- The YAML value of a JSON value. -/
def ofJson : Json → Value
  | .null => .null
  | .bool b => .bool b
  | .int n => .int n
  | .real d => .real (.finite d)
  | .str s => .text s
  | .arr items => .list (ofJsonItems items)
  | .obj members => .mapping (ofJsonMembers members)

/-- The YAML values of the items of a JSON array. -/
def ofJsonItems : List Json → List Value
  | [] => []
  | v :: vs => ofJson v :: ofJsonItems vs

/-- The entries of the members of a JSON object. -/
def ofJsonMembers : List (String × Json) → List (Value × Value)
  | [] => []
  | (k, v) :: ms => (.text k, ofJson v) :: ofJsonMembers ms

end

end Value

/-- Why a document is not loaded. -/
inductive Refusal where
  /-- It is not YAML; the loader says why. -/
  | malformed (message : String)
  /-- The loader fails on something that is in it. -/
  | unusable (fault : Fault)
  deriving DecidableEq, Repr

/-- **What loads documents.** -/
abbrev Loader := String → Except Refusal Value

end MiniTemplate.Yaml
