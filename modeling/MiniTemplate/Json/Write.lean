import MiniTemplate.Json.Basic
import MiniTemplate.Text.Quoted

/-!
# Writing JSON

One value, many layouts: all on one line, or one item a line, indented by a number
of spaces a level. A layout only decides what stands between the items; the
brackets, the texts and the numbers are the same in all of them. Empty arrays and
objects never take more than one line.

Only what must be escaped is escaped: the quote, the backslash and the control
characters below the space. Every other character stands for itself.
-/

namespace MiniTemplate.Json

/-- What stands around the items of an array or an object. -/
inductive Layout where
  /-- Everything on one line, a space after each comma. -/
  | line
  /-- Each item on a line of its own, indented by so many spaces a level; with a
  number of spaces that is not positive, not indented at all. -/
  | lines (indent : Int)
  deriving DecidableEq, Repr

/-- The line break in front of an item at a level. -/
def Layout.lead (l : Layout) (level : Nat) : List Char :=
  match l with
  | .line => []
  | .lines indent => '\n' :: List.replicate (indent.toNat * level) ' '

/-- What separates two items at a level. -/
def Layout.separator (l : Layout) (level : Nat) : List Char :=
  match l with
  | .line => [',', ' ']
  | .lines _ => ',' :: l.lead level

/-- A character inside a quoted text. -/
def escape (c : Char) : List Char :=
  if c = '"' then ['\\', '"']
  else if c = '\\' then ['\\', '\\']
  else if c = '\n' then ['\\', 'n']
  else if c = '\r' then ['\\', 'r']
  else if c = '\t' then ['\\', 't']
  else if c = '\x08' then ['\\', 'b']
  else if c = '\x0c' then ['\\', 'f']
  else if c.toNat < 0x20 then
    ['\\', 'u', '0', '0', Text.hexDigit (c.toNat / 16), Text.hexDigit (c.toNat % 16)]
  else [c]

/-- A text between quotes. -/
def quoted (s : String) : List Char :=
  '"' :: (s.toList.flatMap escape ++ ['"'])

/-- The digits of an integer, with its sign. -/
def intChars : Int → List Char
  | .ofNat n => Decimal.digitChars n
  | .negSucc n => '-' :: Decimal.digitChars (n + 1)

mutual

/-- The characters of a value whose items stand at `level + 1`. -/
def chars (l : Layout) (level : Nat) : Json → List Char
  | .null => ['n', 'u', 'l', 'l']
  | .bool true => ['t', 'r', 'u', 'e']
  | .bool false => ['f', 'a', 'l', 's', 'e']
  | .int n => intChars n
  | .real d => (RealNumber.finite d).text.toList
  | .str s => quoted s
  | .arr [] => ['[', ']']
  | .arr (v :: vs) =>
    '[' :: (l.lead (level + 1) ++ (v.chars l (level + 1) ++ (itemChars l (level + 1) vs ++
      (l.lead level ++ [']']))))
  | .obj [] => ['\x7b', '\x7d']
  | .obj ((k, v) :: ms) =>
    '\x7b' :: (l.lead (level + 1) ++ (quoted k ++ (':' :: ' ' :: (v.chars l (level + 1) ++
      (memberChars l (level + 1) ms ++ (l.lead level ++ ['\x7d']))))))

/-- The items of an array after the first, each behind a separator. -/
def itemChars (l : Layout) (level : Nat) : List Json → List Char
  | [] => []
  | v :: vs => l.separator level ++ (v.chars l level ++ itemChars l level vs)

/-- The members of an object after the first, each behind a separator. -/
def memberChars (l : Layout) (level : Nat) : List (String × Json) → List Char
  | [] => []
  | (k, v) :: ms =>
    l.separator level ++ (quoted k ++ (':' :: ' ' :: (v.chars l level ++
      memberChars l level ms)))

end

/-- The layout for an optional indentation. -/
def Layout.ofIndent : Option Int → Layout
  | none => .line
  | some n => .lines n

/-- **The text of a value**, on one line or indented. -/
def write (v : Json) (indent : Option Int) : String :=
  String.ofList (v.chars (Layout.ofIndent indent) 0)

end MiniTemplate.Json
