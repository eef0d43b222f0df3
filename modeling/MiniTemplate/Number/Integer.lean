import MiniTemplate.Number.Decimal
import MiniTemplate.Text.Blank

/-!
# Integers as people write them

An integer that is typed in may have blanks around it, a sign in front, and single
underscores between its digits. Its digits may be the decimal digits of any script; each
script has ten of them, one after the other, and the table lists where they begin. The
separators among the ASCII control characters do not count as blanks here, and there is a
limit to the number of digits, leading zeros included.

An integer to the base two, eight or sixteen is written without underscores and without a limit,
and a zero with the letter of the base may stand in front of it.
-/

namespace MiniTemplate.Number

/-- The zeros of the scripts that have decimal digits. -/
def zeros : List Nat :=
  [0x30, 0x660, 0x6F0, 0x7C0, 0x966, 0x9E6, 0xA66, 0xAE6, 0xB66, 0xBE6, 0xC66, 0xCE6, 0xD66,
    0xDE6, 0xE50, 0xED0, 0xF20, 0x1040, 0x1090, 0x17E0, 0x1810, 0x1946, 0x19D0, 0x1A80, 0x1A90,
    0x1B50, 0x1BB0, 0x1C40, 0x1C50, 0xA620, 0xA8D0, 0xA900, 0xA9D0, 0xA9F0, 0xAA50, 0xABF0,
    0xFF10, 0x104A0, 0x10D30, 0x11066, 0x110F0, 0x11136, 0x111D0, 0x112F0, 0x11450, 0x114D0,
    0x11650, 0x116C0, 0x11730, 0x118E0, 0x11950, 0x11C50, 0x11D50, 0x11DA0, 0x16A60, 0x16AC0,
    0x16B50, 0x1D7CE, 0x1D7D8, 0x1D7E2, 0x1D7EC, 0x1D7F6, 0x1E140, 0x1E2F0, 0x1E950, 0x1FBF0]

/-- The value of a decimal digit of any script. -/
def digit? (c : Char) : Option Nat :=
  (zeros.find? fun z => z ≤ c.toNat && c.toNat < z + 10).map (c.toNat - ·)

/-- The greatest number of digits that an integer may be written with. -/
def digitLimit : Nat := 4300

/-- The blanks around an integer. -/
def isPadding (c : Char) : Bool := Text.isBlank c && !(0x1C ≤ c.toNat && c.toNat ≤ 0x1F)

/-- The sign in front of a number, and what follows it. -/
def signed : List Char → Bool × List Char
  | '-' :: cs => (true, cs)
  | '+' :: cs => (false, cs)
  | cs => (false, cs)

/-- The list without the blanks around it. -/
def unpad (cs : List Char) : List Char :=
  ((cs.dropWhile isPadding).reverse.dropWhile isPadding).reverse

/-- The number of a run of digits, of which `n` has been read; `separated` says that an
underscore has just been read. -/
def readDigits (n : Nat) (separated : Bool) : List Char → Option Nat
  | [] => if separated then none else some n
  | '_' :: cs => if separated then none else readDigits n true cs
  | c :: cs =>
    match digit? c with
    | some d => readDigits (10 * n + d) false cs
    | none => none

/-- A natural number: it begins with a digit. -/
def readNat? (cs : List Char) : Option Nat :=
  if cs.isEmpty ∨ cs.head? = some '_' ∨ digitLimit < (cs.filter (· != '_')).length then none
  else readDigits 0 false cs

/-- **An integer.** -/
def readInt? (s : String) : Option Int :=
  match unpad s.toList with
  | '-' :: cs => (readNat? cs).map fun n => -(n : Int)
  | '+' :: cs => (readNat? cs).map Int.ofNat
  | cs => (readNat? cs).map Int.ofNat

/-- The digits of a text that is too long for an integer, if nothing else is wrong with it. -/
def tooManyDigits? (s : String) : Option Nat :=
  let ds := (signed (unpad s.toList)).2
  if digitLimit < ds.length ∧ ds.all fun c => (digit? c).isSome then some ds.length else none

/-- The value of a digit to a base: a decimal digit of any script, or an ASCII letter. -/
def digitTo? (base : Nat) (c : Char) : Option Nat :=
  let value :=
    match digit? c with
    | some d => some d
    | none => if c.isAlpha then some (c.toLower.toNat - 'a'.toNat + 10) else none
  value.filter (· < base)

/-- The letter behind a zero that tells a base. -/
def baseLetter? (base : Nat) : Option Char :=
  if base = 2 then some 'b' else if base = 8 then some 'o' else if base = 16 then some 'x' else none

/-- The list without the zero and the letter that tell its base. -/
def withoutBase (base : Nat) : List Char → List Char
  | z :: l :: cs =>
    if digit? z = some 0 ∧ baseLetter? base = some l.toLower then cs else z :: l :: cs
  | cs => cs

/-- **An integer to a base.** -/
def readIntTo? (base : Nat) (s : String) : Option Int :=
  let (negative, cs) := signed (unpad s.toList)
  match (withoutBase base cs).mapM (digitTo? base) with
  | none | some [] => none
  | some ds =>
    let n : Nat := ds.foldl (fun n d => base * n + d) 0
    some (if negative then -(n : Int) else n)

end MiniTemplate.Number
