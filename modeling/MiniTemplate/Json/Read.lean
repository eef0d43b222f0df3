import MiniTemplate.Json.Basic

/-!
# Reading JSON

A reader for JSON texts. Each function takes the characters ahead and gives what it
has read with the characters behind it, or nothing if the text is not JSON. Values
contain values, so the reader of values carries a bound on the number of its calls;
`MiniTemplate.Json.read?` chooses it from the length of the text, of which every second
call takes at least one character.
-/

namespace MiniTemplate.Json

/-- The blanks of JSON. -/
def isSpace (c : Char) : Bool := c == ' ' || c == '\n' || c == '\r' || c == '\t'

/-- What follows the blanks. -/
def skipSpace (cs : List Char) : List Char := cs.dropWhile isSpace

/-- The value of a hexadecimal digit. -/
def hexValue? (c : Char) : Option Nat :=
  if '0' ≤ c ∧ c ≤ '9' then some (c.toNat - '0'.toNat)
  else if 'a' ≤ c ∧ c ≤ 'f' then some (c.toNat - 'a'.toNat + 10)
  else if 'A' ≤ c ∧ c ≤ 'F' then some (c.toNat - 'A'.toNat + 10)
  else none

/-- The value of four hexadecimal digits. -/
def hexValue4? (a b c d : Char) : Option Nat := do
  let a ← hexValue? a
  let b ← hexValue? b
  let c ← hexValue? c
  let d ← hexValue? d
  return ((a * 16 + b) * 16 + c) * 16 + d

/-- The character that a letter stands for after a backslash. -/
def unescape? : Char → Option Char
  | '"' => some '"'
  | '\\' => some '\\'
  | '/' => some '/'
  | 'n' => some '\n'
  | 'r' => some '\r'
  | 't' => some '\t'
  | 'b' => some '\x08'
  | 'f' => some '\x0c'
  | _ => none

/-- The character of two halves of a pair. -/
def joinPair (high low : Nat) : Char :=
  Char.ofNat (0x10000 + (high - 0xD800) * 0x400 + (low - 0xDC00))

/-- The rest of a quoted text: its characters, gathered in front of `acc` in
reverse, up to the closing quote. A half of a pair that stands alone denotes no
character and is refused. -/
def readChars (acc : List Char) : List Char → Option (String × List Char)
  | '"' :: r => some (String.ofList acc.reverse, r)
  | '\\' :: 'u' :: a :: b :: c :: d :: r =>
    match hexValue4? a b c d with
    | none => none
    | some n =>
      if 0xD800 ≤ n ∧ n < 0xDC00 then
        match r with
        | '\\' :: 'u' :: a' :: b' :: c' :: d' :: r' =>
          match hexValue4? a' b' c' d' with
          | none => none
          | some m =>
            if 0xDC00 ≤ m ∧ m < 0xE000 then readChars (joinPair n m :: acc) r' else none
        | _ => none
      else if 0xDC00 ≤ n ∧ n < 0xE000 then none
      else readChars (Char.ofNat n :: acc) r
  | '\\' :: c :: r =>
    match unescape? c with
    | some e => readChars (e :: acc) r
    | none => none
  | c :: r => if c.toNat < 0x20 ∨ c = '\\' then none else readChars (c :: acc) r
  | [] => none

/-- The exponent of a number, if one is written. -/
def readExponent (cs : List Char) : Option (Option Int × List Char) :=
  match cs with
  | e :: r =>
    if e = 'e' ∨ e = 'E' then
      let (negative, r) :=
        match r with
        | '-' :: r => (true, r)
        | '+' :: r => (false, r)
        | r => (false, r)
      let ds := r.takeWhile Char.isDigit
      if ds.isEmpty then none
      else
        let n : Int := Decimal.ofDigitChars ds
        some (some (if negative then -n else n), r.dropWhile Char.isDigit)
    else some (none, cs)
  | [] => some (none, cs)

/-- The digits of a fraction, if one is written. -/
def readFraction (cs : List Char) : Option (Option (List Char) × List Char) :=
  match cs with
  | '.' :: r =>
    let ds := r.takeWhile Char.isDigit
    if ds.isEmpty then none else some (some ds, r.dropWhile Char.isDigit)
  | r => some (none, r)

/-- The number of a sign, a whole part, and perhaps a fraction and an exponent. -/
def number (negative : Bool) (whole : List Char) : Option (List Char) → Option Int → Json
  | none, none =>
    let n : Int := Decimal.ofDigitChars whole
    .int (if negative then -n else n)
  | fraction, exponent =>
    let places := fraction.getD []
    .real ⟨negative, Decimal.ofDigitChars (whole ++ places), exponent.getD 0 - places.length⟩

/-- A number: digits without a needless zero in front, then perhaps a fraction,
then perhaps an exponent. -/
def readNumber (cs : List Char) : Option (Json × List Char) :=
  let (negative, cs) :=
    match cs with
    | '-' :: r => (true, r)
    | cs => (false, cs)
  let whole := cs.takeWhile Char.isDigit
  if whole.isEmpty ∨ (whole.head? = some '0' ∧ 1 < whole.length) then none
  else
    match readFraction (cs.dropWhile Char.isDigit) with
    | none => none
    | some (fraction, r) =>
      match readExponent r with
      | none => none
      | some (exponent, r) => some (number negative whole fraction exponent, r)

mutual

/-- A value, behind any blanks. -/
def readValue : Nat → List Char → Option (Json × List Char)
  | 0, _ => none
  | fuel + 1, cs =>
    match skipSpace cs with
    | 'n' :: 'u' :: 'l' :: 'l' :: r => some (.null, r)
    | 't' :: 'r' :: 'u' :: 'e' :: r => some (.bool true, r)
    | 'f' :: 'a' :: 'l' :: 's' :: 'e' :: r => some (.bool false, r)
    | '"' :: r => (readChars [] r).map fun (s, r) => (.str s, r)
    | '[' :: r =>
      match skipSpace r with
      | ']' :: r => some (.arr [], r)
      | r => (readItems fuel r).map fun (vs, r) => (.arr vs, r)
    | '\x7b' :: r =>
      match skipSpace r with
      | '\x7d' :: r => some (.obj [], r)
      | r => (readMembers fuel r).map fun (ms, r) => (.obj ms, r)
    | r => readNumber r

/-- The items of an array, at least one, up to the closing bracket. -/
def readItems : Nat → List Char → Option (List Json × List Char)
  | 0, _ => none
  | fuel + 1, cs =>
    match readValue fuel cs with
    | none => none
    | some (v, r) =>
      match skipSpace r with
      | ',' :: r => (readItems fuel r).map fun (vs, r) => (v :: vs, r)
      | ']' :: r => some ([v], r)
      | _ => none

/-- The members of an object, at least one, up to the closing brace. -/
def readMembers : Nat → List Char → Option (List (String × Json) × List Char)
  | 0, _ => none
  | fuel + 1, cs =>
    match skipSpace cs with
    | '"' :: r =>
      match readChars [] r with
      | none => none
      | some (k, r) =>
        match skipSpace r with
        | ':' :: r =>
          match readValue fuel r with
          | none => none
          | some (v, r) =>
            match skipSpace r with
            | ',' :: r => (readMembers fuel r).map fun (ms, r) => ((k, v) :: ms, r)
            | '\x7d' :: r => some ([(k, v)], r)
            | _ => none
        | _ => none
    | _ => none

end

/-- **The value of a JSON text**, or nothing if it is none: a value with nothing but
blanks around it. -/
def read? (s : String) : Option Json :=
  match readValue (2 * s.length + 2) s.toList with
  | some (v, r) => if (skipSpace r).isEmpty then some v else none
  | none => none

end MiniTemplate.Json
