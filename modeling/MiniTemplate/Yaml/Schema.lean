import MiniTemplate.Number.Real
import MiniTemplate.Text.Base64
import MiniTemplate.Text.Lower
import MiniTemplate.Text.Split
import MiniTemplate.Yaml.Token
import MiniTemplate.Yaml.Value

/-!
# What scalars denote

A scalar without quotes denotes a number, a truth value, a date or nothing, if it looks like
one; otherwise it is a text. Integers may be written to the bases two, eight, ten and
sixteen, with underscores among their digits; a leading zero means nothing. The older rules know
more truth values, take a leading zero for the base eight, and have numbers to the base sixty.

A scalar may look like something that it does not denote after all, such as `2020-02-30` or an
underscore behind a sign. That is a fault. A tag may say that any scalar is a number, and then
whatever can be read as one is one, with blanks around it and digits of any script.
-/

namespace MiniTemplate.Yaml

open Number (signed isExponent)

/-- What a value is said to be. -/
inductive Tag where
  | null
  | bool
  | int
  | real
  | stamp
  | text
  /-- Bytes, in base 64. -/
  | bytes
  | list
  /-- A list of mappings of one entry each. -/
  | pairs
  | mapping
  /-- A mapping, written as a list of mappings of one entry each. -/
  | ordered
  /-- The keys of a mapping. -/
  | set
  /-- The mark of a mapping to be merged. -/
  | merge
  /-- The mark of a value among others, which denotes nothing by itself. -/
  | standIn
  /-- Something that is not known. -/
  | other
  deriving DecidableEq, Repr

/-- What stands before the names of the known tags. -/
def tagStem : String := "tag:yaml.org,2002:"

/-- The known tags, by their names. -/
def tagNames : List (String × Tag) :=
  [("null", .null), ("bool", .bool), ("int", .int), ("float", .real), ("timestamp", .stamp),
    ("str", .text), ("binary", .bytes), ("seq", .list), ("pairs", .pairs), ("map", .mapping),
    ("omap", .ordered), ("set", .set), ("merge", .merge), ("value", .standIn)]

/-- The tag of a full name. -/
def Tag.ofName (name : String) : Tag :=
  match (tagNames.find? fun t => tagStem ++ t.1 == name) with
  | some t => t.2
  | none => .other

/-- Does it hold other values? -/
def Tag.isContainer : Tag → Bool
  | .list | .pairs | .mapping | .ordered | .set => true
  | _ => false

/-! ### What scalars look like -/

/-- A digit of a base, or an underscore. -/
def isDigitOf (base : Nat) (c : Char) : Bool :=
  c == '_' ||
    (if c.isDigit then c.toNat - '0'.toNat < base
    else base == 16 && (('a' ≤ c && c ≤ 'f') || ('A' ≤ c && c ≤ 'F')))

/-- One or more characters of a kind, and no others. -/
def someOf (p : Char → Bool) (cs : List Char) : Bool := !cs.isEmpty && cs.all p

/-- Further places to the base sixty, each behind a colon: one digit, or two of which the first
is at most five. -/
def sixtyPlaces : List Char → Bool
  | ':' :: a :: cs =>
    a.isDigit &&
      match cs with
      | [] => true
      | b :: ds =>
        if b.isDigit then a ≤ '5' && (ds.isEmpty || sixtyPlaces ds) else sixtyPlaces (b :: ds)
  | _ => false

/-- Does a scalar, without its sign, look like an integer? -/
def looksLikeNatural (v : Version) (cs : List Char) : Bool :=
  match cs with
  | '0' :: 'b' :: ds => someOf (isDigitOf 2) ds
  | '0' :: 'x' :: ds => someOf (isDigitOf 16) ds
  | '0' :: 'o' :: ds => !v.isOld && someOf (isDigitOf 8) ds
  | _ =>
    if v.isOld then
      someOf (isDigitOf 8) cs ||
        (cs.head?.any (fun c => '1' ≤ c && c ≤ '9') &&
          let rest := cs.dropWhile (isDigitOf 10)
          rest.isEmpty || sixtyPlaces rest)
    else someOf (isDigitOf 10) cs

/-- Does a scalar look like an integer? -/
def looksLikeInteger (v : Version) (cs : List Char) : Bool :=
  cs.head? != some '_' && looksLikeNatural v (signed cs).2

/-- Does a scalar, without its sign, look like a decimal number? -/
def looksLikeDecimal (v : Version) (wasSigned : Bool) (cs : List Char) : Bool :=
  let whole := cs.takeWhile (isDigitOf 10)
  match cs.dropWhile (isDigitOf 10) with
  | '.' :: r =>
    let fraction := r.takeWhile (isDigitOf 10)
    let tail := r.dropWhile (isDigitOf 10)
    if whole.isEmpty then
      !(v.isOld && wasSigned) && !fraction.isEmpty && (tail.isEmpty || isExponent true tail)
    else whole.head? != some '_' && (tail.isEmpty || isExponent false tail)
  | r => !whole.isEmpty && whole.head? != some '_' && isExponent false r

/-- Does a scalar, without its sign, look like a number to the base sixty with a fraction? -/
def looksLikeSixties (cs : List Char) : Bool :=
  let places := cs.takeWhile (· != '.')
  let rest := places.dropWhile (isDigitOf 10)
  places.head?.any Char.isDigit && places.length < cs.length && sixtyPlaces rest &&
    (cs.drop (places.length + 1)).all (isDigitOf 10)

/-- Does a scalar look like a number with a fraction or an exponent, or like a special one? -/
def looksLikeReal (v : Version) (cs : List Char) : Bool :=
  let body := (signed cs).2
  [".inf", ".Inf", ".INF"].contains (String.ofList body) ||
    [".nan", ".NaN", ".NAN"].contains (String.ofList cs) ||
    looksLikeDecimal v (body.length != cs.length) body || (v.isOld && looksLikeSixties body)

/-- The words for truth values. -/
def truthWords (v : Version) : List String :=
  ["true", "True", "TRUE", "false", "False", "FALSE"] ++
    if v.isOld then
      ["y", "Y", "yes", "Yes", "YES", "n", "N", "no", "No", "NO",
        "on", "On", "ON", "off", "Off", "OFF"]
    else []

/-- A text without a newline at its end, unless it is nothing else. -/
def withoutNewline (cs : List Char) : List Char :=
  if cs.getLast? = some '\n' ∧ 1 < cs.length then cs.dropLast else cs

/-- **What a scalar is** of which nothing is said. A newline at its end does not matter. -/
def tagOf (v : Version) (s : String) : Tag :=
  let cs := withoutNewline s.toList
  let s := String.ofList cs
  if (truthWords v).contains s then .bool
  else if looksLikeReal v cs then .real
  else if looksLikeInteger v cs then .int
  else if s = "<<" then .merge
  else if ["", "~", "null", "Null", "NULL"].contains s then .null
  else if looksLikeTimestamp cs then .stamp
  else if s = "=" then .standIn
  else .text

/-! ### What scalars denote -/

/-- The integer of digits to a base other than ten. -/
def intTo (base : Nat) (ds : List Char) : Except Fault Int :=
  match Number.readIntTo? base (String.ofList ds) with
  | some n => .ok n
  | none => .error (.notInteger base (String.ofList ds))

/-- The integer of digits to the base ten. -/
def decimalInt (ds : List Char) : Except Fault Int :=
  let s := String.ofList ds
  match Number.readInt? s, Number.tooManyDigits? s with
  | some n, _ => .ok n
  | none, some digits => .error (.longInteger digits)
  | none, none => .error (.notInteger 10 s)

/-- The number of places to the base sixty. -/
def ofSixties (places : List Int) : Int := places.foldl (fun n p => 60 * n + p) 0

/-- The pieces of a list between colons. -/
def colonPieces (cs : List Char) : List (List Char) :=
  let (first, more) := Text.split ':' cs
  first :: more

/-- The integer of a scalar. -/
def integerOf (v : Version) (s : String) : Except Fault Int := do
  let cs := s.toList.filter (· != '_')
  if cs.isEmpty then .error .emptyNumber
  else
    let (negative, ds) := signed cs
    let n ←
      match ds with
      | '0' :: 'b' :: ds => intTo 2 ds
      | '0' :: 'x' :: ds => intTo 16 ds
      | '0' :: 'o' :: ds => intTo 8 ds
      | _ =>
        if v.isOld && ds.isEmpty then .error .emptyNumber
        else if v.isOld && ds.head? == some '0' && ds != ['0'] then intTo 8 ds
        else if v.isOld && ds.contains ':' then do
          let places ← (colonPieces ds).mapM decimalInt
          return ofSixties places
        else decimalInt ds
    return if negative then -n else n

/-- The nearest double of a fraction, as a fraction. -/
def roundFraction? (num : Int) (den : Nat) : Option (Int × Nat) :=
  (Double.nearest num.natAbs den).map fun d =>
    (if num < 0 then -(d.numerator : Int) else d.numerator, d.denominator)

/-- The sum of places to the base sixty, the last place first and the first being worth `unit`. It
is taken in double precision, with `num / den` as the sum so far. -/
def sixtySum? (num : Int) (den unit : Nat) : List Decimal → Option (Int × Nat)
  | [] => some (num, den)
  | d :: ds => do
    let x ← d.double?
    let digits : Int := if d.negative then -(x.numerator : Int) else x.numerator
    let (n, e) ← roundFraction? (digits * unit) x.denominator
    let (num, den) ← roundFraction? (num * e + n * den) (den * e)
    sixtySum? num den (60 * unit) ds

/-- The number of places to the base sixty. -/
def ofSixtyDecimals (places : List Decimal) : RealNumber :=
  match sixtySum? 0 1 1 places.reverse with
  -- the denominator is a power of two
  | some (num, den) =>
    .finite ⟨num < 0, num.natAbs * Nat.pow 5 (Nat.log2 den), -(Nat.log2 den : Int)⟩
  | none => .infinite false

/-- The decimal of a place to the base sixty. -/
def sixtyPlace? (cs : List Char) : Option Decimal :=
  match Number.readReal? cs with
  | some (.finite d) => some d
  | _ => none

/-- The number of a scalar. -/
def realOf (v : Version) (s : String) : Except Fault RealNumber :=
  let cs := (Text.lower (String.ofList (s.toList.filter (· != '_')))).toList
  if cs.isEmpty then .error .emptyNumber
  else
    let (negative, body) := signed cs
    if body = ".inf".toList then .ok (.infinite negative)
    else if body = ".nan".toList then .ok .undefined
    else
      let number :=
        if v.isOld && body.contains ':' then
          ((colonPieces body).mapM sixtyPlace?).map ofSixtyDecimals
        else Number.readReal? body
      match number with
      | some x => .ok (x.negateIf negative)
      | none => .error (.notNumber (String.ofList body))

/-- The truth value of a word. -/
def truthOf (s : String) : Except Fault Bool :=
  let word := Text.lower s
  if ["yes", "y", "true", "on"].contains word then .ok true
  else if ["no", "n", "false", "off"].contains word then .ok false
  else .error (.notTruthValue word)

/-- **The value of a scalar** that is said to be something. -/
def scalarValue (v : Version) (t : Tag) (s : String) : Except Fault Value :=
  match t with
  | .null => .ok .null
  | .bool => (truthOf s).map .bool
  | .int => (integerOf v s).map .int
  | .real => (realOf v s).map .real
  | .stamp =>
    match writtenStamp? (withoutNewline s.toList) with
    | some w => w.timestamp.map .stamp
    | none => .error .malformed
  | .text => .ok (.text s)
  | .bytes =>
    match Base64.decode? s with
    | some bs => .ok (.bytes bs)
    | none => .error .malformed
  | .list | .pairs | .mapping | .ordered | .set | .merge | .standIn | .other => .error .malformed

end MiniTemplate.Yaml
