/-!
# Decimal numbers as they are written

A number with a fraction or an exponent is kept as it was written: a sign, the
digits read as one natural number, and the power of ten they are scaled by. Two
decimals of the same value may differ (`2.5` and `2.50`), and nothing is rounded
here; `MiniTemplate.Number.Double` says which decimal is *shown* for a value that is
held in double precision.
-/

namespace MiniTemplate

/-- The number `± digits · 10 ^ exponent`. -/
structure Decimal where
  negative : Bool
  digits : Nat
  exponent : Int
  deriving DecidableEq, Repr

namespace Decimal

/-- The decimal digits of a natural number, the highest first. -/
def digitChars (n : Nat) : List Char := Nat.toDigits 10 n

/-- The number a run of decimal digits stands for. -/
def ofDigitChars (cs : List Char) : Nat :=
  cs.foldl (fun n c => 10 * n + (c.toNat - '0'.toNat)) 0

/-- The numerator of the absolute value, as a fraction. -/
def numerator (d : Decimal) : Nat := d.digits * Nat.pow 10 d.exponent.toNat

/-- The denominator of the absolute value, as a fraction. -/
def denominator (d : Decimal) : Nat := Nat.pow 10 (-d.exponent).toNat

/-- How a decimal is laid out: between which powers of ten it is written with
all its places, and how many digits an exponent has at least. -/
structure Layout where
  /-- The least place of the point, counted from the first digit, that is written out. -/
  least : Int
  /-- The greatest place of the point that is written out. -/
  greatest : Int
  /-- The least number of digits of an exponent. -/
  exponentDigits : Nat

/-- Numbers are written out from a ten-thousandth up to sixteen places, and in
scientific form beyond; an exponent has at least two digits. -/
def layout : Layout := ⟨-3, 16, 2⟩

/-- The text of an exponent, with its sign. -/
def exponentText (l : Layout) (e : Int) : List Char :=
  let ds := digitChars e.natAbs
  (if e < 0 then '-' else '+') :: (List.replicate (l.exponentDigits - ds.length) '0' ++ ds)

/-- The text of the absolute value. A number that is written out always shows a
point with a digit on either side. -/
def absText (l : Layout) (d : Decimal) : List Char :=
  let all := digitChars d.digits
  -- the zeros at the end carry no information: the place of the point does
  let kept := (all.reverse.dropWhile (· == '0')).reverse
  let ds := if kept.isEmpty then ['0'] else kept
  let point : Int := if kept.isEmpty then 1 else all.length + d.exponent
  if l.least ≤ point ∧ point ≤ l.greatest then
    if point ≤ 0 then
      ['0', '.'] ++ List.replicate (-point).toNat '0' ++ ds
    else if ds.length ≤ point.toNat then
      ds ++ List.replicate (point.toNat - ds.length) '0' ++ ['.', '0']
    else
      ds.take point.toNat ++ '.' :: ds.drop point.toNat
  else
    let tail := ds.drop 1
    ds.take 1 ++ (if tail.isEmpty then [] else '.' :: tail) ++ 'e' :: exponentText l (point - 1)

/-- The text of a decimal. -/
def text (d : Decimal) : String :=
  String.ofList ((if d.negative then ['-'] else []) ++ d.absText layout)

end Decimal

end MiniTemplate
