import MiniTemplate.Number.Decimal

/-!
# The decimal that is shown for a double

A number with a fraction is held in double precision, and what is shown of it is
the decimal with the fewest digits that still denotes the same double; of several
with that many digits, the nearest to it. Everything here is exact arithmetic on
natural numbers: a double is a mantissa of at most 53 bits and a power of two,
`MiniTemplate.Double.nearest` rounds a fraction to one, and
`MiniTemplate.Double.shortest` tries the grids of one, two, … seventeen digits in
turn and keeps the first on which a neighbour of the value rounds back to it.
-/

namespace MiniTemplate

/-- The number `mantissa · 2 ^ exponent`. -/
structure Double where
  mantissa : Nat
  exponent : Int
  deriving DecidableEq, Repr

namespace Double

/-- The quotient rounded to the nearest natural number, a half to the even
neighbour. -/
def roundDiv (num den : Nat) : Nat :=
  let q := num / den
  let r := num % den
  if 2 * r < den ∨ (2 * r = den ∧ q % 2 = 0) then q else q + 1

/-- The least exponent of a double. -/
def leastExponent : Int := -1074

/-- The greatest exponent of a double. -/
def greatestExponent : Int := 971

/-- **Rounding a fraction**: the nearest double, or nothing if the fraction is too
large for one. -/
def nearest (num den : Nat) : Option Double :=
  if num = 0 then some ⟨0, leastExponent⟩
  else
    let scaled (q : Int) : Nat × Nat := (num * Nat.pow 2 (-q).toNat, den * Nat.pow 2 q.toNat)
    -- the leading bits of the two place the quotient within a factor of four
    let guess : Int := max ((Nat.log2 num : Int) - Nat.log2 den - 53) leastExponent
    let q := if (scaled guess).1 / (scaled guess).2 < Nat.pow 2 53 then guess else guess + 1
    let m := roundDiv (scaled q).1 (scaled q).2
    let d : Double := if m = Nat.pow 2 53 then ⟨Nat.pow 2 52, q + 1⟩ else ⟨m, q⟩
    if greatestExponent < d.exponent then none else some d

/-- The numerator of a double, as a fraction. -/
def numerator (d : Double) : Nat := d.mantissa * Nat.pow 2 d.exponent.toNat

/-- The denominator of a double, as a fraction. -/
def denominator (d : Double) : Nat := Nat.pow 2 (-d.exponent).toNat

/-- The two neighbours of a double among the multiples of `10 ^ e` that round back
to it, the nearer first. -/
def neighbours (d : Double) (e : Int) : List Decimal :=
  let num := d.numerator * Nat.pow 10 (-e).toNat
  let den := d.denominator * Nat.pow 10 e.toNat
  let below := num / den
  let r := num % den
  let order := if 2 * r < den ∨ (2 * r = den ∧ below % 2 = 0) then [below, below + 1]
    else [below + 1, below]
  (order.map fun n => (⟨false, n, e⟩ : Decimal)).filter fun c =>
    nearest c.numerator c.denominator = some d

/-- The first grid, counting down from `10 ^ e`, that has a neighbour rounding back. -/
def firstGrid (d : Double) : Nat → Int → Option Decimal
  | 0, _ => none
  | n + 1, e =>
    match d.neighbours e with
    | c :: _ => some c
    | [] => firstGrid d n (e - 1)

/-- **The shortest decimal** that denotes a double. -/
def shortest (d : Double) : Decimal :=
  if d.mantissa = 0 then ⟨false, 0, 0⟩
  else
    let places : Int := (Decimal.digitChars d.numerator).length
    let e : Int := places - (Decimal.digitChars d.denominator).length
    (firstGrid d 19 e).getD ⟨false, 0, 0⟩

end Double

/-- A number with a fraction or an exponent, or one of the values that no decimal
denotes. -/
inductive RealNumber where
  | finite (d : Decimal)
  | infinite (negative : Bool)
  | undefined
  deriving DecidableEq, Repr

/-- The double of the absolute value of a decimal, or nothing if it is too large for one.
A decimal that is far beyond the range of doubles on either side is not computed: with `b` the
position of its leading bit, its digits lie between the powers of ten `b / 4` and
`b / 3 + 1`. -/
def Decimal.double? (d : Decimal) : Option Double :=
  let b : Int := Nat.log2 d.digits
  if d.digits = 0 ∨ d.exponent + b / 3 + 1 < -330 then some ⟨0, Double.leastExponent⟩
  else if 310 < d.exponent + b / 4 then none
  else Double.nearest d.numerator d.denominator

/-- The text shown for a number. -/
def RealNumber.text : RealNumber → String
  | .finite d =>
    match d.double? with
    | some x => Decimal.text { x.shortest with negative := d.negative }
    | none => if d.negative then "-inf" else "inf"
  | .infinite negative => if negative then "-inf" else "inf"
  | .undefined => "nan"

/-- Is the double of the number zero? -/
def RealNumber.isZero : RealNumber → Bool
  | .finite d => d.double?.any fun x => x.mantissa == 0
  | .infinite _ | .undefined => false

end MiniTemplate
