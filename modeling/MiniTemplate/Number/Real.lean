import MiniTemplate.Number.Double
import MiniTemplate.Number.Integer

/-!
# Numbers with a fraction as people write them

A number that may have a fraction is typed in with blanks around it and a sign in front, like an
integer, and its digits may be those of any script. There may be a point among or around the
digits, and an exponent behind them. Instead of digits there may be a word for an infinite
number, or for one that is undefined.
-/

namespace MiniTemplate.Number

/-- Is it an exponent: a letter, a sign, which may be left out unless it is required, and
digits? -/
def isExponent (signRequired : Bool) : List Char → Bool
  | e :: cs =>
    let body := (signed cs).2
    (e == 'e' || e == 'E') && !(signRequired && body.length == cs.length) &&
      !body.isEmpty && body.all Char.isDigit
  | [] => false

/-- The decimal of ASCII digits with a point or an exponent, if it is one. -/
def decimal? (negative : Bool) (cs : List Char) : Option Decimal :=
  let whole := cs.takeWhile Char.isDigit
  let rest := cs.dropWhile Char.isDigit
  let (fraction, tail) :=
    match rest with
    | '.' :: r => (r.takeWhile Char.isDigit, r.dropWhile Char.isDigit)
    | r => ([], r)
  let ds := whole ++ fraction
  if ds.isEmpty then none
  else if tail.isEmpty then some ⟨negative, Decimal.ofDigitChars ds, -fraction.length⟩
  else if isExponent false tail then
    let (down, es) := signed (tail.drop 1)
    let e : Int := Decimal.ofDigitChars es
    some ⟨negative, Decimal.ofDigitChars ds, (if down then -e else e) - fraction.length⟩
  else none

/-- A decimal digit as the ASCII one, and any other character in small letters. -/
def plainDigit (c : Char) : Char :=
  match digit? c with
  | some d => Char.ofNat ('0'.toNat + d)
  | none => c.toLower

/-- **A number** with a fraction or without. -/
def readReal? (cs : List Char) : Option RealNumber :=
  let (negative, body) := signed ((unpad cs).map plainDigit)
  if body = "inf".toList ∨ body = "infinity".toList then some (.infinite negative)
  else if body = "nan".toList then some .undefined
  else (decimal? negative body).map .finite

end MiniTemplate.Number

namespace MiniTemplate.RealNumber

/-- The number with the opposite sign, if asked for. -/
def negateIf (negative : Bool) : RealNumber → RealNumber
  | .finite d => .finite ⟨d.negative ^^ negative, d.digits, d.exponent⟩
  | .infinite n => .infinite (n ^^ negative)
  | .undefined => .undefined

end MiniTemplate.RealNumber
