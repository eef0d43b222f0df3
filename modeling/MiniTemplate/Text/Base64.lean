/-!
# Bytes written as text

In base 64 three bytes are written as four characters of six bits each, and at the end of the
bytes the four are filled up with equals signs. Reading is generous: characters of no
meaning are passed over, and so are equals signs where none is due. What is read ends where
four characters are filled up, and if it ends inside four characters, it is no bytes.
-/

namespace MiniTemplate.Base64

/-- The six bits of a character. -/
def value? (c : Char) : Option Nat :=
  if 'A' ≤ c ∧ c ≤ 'Z' then some (c.toNat - 'A'.toNat)
  else if 'a' ≤ c ∧ c ≤ 'z' then some (c.toNat - 'a'.toNat + 26)
  else if '0' ≤ c ∧ c ≤ '9' then some (c.toNat - '0'.toNat + 52)
  else if c = '+' then some 62
  else if c = '/' then some 63
  else none

/-- The bytes of what is left: `place` characters of the present four have been read, of which
`bits` holds what is not yet in a byte, and `filled` equals signs behind them. The bytes so far
are in `acc`, the latest first. -/
def decodeFrom (acc : List UInt8) (place bits filled : Nat) : List Char → Option (List UInt8)
  | [] => if place = 0 then some acc.reverse else none
  | c :: cs =>
    if c = '=' then
      if place < 2 then decodeFrom acc place bits filled cs
      else if 4 ≤ place + filled + 1 then some acc.reverse
      else decodeFrom acc place bits (filled + 1) cs
    else
      match value? c with
      | none => decodeFrom acc place bits filled cs
      | some n =>
        if place = 0 then decodeFrom acc 1 n 0 cs
        else
          let all := 64 * bits + n
          let unit := 2 ^ (6 - 2 * place)
          decodeFrom (UInt8.ofNat (all / unit) :: acc) ((place + 1) % 4) (all % unit) 0 cs

/-- **The bytes of a text** in ASCII. -/
def decode? (s : String) : Option (List UInt8) :=
  if s.toList.all fun c => c.toNat < 0x80 then decodeFrom [] 0 0 0 s.toList else none

end MiniTemplate.Base64
