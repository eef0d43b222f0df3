/-!
# Decoding UTF-8

Files are bytes, and bytes need not be UTF-8. Decoding either gives the text or says
where it fails: the bytes of the sequence that was begun there, as far as they were
right, and what was wrong with what came next.

The decoder takes one byte after another. Between characters it has nothing pending;
inside one it knows how many bytes are still owed and which the next one may be.
-/

namespace MiniTemplate.Utf8

/-- Why bytes are not UTF-8. -/
inductive Reason where
  /-- No character begins with this byte. -/
  | invalidStart
  /-- The byte that follows cannot continue the character. -/
  | invalidContinuation
  /-- The bytes end inside a character. -/
  | unexpectedEnd
  deriving DecidableEq, Repr

/-- The wording of a reason. -/
def Reason.text : Reason → String
  | invalidStart => "invalid start byte"
  | invalidContinuation => "invalid continuation byte"
  | unexpectedEnd => "unexpected end of data"

/-- Where decoding fails: the bytes from `start` up to `stop`, the first of them being
`first`. -/
structure Failure where
  first : UInt8
  start : Nat
  stop : Nat
  reason : Reason
  deriving DecidableEq, Repr

/-- The last two hexadecimal digits of a byte. -/
def byteText (b : UInt8) : String :=
  let digit (n : Nat) : Char := (Nat.toDigits 16 n).headD '0'
  String.ofList ['0', 'x', digit (b.toNat / 16), digit (b.toNat % 16)]

/-- The wording of a failure. -/
def Failure.message (f : Failure) : String :=
  let place :=
    if f.stop = f.start + 1 then "byte " ++ byteText f.first ++ " in position " ++ toString f.start
    else "bytes in position " ++ toString f.start ++ "-" ++ toString (f.stop - 1)
  "'utf-8' codec can't decode " ++ place ++ ": " ++ f.reason.text

/-- A character that has been begun. -/
structure Pending where
  /-- The first byte. -/
  first : UInt8
  /-- Its place. -/
  start : Nat
  /-- The number of bytes still owed. -/
  owed : Nat
  /-- The least byte that may come next. -/
  low : Nat
  /-- The greatest byte that may come next. -/
  high : Nat
  /-- The bits so far. -/
  bits : Nat
  deriving DecidableEq, Repr

/-- The character that a byte begins, if it begins one of several bytes. The second byte
is restricted where a shorter form, a surrogate or a number beyond the last character
would be possible. -/
def begin? (b : UInt8) (start : Nat) : Option Pending :=
  let n := b.toNat
  if 0xC2 ≤ n ∧ n ≤ 0xDF then some ⟨b, start, 1, 0x80, 0xBF, n - 0xC0⟩
  else if n = 0xE0 then some ⟨b, start, 2, 0xA0, 0xBF, 0⟩
  else if n = 0xED then some ⟨b, start, 2, 0x80, 0x9F, n - 0xE0⟩
  else if 0xE1 ≤ n ∧ n ≤ 0xEF then some ⟨b, start, 2, 0x80, 0xBF, n - 0xE0⟩
  else if n = 0xF0 then some ⟨b, start, 3, 0x90, 0xBF, 0⟩
  else if 0xF1 ≤ n ∧ n ≤ 0xF3 then some ⟨b, start, 3, 0x80, 0xBF, n - 0xF0⟩
  else if n = 0xF4 then some ⟨b, start, 3, 0x80, 0x8F, n - 0xF0⟩
  else none

/-- Decode the bytes from place `i` on, with a character pending or not; `acc` holds the
characters so far, the latest first. -/
def decodeFrom (acc : List Char) (i : Nat) (pending : Option Pending) :
    List UInt8 → Except Failure (List Char)
  | [] =>
    match pending with
    | none => .ok acc.reverse
    | some p => .error ⟨p.first, p.start, i, .unexpectedEnd⟩
  | b :: bs =>
    match pending with
    | none =>
      if b.toNat < 0x80 then decodeFrom (Char.ofNat b.toNat :: acc) (i + 1) none bs
      else
        match begin? b i with
        | some p => decodeFrom acc (i + 1) (some p) bs
        | none => .error ⟨b, i, i + 1, .invalidStart⟩
    | some p =>
      if p.low ≤ b.toNat ∧ b.toNat ≤ p.high then
        let bits := p.bits * 64 + (b.toNat - 0x80)
        if p.owed ≤ 1 then decodeFrom (Char.ofNat bits :: acc) (i + 1) none bs
        else
          let next := { p with owed := p.owed - 1, low := 0x80, high := 0xBF, bits }
          decodeFrom acc (i + 1) (some next) bs
      else .error ⟨p.first, p.start, i, .invalidContinuation⟩

/-- **The characters of some bytes.** -/
def decode (bytes : List UInt8) : Except Failure (List Char) := decodeFrom [] 0 none bytes

end MiniTemplate.Utf8
