import MiniTemplate.Json.Read
import MiniTemplate.Yaml.Source

/-!
# Quoted scalars

A scalar between quotes may go over several lines. The blanks around a line break are
dropped, and line breaks are folded as in plain scalars. Between single quotes, a quote is
written twice; between double quotes, a backslash begins an escape, and at the end of a line it
joins the next line to it. A marker between documents cannot stand in a scalar.

Both readers take the characters behind the opening quote, one after the other, and
give the text with the characters behind the closing one. What is not settled until
the next character is kept as pending: blanks, or line breaks.

An escape may also be one half of a pair that stands for one character, as in JSON. So the text
is first a list of codes, and the halves are put together at the end.
-/

namespace MiniTemplate.Yaml

/-- What stands between the last character of a scalar and the next. -/
inductive Pending where
  /-- Blanks on one line, the latest first. -/
  | blanks (cs : List Char)
  /-- A line break and the breaks after it, the latest first. -/
  | breaks (first : Char) (more : List Char)
  /-- The breaks after one that is escaped, the latest first. -/
  | joined (more : List Char)

namespace Pending

/-- What is pending is settled: `acc` holds the codes so far, the latest first. -/
def settle (acc : List Nat) : Pending → List Nat
  | .blanks cs => cs.map Char.toNat ++ acc
  | .breaks first more => ((foldBreaks first more.reverse).map Char.toNat).reverse ++ acc
  | .joined more => more.map Char.toNat ++ acc

/-- One more blank. A blank at the beginning of a line is dropped. -/
def blank (c : Char) : Pending → Pending
  | .blanks cs => .blanks (c :: cs)
  | p => p

/-- One more line break. -/
def newline (c : Char) : Pending → Pending
  | .blanks _ => .breaks c []
  | .breaks first more => .breaks first (breakText c :: more)
  | .joined more => .joined (breakText c :: more)

end Pending

/-- A scalar as codes, and what stands behind it. -/
abbrev CodeRun := List Nat × List Char

/-- The rest of a scalar between single quotes. -/
def singleQuoted (acc : List Nat) (p : Pending) : List Char → Except Fault CodeRun
  | [] => .error .malformed
  | '\'' :: '\'' :: cs => singleQuoted ('\''.toNat :: p.settle acc) (.blanks []) cs
  | c :: cs =>
    if c = '\'' then .ok ((p.settle acc).reverse, cs)
    else if isBreak c then
      if isMarker cs then .error .malformed else singleQuoted acc (p.newline c) cs
    else if isInlineBlank c then singleQuoted acc (p.blank c) cs
    else singleQuoted (c.toNat :: p.settle acc) (.blanks []) cs

/-- The character that a letter stands for after a backslash. -/
def escape? (c : Char) : Option Char :=
  match c with
  | '0' => some '\x00'
  | 'a' => some '\x07'
  | 'b' => some '\x08'
  | 't' => some '\t'
  | '\t' => some '\t'
  | 'n' => some '\n'
  | 'v' => some '\x0b'
  | 'f' => some '\x0c'
  | 'r' => some '\r'
  | 'e' => some '\x1b'
  | ' ' => some ' '
  | '"' => some '"'
  | '/' => some '/'
  | '\\' => some '\\'
  | 'N' => some '\u0085'
  | '_' => some '\u00a0'
  | 'L' => some '\u2028'
  | 'P' => some '\u2029'
  | _ => none

/-- The number of hexadecimal digits after a letter that is followed by them. -/
def escapeWidth : Char → Nat
  | 'x' => 2
  | 'u' => 4
  | 'U' => 8
  | _ => 0

/-- The greatest code of a character. -/
def greatestCode : Nat := 0x10FFFF

/-- The rest of a scalar between double quotes; `owed` hexadecimal digits of the number
`n` are still to come. -/
def doubleQuoted (acc : List Nat) (p : Pending) (owed n : Nat) :
    List Char → Except Fault CodeRun
  | [] => .error .malformed
  | '\\' :: c :: cs =>
    if owed ≠ 0 then .error .malformed
    else if isBreak c then
      if isMarker cs then .error .malformed else doubleQuoted (p.settle acc) (.joined []) 0 0 cs
    else if escapeWidth c ≠ 0 then doubleQuoted (p.settle acc) (.blanks []) (escapeWidth c) 0 cs
    else
      match escape? c with
      | some e => doubleQuoted (e.toNat :: p.settle acc) (.blanks []) 0 0 cs
      | none => .error .malformed
  | c :: cs =>
    if owed ≠ 0 then
      match Json.hexValue? c with
      | none => .error .malformed
      | some d =>
        let m := 16 * n + d
        if owed ≠ 1 then doubleQuoted acc (.blanks []) (owed - 1) m cs
        else if greatestCode < m then .error (.notCharacter m)
        else doubleQuoted (m :: acc) (.blanks []) 0 0 cs
    else if c = '"' then .ok ((p.settle acc).reverse, cs)
    else if c = '\\' then .error .malformed
    else if isBreak c then
      if isMarker cs then .error .malformed else doubleQuoted acc (p.newline c) 0 0 cs
    else if isInlineBlank c then doubleQuoted acc (p.blank c) 0 0 cs
    else doubleQuoted (c.toNat :: p.settle acc) (.blanks []) 0 0 cs

/-- The first half of a pair. -/
def isFirstHalf (n : Nat) : Bool := 0xD800 ≤ n && n ≤ 0xDBFF

/-- The second half of a pair. -/
def isSecondHalf (n : Nat) : Bool := 0xDC00 ≤ n && n ≤ 0xDFFF

/-- The characters of codes, if every half is part of a pair. -/
def ofCodes? : List Nat → Option (List Char)
  | [] => some []
  | a :: b :: ns =>
    if isFirstHalf a && isSecondHalf b then
      (ofCodes? ns).map (Char.ofNat (0x10000 + (a - 0xD800) * 0x400 + (b - 0xDC00)) :: ·)
    else if isFirstHalf a || isSecondHalf a then none
    else (ofCodes? (b :: ns)).map (Char.ofNat a :: ·)
  | [a] => if isFirstHalf a || isSecondHalf a then none else some [Char.ofNat a]

/-- **A quoted scalar** at a place, and the place behind it. -/
def quotedScalar (s : Source) : Except Fault (List Char × Source) :=
  let run :=
    match s.rest with
    | '\'' :: cs => singleQuoted [] (.blanks []) cs
    | '"' :: cs => doubleQuoted [] (.blanks []) 0 0 cs
    | _ => .error .malformed
  match run with
  | .error f => .error f
  | .ok (codes, rest) =>
    match ofCodes? codes with
    | none => .error .malformed
    | some text => .ok (text, s.skip (s.rest.length - rest.length))

end MiniTemplate.Yaml
