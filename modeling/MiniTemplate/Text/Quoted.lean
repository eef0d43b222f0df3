import MiniTemplate.Text.Printable

/-!
# Texts shown between quotes

Where a text is shown to a person, as part of an outline or of a message, it stands
between quotes and on one line: line breaks, tabs and everything that is not
printable are written by escapes. Single quotes are used, unless the text has single
quotes in it and no double ones.
-/

namespace MiniTemplate.Text

/-- The hexadecimal digit of a number below sixteen. -/
def hexDigit (n : Nat) : Char :=
  Char.ofNat (if n < 10 then '0'.toNat + n else 'a'.toNat + (n - 10))

/-- The last `width` hexadecimal digits of a number. -/
def hexDigits (n : Nat) : Nat → List Char
  | 0 => []
  | width + 1 => hexDigits (n / 16) width ++ [hexDigit (n % 16)]

/-- A character between quotes. -/
def showChar (quote c : Char) : List Char :=
  if c = quote ∨ c = '\\' then ['\\', c]
  else if c = '\n' then ['\\', 'n']
  else if c = '\r' then ['\\', 'r']
  else if c = '\t' then ['\\', 't']
  else if isPrintable c then [c]
  else if c.toNat < 0x100 then '\\' :: 'x' :: hexDigits c.toNat 2
  else if c.toNat < 0x10000 then '\\' :: 'u' :: hexDigits c.toNat 4
  else '\\' :: 'U' :: hexDigits c.toNat 8

/-- The quote that a text is shown between. -/
def showQuote (cs : List Char) : Char :=
  if '\'' ∈ cs ∧ '"' ∉ cs then '"' else '\''

/-- The characters of a text between quotes. -/
def quotedChars (cs : List Char) : List Char :=
  let q := showQuote cs
  q :: (cs.flatMap (showChar q) ++ [q])

/-- **A text between quotes.** -/
def quoted (s : String) : String := String.ofList (quotedChars s.toList)

end MiniTemplate.Text
