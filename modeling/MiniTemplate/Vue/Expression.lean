import MiniTemplate.Text.Blank
import MiniTemplate.Text.Split

/-!
# Expressions

In a template an expression stands between double braces; in an attribute of Vue it
stands by itself. A value that is one expression between braces, and nothing else,
is unwrapped; every other value is left as it is.
-/

namespace MiniTemplate.Vue

/-- What an expression begins with. -/
def openMark : List Char := ['\x7b', '\x7b']

/-- What an expression ends with. -/
def closeMark : List Char := ['\x7d', '\x7d']

/-- The characters between the braces, if the whole is wrapped in one pair. -/
def wrapped? (cs : List Char) : Option (List Char) :=
  if openMark.isPrefixOf cs && closeMark.isSuffixOf cs then
    let inner := (cs.drop 2).take (cs.length - 4)
    if Text.occurs openMark inner || Text.occurs closeMark inner then none else some inner
  else none

/-- **A value without its braces**, trimmed, if it is one expression. -/
def unwrap (value : String) : String :=
  match wrapped? value.toList with
  | some inner => String.ofList (Text.trimChars inner)
  | none => value

end MiniTemplate.Vue
