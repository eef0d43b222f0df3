/-!
# What can be wrong with a document

Most of what is wrong with a document makes it malformed, and nothing more is said about it.
The other faults are in scalars that look like a number, a date or an escaped character
and do not denote one, and in keys that cannot be compared.
-/

namespace MiniTemplate.Yaml

/-- A part of a date or a time that can be out of its range. -/
inductive StampPart where
  | year (n : Nat)
  | month
  | day
  | hour
  | minute
  | second
  deriving DecidableEq, Repr

/-- What is wrong with a document. -/
inductive Fault where
  /-- The document is not YAML, or it denotes nothing. -/
  | malformed
  /-- An escape whose number is beyond the characters. -/
  | notCharacter (code : Nat)
  /-- A text that is not an integer to a base. -/
  | notInteger (base : Nat) (text : String)
  /-- An integer with more digits than are read. -/
  | longInteger (digits : Nat)
  /-- A text that is not a number. -/
  | notNumber (text : String)
  /-- An empty text where a number should be. -/
  | emptyNumber
  /-- A text that is not a truth value. -/
  | notTruthValue (text : String)
  /-- A date or a time with a part that is out of its range. -/
  | noStamp (part : StampPart)
  /-- A zone that is a day or more ahead of universal time, or behind it. -/
  | zoneBeyond (ahead : Int)
  /-- A time that is rounded to a second after the year 9999. -/
  | stampBeyond
  /-- A version of YAML for which it is not known what scalars denote. -/
  | unknownVersion (major minor : Nat)
  /-- A key that is a list or a mapping, or a list as a key that has a list or a mapping in it. -/
  | nestedKey
  /-- A key that occurs twice in a mapping that is written as a list. -/
  | repeatedKey
  deriving DecidableEq, Repr

end MiniTemplate.Yaml
