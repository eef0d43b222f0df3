/-!
# Line ends

A text may end its lines in three ways: with a newline, with a carriage return, or with
both. Read from a file or from standard input, every line ends with a newline alone.
-/

namespace MiniTemplate.Text

/-- The characters with every line end written as a newline. -/
def unifyNewlines : List Char → List Char
  | [] => []
  | '\r' :: '\n' :: cs => '\n' :: unifyNewlines cs
  | c :: cs => (if c = '\r' then '\n' else c) :: unifyNewlines cs

end MiniTemplate.Text
