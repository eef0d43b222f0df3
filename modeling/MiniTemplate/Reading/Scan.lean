import MiniTemplate.Node
import MiniTemplate.Remark

/-!
# Partial readings

Every reader of a part of a template gives a `MiniTemplate.Scan`: what it has read, the
cursor behind it, and the remarks it has to make, in the order of the text. The
readers of runs of characters, which have nothing to remark on, stand here too.
-/

namespace MiniTemplate

/-- What a reader gives. -/
structure Scan (α : Type) where
  value : α
  /-- The cursor behind what was read. -/
  cursor : Cursor
  faults : List (Located Fault)
  cautions : List (Located Caution)

/-- The characters of tag names. -/
def isTagChar (c : Char) : Bool := c.isAlphanum || c == '-' || c == '_'

/-- The characters of attribute names. -/
def isAttributeChar (c : Char) : Bool := isTagChar c || c == ':' || c == '@' || c == '.'

/-- The characters of a value without quotes. -/
def isBareChar (c : Char) : Bool := !(Text.isBlank c || c == '>' || c == '/')

/-- Is it a mark that a quoted value stands between? -/
def isQuote (c : Char) : Bool := c == '"' || c == '\''

/-- The stretch of text from a place up to an offset, as the span of a node. -/
def Position.spanTo (start : Position) (stop : Nat) : Span :=
  ⟨start.offset, stop, start.line, start.column⟩

/-- A quoted value, as far as it goes. -/
structure QuotedRun where
  /-- The characters the value stands for. -/
  value : List Char
  /-- The number of characters it takes in the text, the closing quote included. -/
  width : Nat
  /-- Was there a closing quote? -/
  closed : Bool
  deriving DecidableEq, Repr

/-- **The rest of a quoted value**, behind its opening quote. A backslash takes the
character after it as it is. -/
def quotedRun (quote : Char) : List Char → QuotedRun
  | [] => ⟨[], 0, false⟩
  | ['\\'] => ⟨[], 1, false⟩
  | '\\' :: c :: cs =>
    let r := quotedRun quote cs
    ⟨c :: r.value, r.width + 2, r.closed⟩
  | c :: cs =>
    if c = quote then ⟨[], 1, true⟩
    else
      let r := quotedRun quote cs
      ⟨c :: r.value, r.width + 1, r.closed⟩

end MiniTemplate
