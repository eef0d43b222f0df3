import MiniTemplate.Vue.Convert

/-!
# Converters

A converter is made for a target and then used as often as one likes. It has one sheet, and
that is all that changes in it: a conversion clears the sheet, writes on it, and leaves it
behind with the lines and the level that it ended with. What else a converter is asked, the
name of a tag or the text of an attribute, it reads off its target.

A `MiniTemplate.Vue.Converter.Call` is one request, `MiniTemplate.Vue.Converter.answer` its
answer, and `MiniTemplate.Vue.Converter.after` the converter it leaves behind.
-/

namespace MiniTemplate.Vue

/-- A converter: the target it was made for, and the sheet it writes on. -/
structure Converter where
  target : Target
  sheet : Sheet
  deriving DecidableEq, Repr

namespace Converter

/-- A converter that has not been used yet. -/
def ofTarget (t : Target) : Converter := ⟨t, .empty⟩

/-- Clear the sheet. -/
def clear (c : Converter) : Converter := { c with sheet := .empty }

/-- Write a forest on the sheet, from the level that it is at. -/
def write (c : Converter) (f : Forest) : Converter :=
  { c with sheet := f.traverse.foldl (visit c.target) c.sheet }

/-- What can be asked of a converter. -/
inductive Call where
  /-- The name of a tag in the target. -/
  | tag (name : String)
  /-- What a plain attribute becomes. -/
  | attribute (name value : String)
  /-- What a directive of a name becomes, on an element with these loop variables. -/
  | directive (name : String) (directive : Directive) (loop : Loop)
  /-- A whole conversion. -/
  | convert (forest : Forest)

/-- The converter after a call. Only a conversion changes it. -/
def after (c : Converter) : Call → Converter
  | .convert f => c.clear.write f
  | .tag .. | .attribute .. | .directive .. => c

/-- The answer to a call; what becomes nothing has the empty text. -/
def answer (c : Converter) : Call → String
  | .tag name => c.target.tagName name
  | .attribute name value => ((convertProp c.target name value).map Binding.text).getD ""
  | .directive name d loop => ((convertDirective name d loop).map Binding.text).getD ""
  | .convert f => (c.clear.write f).sheet.text

/-- **A session**: the answers to a sequence of calls on one converter. -/
def session (c : Converter) : List Call → List String
  | [] => []
  | q :: qs => c.answer q :: (c.after q).session qs

end Converter

end MiniTemplate.Vue
