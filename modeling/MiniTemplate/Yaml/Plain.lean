import MiniTemplate.Yaml.Source

/-!
# Plain scalars

A scalar without quotes is a row of words. A word ends at a blank, at a colon that is set off from
what follows it, and between brackets also at a comma or a bracket. What stands between two words
is kept if it is spaces, and folded if it has line breaks. The scalar ends in front of a comment,
at a tab, at a marker between documents, and, outside brackets, at a line that is not indented
deeply enough.
-/

namespace MiniTemplate.Yaml

/-- The rules that a plain scalar is read by. -/
structure PlainRule where
  inBrackets : Bool
  /-- Does a question mark between brackets end a word? -/
  questionEnds : Bool
  /-- The least column of a further line. -/
  indent : Int

/-- The word at the beginning. -/
def plainWord (r : PlainRule) : List Char → List Char
  | [] => []
  | c :: cs =>
    let ends :=
      isInlineBlank c || isBreak c || (c == ':' && blankOrEnd cs) ||
        (r.inBrackets && (isFlowMark c || (c == '?' && r.questionEnds)))
    if ends then [] else c :: plainWord r cs

/-- What stands between two words. -/
structure PlainGap where
  width : Nat
  /-- What is kept of it; nothing, if the scalar cannot go on behind it. -/
  kept : List Char
  newline : Bool

/-- The line breaks and spaces behind a line break: their width, the breaks, and whether a
marker between documents stands behind one of them. -/
def plainBreaks : List Char → Nat × List Char × Bool
  | [] => (0, [], false)
  | c :: cs =>
    if c = ' ' then
      let (width, breaks, marker) := plainBreaks cs
      (width + 1, breaks, marker)
    else if isBreak c then
      if isMarker cs then (1, [], true)
      else
        let (width, breaks, marker) := plainBreaks cs
        (width + 1, breakText c :: breaks, marker)
    else (0, [], false)

/-- The gap behind a word. -/
def plainGap (cs : List Char) : PlainGap :=
  let spaces := cs.takeWhile (· == ' ')
  match cs.drop spaces.length with
  | [] => ⟨spaces.length, spaces, false⟩
  | c :: r =>
    if isBreak c then
      if isMarker r then ⟨spaces.length + 1, [], true⟩
      else
        let (width, breaks, marker) := plainBreaks r
        ⟨spaces.length + 1 + width, if marker then [] else foldBreaks c breaks, true⟩
    else ⟨spaces.length, spaces, false⟩

/-- A plain scalar that has been read. -/
structure PlainRun where
  text : List Char
  source : Source
  /-- Does the place behind it stand at the beginning of a line? -/
  newline : Bool

/-- The words of a plain scalar from a place on: `gap` is what stands in front of the first. The
bound is on the number of words. -/
def plainWords (r : PlainRule) (gap : List Char) (s : Source) (newline : Bool) : Nat → PlainRun
  | 0 => ⟨[], s, newline⟩
  | fuel + 1 =>
    let word := plainWord r s.rest
    if s.peek? = some '#' ∨ word = [] then ⟨[], s, newline⟩
    else
      let behind := s.skip word.length
      let next := plainGap behind.rest
      let there := behind.skip next.width
      if next.kept = [] ∨ there.peek? = some '#' ∨ (¬ r.inBrackets ∧ there.column < r.indent) then
        ⟨gap ++ word, there, next.newline⟩
      else
        let more := plainWords r next.kept there next.newline fuel
        { more with text := gap ++ word ++ more.text }

/-- **A plain scalar.** -/
def plainScalar (r : PlainRule) (s : Source) : PlainRun :=
  plainWords r [] s false (s.rest.length + 1)

end MiniTemplate.Yaml
