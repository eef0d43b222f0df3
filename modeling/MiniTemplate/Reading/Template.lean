import MiniTemplate.Reading.Piece

/-!
# Reading a template

The pieces of a template are put together with a list of *frames*, one for each
element that is open, the innermost first. A leaf is added to the innermost frame; an
opening tag adds a frame; a closing tag takes the innermost frame off, whatever it is
called, and adds the finished element to the one below. At the end of the text the
frames that are left are closed in the same way.

The nesting is limited: an opening tag that would make one frame too many ends the
reading, and all that follows is passed over.
-/

namespace MiniTemplate

/-- An element whose closing tag has not been read. -/
structure Frame where
  name : String
  attributes : List Attribute
  /-- The place of its opening tag. -/
  start : Position
  /-- The children read so far, the latest first. -/
  children : List Node

/-- The element of a frame that ends at an offset. -/
def Frame.toNode (f : Frame) (stop : Nat) : Node :=
  .element f.name f.attributes f.children.reverse false (some (f.start.spanTo stop))

/-- The state of a reading. -/
structure Progress where
  cursor : Cursor
  /-- The open elements, the innermost first. -/
  frames : List Frame
  /-- The finished top-level nodes, the latest first. -/
  roots : List Node
  faults : List (Located Fault)
  cautions : List (Located Caution)
  /-- Was the rest of the text passed over? -/
  truncated : Bool

namespace Progress

/-- The beginning of a reading. -/
def start (c : Cursor) : Progress := ⟨c, [], [], [], [], false⟩

/-- Add a finished node to the innermost open element, or to the top level. -/
def add (p : Progress) (n : Node) : Progress :=
  match p.frames with
  | f :: fs => { p with frames := { f with children := n :: f.children } :: fs }
  | [] => { p with roots := n :: p.roots }

/-- Remark on a fault. -/
def fault (p : Progress) (place : Position) (what : Fault) : Progress :=
  { p with faults := p.faults ++ [⟨place, what⟩] }

/-- Remark on a caution. -/
def caution (p : Progress) (place : Position) (what : Caution) : Progress :=
  { p with cautions := p.cautions ++ [⟨place, what⟩] }

/-- Go to where a reader has come to, with the remarks it has made. -/
def follow {α : Type} (p : Progress) (s : Scan α) : Progress :=
  { p with
    cursor := s.cursor
    faults := p.faults ++ s.faults
    cautions := p.cautions ++ s.cautions }

/-- Open an element, if the limit allows one more. -/
def openElement (limit : Int) (p : Progress) (name : String) (attributes : List Attribute)
    (start : Position) : Progress :=
  if limit ≤ p.frames.length then
    { p.fault p.cursor.position (.tooDeep limit) with
      cursor := p.cursor.skipAll
      truncated := true }
  else { p with frames := ⟨name, attributes, start, []⟩ :: p.frames }

/-- Close the innermost open element with a closing tag. -/
def closeElement (p : Progress) (name : String) (start : Position) : Progress :=
  match p.frames with
  | [] => p.fault start (.unexpectedClosing name)
  | f :: fs =>
    let q := if name = f.name then p else p.fault start (.mismatchedClosing f.name name)
    { q with frames := fs }.add (f.toNode p.cursor.position.offset)

/-- **One step**: read a piece and put it in its place. -/
def step (limit : Int) (p : Progress) : Progress :=
  let s := readPiece p.cursor
  let q := p.follow s
  match s.value with
  | none => q
  | some (.leaf n) => q.add n
  | some (.opening name attributes start) => q.openElement limit name attributes start
  | some (.closing name start) => q.closeElement name start

@[simp] theorem cursor_add (p : Progress) (n : Node) : (p.add n).cursor = p.cursor := by
  unfold add; split <;> rfl

@[simp] theorem cursor_closeElement (p : Progress) (name : String) (start : Position) :
    (p.closeElement name start).cursor = p.cursor := by
  unfold closeElement
  split
  · rfl
  · rw [cursor_add]
    split <;> rfl

theorem length_rest_openElement_le (limit : Int) (p : Progress) (name : String)
    (attributes : List Attribute) (start : Position) :
    (p.openElement limit name attributes start).cursor.rest.length ≤ p.cursor.rest.length := by
  unfold openElement
  split
  · simp
  · exact Nat.le_refl _

theorem length_rest_step_lt (limit : Int) {p : Progress} (hp : p.cursor.rest ≠ []) :
    (p.step limit).cursor.rest.length < p.cursor.rest.length := by
  have h := length_rest_readPiece_lt hp
  unfold step
  dsimp only
  split
  · exact h
  · rw [cursor_add]
    exact h
  · exact Nat.lt_of_le_of_lt (length_rest_openElement_le _ _ _ _ _) h
  · rw [cursor_closeElement]
    exact h

/-- Pass the blanks before the next piece. -/
def skipBlanks (p : Progress) : Progress := { p with cursor := p.cursor.skipBlanks }

/-- Read piece after piece up to the end of the text. -/
def run (limit : Int) (p : Progress) : Progress :=
  if h : p.skipBlanks.cursor.rest = [] then p.skipBlanks
  else
    have : (p.skipBlanks.step limit).cursor.rest.length < p.cursor.rest.length :=
      Nat.lt_of_lt_of_le (length_rest_step_lt limit h) (Cursor.length_rest_skipWhile_le _ _)
    run limit (p.skipBlanks.step limit)
termination_by p.cursor.rest.length

/-- The innermost element, `f`, ends with the text. Unless the rest of the text was
passed over, this is remarked on. -/
def endElement (p : Progress) (f : Frame) (fs : List Frame) : Progress :=
  let q := if p.truncated then p else p.caution p.cursor.position (.unclosed f.name)
  { q with frames := fs }.add (f.toNode p.cursor.position.offset)

theorem length_frames_add (p : Progress) (n : Node) :
    (p.add n).frames.length = p.frames.length := by
  unfold add
  split <;> simp_all

theorem length_frames_endElement (p : Progress) (f : Frame) (fs : List Frame) :
    (p.endElement f fs).frames.length = fs.length :=
  length_frames_add _ _

/-- End the elements that are open at the end of the text, the innermost first. -/
def finish (p : Progress) : Progress :=
  match h : p.frames with
  | [] => p
  | f :: fs =>
    have : (p.endElement f fs).frames.length < p.frames.length := by
      rw [length_frames_endElement, h]
      exact Nat.lt_succ_self _
    finish (p.endElement f fs)
termination_by p.frames.length

end Progress

/-- What reading a template gives. -/
structure Template where
  forest : Forest
  faults : List (Located Fault)
  cautions : List (Located Caution)

namespace Template

/-- The nesting that is allowed where nothing else is said. -/
def defaultDepth : Int := 256

/-- What a finished reading gives. -/
def ofProgress (p : Progress) : Template := ⟨p.roots.reverse, p.faults, p.cautions⟩

/-- **Reading a template** from its characters, with elements nested no deeper than a
limit. -/
def readChars (limit : Int) (cs : List Char) : Template :=
  ofProgress ((Progress.start (Cursor.ofList cs)).run limit).finish

/-- Reading a template. -/
def read (limit : Int) (text : String) : Template := readChars limit text.toList

/-- Is the template free of faults? -/
def ok (t : Template) : Bool := t.faults.isEmpty

/-- The texts of the faults. -/
def errors (t : Template) : List String := t.faults.map Located.faultText

/-- The texts of the cautions. -/
def warnings (t : Template) : List String := t.cautions.map Located.cautionText

end Template

end MiniTemplate
