import MiniTemplate.Text.Blank

/-!
# A cursor over a text

Reading a template is moving one cursor from left to right. The cursor keeps the
characters it has passed, the characters still ahead, and the position it has
reached, counted in characters, in lines and in columns. It never fails: past the
end there is simply no current character.

All movement is one operation, `MiniTemplate.Cursor.skip`, which passes a number of
characters at once; every other way of moving says how many characters that is.
So a fact about `skip` is a fact about every move.
-/

namespace MiniTemplate

/-! ### Positions -/

/-- A place in a text: the number of characters before it, its line and its
column, both counted from one. -/
structure Position where
  offset : Nat
  line : Nat
  column : Nat
  deriving DecidableEq, Repr

namespace Position

/-- Where every text begins. -/
def start : Position := ⟨0, 1, 1⟩

/-- The place after one more character. Only a newline starts a line. -/
def next (p : Position) (c : Char) : Position :=
  if c = '\n' then ⟨p.offset + 1, p.line + 1, 1⟩ else ⟨p.offset + 1, p.line, p.column + 1⟩

/-- The place after a whole stretch of characters. -/
def past (p : Position) (cs : List Char) : Position :=
  cs.foldl next p

@[simp] theorem past_nil (p : Position) : p.past [] = p := rfl

@[simp] theorem past_cons (p : Position) (c : Char) (cs : List Char) :
    p.past (c :: cs) = (p.next c).past cs := rfl

theorem past_append (p : Position) (cs ds : List Char) :
    p.past (cs ++ ds) = (p.past cs).past ds :=
  List.foldl_append

@[simp] theorem offset_next (p : Position) (c : Char) : (p.next c).offset = p.offset + 1 := by
  unfold next; split <;> rfl

@[simp] theorem offset_past (p : Position) (cs : List Char) :
    (p.past cs).offset = p.offset + cs.length := by
  induction cs generalizing p with
  | nil => rfl
  | cons c cs ih => simp [ih]; omega

end Position

/-! ### The cursor -/

/-- A cursor in the middle of a text. -/
structure Cursor where
  /-- The characters already passed, the latest first. -/
  passed : List Char
  /-- The characters still ahead. -/
  rest : List Char
  /-- The place between the two. -/
  position : Position
  deriving DecidableEq, Repr

namespace Cursor

/-- The cursor at the beginning of a text. -/
def ofList (cs : List Char) : Cursor := ⟨[], cs, .start⟩

/-- The cursor at the beginning of a text. -/
def ofString (s : String) : Cursor := ofList s.toList

/-- The character under the cursor, if there is one. -/
def current? (c : Cursor) : Option Char := c.rest.head?

/-- The character at a distance from the cursor, ahead of it or behind it. -/
def peek? (c : Cursor) : Int → Option Char
  | .ofNat n => c.rest[n]?
  | .negSucc n => c.passed[n]?

/-- Does the text ahead begin with these characters? -/
def startsWith (c : Cursor) (cs : List Char) : Bool := cs.isPrefixOf c.rest

/-- Is there nothing ahead? -/
def atEnd (c : Cursor) : Bool := c.rest.isEmpty

/-- Pass `n` characters, or as many as there are. -/
def skip (c : Cursor) (n : Nat) : Cursor where
  passed := (c.rest.take n).reverse ++ c.passed
  rest := c.rest.drop n
  position := c.position.past (c.rest.take n)

/-- Pass one character. -/
def advance (c : Cursor) : Cursor := c.skip 1

/-- Pass the characters of a class, up to the first that is not in it. -/
def skipWhile (c : Cursor) (p : Char → Bool) : Cursor :=
  c.skip (c.rest.takeWhile p).length

/-- Pass the blanks. -/
def skipBlanks (c : Cursor) : Cursor := c.skipWhile Text.isBlank

/-- Pass everything. -/
def skipAll (c : Cursor) : Cursor := c.skip c.rest.length

/-! ### What lies ahead after a move -/

@[simp] theorem rest_skip (c : Cursor) (n : Nat) : (c.skip n).rest = c.rest.drop n := rfl

@[simp] theorem position_skip (c : Cursor) (n : Nat) :
    (c.skip n).position = c.position.past (c.rest.take n) := rfl

@[simp] theorem rest_advance (c : Cursor) : c.advance.rest = c.rest.drop 1 := rfl

@[simp] theorem rest_skipWhile (c : Cursor) (p : Char → Bool) :
    (c.skipWhile p).rest = c.rest.dropWhile p := by
  rw [skipWhile, rest_skip]
  induction c.rest with
  | nil => rfl
  | cons a cs ih => by_cases h : p a <;> simp [h, ih]

@[simp] theorem rest_skipBlanks (c : Cursor) :
    c.skipBlanks.rest = c.rest.dropWhile Text.isBlank :=
  rest_skipWhile c _

@[simp] theorem rest_skipAll (c : Cursor) : c.skipAll.rest = [] := by
  simp [skipAll]

theorem length_rest_skip_le (c : Cursor) (n : Nat) : (c.skip n).rest.length ≤ c.rest.length := by
  simp

theorem length_rest_skipWhile_le (c : Cursor) (p : Char → Bool) :
    (c.skipWhile p).rest.length ≤ c.rest.length :=
  length_rest_skip_le c _

theorem length_rest_skip_lt {c : Cursor} {n : Nat} (hn : 0 < n) (hc : c.rest ≠ []) :
    (c.skip n).rest.length < c.rest.length := by
  have := List.length_pos_iff.2 hc
  simp only [rest_skip, List.length_drop]
  omega

end Cursor

end MiniTemplate
