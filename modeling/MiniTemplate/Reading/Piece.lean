import MiniTemplate.Reading.Attributes

/-!
# The pieces of a template

Between blanks, a template is a sequence of pieces: a text, a comment, a tag that
opens an element, a tag that is an element by itself, or a tag that closes one. What
a piece is shows in its first characters, and `MiniTemplate.readPiece` reads one, with the
cursor standing on its first character. A `<` that begins no tag, and a tag that does
not end, are no piece: they are passed and remarked on.

Reading a piece always passes at least one character
(`MiniTemplate.length_rest_readPiece_lt`), so reading piece after piece comes to an end.
-/

namespace MiniTemplate

/-- A piece of a template. -/
inductive Piece where
  /-- A text, a comment or a self-closing element. -/
  | leaf (node : Node)
  /-- A tag that opens an element, from its place on. -/
  | opening (name : String) (attributes : List Attribute) (start : Position)
  /-- A tag that closes an element, from its place on; its name may be empty. -/
  | closing (name : String) (start : Position)

/-- A text: everything up to the next `<`. -/
def readText (c : Cursor) : Scan (Option Piece) :=
  let run := c.rest.takeWhile (· != '<')
  let behind := c.skip run.length
  ⟨some (.leaf (.text (String.ofList run) (some (c.position.spanTo behind.position.offset)))),
    behind, [], []⟩

/-- A comment: everything between `<!--` and the next `-->`, or all the rest. -/
def readComment (c : Cursor) : Scan (Option Piece) :=
  let content := Text.before "-->".toList (c.rest.drop 4)
  let behind := c.skip (4 + content.1.length + if content.2 then 3 else 0)
  ⟨some (.leaf (.comment (String.ofList content.1)
      (some (c.position.spanTo behind.position.offset)))),
    behind, [], []⟩

/-- A closing tag: `</`, a name, blanks and `>`. -/
def readClosing (c : Cursor) : Scan (Option Piece) :=
  let name := (c.rest.drop 2).takeWhile isTagChar
  let behind := (c.skip (2 + name.length)).skipBlanks
  let piece := some (.closing (String.ofList name) c.position)
  match behind.rest with
  | '>' :: _ => ⟨piece, behind.advance, [], []⟩
  | _ => ⟨piece, behind, [⟨behind.position, .missingClosingTagEnd⟩], []⟩

/-- A tag: `<`, a name, attributes, and `>` or `/>`. -/
def readTag (c : Cursor) : Scan (Option Piece) :=
  let chars := (c.rest.drop 1).takeWhile isTagChar
  if chars.isEmpty then
    ⟨none, c.advance, [⟨c.advance.position, .missingTagName⟩], []⟩
  else
    let name := String.ofList chars
    let as := readAttributes name [] (c.skip (1 + chars.length))
    match as.cursor.rest with
    | '/' :: '>' :: _ =>
      let behind := as.cursor.skip 2
      ⟨some (.leaf (.element name as.value [] true
          (some (c.position.spanTo behind.position.offset)))),
        behind, as.faults, as.cautions⟩
    | '>' :: _ =>
      ⟨some (.opening name as.value c.position), as.cursor.advance, as.faults, as.cautions⟩
    | _ =>
      ⟨none, as.cursor, as.faults ++ [⟨as.cursor.position, .missingTagEnd⟩], as.cautions⟩

/-- **One piece**, with the cursor on its first character. -/
def readPiece (c : Cursor) : Scan (Option Piece) :=
  match c.rest with
  | '<' :: '/' :: _ => readClosing c
  | '<' :: '!' :: '-' :: '-' :: _ => readComment c
  | '<' :: _ => readTag c
  | _ => readText c

/-! ### Every piece passes a character -/

theorem length_rest_readText_lt {c : Cursor} {a : Char} {r : List Char} (hc : c.rest = a :: r)
    (ha : a ≠ '<') : (readText c).cursor.rest.length < c.rest.length := by
  refine Cursor.length_rest_skip_lt ?_ (by simp [hc])
  simp [hc, ha]

theorem length_rest_readComment_lt {c : Cursor} (hc : c.rest ≠ []) :
    (readComment c).cursor.rest.length < c.rest.length :=
  Cursor.length_rest_skip_lt (by omega) hc

theorem length_rest_readClosing_lt {c : Cursor} (hc : c.rest ≠ []) :
    (readClosing c).cursor.rest.length < c.rest.length := by
  have h : ∀ n, (c.skip (2 + n)).skipBlanks.rest.length < c.rest.length := fun n =>
    Nat.lt_of_le_of_lt (Cursor.length_rest_skipWhile_le _ _)
      (Cursor.length_rest_skip_lt (by omega) hc)
  unfold readClosing
  dsimp only
  split
  · exact Nat.lt_of_le_of_lt (Cursor.length_rest_skip_le _ _) (h _)
  · exact h _

theorem length_rest_readTag_lt {c : Cursor} (hc : c.rest ≠ []) :
    (readTag c).cursor.rest.length < c.rest.length := by
  unfold readTag
  dsimp only
  split
  · exact Cursor.length_rest_skip_lt (by omega) hc
  · have h : ∀ name n,
        (readAttributes name [] (c.skip (1 + n))).cursor.rest.length < c.rest.length :=
      fun name n => Nat.lt_of_le_of_lt (length_rest_readAttributes_le _ _ _)
        (Cursor.length_rest_skip_lt (by omega) hc)
    split
    · exact Nat.lt_of_le_of_lt (Cursor.length_rest_skip_le _ _) (h _ _)
    · exact Nat.lt_of_le_of_lt (Cursor.length_rest_skip_le _ _) (h _ _)
    · exact h _ _

theorem length_rest_readPiece_lt {c : Cursor} (hc : c.rest ≠ []) :
    (readPiece c).cursor.rest.length < c.rest.length := by
  unfold readPiece
  split
  · exact length_rest_readClosing_lt hc
  · exact length_rest_readComment_lt hc
  · exact length_rest_readTag_lt hc
  · rename_i h
    obtain ⟨a, r, har⟩ := List.exists_cons_of_ne_nil hc
    refine length_rest_readText_lt har ?_
    rintro rfl
    exact h r har

end MiniTemplate
