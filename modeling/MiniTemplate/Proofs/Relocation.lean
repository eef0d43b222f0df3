import MiniTemplate.Proofs.Reading

/-!
# Reading behind another text

Where a text stands behind another one, its characters are the same and their places are not:
offsets grow by the length of what stands in front, lines by its line breaks, and columns, but
only on the first line, by what stands behind the last of these line breaks. This file says
that a reading sees no other difference. `MiniTemplate.Position.moved` is the change of places,
and every reader commutes with it (`MiniTemplate.readPiece_moved`).

A whole reading does so too (`MiniTemplate.Progress.finish_run_after`), and moreover in any state
that another reading has left behind it with nothing open: what is there stays, in front of what
is read now (`MiniTemplate.Progress.after`).
-/

namespace MiniTemplate

/-! ### Places -/

/-- The number of characters behind the last line break of a text. -/
def Text.lastLineLength (cs : List Char) : Nat := (cs.reverse.takeWhile (· != '\n')).length

open Text

/-- **What a place in a text becomes** when `cs` is put in front of the text. -/
def Position.moved (cs : List Char) (p : Position) : Position where
  offset := p.offset + cs.length
  line := p.line + cs.count '\n'
  column := if p.line = 1 then p.column + lastLineLength cs else p.column

/-- The span of a node when `cs` stands in front of its text. -/
def Span.moved (cs : List Char) (s : Span) : Span where
  start := s.start + cs.length
  stop := s.stop + cs.length
  line := s.line + cs.count '\n'
  column := if s.line = 1 then s.column + lastLineLength cs else s.column

namespace Position

variable {p : Position} {cs : List Char}

theorem moved_start (cs : List Char) : start.moved cs = start.past cs := by
  rw [past_start, start, moved, if_pos rfl, lastLineLength]
  simp [Nat.add_comm]

theorem line_pos_next (h : 0 < p.line) (c : Char) : 0 < (p.next c).line := by
  unfold next
  split
  · exact Nat.succ_pos _
  · exact h

theorem line_pos_past (h : 0 < p.line) (w : List Char) : 0 < (p.past w).line := by
  induction w generalizing p with
  | nil => exact h
  | cons c w ih => exact ih (line_pos_next h c)

/-- Lines are counted from one, so a line break leads away from the first line. -/
theorem moved_next (h : 0 < p.line) (c : Char) : (p.next c).moved cs = (p.moved cs).next c := by
  unfold next
  split
  · have hline : p.line + 1 ≠ 1 := by omega
    simp only [moved, if_neg hline, Position.mk.injEq, and_true]
    omega
  · simp only [moved, Position.mk.injEq]
    refine ⟨by omega, trivial, ?_⟩
    split <;> omega

theorem moved_past (h : 0 < p.line) (w : List Char) :
    (p.past w).moved cs = (p.moved cs).past w := by
  induction w generalizing p with
  | nil => rfl
  | cons c w ih => rw [past_cons, past_cons, ih (line_pos_next h c), moved_next h]

theorem spanTo_moved (p : Position) (stop : Nat) :
    (p.moved cs).spanTo (stop + cs.length) = (p.spanTo stop).moved cs := by
  by_cases hline : p.line = 1
  · simp [spanTo, moved, Span.moved, hline]
  · have hline' : (p.line : Int) ≠ 1 := by omega
    simp [spanTo, moved, Span.moved, hline, hline']

end Position

/-! ### Nodes and remarks -/

namespace Node

mutual

/-- A tree with its spans changed. -/
def respan (g : Span → Span) : Node → Node
  | element name attributes children selfClosing span =>
    element name attributes (respanAll g children) selfClosing (span.map g)
  | text content span => text content (span.map g)
  | comment content span => comment content (span.map g)

/-- The trees of a forest with their spans changed. -/
def respanAll (g : Span → Span) : List Node → List Node
  | [] => []
  | n :: ns => n.respan g :: respanAll g ns

end

theorem respanAll_eq_map (g : Span → Span) (f : List Node) : respanAll g f = f.map (respan g) := by
  induction f with
  | nil => rfl
  | cons n ns ih => rw [respanAll, List.map_cons, ih]

/-- **A node when `cs` stands in front of its text.** -/
def moved (cs : List Char) (n : Node) : Node := n.respan (Span.moved cs)

end Node

/-- A remark when `cs` stands in front of the text. -/
def Located.moved {α : Type} (cs : List Char) (r : Located α) : Located α :=
  ⟨r.place.moved cs, r.what⟩

/-! ### Cursors -/

namespace Cursor

variable {c d : Cursor} {cs : List Char}

/-- The cursor on a text when `cs` stands in front of the text. -/
def moved (cs : List Char) (c : Cursor) : Cursor :=
  ⟨c.passed ++ cs.reverse, c.rest, c.position.moved cs⟩

@[simp] theorem rest_moved (cs : List Char) (c : Cursor) : (c.moved cs).rest = c.rest := rfl

@[simp] theorem position_moved (cs : List Char) (c : Cursor) :
    (c.moved cs).position = c.position.moved cs := rfl

theorem offset_moved (cs : List Char) (c : Cursor) :
    (c.moved cs).position.offset = c.position.offset + cs.length := rfl

theorem skip_moved (h : 0 < c.position.line) (n : Nat) :
    (c.moved cs).skip n = (c.skip n).moved cs := by
  simp only [skip, moved, List.append_assoc, Position.moved_past h]

theorem skipBlanks_moved (h : 0 < c.position.line) :
    (c.moved cs).skipBlanks = c.skipBlanks.moved cs :=
  skip_moved h _

theorem Leads.line_pos (hd : Leads c d) (h : 0 < c.position.line) : 0 < d.position.line := by
  obtain ⟨w, hw⟩ := hd
  rw [hw.position]
  exact Position.line_pos_past h w

end Cursor

/-! ### Readers -/

/-- What a reader gives when `cs` stands in front of the text; `g` changes what was read. -/
def Scan.moved {α : Type} (cs : List Char) (g : α → α) (s : Scan α) : Scan α :=
  ⟨g s.value, s.cursor.moved cs, s.faults.map (Located.moved cs), s.cautions.map (Located.moved cs)⟩

/-- A piece when `cs` stands in front of the text. -/
def Piece.moved (cs : List Char) : Piece → Piece
  | leaf n => leaf (n.moved cs)
  | opening name as start => opening name as (start.moved cs)
  | closing name start => closing name (start.moved cs)

section Readers

open Cursor

variable {c : Cursor} (cs : List Char)

theorem readValue_moved (h : 0 < c.position.line) :
    readValue (c.moved cs) = (readValue c).moved cs id := by
  unfold readValue
  rw [rest_moved]
  cases c.rest with
  | nil => rfl
  | cons q r =>
    dsimp only
    split
    · rw [skip_moved h]
      split <;> rfl
    · rw [skip_moved h]
      rfl

theorem readAttribute_moved (h : 0 < c.position.line) :
    readAttribute (c.moved cs) = (readAttribute c).map (Scan.moved cs id) := by
  unfold readAttribute
  rw [rest_moved]
  generalize c.rest.takeWhile isAttributeChar = name
  have hname : 0 < (c.skip name.length).position.line := (leads_skip c _).line_pos h
  have hbehind : 0 < (c.skip name.length).skipBlanks.position.line :=
    (leads_skipBlanks _).line_pos hname
  dsimp only
  rw [skip_moved h, skipBlanks_moved hname]
  split
  · rfl
  · rw [rest_moved]
    split
    · have hadvance := (leads_skip (c.skip name.length).skipBlanks 1).line_pos hbehind
      rw [advance, skip_moved hbehind, skipBlanks_moved hadvance,
        readValue_moved cs ((leads_skipBlanks _).line_pos hadvance)]
      rfl
    · rfl

theorem readAttributes_moved (tag : String) (seen : List String) (h : 0 < c.position.line) :
    readAttributes tag seen (c.moved cs) = (readAttributes tag seen c).moved cs id := by
  fun_induction readAttributes tag seen c with
  | case1 seen c hnone =>
    have hblanks := (leads_skipBlanks c).line_pos h
    have hread : readAttribute (c.moved cs).skipBlanks = none := by
      rw [skipBlanks_moved h, readAttribute_moved cs hblanks, hnone]
      rfl
    rw [readAttributes_none hread, skipBlanks_moved h]
    rfl
  | case2 seen c s hsome hlt more ih =>
    have hblanks := (leads_skipBlanks c).line_pos h
    have hread : readAttribute (c.moved cs).skipBlanks = some (s.moved cs id) := by
      rw [skipBlanks_moved h, readAttribute_moved cs hblanks, hsome]
      rfl
    have hcursor : 0 < s.cursor.position.line := (leads_readAttribute hsome).line_pos hblanks
    have hmore := ih hcursor
    rw [readAttributes_some hread]
    simp only [Scan.moved, id_eq] at hmore ⊢
    rw [hmore]
    simp only [List.map_append, duplicateCaution]
    split <;> rfl

theorem readText_moved (h : 0 < c.position.line) :
    readText (c.moved cs) = (readText c).moved cs (Option.map (Piece.moved cs)) := by
  unfold readText
  dsimp only
  rw [rest_moved, skip_moved h, offset_moved, position_moved, Position.spanTo_moved]
  rfl

theorem readComment_moved (h : 0 < c.position.line) :
    readComment (c.moved cs) = (readComment c).moved cs (Option.map (Piece.moved cs)) := by
  unfold readComment
  dsimp only
  rw [rest_moved, skip_moved h, offset_moved, position_moved, Position.spanTo_moved]
  rfl

theorem readClosing_moved (h : 0 < c.position.line) :
    readClosing (c.moved cs) = (readClosing c).moved cs (Option.map (Piece.moved cs)) := by
  unfold readClosing
  dsimp only
  rw [rest_moved]
  generalize (c.rest.drop 2).takeWhile isTagChar = name
  have hname := (leads_skip c (2 + name.length)).line_pos h
  rw [skip_moved h, skipBlanks_moved hname, rest_moved]
  split
  · rw [advance, skip_moved ((leads_skipBlanks _).line_pos hname)]
    rfl
  · rfl

theorem readTag_moved (h : 0 < c.position.line) :
    readTag (c.moved cs) = (readTag c).moved cs (Option.map (Piece.moved cs)) := by
  unfold readTag
  dsimp only
  rw [rest_moved]
  generalize (c.rest.drop 1).takeWhile isTagChar = name
  have hname := (leads_skip c (1 + name.length)).line_pos h
  split
  · rw [advance, skip_moved h]
    rfl
  · rw [skip_moved h, readAttributes_moved cs _ _ hname]
    have hline := (leads_readAttributes (String.ofList name) [] _).line_pos hname
    generalize readAttributes (String.ofList name) [] (c.skip (1 + name.length)) = s at hline
    -- the attributes end before the same characters, so the tag ends in the same way
    have hrest : (s.moved cs id).cursor.rest = s.cursor.rest := rfl
    rw [hrest]
    split
    · rw [show (s.moved cs id).cursor = s.cursor.moved cs from rfl, skip_moved hline, offset_moved,
        position_moved, Position.spanTo_moved]
      rfl
    · rw [show (s.moved cs id).cursor = s.cursor.moved cs from rfl, advance, skip_moved hline]
      rfl
    · simp only [Scan.moved, List.map_append]
      rfl

/-- **One piece**, where another text stands in front: the same piece, moved. -/
theorem readPiece_moved (h : 0 < c.position.line) :
    readPiece (c.moved cs) = (readPiece c).moved cs (Option.map (Piece.moved cs)) := by
  unfold readPiece
  rw [rest_moved]
  split
  · exact readClosing_moved cs h
  · exact readComment_moved cs h
  · exact readTag_moved cs h
  · exact readText_moved cs h

end Readers

/-! ### States -/

/-- An open element when `cs` stands in front of the text. -/
def Frame.moved (cs : List Char) (f : Frame) : Frame :=
  ⟨f.name, f.attributes, f.start.moved cs, f.children.map (Node.moved cs)⟩

@[simp] theorem Frame.name_moved (cs : List Char) (f : Frame) : (f.moved cs).name = f.name := rfl

theorem Frame.toNode_moved (cs : List Char) (f : Frame) (stop : Nat) :
    (f.moved cs).toNode (stop + cs.length) = (f.toNode stop).moved cs := by
  rw [toNode, toNode, Node.moved, Node.respan, Node.respanAll_eq_map, List.map_reverse]
  rw [moved, Position.spanTo_moved]
  rfl

namespace Progress

open Cursor

variable {limit : Int} {p : Progress}

theorem leads_openElement (p : Progress) (name : String) (as : List Attribute) (start : Position) :
    Leads p.cursor (p.openElement limit name as start).cursor := by
  unfold openElement
  split
  · exact leads_skip _ _
  · exact .refl _

/-- A step goes as far as its piece, or further. -/
theorem leads_readPiece_step (limit : Int) (p : Progress) :
    Leads (readPiece p.cursor).cursor (p.step limit).cursor := by
  cases hv : (readPiece p.cursor).value with
  | none =>
    rw [step_none hv]
    exact .refl _
  | some x =>
    cases x with
    | leaf n =>
      rw [step_leaf hv, cursor_add]
      exact .refl _
    | opening name as start =>
      rw [step_opening hv]
      exact leads_openElement (p.follow (readPiece p.cursor)) name as start
    | closing name start =>
      rw [step_closing hv, cursor_closeElement]
      exact .refl _

/-- **A step passes characters.** -/
theorem leads_step (limit : Int) (p : Progress) : Leads p.cursor (p.step limit).cursor :=
  (leads_readPiece p.cursor).trans (leads_readPiece_step limit p)

/-- **A reading behind another.** The state `p` of the reading of a text becomes this one when
`cs` stands in front of the text, and has been read to the state `q` with nothing left open. -/
def after (q : Progress) (cs : List Char) (p : Progress) : Progress where
  cursor := p.cursor.moved cs
  frames := p.frames.map (Frame.moved cs)
  roots := p.roots.map (Node.moved cs) ++ q.roots
  faults := q.faults ++ p.faults.map (Located.moved cs)
  cautions := q.cautions ++ p.cautions.map (Located.moved cs)
  truncated := p.truncated

variable (q : Progress) (cs : List Char)

@[simp] theorem cursor_after (p : Progress) : (after q cs p).cursor = p.cursor.moved cs := rfl

@[simp] theorem frames_after (p : Progress) :
    (after q cs p).frames = p.frames.map (Frame.moved cs) := rfl

@[simp] theorem truncated_after (p : Progress) : (after q cs p).truncated = p.truncated := rfl

theorem add_after (p : Progress) (n : Node) :
    (after q cs p).add (n.moved cs) = after q cs (p.add n) := by
  obtain ⟨cursor, frames, roots, faults, cautions, truncated⟩ := p
  cases frames <;> rfl

theorem fault_after (p : Progress) (place : Position) (what : Fault) :
    (after q cs p).fault (place.moved cs) what = after q cs (p.fault place what) := by
  simp [fault, after, Located.moved]

theorem caution_after (p : Progress) (place : Position) (what : Caution) :
    (after q cs p).caution (place.moved cs) what = after q cs (p.caution place what) := by
  simp [caution, after, Located.moved]

theorem follow_after {α : Type} (p : Progress) (g : α → α) (s : Scan α) :
    (after q cs p).follow (s.moved cs g) = after q cs (p.follow s) := by
  simp [follow, after, Scan.moved]

theorem openElement_after (h : 0 < p.cursor.position.line) (name : String) (as : List Attribute)
    (start : Position) :
    (after q cs p).openElement limit name as (start.moved cs) =
      after q cs (p.openElement limit name as start) := by
  have hend : (p.cursor.moved cs).skipAll = p.cursor.skipAll.moved cs := skip_moved h _
  unfold openElement
  rw [frames_after, List.length_map, cursor_after, position_moved]
  split
  · rw [fault_after, hend]
    rfl
  · rfl

/-- An element that ends, ends where the cursor is, also behind another text. -/
theorem end_after (p : Progress) (f : Frame) (fs : List Frame) :
    ({ after q cs p with frames := fs.map (Frame.moved cs) }).add
        ((f.moved cs).toNode (after q cs p).cursor.position.offset) =
      after q cs ({ p with frames := fs }.add (f.toNode p.cursor.position.offset)) := by
  rw [← add_after, ← Frame.toNode_moved]
  rfl

theorem closeElement_after (p : Progress) (name : String) (start : Position) :
    (after q cs p).closeElement name (start.moved cs) = after q cs (p.closeElement name start) := by
  cases hfs : p.frames with
  | nil =>
    have hfs' : (after q cs p).frames = [] := by rw [frames_after, hfs, List.map_nil]
    rw [closeElement_of_nil hfs, closeElement_of_nil hfs', fault_after]
  | cons f fs =>
    have hfs' : (after q cs p).frames = f.moved cs :: fs.map (Frame.moved cs) := by
      rw [frames_after, hfs, List.map_cons]
    rw [closeElement_of_cons hfs, closeElement_of_cons hfs', Frame.name_moved]
    by_cases hname : name = f.name
    · rw [if_pos hname, if_pos hname]
      exact end_after q cs p f fs
    · rw [if_neg hname, if_neg hname, fault_after]
      exact end_after q cs (p.fault start (.mismatchedClosing f.name name)) f fs

theorem step_after (h : 0 < p.cursor.position.line) :
    (after q cs p).step limit = after q cs (p.step limit) := by
  have hread := readPiece_moved cs h
  have hfollow := follow_after q cs p (Option.map (Piece.moved cs)) (readPiece p.cursor)
  have hline : 0 < (p.follow (readPiece p.cursor)).cursor.position.line :=
    (leads_readPiece _).line_pos h
  have hvalue : (readPiece (after q cs p).cursor).value =
      (readPiece p.cursor).value.map (Piece.moved cs) := congrArg Scan.value hread
  rw [← hread] at hfollow
  cases hv : (readPiece p.cursor).value with
  | none =>
    rw [hv] at hvalue
    rw [step_none hv, step_none hvalue]
    exact hfollow
  | some x =>
    rw [hv, Option.map_some] at hvalue
    cases x with
    | leaf n =>
      rw [step_leaf hv, step_leaf (by exact hvalue), ← add_after]
      exact congrArg (add · (n.moved cs)) hfollow
    | opening name as start =>
      rw [step_opening hv, step_opening (by exact hvalue),
        ← openElement_after q cs hline]
      exact congrArg (openElement limit · name as (start.moved cs)) hfollow
    | closing name start =>
      rw [step_closing hv, step_closing (by exact hvalue), ← closeElement_after]
      exact congrArg (closeElement · name (start.moved cs)) hfollow

theorem skipBlanks_after (h : 0 < p.cursor.position.line) :
    (after q cs p).skipBlanks = after q cs p.skipBlanks := by
  unfold skipBlanks
  rw [cursor_after, Cursor.skipBlanks_moved h]
  rfl

theorem run_after (h : 0 < p.cursor.position.line) :
    (after q cs p).run limit = after q cs (p.run limit) := by
  fun_induction run limit p with
  | case1 p hend =>
    have hblanks := skipBlanks_after q cs h
    rw [run_of_end (by rw [hblanks]; exact hend), hblanks]
  | case2 p hrest hlt ih =>
    have hblanks := skipBlanks_after q cs h
    have hline : 0 < p.skipBlanks.cursor.position.line := (leads_skipBlanks _).line_pos h
    rw [run_of_rest (by rw [hblanks]; exact hrest), hblanks, step_after q cs hline]
    exact ih ((leads_step limit _).line_pos hline)

theorem endElement_after (p : Progress) (f : Frame) (fs : List Frame) :
    (after q cs p).endElement (f.moved cs) (fs.map (Frame.moved cs)) =
      after q cs (p.endElement f fs) := by
  unfold endElement
  dsimp only
  rw [truncated_after]
  split
  · exact end_after q cs p f fs
  · rw [cursor_after, position_moved, Frame.name_moved, caution_after]
    exact end_after q cs (p.caution p.cursor.position (.unclosed f.name)) f fs

theorem finish_after (p : Progress) : (after q cs p).finish = after q cs p.finish := by
  fun_induction finish p with
  | case1 p hnil => exact finish_of_nil (by rw [frames_after, hnil, List.map_nil])
  | case2 p f fs hfs hlt ih =>
    have hfs' : (after q cs p).frames = f.moved cs :: fs.map (Frame.moved cs) := by
      rw [frames_after, hfs, List.map_cons]
    rw [finish_of_cons hfs', endElement_after]
    exact ih

/-- **A whole reading behind another text** is the reading, moved, behind what is there. -/
theorem finish_run_after (h : 0 < p.cursor.position.line) :
    ((after q cs p).run limit).finish = after q cs (p.run limit).finish := by
  rw [run_after q cs h, finish_after]

end Progress

end MiniTemplate
