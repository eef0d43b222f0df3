import MiniTemplate.Proofs.Place
import MiniTemplate.Proofs.Progress

/-!
# Induction along a whole reading

What a reading does to the nodes it has made so far is one of three things: it finishes a
leaf, it opens an element that there is room for, or it ends the innermost one. Everything else
is moving the cursor and making remarks. A closing tag of any name and the end of the text end
an element in the same way, and a tag that is nested too deep only moves the cursor to the end.

`MiniTemplate.Progress.reading_induction` says this once. A statement on the nodes of any text,
with or without faults, is proved by these cases, and never looks at a step again.
-/

namespace MiniTemplate.Progress

open Text Cursor

variable {limit : Int}

section Cases

variable {motive : Progress → Prop}
  (remark : ∀ p q : Progress, q.cursor = p.cursor → q.frames = p.frames → q.roots = p.roots →
    motive p → motive q)
  (move : ∀ (p : Progress) (d : Cursor), Leads p.cursor d → motive p →
    motive { p with cursor := d })
  (leaf : ∀ (p : Progress) (a : Char) (t : List Char) (n : Node), p.cursor.rest = a :: t →
    isBlank a = false → (readPiece p.cursor).value = some (.leaf n) → motive p →
    motive ({ p with cursor := (readPiece p.cursor).cursor }.add n))
  (opening : ∀ (p : Progress) (name : String) (as : List Attribute) (start : Position),
    p.cursor.rest ≠ [] → (p.frames.length : Int) < limit →
    (readPiece p.cursor).value = some (.opening name as start) → motive p →
    motive ({ p with cursor := (readPiece p.cursor).cursor }.push ⟨name, as, start, []⟩))
  (ending : ∀ (p : Progress) (f : Frame) (fs : List Frame), p.frames = f :: fs → motive p →
    motive ({ p with frames := fs }.add (f.toNode p.cursor.position.offset)))

include remark ending in
theorem motive_closeElement {p : Progress} (h : motive p) (name : String) (start : Position) :
    motive (p.closeElement name start) := by
  cases hfs : p.frames with
  | nil =>
    rw [closeElement_of_nil hfs]
    exact remark p _ rfl rfl rfl h
  | cons f fs =>
    rw [closeElement_of_cons hfs]
    split
    · exact ending p f fs hfs h
    · exact ending (p.fault start (.mismatchedClosing f.name name)) f fs hfs
        (remark p _ rfl rfl rfl h)

include remark ending in
theorem motive_endElement {p : Progress} (h : motive p) {f : Frame} {fs : List Frame}
    (hfs : p.frames = f :: fs) : motive (p.endElement f fs) := by
  rw [endElement]
  split
  · exact ending p f fs hfs h
  · exact ending (p.caution p.cursor.position (.unclosed f.name)) f fs hfs
      (remark p _ rfl rfl rfl h)

include remark move leaf opening ending in
theorem motive_step {p : Progress} {a : Char} {t : List Char} (hat : p.cursor.rest = a :: t)
    (ha : isBlank a = false) (h : motive p) : motive (p.step limit) := by
  have hne : p.cursor.rest ≠ [] := by simp [hat]
  -- the remarks come first, so that the state behind the piece is `q` with its cursor moved
  let q : Progress := { p with
    faults := p.faults ++ (readPiece p.cursor).faults
    cautions := p.cautions ++ (readPiece p.cursor).cautions }
  have hq : motive q := remark p q rfl rfl rfl h
  have hfollow : motive (p.follow (readPiece p.cursor)) := move q _ (leads_readPiece _) hq
  cases hv : (readPiece p.cursor).value with
  | none =>
    rw [step_none hv]
    exact hfollow
  | some x =>
    cases x with
    | leaf n =>
      rw [step_leaf hv]
      exact leaf q a t n hat ha hv hq
    | opening name as start =>
      rw [step_opening hv, openElement]
      split
      · refine remark { p.follow (readPiece p.cursor) with
          cursor := (readPiece p.cursor).cursor.skipAll } _ rfl rfl rfl ?_
        exact move _ _ (leads_skip _ _) hfollow
      · rename_i hlt
        exact opening q name as start hne (Int.not_le.mp hlt) hv hq
    | closing name start =>
      rw [step_closing hv]
      exact motive_closeElement remark ending hfollow name start

include remark move leaf opening ending in
/-- **Induction along a whole reading**: what remarks, moves of the cursor, leaves, opening tags
and ends of elements keep, holds in the end. -/
theorem reading_induction (p : Progress) (h : motive p) : motive (p.run limit).finish := by
  have hrun : motive (p.run limit) := by
    refine run_induction (motive := motive) ?_ ?_ p h
    · intro p hp
      exact move p _ (leads_skipBlanks _) hp
    · intro p a t hat ha hp
      exact motive_step remark move leaf opening ending hat ha hp
  refine finish_induction (motive := motive) ?_ _ hrun
  intro p f fs hfs hp
  exact motive_endElement remark ending hp hfs

end Cases

/-- No element is open when a reading has ended. -/
theorem frames_finish (p : Progress) : p.finish.frames = [] := by
  fun_induction finish p with
  | case1 p hnil => exact hnil
  | case2 p f fs hfs hlt ih => exact ih

end MiniTemplate.Progress
