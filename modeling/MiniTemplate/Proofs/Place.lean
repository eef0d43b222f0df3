import Mathlib.Data.List.Induction
import MiniTemplate.Proofs.Piece

/-!
# Places in a text

A cursor counts offset, line and column as it goes. What it has counted can be said of the
text instead: the line of an offset is the number of line breaks before it, and the column the
number of characters since the last one (`MiniTemplate.Position.past_start`). A cursor that was
moved over a text by passing characters, and in no other way, always has the rest of the text
ahead and its own place right (`MiniTemplate.Cursor.On`).

No reader moves its cursor in another way, whatever it finds
(`MiniTemplate.leads_readPiece`), so the places that readers take from their cursors are places
of the text.
-/

namespace MiniTemplate

/-! ### Lines and columns -/

namespace Text

/-- The line of an offset, counted from one. -/
def lineAt (cs : List Char) (k : Nat) : Nat := 1 + (cs.take k).count '\n'

/-- The column of an offset, counted from one: what stands between it and the line break before
it. -/
def columnAt (cs : List Char) (k : Nat) : Nat :=
  1 + ((cs.take k).reverse.takeWhile (· != '\n')).length

/-- The place of an offset. -/
def place (cs : List Char) (k : Nat) : Position := ⟨k, lineAt cs k, columnAt cs k⟩

end Text

open Text

/-- **What is counted** on the way through a text. -/
theorem Position.past_start (cs : List Char) :
    Position.start.past cs =
      ⟨cs.length, 1 + cs.count '\n', 1 + (cs.reverse.takeWhile (· != '\n')).length⟩ := by
  induction cs using List.reverseRecOn with
  | nil => rfl
  | append_singleton cs c ih =>
    rw [past_append, ih, past_cons, past_nil, next]
    by_cases hc : c = '\n'
    · simp [hc, Nat.add_assoc]
    · simp [hc, Nat.add_comm]

theorem Position.past_take {cs : List Char} {k : Nat} (hk : k ≤ cs.length) :
    Position.start.past (cs.take k) = place cs k := by
  rw [past_start, List.length_take, Nat.min_eq_left hk]
  rfl

namespace Cursor

variable {cs w : List Char} {c d e : Cursor}

/-! ### Moving by passing characters -/

/-- **One cursor leads to another**: it gets there by passing some characters. -/
def Leads (c d : Cursor) : Prop := ∃ w, Passes c w d

theorem Leads.refl (c : Cursor) : Leads c c := ⟨[], .refl c⟩

theorem Leads.trans (h : Leads c d) (h' : Leads d e) : Leads c e := by
  obtain ⟨w, hw⟩ := h
  obtain ⟨w', hw'⟩ := h'
  exact ⟨w ++ w', hw.trans hw'⟩

theorem leads_skip (c : Cursor) (n : Nat) : Leads c (c.skip n) := ⟨_, passes_skip c n⟩

theorem leads_skipBlanks (c : Cursor) : Leads c c.skipBlanks := leads_skip c _

/-! ### Cursors on a text -/

/-- **A cursor on a text** has the rest of the text ahead, and its own place there. -/
structure On (cs : List Char) (c : Cursor) : Prop where
  le : c.position.offset ≤ cs.length
  rest : c.rest = cs.drop c.position.offset
  position : c.position = place cs c.position.offset

theorem on_ofList (cs : List Char) : On cs (ofList cs) where
  le := Nat.zero_le _
  rest := rfl
  position := Position.past_take (Nat.zero_le _)

/-- What a cursor passes stands in the text between its two places. -/
theorem On.take_of_passes (hc : On cs c) (h : Passes c w d) :
    cs.take d.position.offset = cs.take c.position.offset ++ w := by
  rw [h.offset, List.take_add, ← hc.rest, h.rest, List.take_left]

theorem On.passes (hc : On cs c) (h : Passes c w d) : On cs d := by
  -- what was passed was ahead, so the cursor is still inside the text
  have hle : d.position.offset ≤ cs.length := by
    have hlen := congrArg List.length (hc.rest.symm.trans h.rest)
    rw [List.length_drop, List.length_append] at hlen
    have hoff := h.offset
    have := hc.le
    omega
  refine ⟨hle, ?_, ?_⟩
  · rw [h.offset, ← List.drop_drop, ← hc.rest, h.rest, List.drop_left]
  · rw [← Position.past_take hle, hc.take_of_passes h, Position.past_append,
      Position.past_take hc.le, ← hc.position]
    exact h.position

theorem On.slice (hc : On cs c) (h : Passes c w d) :
    (cs.take d.position.offset).drop c.position.offset = w := by
  rw [hc.take_of_passes h, List.drop_left']
  rw [List.length_take, Nat.min_eq_left hc.le]

theorem On.offset_of_end (hc : On cs c) (h : c.rest = []) : c.position.offset = cs.length := by
  have hle : cs.length ≤ c.position.offset := List.drop_eq_nil_iff.mp (hc.rest.symm.trans h)
  exact Nat.le_antisymm hc.le hle

theorem On.leads (hc : On cs c) (h : Leads c d) : On cs d := by
  obtain ⟨w, hw⟩ := h
  exact hc.passes hw

theorem Leads.offset_le (h : Leads c d) : c.position.offset ≤ d.position.offset := by
  obtain ⟨w, hw⟩ := h
  rw [hw.offset]
  exact Nat.le_add_right _ _

theorem Leads.offset_lt (h : Leads c d) (hlt : d.rest.length < c.rest.length) :
    c.position.offset < d.position.offset := by
  obtain ⟨w, hw⟩ := h
  rw [hw.rest, List.length_append] at hlt
  rw [hw.offset]
  omega

end Cursor

/-! ### Every reader passes characters -/

open Cursor

theorem leads_readValue (c : Cursor) : Leads c (readValue c).cursor := by
  unfold readValue
  split
  · split
    · exact leads_skip c _
    · exact leads_skip c _
  · exact .refl c

theorem leads_readAttribute {c : Cursor} {s : Scan Attribute} (h : readAttribute c = some s) :
    Leads c s.cursor := by
  have hname : Leads c (c.skip (c.rest.takeWhile isAttributeChar).length).skipBlanks :=
    (leads_skip c _).trans (leads_skipBlanks _)
  unfold readAttribute at h
  dsimp only at h
  split at h
  · exact absurd h (by simp)
  split at h
  · cases h
    refine hname.trans ?_
    exact (leads_skip _ 1).trans ((leads_skipBlanks _).trans (leads_readValue _))
  · cases h
    exact hname

theorem leads_readAttributes (tag : String) (seen : List String) (c : Cursor) :
    Leads c (readAttributes tag seen c).cursor := by
  fun_induction readAttributes tag seen c with
  | case1 seen c hnone => exact leads_skipBlanks c
  | case2 seen c s hsome hlt more ih =>
    exact (leads_skipBlanks c).trans ((leads_readAttribute hsome).trans ih)

theorem leads_tagAttributes (c : Cursor) : Leads c (tagAttributes c).cursor :=
  (leads_skip c _).trans (leads_readAttributes _ _ _)

/-- **Every reader passes characters**, also where it remarks on a fault. -/
theorem leads_readPiece (c : Cursor) : Leads c (readPiece c).cursor := by
  rcases readPiece_cases c with ⟨-, h⟩ | ⟨-, h⟩ | ⟨-, h⟩ | ⟨-, h⟩
  · have hend : Leads c (closingEnd c) := (leads_skip c _).trans (leads_skipBlanks _)
    rw [h]
    rcases readClosing_cases c with ⟨r, -, hc⟩ | ⟨-, hc⟩
    · rw [hc]
      exact hend.trans (leads_skip _ 1)
    · rw [hc]
      exact hend
  · rw [h]
    exact leads_skip c _
  · rw [h]
    rcases readTag_cases c with ⟨-, hc⟩ | ⟨-, r, -, hc⟩ | ⟨-, r, -, hc⟩ | ⟨-, -, -, hc⟩
    · rw [hc]
      exact leads_skip c 1
    · rw [hc]
      exact (leads_tagAttributes c).trans (leads_skip _ 2)
    · rw [hc]
      exact (leads_tagAttributes c).trans (leads_skip _ 1)
    · rw [hc]
      exact leads_tagAttributes c
  · rw [h]
    exact leads_skip c _

end MiniTemplate
