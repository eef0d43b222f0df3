import MiniTemplate.Cursor.Call
import MiniTemplate.Proofs.Place

/-!
# Sessions with a cursor

Whoever steers a cursor by calls may ask anything at any time: look far ahead or far back, go on
at the end of the text, skip blanks where there are none. Whatever was asked before, the cursor is
on its text after each call (`MiniTemplate.Cursor.On`), and nothing of the text is lost on the way:
the characters that were given out one by one and those that were skipped, put together, are the
text up to the cursor.

What a call takes from the text is said without the cursor's own account of it
(`MiniTemplate.Cursor.taken`): an advance takes the character that it answers with, and a skip what
stands in the text between the offsets before and after it.

## Main statements

* `MiniTemplate.Cursor.on_session`: what holds after each call of a session.
-/

namespace MiniTemplate.Cursor

open Text

variable {cs : List Char} {c : Cursor}

/-! ### What calls take from a text -/

/-- What a call takes from the text, by its answer and by what stands between the two places of
the cursor. -/
def Call.taken (between : List Char) : Call → Answer → List Char
  | .advance, .char x => x.toList
  | .skipBlanks, _ => between
  | _, _ => []

/-- **What the calls of a session take** from the text `cs`, from the offset `k` on. -/
def taken (cs : List Char) (k : Nat) : List Call → List (Answer × Cursor) → List Char
  | q :: qs, (a, d) :: s =>
    q.taken ((cs.take d.position.offset).drop k) a ++ taken cs d.position.offset qs s
  | _, _ => []

/-! ### One call -/

/-- A call moves the cursor by passing characters, if at all. -/
theorem leads_after (c : Cursor) (q : Call) : Leads c (c.after q) := by
  cases q with
  | advance => exact leads_skip c 1
  | skipBlanks => exact leads_skipBlanks c
  | current => exact .refl c
  | peek n => exact .refl c
  | startsWith s => exact .refl c
  | atEnd => exact .refl c
  | position => exact .refl c

theorem after_of_looking {q : Call} (hadvance : q ≠ .advance) (hskip : q ≠ .skipBlanks)
    (c : Cursor) : c.after q = c := by
  cases q with
  | advance => exact absurd rfl hadvance
  | skipBlanks => exact absurd rfl hskip
  | _ => rfl

/-- **A call takes what the cursor passes**, no more and no less. -/
theorem On.taken_after (hc : On cs c) (q : Call) :
    q.taken ((cs.take (c.after q).position.offset).drop c.position.offset) (c.answer q) =
      (cs.take (c.after q).position.offset).drop c.position.offset := by
  -- a call that only looks leaves nothing between the two places
  have hnone : (cs.take c.position.offset).drop c.position.offset = [] :=
    List.drop_eq_nil_of_le (List.length_take_le _ _)
  cases q with
  | advance =>
    have hslice := hc.slice (passes_skip c 1)
    rw [after, advance, hslice, answer, Call.taken, current?, List.take_one]
  | skipBlanks => rfl
  | current => exact hnone.symm
  | peek n => exact hnone.symm
  | startsWith s => exact hnone.symm
  | atEnd => exact hnone.symm
  | position => exact hnone.symm

theorem passes_skipBlanks (c : Cursor) : Passes c (c.rest.takeWhile isBlank) c.skipBlanks :=
  passes_skip_length (run_takeWhile isBlank c.rest).split

/-- **A skip stops at the first character that is not blank**, or at the end: what it passes is
blank, and what it comes to is not. -/
theorem On.stops_skipBlanks (hc : On cs c) :
    (∀ x ∈ (cs.take c.skipBlanks.position.offset).drop c.position.offset, isBlank x) ∧
      ∀ x ∈ cs[c.skipBlanks.position.offset]?, isBlank x = false := by
  have hon : On cs c.skipBlanks := hc.passes (passes_skipBlanks c)
  constructor
  · rw [hc.slice (passes_skipBlanks c)]
    exact (run_takeWhile isBlank c.rest).all
  · rw [← List.head?_drop, ← hon.rest, rest_skipBlanks]
    exact stops_dropWhile isBlank c.rest

/-! ### Many calls -/

theorem session_append (c : Cursor) (qs rs : List Call) :
    c.session (qs ++ rs) = c.session qs ++ (qs.foldl after c).session rs := by
  induction qs generalizing c with
  | nil => rfl
  | cons q qs ih => rw [List.cons_append, session, ih, session, List.foldl_cons, List.cons_append]

theorem length_session (c : Cursor) (qs : List Call) : (c.session qs).length = qs.length := by
  induction qs generalizing c with
  | nil => rfl
  | cons q qs ih => rw [session, List.length_cons, ih, List.length_cons]

/-- The last cursor of a session is where its calls lead. -/
theorem getLastD_session (c : Cursor) (qs : List Call) :
    ((c.session qs).map Prod.snd).getLastD c = qs.foldl after c := by
  induction qs generalizing c with
  | nil => rfl
  | cons q qs ih => rw [session, List.map_cons, List.getLastD_cons, ih, List.foldl_cons]

theorem On.foldl_after (hc : On cs c) (qs : List Call) : On cs (qs.foldl after c) := by
  induction qs generalizing c with
  | nil => exact hc
  | cons q qs ih => exact ih (hc.leads (leads_after c q))

/-- **Nothing is lost**: what lies before a cursor, and what the calls of a session take, is what
lies before the cursor in the end. -/
theorem On.taken_session (hc : On cs c) (qs : List Call) :
    cs.take c.position.offset ++ taken cs c.position.offset qs (c.session qs) =
      cs.take (qs.foldl after c).position.offset := by
  induction qs generalizing c with
  | nil => exact List.append_nil _
  | cons q qs ih =>
    have hle : c.position.offset ≤ (c.after q).position.offset := (leads_after c q).offset_le
    have hcut : (cs.take (c.after q).position.offset).take c.position.offset =
        cs.take c.position.offset := by rw [List.take_take, Nat.min_eq_left hle]
    have hstep : cs.take c.position.offset ++
        (cs.take (c.after q).position.offset).drop c.position.offset =
          cs.take (c.after q).position.offset := by
      rw [← hcut, List.take_append_drop]
    rw [session, taken, hc.taken_after, ← List.append_assoc, hstep,
      ih (hc.leads (leads_after c q)), List.foldl_cons]

/-- **Every session keeps its cursor on the text.** Take any calls on a cursor that begins at the
start of a text, and one of them, `q`, which finds the cursor `b`, is answered by `a` and leaves the
cursor `c`. Then the offset of `c` lies in the text, and its line and column are those of the
offset. What the calls up to this one have taken, put together, is the text up to `c`. If `q` skips
blanks, it has passed nothing but blanks and stopped at a character that is none, or at the end; if
it neither advances nor skips, the cursor is the one it found. -/
theorem on_session (text : String) (earlier later : List Call) (q : Call) :
    ∃ s a c s', (ofString text).session (earlier ++ q :: later) = s ++ (a, c) :: s' ∧
      s.length = earlier.length ∧
      c.position.offset ≤ text.toList.length ∧
      c.position.line = 1 + (text.toList.take c.position.offset).count '\n' ∧
      c.position.column =
        1 + ((text.toList.take c.position.offset).reverse.takeWhile (· != '\n')).length ∧
      taken text.toList 0 (earlier ++ [q]) (s ++ [(a, c)]) =
        text.toList.take c.position.offset ∧
      ∃ b, b = (s.map Prod.snd).getLastD (ofString text) ∧
        (q = .skipBlanks →
          (∀ x ∈ (text.toList.take c.position.offset).drop b.position.offset, isBlank x) ∧
            ∀ x ∈ text.toList[c.position.offset]?, isBlank x = false) ∧
        (q ≠ .advance → q ≠ .skipBlanks → c = b) := by
  let b := earlier.foldl after (ofString text)
  have hb : On text.toList b := (on_ofList text.toList).foldl_after earlier
  have hc : On text.toList (b.after q) := hb.leads (leads_after b q)
  have hsession : (ofString text).session (earlier ++ [q]) =
      (ofString text).session earlier ++ [(b.answer q, b.after q)] :=
    session_append _ _ _
  refine ⟨(ofString text).session earlier, b.answer q, b.after q, (b.after q).session later,
    session_append _ _ _, length_session _ _, hc.le, ?_, ?_, ?_, b,
    (getLastD_session _ _).symm, ?_, ?_⟩
  · exact congrArg Position.line hc.position
  · exact congrArg Position.column hc.position
  · have htaken := (on_ofList text.toList).taken_session (earlier ++ [q])
    rw [List.foldl_append] at htaken
    rw [← hsession]
    exact htaken
  · rintro rfl
    exact hb.stops_skipBlanks
  · intro hadvance hskip
    exact after_of_looking hadvance hskip b

end MiniTemplate.Cursor
