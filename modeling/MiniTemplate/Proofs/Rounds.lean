import MiniTemplate.Proofs.Completion

/-!
# Rounds of a reading

A reading is a loop: pass the blanks, stop if the text has ended, and otherwise read a piece. Inside
it stands the loop that reads the attributes of a tag. Neither of them looks for a place to go on
after a mistake; each goes on where the last reader has stopped. So a reader that stops where it has
begun would be called again and again on the same place.

No round does that (`MiniTemplate.Progress.offset_lt_of_round?` and
`MiniTemplate.offset_lt_of_attributeRound?`): the cursor is further on after each of them, also
after a `<` without a name, a tag that does not end, and a closing tag of nothing. Then a loop has
at most as many rounds as the cursor has passed characters (`MiniTemplate.Loops.length_le`).

Loops are spelled out as lists of the states that their rounds leave (`MiniTemplate.Loops`). That
the functions that read are these loops is shown by their recursions
(`MiniTemplate.Progress.exists_loops_run` and `MiniTemplate.exists_loops_readAttributes`).

## Main statements

* `MiniTemplate.Template.rounds_read`: a reading has no more rounds than its text has characters,
  and ends at the end of the text.
-/

namespace MiniTemplate

open Cursor

/-! ### Loops -/

section Loops

variable {σ : Type} {round : σ → Option σ} {s t : σ} {ts : List σ}

/-- **A loop** from the state `s` to the state `t`. Each round leaves a state of `ts`, in which the
next one begins; the round that begins in `t` ends the loop. -/
inductive Loops (round : σ → Option σ) : σ → List σ → σ → Prop
  | last {s : σ} : round s = none → Loops round s [] s
  | more {s t u : σ} {ts : List σ} : round s = some t → Loops round t ts u →
      Loops round s (t :: ts) u

/-- **A loop is short** if each of its rounds makes something greater. -/
theorem Loops.length_le (h : Loops round s ts t) (size : σ → Nat)
    (hround : ∀ s t, round s = some t → size s < size t) : size s + ts.length ≤ size t := by
  induction h with
  | last _ => exact Nat.le_refl _
  | @more s t u ts hs _ ih =>
    have hlt := hround s t hs
    rw [List.length_cons]
    omega

end Loops

/-! ### The attributes of a tag -/

/-- **One round of the attributes**: where the cursor is behind the next one, if there is one. -/
def attributeRound? (c : Cursor) : Option Cursor :=
  (readAttribute c.skipBlanks).map Scan.cursor

/-- **An attribute passes a character.** -/
theorem offset_lt_of_attributeRound? {c d : Cursor} (h : attributeRound? c = some d) :
    c.position.offset < d.position.offset := by
  obtain ⟨s, hs, rfl⟩ := Option.map_eq_some_iff.mp h
  have hlt : c.skipBlanks.position.offset < s.cursor.position.offset :=
    (leads_readAttribute hs).offset_lt (length_rest_readAttribute_lt hs)
  exact Nat.lt_of_le_of_lt (leads_skipBlanks c).offset_le hlt

/-- **The attributes of a tag are read by a loop**, one in each round. -/
theorem exists_loops_readAttributes (tag : String) (seen : List String) (c : Cursor) :
    ∃ ds d, Loops attributeRound? c ds d ∧
      ds.length = (readAttributes tag seen c).value.length ∧
      (readAttributes tag seen c).cursor = d.skipBlanks := by
  fun_induction readAttributes tag seen c with
  | case1 seen c hnone =>
    exact ⟨[], c, .last (by rw [attributeRound?, hnone, Option.map_none]), rfl, rfl⟩
  | case2 seen c s hsome hlt more ih =>
    obtain ⟨ds, d, hloops, hlength, hcursor⟩ := ih
    have hround : attributeRound? c = some s.cursor := by
      rw [attributeRound?, hsome, Option.map_some]
    exact ⟨s.cursor :: ds, d, .more hround hloops, congrArg Nat.succ hlength, hcursor⟩

/-! ### The pieces of a template -/

namespace Progress

variable {limit : Int} {p q : Progress}

/-- **One round of a reading**: the blanks are passed and, unless the text has ended there, a piece
is read and put in its place. -/
def round? (limit : Int) (p : Progress) : Option Progress :=
  if p.skipBlanks.cursor.atEnd then none else some (p.skipBlanks.step limit)

theorem round?_of_end (h : p.skipBlanks.cursor.rest = []) : p.round? limit = none := by
  rw [round?, Cursor.atEnd, h, List.isEmpty_nil, if_pos rfl]

theorem round?_of_rest (h : p.skipBlanks.cursor.rest ≠ []) :
    p.round? limit = some (p.skipBlanks.step limit) := by
  rw [round?, Cursor.atEnd, if_neg (by simpa using h)]

/-- **A round passes a character**, whatever it finds. -/
theorem offset_lt_of_round? (h : p.round? limit = some q) :
    p.cursor.position.offset < q.cursor.position.offset := by
  by_cases hrest : p.skipBlanks.cursor.rest = []
  · rw [round?_of_end hrest] at h
    exact absurd h (by simp)
  · obtain rfl : p.skipBlanks.step limit = q :=
      Option.some.inj ((round?_of_rest hrest).symm.trans h)
    have hstep := (leads_step limit p.skipBlanks).offset_lt (length_rest_step_lt limit hrest)
    exact Nat.lt_of_le_of_lt (leads_skipBlanks p.cursor).offset_le hstep

/-- **A run is a loop**: it ends with the blanks of its last round. -/
theorem exists_loops_run (limit : Int) (p : Progress) :
    ∃ ps q, Loops (round? limit) p ps q ∧ p.run limit = q.skipBlanks := by
  fun_induction run limit p with
  | case1 p hend => exact ⟨[], p, .last (round?_of_end hend), rfl⟩
  | case2 p hrest hlt ih =>
    obtain ⟨ps, q, hloops, hrun⟩ := ih
    exact ⟨p.skipBlanks.step limit :: ps, q, .more (round?_of_rest hrest) hloops, hrun⟩

@[simp] theorem cursor_finish (p : Progress) : p.finish.cursor = p.cursor := by
  refine finish_induction (motive := fun q => q.cursor = p.cursor) ?_ p rfl
  intro q f fs _ hq
  rw [cursor_endElement, hq]

end Progress

/-- **Reading always goes on, and comes to an end.** Every round of a reading that does not end it
takes the cursor further, from any state, and so does every round that adds an attribute to a tag;
the attributes of a tag are read in as many rounds as there are. So the reading of a text is a loop
of at most as many rounds as the text has characters, before the one that ends it, and in the end
the cursor is at the end of the text, whatever was remarked on. -/
theorem Template.rounds_read (limit : Int) (text : String) :
    (∀ p q : Progress, p.round? limit = some q →
      p.cursor.position.offset < q.cursor.position.offset) ∧
    (∀ c d : Cursor, attributeRound? c = some d → c.position.offset < d.position.offset) ∧
    (∀ (tag : String) (seen : List String) (c : Cursor), ∃ ds d, Loops attributeRound? c ds d ∧
      ds.length = (readAttributes tag seen c).value.length ∧
      (readAttributes tag seen c).cursor = d.skipBlanks) ∧
    ∃ ps p, Loops (Progress.round? limit) (.start (.ofString text)) ps p ∧
      ps.length ≤ text.length ∧
      read limit text = ofProgress p.skipBlanks.finish ∧
      p.skipBlanks.finish.cursor.atEnd ∧
      p.skipBlanks.finish.cursor.position.offset = text.length := by
  refine ⟨fun p q h => Progress.offset_lt_of_round? h,
    fun c d h => offset_lt_of_attributeRound? h, exists_loops_readAttributes, ?_⟩
  obtain ⟨ps, p, hloops, hrun⟩ := Progress.exists_loops_run limit (.start (.ofString text))
  -- the run ends where nothing is ahead, which is the end of the text
  have hend : p.skipBlanks.cursor.rest = [] := hrun ▸ Progress.rest_run limit _
  have hon : On text.toList p.skipBlanks.cursor :=
    hrun ▸ (on_ofList text.toList).leads (Progress.leads_run limit (.start (.ofString text)))
  have hoffset : p.skipBlanks.cursor.position.offset = text.length := by
    rw [hon.offset_of_end hend, String.length_toList]
  have hlength : ps.length ≤ p.cursor.position.offset := by
    have hle := hloops.length_le (fun q => q.cursor.position.offset)
      fun p q h => Progress.offset_lt_of_round? h
    exact Nat.le_trans (Nat.le_add_left _ _) hle
  refine ⟨ps, p, hloops, ?_, ?_, ?_, ?_⟩
  · exact hoffset ▸ Nat.le_trans hlength (leads_skipBlanks p.cursor).offset_le
  · rw [← hrun]
    rfl
  · rw [Progress.cursor_finish, Cursor.atEnd, hend, List.isEmpty_nil]
  · rw [Progress.cursor_finish, hoffset]

end MiniTemplate
