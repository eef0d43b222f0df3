import MiniTemplate.Proofs.Piece
import MiniTemplate.Reading.Template

/-!
# How a reading goes on

A reading is a run of steps followed by the ending of what is still open. This file gives
the two inductions along it (`MiniTemplate.Progress.run_induction` and
`MiniTemplate.Progress.finish_induction`), the equations of one step for each kind of piece,
and a small algebra of states: a state that has gone on to a cursor
(`MiniTemplate.Progress.onTo`), one that has finished some nodes
(`MiniTemplate.Progress.addAll`), and one with a frame more (`MiniTemplate.Progress.push`).

These three commute as far as they should, so a stretch of a reading can be written as what
it adds to a state, whatever that state is.
-/

namespace MiniTemplate.Progress

variable {limit : Int} {p : Progress}

/-! ### Runs -/

theorem skipBlanks_skipBlanks (p : Progress) : p.skipBlanks.skipBlanks = p.skipBlanks := by
  simp [skipBlanks]

theorem run_of_end (h : p.skipBlanks.cursor.rest = []) : p.run limit = p.skipBlanks := by
  rw [run, dif_pos h]

theorem run_of_rest (h : p.skipBlanks.cursor.rest ≠ []) :
    p.run limit = (p.skipBlanks.step limit).run limit := by
  rw [run, dif_neg h]

theorem run_skipBlanks (limit : Int) (p : Progress) : p.skipBlanks.run limit = p.run limit := by
  by_cases h : p.skipBlanks.cursor.rest = []
  · rw [run_of_end h, run_of_end (by rw [skipBlanks_skipBlanks]; exact h), skipBlanks_skipBlanks]
  · rw [run_of_rest h, run_of_rest (by rw [skipBlanks_skipBlanks]; exact h), skipBlanks_skipBlanks]

/-- A step begins on a character that is not blank. -/
theorem exists_rest_skipBlanks (h : p.skipBlanks.cursor.rest ≠ []) :
    ∃ a t, p.skipBlanks.cursor.rest = a :: t ∧ Text.isBlank a = false := by
  obtain ⟨a, t, hat⟩ := List.exists_cons_of_ne_nil h
  refine ⟨a, t, hat, ?_⟩
  have hrest : p.skipBlanks.cursor.rest = p.cursor.rest.dropWhile Text.isBlank :=
    Cursor.rest_skipBlanks _
  refine Text.stops_dropWhile Text.isBlank p.cursor.rest a ?_
  rw [← hrest, hat]
  rfl

/-- **Induction along a run**: what passing blanks keeps and a step keeps, a run keeps. -/
theorem run_induction {motive : Progress → Prop} (blanks : ∀ p, motive p → motive p.skipBlanks)
    (step : ∀ p a t, p.cursor.rest = a :: t → Text.isBlank a = false → motive p →
      motive (p.step limit))
    (p : Progress) (h : motive p) : motive (p.run limit) := by
  fun_induction run limit p with
  | case1 p hend => exact blanks p h
  | case2 p hrest hlt ih =>
    obtain ⟨a, t, hat, ha⟩ := exists_rest_skipBlanks hrest
    exact ih (step _ a t hat ha (blanks p h))

/-- **Induction along the ending** of the open elements. -/
theorem finish_induction {motive : Progress → Prop}
    (ending : ∀ p f fs, p.frames = f :: fs → motive p → motive (p.endElement f fs))
    (p : Progress) (h : motive p) : motive p.finish := by
  fun_induction finish p with
  | case1 p hnil => exact h
  | case2 p f fs hfs hlt ih => exact ih (ending p f fs hfs h)

theorem finish_of_nil (h : p.frames = []) : p.finish = p := by
  rw [finish]
  split
  · rfl
  · rename_i f fs hfs
    rw [h] at hfs
    exact absurd hfs (by simp)

theorem finish_of_cons {f : Frame} {fs : List Frame} (h : p.frames = f :: fs) :
    p.finish = (p.endElement f fs).finish := by
  conv_lhs => rw [finish]
  split
  · rename_i hnil
    rw [h] at hnil
    exact absurd hnil (by simp)
  · rename_i f' fs' hfs
    rw [h, List.cons.injEq] at hfs
    rw [hfs.1, hfs.2]

/-! ### One step, by the piece it reads -/

theorem step_none (h : (readPiece p.cursor).value = none) :
    p.step limit = p.follow (readPiece p.cursor) := by
  simp only [step, h]

theorem step_leaf {n : Node} (h : (readPiece p.cursor).value = some (.leaf n)) :
    p.step limit = (p.follow (readPiece p.cursor)).add n := by
  simp only [step, h]

theorem step_opening {name : String} {as : List Attribute} {start : Position}
    (h : (readPiece p.cursor).value = some (.opening name as start)) :
    p.step limit = (p.follow (readPiece p.cursor)).openElement limit name as start := by
  simp only [step, h]

theorem step_closing {name : String} {start : Position}
    (h : (readPiece p.cursor).value = some (.closing name start)) :
    p.step limit = (p.follow (readPiece p.cursor)).closeElement name start := by
  simp only [step, h]

theorem closeElement_of_nil (h : p.frames = []) (name : String) (start : Position) :
    p.closeElement name start = p.fault start (.unexpectedClosing name) := by
  simp only [closeElement, h]

theorem closeElement_of_cons {f : Frame} {fs : List Frame} (h : p.frames = f :: fs)
    (name : String) (start : Position) :
    p.closeElement name start =
      { if name = f.name then p else p.fault start (.mismatchedClosing f.name name) with
        frames := fs }.add (f.toNode p.cursor.position.offset) := by
  simp only [closeElement, h]

/-! ### Fields of a state -/

@[simp] theorem faults_add (p : Progress) (n : Node) : (p.add n).faults = p.faults := by
  unfold add; split <;> rfl

@[simp] theorem cautions_add (p : Progress) (n : Node) : (p.add n).cautions = p.cautions := by
  unfold add; split <;> rfl

@[simp] theorem truncated_add (p : Progress) (n : Node) : (p.add n).truncated = p.truncated := by
  unfold add; split <;> rfl

@[simp] theorem frames_skipBlanks (p : Progress) : p.skipBlanks.frames = p.frames := rfl

@[simp] theorem cursor_skipBlanks (p : Progress) :
    p.skipBlanks.cursor = p.cursor.skipBlanks := rfl

/-- Adding a node changes no open element but for its children. -/
@[simp] theorem names_add (p : Progress) (n : Node) :
    (p.add n).frames.map Frame.name = p.frames.map Frame.name := by
  unfold add
  split
  · rename_i f fs hfs
    simp [hfs]
  · rfl

/-! ### Remarks are never taken back -/

theorem faults_openElement (p : Progress) (name : String) (as : List Attribute)
    (start : Position) : p.faults <+: (p.openElement limit name as start).faults := by
  unfold openElement
  split
  · exact List.prefix_append _ _
  · exact List.prefix_rfl

theorem faults_closeElement (p : Progress) (name : String) (start : Position) :
    p.faults <+: (p.closeElement name start).faults := by
  unfold closeElement
  split
  · exact List.prefix_append _ _
  · rw [faults_add]
    split
    · exact List.prefix_rfl
    · exact List.prefix_append _ _

theorem faults_step (limit : Int) (p : Progress) :
    p.faults ++ (readPiece p.cursor).faults <+: (p.step limit).faults := by
  cases h : (readPiece p.cursor).value with
  | none =>
    rw [step_none h]
    exact List.prefix_rfl
  | some x =>
    cases x with
    | leaf n =>
      rw [step_leaf h, faults_add]
      exact List.prefix_rfl
    | opening name as start =>
      rw [step_opening h]
      exact faults_openElement (p.follow (readPiece p.cursor)) name as start
    | closing name start =>
      rw [step_closing h]
      exact faults_closeElement (p.follow (readPiece p.cursor)) name start

theorem faults_readPiece_of_step (h : (p.step limit).faults = []) :
    p.faults = [] ∧ (readPiece p.cursor).faults = [] := by
  have hprefix := faults_step limit p
  rw [h] at hprefix
  exact List.append_eq_nil_iff.mp (List.prefix_nil.mp hprefix)

theorem faults_run (limit : Int) (p : Progress) : p.faults <+: (p.run limit).faults := by
  refine run_induction (motive := fun q => p.faults <+: q.faults) ?_ ?_ p List.prefix_rfl
  · intro q hq
    exact hq
  · intro q a t _ _ hq
    exact hq.trans ((List.prefix_append _ _).trans (faults_step limit q))

theorem faults_endElement (p : Progress) (f : Frame) (fs : List Frame) :
    (p.endElement f fs).faults = p.faults := by
  unfold endElement
  rw [faults_add]
  split <;> rfl

theorem faults_finish (p : Progress) : p.finish.faults = p.faults := by
  refine finish_induction (motive := fun q => q.faults = p.faults) ?_ p rfl
  intro q f fs _ hq
  rw [faults_endElement, hq]

theorem cautions_endElement (p : Progress) (f : Frame) (fs : List Frame) :
    (p.endElement f fs).cautions =
      p.cautions ++ if p.truncated then [] else [⟨p.cursor.position, .unclosed f.name⟩] := by
  unfold endElement
  rw [cautions_add]
  split <;> simp [caution]

theorem cautions_finish (p : Progress) : p.cautions <+: p.finish.cautions := by
  refine finish_induction (motive := fun q => p.cautions <+: q.cautions) ?_ p List.prefix_rfl
  intro q f fs _ hq
  rw [cautions_endElement]
  exact hq.trans (List.prefix_append _ _)

/-- What a step remarks on shows in the end. -/
theorem faults_of_step (limit : Int) (p : Progress) :
    (p.step limit).faults <+: ((p.step limit).run limit).finish.faults := by
  rw [faults_finish]
  exact faults_run limit _

/-! ### States that go on -/

/-- The state that has come to the cursor `d` with the cautions `cs` more. -/
def onTo (p : Progress) (d : Cursor) (cs : List (Located Caution)) : Progress :=
  { p with cursor := d, cautions := p.cautions ++ cs }

/-- The state that has finished the nodes `ns`, in this order. -/
def addAll (p : Progress) (ns : List Node) : Progress := ns.foldl add p

/-- The state with one more open element. -/
def push (p : Progress) (f : Frame) : Progress := { p with frames := f :: p.frames }

@[simp] theorem addAll_nil (p : Progress) : p.addAll [] = p := rfl

@[simp] theorem addAll_cons (p : Progress) (n : Node) (ns : List Node) :
    p.addAll (n :: ns) = (p.add n).addAll ns := rfl

@[simp] theorem cursor_onTo (p : Progress) (d : Cursor) (cs : List (Located Caution)) :
    (p.onTo d cs).cursor = d := rfl

@[simp] theorem frames_onTo (p : Progress) (d : Cursor) (cs : List (Located Caution)) :
    (p.onTo d cs).frames = p.frames := rfl

@[simp] theorem frames_push (p : Progress) (f : Frame) : (p.push f).frames = f :: p.frames := rfl

theorem onTo_onTo (p : Progress) (d e : Cursor) (cs ds : List (Located Caution)) :
    (p.onTo d cs).onTo e ds = p.onTo e (cs ++ ds) := by
  simp [onTo]

theorem skipBlanks_eq_onTo (p : Progress) : p.skipBlanks = p.onTo p.cursor.skipBlanks [] := by
  simp [skipBlanks, onTo]

theorem follow_eq_onTo {α : Type} {s : Scan α} (p : Progress) (h : s.faults = []) :
    p.follow s = p.onTo s.cursor s.cautions := by
  simp [follow, onTo, h]

theorem add_onTo (p : Progress) (d : Cursor) (cs : List (Located Caution)) (n : Node) :
    (p.onTo d cs).add n = (p.add n).onTo d cs := by
  unfold add
  rw [frames_onTo]
  split <;> rfl

theorem addAll_onTo (p : Progress) (d : Cursor) (cs : List (Located Caution)) (ns : List Node) :
    (p.onTo d cs).addAll ns = (p.addAll ns).onTo d cs := by
  induction ns generalizing p with
  | nil => rfl
  | cons n ns ih => rw [addAll_cons, add_onTo, ih, addAll_cons]

theorem push_onTo (p : Progress) (d : Cursor) (cs : List (Located Caution)) (f : Frame) :
    (p.onTo d cs).push f = (p.push f).onTo d cs := rfl

theorem addAll_push (p : Progress) (f : Frame) (ns : List Node) :
    (p.push f).addAll ns = p.push { f with children := ns.reverse ++ f.children } := by
  induction ns generalizing f with
  | nil => rfl
  | cons n ns ih =>
    have hadd : (p.push f).add n = p.push { f with children := n :: f.children } := rfl
    rw [addAll_cons, hadd, ih]
    simp

/-- Opening an element within the limit. -/
theorem openElement_of_lt {name : String} {as : List Attribute} {start : Position}
    (h : (p.frames.length : Int) < limit) :
    p.openElement limit name as start = p.push ⟨name, as, start, []⟩ := by
  rw [openElement, if_neg (by omega)]
  rfl

/-- An element that is opened without a fault is not one too many. -/
theorem length_lt_of_openElement {name : String} {as : List Attribute} {start : Position}
    (h : (p.openElement limit name as start).faults = []) : (p.frames.length : Int) < limit := by
  by_contra hlt
  rw [openElement, if_pos (Int.not_lt.mp hlt)] at h
  exact absurd h (by simp [fault])

/-- Closing the innermost element by its name. -/
theorem closeElement_push (p : Progress) (f : Frame) (start : Position) :
    (p.push f).closeElement f.name start = p.add (f.toNode p.cursor.position.offset) := by
  simp only [closeElement, frames_push, if_true]
  rfl

/-- At the top level the nodes become roots. -/
theorem roots_addAll (h : p.frames = []) (ns : List Node) :
    (p.addAll ns).roots = ns.reverse ++ p.roots ∧ (p.addAll ns).frames = [] := by
  induction ns generalizing p with
  | nil => exact ⟨rfl, h⟩
  | cons n ns ih =>
    have hadd : p.add n = { p with roots := n :: p.roots } := by rw [add, h]
    have hframes : (p.add n).frames = [] := by rw [hadd]; exact h
    obtain ⟨hroots, hfs⟩ := ih hframes
    refine ⟨?_, hfs⟩
    rw [addAll_cons, hroots, hadd]
    simp

@[simp] theorem faults_addAll (p : Progress) (ns : List Node) :
    (p.addAll ns).faults = p.faults := by
  induction ns generalizing p with
  | nil => rfl
  | cons n ns ih => rw [addAll_cons, ih, faults_add]

@[simp] theorem cautions_addAll (p : Progress) (ns : List Node) :
    (p.addAll ns).cautions = p.cautions := by
  induction ns generalizing p with
  | nil => rfl
  | cons n ns ih => rw [addAll_cons, ih, cautions_add]

end MiniTemplate.Progress
