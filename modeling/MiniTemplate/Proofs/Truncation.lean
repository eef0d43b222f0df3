import MiniTemplate.Proofs.DocumentOrder
import MiniTemplate.Proofs.Extension
import MiniTemplate.Proofs.Proper

/-!
# What a limit cuts off

A text is read twice, with a limit and with a greater one. The two readings go step by step
through the same states, until one of them is *at its limit*
(`MiniTemplate.Progress.AtLimit`): what is read next opens one element too many for the smaller
limit. There the first reading is cut (`MiniTemplate.Progress.cut`). It makes the remark that
the nesting is too deep, passes over the rest of the text and ends what is open without
another word. The second reading goes on, and all that both have come to by then is a beginning
of what it gives (`MiniTemplate.Progress.run_of_le`).

If that never happens, the two readings are the same. Whether it has happened can be seen from
the remarks, because nothing else in a reading remarks on the nesting
(`MiniTemplate.Shallow`).

## Main statements

* `MiniTemplate.Template.read_of_limit_le`: a smaller limit only truncates.
-/

namespace MiniTemplate

open Text

/-! ### Remarks on the nesting -/

/-- **Shallow faults**: none of them says that the nesting is too deep. -/
def Shallow (es : List (Located Fault)) : Prop := ∀ e ∈ es, ∀ k, e.what ≠ .tooDeep k

theorem shallow_nil : Shallow [] := by
  simp [Shallow]

theorem Shallow.append {es fs : List (Located Fault)} (he : Shallow es) (hf : Shallow fs) :
    Shallow (es ++ fs) :=
  List.forall_mem_append.mpr ⟨he, hf⟩

theorem shallow_readValue (c : Cursor) : Shallow (readValue c).faults := by
  unfold readValue
  dsimp only
  split
  · split
    · split <;> simp [Shallow]
    · exact shallow_nil
  · exact shallow_nil

theorem shallow_readAttribute {c : Cursor} {s : Scan Attribute} (h : readAttribute c = some s) :
    Shallow s.faults := by
  rcases readAttribute_cases c with ⟨-, hc⟩ | ⟨-, r, -, hc⟩ | ⟨-, -, hc⟩
  · exact absurd (hc.symm.trans h) (by simp)
  · obtain rfl := Option.some.inj (hc.symm.trans h)
    exact shallow_readValue _
  · obtain rfl := Option.some.inj (hc.symm.trans h)
    exact shallow_nil

theorem shallow_readAttributes (tag : String) (seen : List String) (c : Cursor) :
    Shallow (readAttributes tag seen c).faults := by
  fun_induction readAttributes tag seen c with
  | case1 => exact shallow_nil
  | case2 seen c s hsome hlt more ih => exact (shallow_readAttribute hsome).append ih

/-- The readers of pieces know nothing of the nesting. -/
theorem shallow_readPiece (c : Cursor) : Shallow (readPiece c).faults := by
  rcases readPiece_cases c with ⟨-, h⟩ | ⟨⟨t, ht⟩, h⟩ | ⟨-, h⟩ | ⟨-, h⟩
  · rcases readClosing_cases c with ⟨r, -, hc⟩ | ⟨-, hc⟩ <;> simp [h, hc, Shallow]
  · obtain ⟨w, -, ⟨r, -, hc⟩ | ⟨-, hc⟩⟩ := readComment_cases ht <;> simp [h, hc, Shallow]
  · rw [h]
    rcases readTag_cases c with ⟨-, hc⟩ | ⟨-, r, -, hc⟩ | ⟨-, r, -, hc⟩ | ⟨-, -, -, hc⟩
    · simp [hc, Shallow]
    · rw [hc]
      exact shallow_readAttributes _ _ _
    · rw [hc]
      exact shallow_readAttributes _ _ _
    · rw [hc]
      exact (shallow_readAttributes _ _ _).append (by simp [Shallow])
  · simp [h, readText, Shallow]

namespace Progress

variable {limit limit' : Int} {p q : Progress}

theorem shallow_closeElement (h : Shallow p.faults) (name : String) (start : Position) :
    Shallow (p.closeElement name start).faults := by
  unfold closeElement
  split
  · exact h.append (by simp [Shallow])
  · rw [faults_add]
    split
    · exact h
    · exact h.append (by simp [Shallow])

/-! ### Cautions along a reading -/

/-- A step makes no caution of its own. -/
theorem cautions_step (limit : Int) (p : Progress) :
    (p.step limit).cautions = p.cautions ++ (readPiece p.cursor).cautions := by
  cases h : (readPiece p.cursor).value with
  | none =>
    rw [step_none h]
    rfl
  | some x =>
    cases x with
    | leaf n =>
      rw [step_leaf h, cautions_add]
      rfl
    | opening name as start =>
      rw [step_opening h, openElement]
      split <;> rfl
    | closing name start =>
      rw [step_closing h, closeElement]
      split
      · rfl
      · rw [cautions_add]
        split <;> rfl

theorem cautions_run (limit : Int) (p : Progress) : p.cautions <+: (p.run limit).cautions := by
  refine run_induction (motive := fun q => p.cautions <+: q.cautions) ?_ ?_ p List.prefix_rfl
  · intro q hq
    exact hq
  · intro q a t _ _ hq
    rw [cautions_step]
    exact hq.trans (List.prefix_append _ _)

/-- That an element is not closed is found when the text has ended, not before. -/
theorem quiet_run (limit : Int) (h : Quiet p.cautions) : Quiet (p.run limit).cautions := by
  refine run_induction (motive := fun q => Quiet q.cautions) ?_ ?_ p h
  · intro q hq
    exact hq
  · intro q a t _ _ hq
    rw [cautions_step]
    exact hq.append (quiet_readPiece _)

/-- Where the rest of the text was passed over, the elements that are open end silently. -/
theorem cautions_finish_of_truncated (h : p.truncated) : p.finish.cautions = p.cautions := by
  refine (finish_induction (motive := fun q => q.truncated ∧ q.cautions = p.cautions) ?_ p
    ⟨h, rfl⟩).2
  rintro q f fs - ⟨htr, hq⟩
  refine ⟨?_, ?_⟩
  · rw [endElement, if_pos htr, truncated_add]
    exact htr
  · rw [cautions_endElement, if_pos htr, List.append_nil, hq]

/-- **What a state has remarked on** and what its next piece remarks on shows in the end, with
any limit. -/
theorem remarks_finish_run (limit : Int) (h : p.skipBlanks.cursor.rest ≠ []) :
    p.faults ++ (readPiece p.skipBlanks.cursor).faults <+: (p.run limit).finish.faults ∧
      p.cautions ++ (readPiece p.skipBlanks.cursor).cautions <+:
        (p.run limit).finish.cautions := by
  rw [run_of_rest h]
  constructor
  · exact (faults_step limit p.skipBlanks).trans (faults_of_step limit _)
  · have hstep := cautions_step limit p.skipBlanks
    exact hstep ▸ (cautions_run limit _).trans (cautions_finish _)

/-! ### Where two limits differ -/

/-- **A state at its limit**: what is read next opens one element too many. -/
structure AtLimit (limit : Int) (p : Progress) : Prop where
  opening : ∃ name as start, (readPiece p.cursor).value = some (.opening name as start)
  full : limit ≤ p.frames.length

/-- **A reading that is cut**: it has remarked on the nesting and passed over the rest of the
text. -/
def cut (limit : Int) (p : Progress) : Progress :=
  { (p.follow (readPiece p.cursor)).fault (readPiece p.cursor).cursor.position
      (.tooDeep limit) with
    cursor := (readPiece p.cursor).cursor.skipAll
    truncated := true }

theorem AtLimit.step_eq (h : p.AtLimit limit) : p.step limit = p.cut limit := by
  obtain ⟨name, as, start, hv⟩ := h.opening
  have hfull : limit ≤ (p.follow (readPiece p.cursor)).frames.length := h.full
  rw [step_opening hv, openElement, if_pos hfull]
  rfl

theorem AtLimit.rest_ne_nil (h : p.AtLimit limit) : p.cursor.rest ≠ [] := by
  obtain ⟨name, as, start, hv⟩ := h.opening
  obtain ⟨⟨t, ht⟩, -⟩ := opening_of_readPiece hv
  simp [ht]

/-- **Elsewhere a step is the same with a greater limit**, and makes no remark on the nesting. -/
theorem step_of_not_atLimit (hle : limit ≤ limit') (h : ¬ p.AtLimit limit) :
    p.step limit' = p.step limit ∧ (Shallow p.faults → Shallow (p.step limit).faults) := by
  have hfollow : Shallow p.faults → Shallow (p.follow (readPiece p.cursor)).faults :=
    fun hp => hp.append (shallow_readPiece _)
  cases hv : (readPiece p.cursor).value with
  | none =>
    rw [step_none hv, step_none hv]
    exact ⟨rfl, hfollow⟩
  | some x =>
    cases x with
    | leaf n =>
      rw [step_leaf hv, step_leaf hv, faults_add]
      exact ⟨rfl, hfollow⟩
    | opening name as start =>
      have hlt : ((p.follow (readPiece p.cursor)).frames.length : Int) < limit :=
        Int.not_le.mp fun hfull => h ⟨⟨name, as, start, hv⟩, hfull⟩
      rw [step_opening hv, step_opening hv, openElement_of_lt hlt,
        openElement_of_lt (Int.lt_of_lt_of_le hlt hle)]
      exact ⟨rfl, hfollow⟩
    | closing name start =>
      rw [step_closing hv, step_closing hv]
      exact ⟨rfl, fun hp => shallow_closeElement (hfollow hp) name start⟩

/-- **Two limits**: the runs are the same and make no remark on the nesting, or they come to a
common state in which the smaller limit is reached. -/
theorem run_of_le (hle : limit ≤ limit') (p : Progress) (hp : Shallow p.faults) :
    (Shallow (p.run limit).faults ∧ p.run limit' = p.run limit) ∨
      ∃ q : Progress, q.skipBlanks.AtLimit limit ∧ Shallow q.faults ∧
        p.run limit = q.run limit ∧ p.run limit' = q.run limit' := by
  fun_induction run limit p with
  | case1 p hend =>
    rw [run_of_end hend]
    exact Or.inl ⟨hp, rfl⟩
  | case2 p hrest hlt ih =>
    by_cases hat : p.skipBlanks.AtLimit limit
    · exact Or.inr ⟨p, hat, hp, (run_of_rest hrest).symm, rfl⟩
    · obtain ⟨hstep, hshallow⟩ := step_of_not_atLimit hle hat
      rw [run_of_rest hrest, hstep]
      exact ih (hshallow hp)

theorem AtLimit.run_eq (h : q.skipBlanks.AtLimit limit) :
    q.run limit = (q.skipBlanks.cut limit).skipBlanks := by
  have hend : (q.skipBlanks.cut limit).skipBlanks.cursor.rest = [] := by
    rw [cursor_skipBlanks, Cursor.rest_skipBlanks, cut, Cursor.rest_skipAll]
    rfl
  rw [run_of_rest h.rest_ne_nil, h.step_eq, run_of_end hend]

/-- **What a reading that is cut gives**: the remark on the nesting comes last, and nothing else
is added to what it had come to. -/
theorem AtLimit.finish_run (h : q.skipBlanks.AtLimit limit) :
    (∃ place, (q.run limit).finish.faults =
      q.faults ++ (readPiece q.skipBlanks.cursor).faults ++ [⟨place, .tooDeep limit⟩]) ∧
    (q.run limit).finish.cautions =
      q.cautions ++ (readPiece q.skipBlanks.cursor).cautions ∧
    (q.run limit).finish.roll = q.roll := by
  rw [faults_finish, roll_finish, h.run_eq]
  exact ⟨⟨_, rfl⟩, cautions_finish_of_truncated rfl, rfl⟩

/-! ### How deep an element stands -/

/-- **Addresses within a limit**: no element of a roll that is not self-closing has an address
that is longer. -/
def Within (limit : Int) (xs : List (List Nat × Node)) : Prop :=
  ∀ is name as, (is, Node.element name as [] false none) ∈ xs → (is.length : Int) ≤ limit

theorem Within.append {xs ys : List (List Nat × Node)} (hx : Within limit xs)
    (hy : Within limit ys) : Within limit (xs ++ ys) := by
  intro is name as h
  rcases List.mem_append.mp h with h | h
  · exact hx is name as h
  · exact hy is name as h

/-- A leaf is not an element that could have been closed. -/
theorem leaf_ne_element {c : Cursor} {n : Node} (h : (readPiece c).value = some (.leaf n))
    (name : String) (as : List Attribute) : n.bare ≠ .element name as [] false none := by
  rcases readPiece_cases c with ⟨-, hp⟩ | ⟨⟨t, ht⟩, hp⟩ | ⟨-, hp⟩ | ⟨-, hp⟩
  · rcases readClosing_cases c with ⟨r, -, hc⟩ | ⟨-, hc⟩ <;> simp [hp, hc] at h
  · obtain ⟨w, -, ⟨r, -, hc⟩ | ⟨-, hc⟩⟩ := readComment_cases ht <;> simp [hp, hc] at h
    · simp [← h, Node.bare]
    · simp [← h, Node.bare]
  · rw [hp] at h
    rcases readTag_cases c with ⟨-, hc⟩ | ⟨-, r, -, hc⟩ | ⟨-, r, -, hc⟩ | ⟨-, -, -, hc⟩ <;>
      simp [hc] at h
    simp [← h, Node.bare]
  · simp only [hp, readText, Option.some.injEq, Piece.leaf.injEq] at h
    simp [← h, Node.bare]

/-- **No element is deeper than the limit**, in the roll of a whole reading. -/
theorem within_finish (limit : Int) (c : Cursor) :
    Within limit ((Progress.start c).run limit).finish.roll := by
  refine reading_induction (motive := fun q => Within limit q.roll) ?_ ?_ ?_ ?_ ?_ _ ?_
  · rintro q ⟨_, _, _, _, _, _⟩ rfl rfl rfl hq
    exact hq
  · intro q d _ hq
    exact hq
  · intro q a t n hat ha hv hq
    rw [roll_add, Node.roll_eq, (proper_leaf hat ha hv).2]
    refine hq.append ?_
    intro is name as hmem
    obtain ⟨-, hn⟩ := Prod.mk.inj (List.mem_singleton.mp hmem)
    exact absurd hn.symm (leaf_ne_element hv name as)
  · intro q name as start _ hlt _ hq
    rw [roll_push _ rfl]
    refine hq.append ?_
    intro is name' as' hmem
    obtain ⟨rfl, -⟩ := Prod.mk.inj (List.mem_singleton.mp hmem)
    rw [length_seat]
    change ((q.frames.length + 1 : Nat) : Int) ≤ limit
    omega
  · intro q f fs hfs hq
    rw [roll_ending hfs]
    exact hq
  · intro is name as hmem
    exact absurd hmem (by simp [roll, rollFrom, start])

end Progress

namespace Template

open Progress

theorem roll_read (limit : Int) (text : String) :
    (read limit text).forest.roll =
      ((Progress.start (Cursor.ofList text.toList)).run limit).finish.roll :=
  (roll_of_nil (frames_finish _)).symm

/-- **A smaller limit only truncates.** If no fault says that the nesting is too deep, then a
greater limit gives the same template. Otherwise one fault says so, and it is the last. The
faults before it, the cautions and the nodes in document order, each with its address, are
the first of those with the greater limit, and so are the nodes of a walk; no caution says that an
element is not closed. In both cases an element that is not self-closing stands in fewer elements
than the limit says. -/
theorem read_of_limit_le (limit limit' : Int) (text : String) (hle : limit ≤ limit') :
    (Shallow (read limit text).faults ∧ read limit' text = read limit text ∨
      ∃ es place, (read limit text).faults = es ++ [⟨place, .tooDeep limit⟩] ∧ Shallow es ∧
        es <+: (read limit' text).faults ∧
        (read limit text).cautions <+: (read limit' text).cautions ∧
        Quiet (read limit text).cautions ∧
        (read limit text).forest.roll <+: (read limit' text).forest.roll ∧
        (read limit text).forest.walk.map (fun x => x.1.bare) <+:
          (read limit' text).forest.walk.map fun x => x.1.bare) ∧
      ∀ i is name as children span,
        (read limit text).forest.node? i is = some (.element name as children false span) →
          (is.length : Int) ≤ max limit 0 - 1 := by
  refine ⟨?_, ?_⟩
  · rw [← Forest.map_snd_roll, ← Forest.map_snd_roll, roll_read, roll_read]
    rcases run_of_le hle (Progress.start (Cursor.ofList text.toList)) shallow_nil with
      ⟨hshallow, hrun⟩ | ⟨q, hq, hshallow, hrun, hrun'⟩
    · refine Or.inl ⟨?_, ?_⟩
      · rwa [read, readChars, ofProgress, faults_finish]
      · rw [read, readChars, hrun]
        rfl
    · obtain ⟨⟨place, hfaults⟩, hcautions, hroll⟩ := hq.finish_run
      obtain ⟨hfaults', hcautions'⟩ := remarks_finish_run limit' hq.rest_ne_nil
      -- the cut adds no caution, so what a run says is what the template says
      have hquiet : Quiet (q.run limit).cautions := hrun ▸ quiet_run limit quiet_nil
      rw [hq.run_eq] at hquiet
      rw [read, read, readChars, readChars, ofProgress, ofProgress, hrun, hrun', hcautions, hroll]
      have hprefix := prefix_roll_finish limit' q
      exact Or.inr ⟨_, place, hfaults, hshallow.append (shallow_readPiece _), hfaults',
        hcautions', hquiet, hprefix, hprefix.map Prod.snd⟩
  · intro i is name as children span hnode
    have hmem := Forest.mem_roll hnode
    rw [roll_read] at hmem
    have hlen := within_finish limit _ _ _ _ hmem
    rw [List.length_cons] at hlen
    omega

/-- A text with one element too many for the smaller limit, behind another fault. -/
theorem read_of_limit_le_cut :
    let text := "</u><a c c>b<i d d><br/></i></a>"
    (1 : Int) ≤ 2 ∧
      (read 1 text).faults =
        [⟨⟨0, 1, 1⟩, .unexpectedClosing "u"⟩, ⟨⟨19, 1, 20⟩, .tooDeep 1⟩] ∧
      (read 1 text).cautions <+: (read 2 text).cautions ∧
      (read 1 text).forest.roll <+: (read 2 text).forest.roll := by
  intro text
  have hfaults : (read 1 text).faults =
      [⟨⟨0, 1, 1⟩, .unexpectedClosing "u"⟩, ⟨⟨19, 1, 20⟩, .tooDeep 1⟩] := by decide +kernel
  obtain ⟨⟨hshallow, -⟩ | ⟨es, place, -, -, -, hcautions, -, hroll, -⟩, -⟩ :=
    read_of_limit_le 1 2 text (by decide)
  · exact absurd rfl (hshallow ⟨⟨19, 1, 20⟩, .tooDeep 1⟩ (by simp [hfaults]) 1)
  · exact ⟨by decide, hfaults, hcautions, hroll⟩

end Template

end MiniTemplate
