import MiniTemplate.Proofs.Concatenation
import MiniTemplate.Proofs.Faultless
import MiniTemplate.Proofs.RoundTrip
import MiniTemplate.Proofs.Truncation

/-!
# Closing what a text leaves open

A text that ends inside some elements is read as if they were closed there, and a caution names
each of them. If the closing tags of these names are written behind the text, in the order of
the cautions, nothing is left to complain about, and the forest is the same but for the ends of
these elements (`MiniTemplate.Template.read_append_closings`).

Three things make this true. Whatever the text ends in, a `<` behind it changes no piece of it, a
comment without its mark apart (`MiniTemplate.readPiece_extended_of_opens`); so the two readings
have come to the same state where the text ends. From there the reading of the longer text takes
one closing tag after another, each of which ends the innermost element
(`MiniTemplate.Progress.run_closings`), as the end of the text does for the shorter one
(`MiniTemplate.Progress.roots_finish`). Both build the same forest around the same open elements,
with other offsets for their ends (`MiniTemplate.Progress.nest`).
-/

namespace MiniTemplate

open Text Node Markup

/-! ### Statement -/

/-- The name of the element that is not closed, if a caution is about one. -/
def Caution.unclosed? : Caution → Option String
  | unclosed name => some name
  | duplicateAttribute .. => none

/-- **The elements that a text leaves open**, by their names, in the order of the cautions. -/
def Template.unclosed (t : Template) : List String :=
  t.cautions.filterMap fun c => c.what.unclosed?

/-- The other cautions. -/
def Template.otherCautions (t : Template) : List (Located Caution) :=
  t.cautions.filter fun c => c.what.unclosed?.isNone

/-- Where closing tags of these names end, if they follow one another from an offset on. -/
def closingStops (offset : Nat) : List String → List Nat
  | [] => []
  | name :: names =>
    (offset + (name.length + 3)) :: closingStops (offset + (name.length + 3)) names

/-- **The same forest with other ends.** In the first forest the elements of some names, each the
last among its siblings and the next one in it, end at the offset `stop`; in the second, each ends
at its own offset. -/
inductive Node.Reclosed (stop : Nat) : List (String × Nat) → List Node → List Node → Prop
  | refl (f : List Node) : Reclosed stop [] f f
  | last (f : List Node) (name : String) (as : List Attribute) (start : Position) (stop' : Nat)
      {ends : List (String × Nat)} {children children' : List Node} :
      Reclosed stop ends children children' →
      Reclosed stop ((name, stop') :: ends)
        (f ++ [.element name as children false (some (start.spanTo stop))])
        (f ++ [.element name as children' false (some (start.spanTo stop'))])

/-- A comment that has its closing mark in the text; other nodes need none. -/
def Node.Terminated (cs : List Char) : Node → Prop
  | comment content span => ∀ s ∈ span,
      (cs.take s.stop.toNat).drop s.start.toNat = ("<!--" ++ content ++ "-->").toList
  | element .. | text .. => True

instance (cs : List Char) : DecidablePred (Node.Terminated cs)
  | comment _ none => isTrue (by rintro s ⟨⟩)
  | comment content (some s) => decidable_of_iff
      ((cs.take s.stop.toNat).drop s.start.toNat = ("<!--" ++ content ++ "-->").toList)
      (by simp [Node.Terminated])
  | element .. | text .. => isTrue trivial

/-! ### Ending what is open -/

namespace Progress

variable {limit : Int} {p : Progress}

/-- **The forest around open elements**, the innermost first and each with the offset where it
ends; `ns` is what the innermost has beyond what is finished in it. -/
def nest (roots : List Node) : List (Frame × Nat) → List Node → List Node
  | [], ns => roots.reverse ++ ns
  | (f, stop) :: es, ns =>
    nest roots es [.element f.name f.attributes (f.children.reverse ++ ns) false
      (some (f.start.spanTo stop))]

/-- A finished node is the last one in the innermost element. -/
theorem nest_add (p : Progress) (n : Node) {stops : List Nat}
    (hlen : stops.length = p.frames.length) :
    nest (p.add n).roots ((p.add n).frames.zip stops) [] =
      nest p.roots (p.frames.zip stops) [n] := by
  unfold add
  split
  · rename_i f fs hfs
    rw [hfs] at hlen
    obtain ⟨stop, stops, rfl⟩ := List.exists_cons_of_length_eq_add_one hlen
    simp [hfs, nest]
  · rename_i hfs
    simp [hfs, nest]

/-- The innermost element ends with what is finished in it. -/
theorem nest_ending {f : Frame} {fs : List Frame} (hfs : p.frames = f :: fs) {stop : Nat}
    {stops : List Nat} (hlen : stops.length = fs.length) :
    let q := { p with frames := fs }.add (f.toNode stop)
    nest q.roots (q.frames.zip stops) [] = nest p.roots (p.frames.zip (stop :: stops)) [] := by
  intro q
  rw [nest_add _ _ hlen, hfs, List.zip_cons_cons, nest, List.append_nil]
  rfl

/-- **Other ends, the same forest.** -/
theorem reclosed_nest (roots : List Node) (fs : List Frame) {stops : List Nat} {stop : Nat}
    (hlen : stops.length = fs.length) {ends : List (String × Nat)} {ns ns' : List Node}
    (h : ∀ f, Reclosed stop ends (f ++ ns) (f ++ ns')) :
    Reclosed stop (((fs.map Frame.name).zip stops).reverse ++ ends)
      (nest roots (fs.zip (List.replicate fs.length stop)) ns) (nest roots (fs.zip stops) ns') := by
  induction fs generalizing stops ends ns ns' with
  | nil => simpa [nest] using h roots.reverse
  | cons f fs ih =>
    obtain ⟨stop', stops, rfl⟩ := List.exists_cons_of_length_eq_add_one hlen
    have hlast := ih (Nat.succ.inj hlen) fun g =>
      Reclosed.last g f.name f.attributes f.start stop' (h f.children.reverse)
    simpa [nest, List.replicate_succ] using hlast

@[simp] theorem cursor_endElement (p : Progress) (f : Frame) (fs : List Frame) :
    (p.endElement f fs).cursor = p.cursor := by
  unfold endElement
  rw [cursor_add]
  split <;> rfl

/-- **At the end of the text** all open elements end there. -/
theorem roots_finish (p : Progress) :
    p.finish.roots.reverse =
      nest p.roots (p.frames.zip (List.replicate p.frames.length p.cursor.position.offset)) [] := by
  fun_induction finish p with
  | case1 p hnil => simp [hnil, nest]
  | case2 p f fs hfs hlt ih =>
    rw [ih, length_frames_endElement, cursor_endElement, hfs, List.length_cons,
      List.replicate_succ, ← hfs, endElement]
    split
    · exact nest_ending hfs (List.length_replicate ..)
    · exact nest_ending (p := p.caution p.cursor.position (.unclosed f.name)) hfs
        (List.length_replicate ..)

/-- Each of them is remarked on there. -/
theorem cautions_finish_eq (h : p.truncated = false) :
    p.finish.cautions =
      p.cautions ++ (p.frames.map Frame.name).map fun name =>
        ⟨p.cursor.position, .unclosed name⟩ := by
  fun_induction finish p with
  | case1 p hnil => simp [hnil]
  | case2 p f fs hfs hlt ih =>
    have htr : (p.endElement f fs).truncated = false := by
      rw [endElement, truncated_add, if_neg (by simp [h])]
      exact h
    have hnames : (p.endElement f fs).frames.map Frame.name = fs.map Frame.name := names_add _ _
    rw [ih htr, hnames, cursor_endElement, cautions_endElement, if_neg (by simp [h]), hfs]
    simp

/-! ### Closing tags, one after another -/

@[simp] theorem length_closingText (name : String) :
    (closingText name).length = name.length + 3 := by
  simp [closingText, String.length_toList]

/-- A closing tag, as it is written, takes its own length and leaves no remark. -/
theorem readPiece_closingText {c : Cursor} {name : String} {r : List Char}
    (hname : ∀ x ∈ name.toList, isTagChar x) (hc : c.rest = closingText name ++ r) :
    (readPiece c).cursor = c.skip (name.length + 3) ∧ (readPiece c).cautions = [] := by
  have hclosing : Grammar.Closing c.rest name r := hc ▸ closing_closingText hname r
  constructor
  · obtain ⟨w, hw⟩ := leads_readPiece c
    have hrest := hw.rest
    rw [(readPiece_closing hclosing).2.1, hc] at hrest
    rw [hw.skip, ← List.append_cancel_right hrest, length_closingText]
  · rw [readPiece_of_closing hc]
    rcases readClosing_cases c with ⟨r, -, hcl⟩ | ⟨-, hcl⟩
    · rw [hcl]
    · rw [hcl]

@[simp] theorem length_closingStops (offset : Nat) (names : List String) :
    (closingStops offset names).length = names.length := by
  induction names generalizing offset with
  | nil => rfl
  | cons name names ih => rw [closingStops, List.length_cons, ih, List.length_cons]

theorem toList_closings (names : List String) :
    (String.join (names.map fun name => "</" ++ name ++ ">")).toList =
      names.flatMap closingText := by
  rw [String.toList_join, List.flatMap_map]
  refine congrArg (names.flatMap ·) (funext fun name => ?_)
  simp [closingText]

/-- Open elements have the names of tags. -/
theorem Standing.isTagChar {fs : List Frame} (h : Standing limit fs) :
    ∀ name ∈ fs.map Frame.name, ∀ x ∈ name.toList, isTagChar x := by
  induction fs with
  | nil => simp
  | cons f fs ih =>
    obtain ⟨hproper, -, -, hfs⟩ := h
    rw [List.map_cons, List.forall_mem_cons]
    exact ⟨(hproper [] none).2.1, ih hfs⟩

/-- **A reading in front of the closing tags** of all that is open closes it, and nothing else. -/
theorem run_closings (limit : Int) {names : List String}
    (hnames : ∀ name ∈ names, ∀ x ∈ name.toList, isTagChar x) (p : Progress)
    (hfs : p.frames.map Frame.name = names) (hrest : p.cursor.rest = names.flatMap closingText) :
    (p.run limit).frames = [] ∧ (p.run limit).faults = p.faults ∧
      (p.run limit).cautions = p.cautions ∧
      (p.run limit).roots.reverse =
        nest p.roots (p.frames.zip (closingStops p.cursor.position.offset names)) [] := by
  induction names generalizing p with
  | nil =>
    have hnil : p.frames = [] := List.map_eq_nil_iff.mp hfs
    have hend : p.skipBlanks.cursor.rest = [] := by
      rw [cursor_skipBlanks, Cursor.rest_skipBlanks, hrest]
      rfl
    rw [run_of_end hend, frames_skipBlanks, hnil]
    exact ⟨rfl, rfl, rfl, (List.append_nil _).symm⟩
  | cons name names ih =>
    obtain ⟨f, fs, hcons, rfl, rfl⟩ := List.map_eq_cons_iff.mp hfs
    let q : Progress := { p with frames := fs }
    have hp : p = q.push f := by
      rw [push, ← hcons]
    have hname := hnames f.name List.mem_cons_self
    have hrest' : q.cursor.rest = closingText f.name ++ (fs.map Frame.name).flatMap closingText :=
      hrest
    have hclosing : Grammar.Closing q.cursor.rest f.name
        ((fs.map Frame.name).flatMap closingText) := hrest' ▸ closing_closingText hname _
    obtain ⟨hcursor, hcautions⟩ := readPiece_closingText hname hrest'
    -- behind the tag the element is finished, and the next one is the innermost
    let d := q.cursor.skip (f.name.length + 3)
    have hoffset : d.position.offset = q.cursor.position.offset + (f.name.length + 3) := by
      rw [Cursor.position_skip, Position.offset_past, hrest', List.length_take]
      simp
    have hrun : p.run limit = ((q.add (f.toNode d.position.offset)).onTo d []).run limit := by
      rw [hp, run_closing_eq limit hclosing, hcursor, hcautions]
    obtain ⟨hframes, hfaults, hmore, hroots⟩ := ih
      (fun name hn => hnames name (List.mem_cons_of_mem _ hn))
      ((q.add (f.toNode d.position.offset)).onTo d []) (by rw [frames_onTo, names_add])
      (by rw [cursor_onTo, Cursor.rest_skip, hrest', ← length_closingText, List.drop_left])
    rw [hrun]
    refine ⟨hframes, ?_, ?_, ?_⟩
    · rw [hfaults]
      exact faults_add _ _
    · rw [hmore]
      change (q.add _).cautions ++ [] = p.cautions
      rw [List.append_nil, cautions_add]
    · rw [hroots, cursor_onTo, hoffset]
      exact nest_ending hcons (by simp)

/-! ### To the end of the text -/

theorem Reaches.leads {q : Progress} (h : Reaches limit p q) : Cursor.Leads p.cursor q.cursor := by
  induction h with
  | refl p => exact .refl p.cursor
  | @step p q _ _ ih =>
    exact ((Cursor.leads_skipBlanks _).trans (leads_step limit p.skipBlanks)).trans ih

/-- What a state reads as a leaf is in the forest in the end. -/
theorem Reaches.exists_occurs {q : Progress} (h : Reaches limit p q)
    (hrest : q.skipBlanks.cursor.rest ≠ []) {n : Node}
    (hv : (readPiece q.skipBlanks.cursor).value = some (.leaf n)) :
    ∃ m, Occurs m (p.run limit).finish.roots.reverse ∧ m.bare = n.bare := by
  have hmem : n.bare ∈ (q.skipBlanks.step limit).roll.map Prod.snd := by
    rw [step_leaf hv, roll_add, Node.roll_eq]
    simp
  have hroll := prefix_roll_finish limit (q.skipBlanks.step limit)
  rw [← run_of_rest hrest, h.run_eq, roll_of_nil (frames_finish _)] at hroll
  obtain ⟨⟨is, x⟩, hx, rfl⟩ := List.mem_map.mp ((hroll.map Prod.snd).subset hmem)
  exact exists_occurs_of_mem_rollAll hx

/-- **Where all comments are terminated**, a comment that is read has its mark. -/
theorem mark_of_terminated {cs : List Char}
    (h : Everywhere (Terminated cs)
      ((Progress.start (Cursor.ofList cs)).run limit).finish.roots.reverse)
    {q : Progress} (hq : Reaches limit (Progress.start (Cursor.ofList cs)) q) {s : List Char}
    (hs : q.skipBlanks.cursor.rest = '<' :: '!' :: '-' :: '-' :: s) : "-->".toList <:+: s := by
  have hon : Cursor.On cs q.skipBlanks.cursor :=
    (Cursor.on_ofList cs).leads (hq.leads.trans (Cursor.leads_skipBlanks _))
  obtain ⟨w, -, ⟨r, rfl, -⟩ | ⟨rfl, hcm⟩⟩ := readComment_cases hs
  · exact ⟨w, r, rfl⟩
  · -- without its mark the comment takes the rest of the text, and its span is too short for one
    exfalso
    obtain ⟨m, hm, hbare⟩ := hq.exists_occurs (by rw [hs]; simp)
      (by rw [readPiece_of_comment hs, hcm])
    have hterm := h m hm
    have hlen : 4 + s.length = ("<!--".toList ++ s).length := by
      simp
      omega
    have hpass : Cursor.Passes q.skipBlanks.cursor ("<!--".toList ++ s)
        (q.skipBlanks.cursor.skip (4 + s.length)) :=
      hlen ▸ Cursor.passes_skip_length (r := []) (by rw [hs]; simp)
    have hslice := hon.slice hpass
    cases m with
    | element _ _ _ _ _ => exact absurd hbare (by simp [bare])
    | text _ _ => exact absurd hbare (by simp [bare])
    | comment content span =>
      obtain ⟨rfl, rfl⟩ := Node.comment.inj hbare
      have hmarked := hterm _ rfl
      simp only [Position.spanTo, Int.toNat_natCast] at hmarked
      rw [hslice] at hmarked
      exact absurd (congrArg List.length hmarked) (by simp)

/-- **In front of a `<`** a reading without a fault goes on where it was, if all its comments are
terminated. -/
theorem run_extended_of_opens {cs t : List Char} (ht : ∀ x ∈ t.head?, x = '<')
    (hfaults : ((Progress.start (Cursor.ofList cs)).run limit).faults = [])
    (hcomments : Everywhere (Terminated cs)
      ((Progress.start (Cursor.ofList cs)).run limit).finish.roots.reverse) :
    (((Progress.start (Cursor.ofList cs)).run limit).extended t).run limit =
      (Progress.start (Cursor.ofList (cs ++ t))).run limit := by
  refine run_extended_of hfaults fun q hq hrest => ?_
  rw [← hq.run_eq] at hfaults
  have hpiece := (faults_readPiece_of_step (faults_step_of_run hrest hfaults)).2
  exact readPiece_extended_of_opens hrest hpiece ht fun s hs => mark_of_terminated hcomments hq hs

theorem offset_run_start (limit : Int) (cs : List Char) :
    ((Progress.start (Cursor.ofList cs)).run limit).cursor.position.offset = cs.length := by
  rw [cursor_run_start, Cursor.position_skip, Position.offset_past]
  simp [Cursor.ofList, Position.start]

end Progress

namespace Template

open Progress

variable {limit : Int}

/-- The names of the cautions are those of the elements that are open at the end. -/
theorem unclosed_read {text : String} (hfaults : (read limit text).faults = []) :
    let p := (Progress.start (Cursor.ofList text.toList)).run limit
    (read limit text).unclosed = p.frames.map Frame.name ∧
      (read limit text).otherCautions = p.cautions := by
  intro p
  have htr : p.truncated = false := truncated_run rfl (Nat.zero_le _) (by
    rw [← faults_finish]
    exact hfaults)
  have hquiet : Quiet p.cautions := quiet_run limit quiet_nil
  have hnone : ∀ c ∈ p.cautions, c.what.unclosed? = none := by
    intro c hc
    cases hw : c.what with
    | unclosed name => exact absurd hw (hquiet c hc name)
    | duplicateAttribute name tag => rfl
  have hcautions : (read limit text).cautions = p.cautions ++ (p.frames.map Frame.name).map
      fun name => ⟨p.cursor.position, .unclosed name⟩ := cautions_finish_eq htr
  rw [unclosed, otherCautions, hcautions]
  constructor
  · rw [List.filterMap_append, List.filterMap_eq_nil_iff.mpr hnone, List.filterMap_map]
    exact List.filterMap_some
  · rw [List.filter_append, List.filter_eq_self.mpr (by simpa using hnone)]
    simp [Caution.unclosed?]

/-- **The cautions name the missing closing tags.** If a text is read without a fault and all its
comments have their closing marks, then with the closing tags of the elements that it leaves open
written behind it, in the order of the cautions, it is read without complaint, with the same other
cautions, and as the same forest, except that the elements that were left open end behind their
closing tags and not at the end of the text. -/
theorem read_append_closings (limit : Int) (text : String)
    (hfaults : (read limit text).faults = [])
    (hcomments : Everywhere (Terminated text.toList) (read limit text).forest) :
    let names := (read limit text).unclosed
    let closed := read limit (text ++ String.join (names.map fun name => "</" ++ name ++ ">"))
    closed.Clean ∧ closed.cautions = (read limit text).otherCautions ∧
      Reclosed text.length (names.zip (closingStops text.length names)).reverse
        (read limit text).forest closed.forest := by
  intro names closed
  let p := (Progress.start (Cursor.ofList text.toList)).run limit
  obtain ⟨hnames, hothers⟩ : names = p.frames.map Frame.name ∧
      (read limit text).otherCautions = p.cautions := unclosed_read hfaults
  have hp : p.faults = [] := (faults_finish _).symm.trans hfaults
  have htags : ∀ name ∈ names, ∀ x ∈ name.toList, isTagChar x := by
    rw [hnames]
    exact ((tidy_start limit _).run hp).built.frames.isTagChar
  have hopens : ∀ x ∈ (names.flatMap closingText).head?, x = '<' := by
    intro x hx
    cases hn : names with
    | nil => simp [hn] at hx
    | cons name names => simpa [hn, closingText, eq_comm] using hx
  -- where the text ends the two readings have come to the same state
  let q := p.extended (names.flatMap closingText)
  have hrest : q.cursor.rest = names.flatMap closingText := by
    change p.cursor.rest ++ _ = _
    rw [rest_run, List.nil_append]
  obtain ⟨hframes, hfaults', hcautions, hroots⟩ := run_closings limit htags q hnames.symm hrest
  have hclosed : closed = ofProgress (q.run limit) := by
    have hrun : q.run limit = _ := run_extended_of_opens hopens hp hcomments
    rw [← finish_of_nil hframes, hrun, ← toList_closings, ← String.toList_append]
    rfl
  have hoffset : p.cursor.position.offset = text.length :=
    (offset_run_start limit _).trans String.length_toList
  rw [hclosed]
  refine ⟨⟨hfaults'.trans hp, ?_⟩, hcautions.trans hothers.symm, ?_⟩
  · change Quiet (q.run limit).cautions
    rw [hcautions]
    exact quiet_run limit quiet_nil
  · have hstops : (closingStops text.length names).length = p.frames.length := by
      rw [length_closingStops, hnames, List.length_map]
    have hsame : ∀ f : List Node, Reclosed text.length [] (f ++ []) (f ++ []) := fun f => .refl _
    have hreclosed := reclosed_nest p.roots p.frames hstops hsame
    have hopen : (read limit text).forest =
        nest p.roots (p.frames.zip (List.replicate p.frames.length text.length)) [] :=
      hoffset ▸ roots_finish p
    have hforest : (ofProgress (q.run limit)).forest =
        nest p.roots (p.frames.zip (closingStops text.length names)) [] :=
      hoffset ▸ hroots
    rw [hopen, hforest]
    rwa [← hnames, List.append_nil] at hreclosed

/-- Two elements left open, in the inner one a text with a blank at its end, and a repeated
attribute and a comment before that. -/
theorem read_append_closings_text :
    let text := "<a x x><!-- c --><b>t "
    (read 2 text).faults = [] ∧ Everywhere (Terminated text.toList) (read 2 text).forest ∧
      (read 2 text).unclosed = ["b", "a"] ∧ (read 2 (text ++ "</b></a>")).Clean ∧
      (read 2 (text ++ "</b></a>")).cautions = (read 2 text).otherCautions ∧
      Reclosed 22 [("a", 30), ("b", 26)] (read 2 text).forest
        (read 2 (text ++ "</b></a>")).forest := by
  intro text
  have hfaults : (read 2 text).faults = [] := by decide +kernel
  have hcomments : Everywhere (Terminated text.toList) (read 2 text).forest := by decide +kernel
  have hnames : (read 2 text).unclosed = ["b", "a"] := by decide +kernel
  have htags : String.join (["b", "a"].map fun name => "</" ++ name ++ ">") = "</b></a>" := by
    decide
  have hlen : text.length = 22 := by decide
  have hends : (["b", "a"].zip (closingStops 22 ["b", "a"])).reverse = [("a", 30), ("b", 26)] := by
    decide
  have h := read_append_closings 2 text hfaults hcomments
  simp only [hnames, htags, hlen, hends] at h
  exact ⟨hfaults, hcomments, hnames, h⟩

end Template

end MiniTemplate
