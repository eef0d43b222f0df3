import MiniTemplate.Proofs.Completion
import MiniTemplate.Proofs.Proper

/-!
# Where remarks point

The text of a remark names a line and a column. They are those of an offset of the template, and
what the remark is about stands there: the quote that is not closed, the closing tag that does not
fit, the character in the place of a missing `>`. Which character a remark points at depends on when
it is made. Some take the place where a piece began, and others the place where the cursor has come
to when something is missed, which is behind the `<` of a tag without a name and behind the `>` of a
tag that is nested too deep. `MiniTemplate.Fault.PointsAt` and `MiniTemplate.Caution.PointsAt` say
this for each remark.

All places come from cursors that are on the text, so it is left to see, reader by reader, what was
ahead of the cursor or behind it. A reading then keeps the remarks of its pieces and makes three of
its own.

## Main statements

* `MiniTemplate.Template.remarks_read`: every fault and every caution of a template points at what
  it describes.
-/

namespace MiniTemplate

open Text Cursor

/-! ### What remarks point at -/

/-- **What stands at the place of a fault**, at an offset of the text. -/
def Fault.PointsAt (cs : List Char) (o : Nat) : Fault → Prop
  | missingTagName => 0 < o ∧ cs[o - 1]? = some '<' ∧ ∀ c ∈ cs[o]?, isTagChar c = false
  | missingTagEnd | missingClosingTagEnd => cs[o]? ≠ some '>'
  | unexpectedClosing name | mismatchedClosing _ name => ("</" ++ name).toList <+: cs.drop o
  | unterminatedValue quote => cs[o]? = some quote
  | tooDeep _ => 0 < o ∧ cs[o - 1]? = some '>'

/-- **What stands at the place of a caution.** A repeated attribute stands before it, and an element
that is not closed goes on to the end of the text. -/
def Caution.PointsAt (cs : List Char) (o : Nat) : Caution → Prop
  | duplicateAttribute name _ => name.toList <:+: cs.take o
  | unclosed _ => o = cs.length

/-- A remark sits in a text: its place is one of the text, and as `P` says. -/
structure Located.Sits {α : Type} (P : List Char → Nat → α → Prop) (cs : List Char)
    (r : Located α) : Prop where
  le : r.place.offset ≤ cs.length
  place : r.place = Text.place cs r.place.offset
  points : P cs r.place.offset r.what

/-- **Remarks that point** at what they describe. -/
structure Pointing (cs : List Char) (es : List (Located Fault)) (ws : List (Located Caution)) :
    Prop where
  faults : ∀ e ∈ es, e.Sits Fault.PointsAt cs
  cautions : ∀ w ∈ ws, w.Sits Caution.PointsAt cs

section Remarks

variable {cs : List Char} {es es' : List (Located Fault)} {ws ws' : List (Located Caution)}

theorem pointing_nil (cs : List Char) : Pointing cs [] [] := ⟨by simp, by simp⟩

theorem Pointing.append (h : Pointing cs es ws) (h' : Pointing cs es' ws') :
    Pointing cs (es ++ es') (ws ++ ws') :=
  ⟨List.forall_mem_append.mpr ⟨h.faults, h'.faults⟩,
    List.forall_mem_append.mpr ⟨h.cautions, h'.cautions⟩⟩

theorem Pointing.fault (h : Pointing cs es ws) {e : Located Fault}
    (he : e.Sits Fault.PointsAt cs) : Pointing cs (es ++ [e]) ws :=
  ⟨List.forall_mem_append.mpr ⟨h.faults, List.forall_mem_singleton.mpr he⟩, h.cautions⟩

theorem Pointing.caution (h : Pointing cs es ws) {w : Located Caution}
    (hw : w.Sits Caution.PointsAt cs) : Pointing cs es (ws ++ [w]) :=
  ⟨h.faults, List.forall_mem_append.mpr ⟨h.cautions, List.forall_mem_singleton.mpr hw⟩⟩

end Remarks

/-! ### What is ahead of a cursor, and what is behind it -/

namespace Cursor

variable {cs : List Char} {c d : Cursor}

/-- A remark with the place of a cursor sits in its text. -/
theorem On.sits {α : Type} {P : List Char → Nat → α → Prop} {what : α} (hc : On cs c)
    (h : P cs c.position.offset what) : Located.Sits P cs ⟨c.position, what⟩ :=
  ⟨hc.le, hc.position, h⟩

theorem On.getElem?_eq (hc : On cs c) : cs[c.position.offset]? = c.rest.head? := by
  rw [hc.rest, List.head?_drop]

/-- The character that was passed last is the one before the cursor. -/
theorem On.getElem?_advance (hc : On cs c) {x : Char} {r : List Char} (h : c.rest = x :: r) :
    0 < c.advance.position.offset ∧ cs[c.advance.position.offset - 1]? = some x := by
  have hoff : c.advance.position.offset = c.position.offset + 1 := by
    rw [advance, position_skip, h, Position.offset_past]
    rfl
  rw [hoff, Nat.add_sub_cancel, hc.getElem?_eq, h]
  exact ⟨Nat.succ_pos _, rfl⟩

end Cursor

/-! ### Readers -/

section Readers

variable {cs : List Char} {c : Cursor}

/-- A quote that is not closed is where the value began. -/
theorem pointing_readValue (hc : On cs c) :
    Pointing cs (readValue c).faults (readValue c).cautions := by
  rw [cautions_readValue]
  by_cases hq : ∀ q ∈ c.rest.head?, isQuote q = false
  · rw [readValue_bare hq]
    exact pointing_nil cs
  · push Not at hq
    obtain ⟨q, hmem, hq⟩ := hq
    obtain ⟨t, ht⟩ := List.head?_eq_some_iff.mp hmem
    rw [readValue_quoted ht (by simpa using hq)]
    dsimp only
    split
    · exact pointing_nil cs
    · exact (pointing_nil cs).fault (hc.sits (hc.getElem?_eq.trans hmem))

theorem sits_readAttribute (hc : On cs c) {s : Scan Attribute} (h : readAttribute c = some s) :
    ∀ e ∈ s.faults, e.Sits Fault.PointsAt cs := by
  have hend : On cs (attributeEnd c) := hc.leads ((leads_skip c _).trans (leads_skipBlanks _))
  rcases readAttribute_cases c with ⟨-, hread⟩ | ⟨-, r, -, hread⟩ | ⟨-, -, hread⟩
  · exact absurd (hread.symm.trans h) (by simp)
  · obtain rfl := Option.some.inj (hread.symm.trans h)
    have hvalue := hend.leads ((leads_skip _ 1).trans (leads_skipBlanks _))
    exact (pointing_readValue hvalue).faults
  · obtain rfl := Option.some.inj (hread.symm.trans h)
    exact (pointing_nil cs).faults

/-- The name of an attribute stands before the place where its reader has come to. -/
theorem infix_name_readAttribute (hc : On cs c) {s : Scan Attribute}
    (h : readAttribute c = some s) :
    s.value.name.toList <:+: cs.take s.cursor.position.offset := by
  have hname := passes_skip_length (run_takeWhile isAttributeChar c.rest).split
  have hend : Leads (c.skipWhile isAttributeChar) (attributeEnd c) := leads_skipBlanks _
  -- whatever follows the name, it is passed before what the reader passes next
  suffices hs : s.value.name = String.ofList (c.rest.takeWhile isAttributeChar) ∧
      Leads (c.skipWhile isAttributeChar) s.cursor by
    obtain ⟨hval, w, hw⟩ := hs
    rw [hval, String.toList_ofList, hc.take_of_passes (hname.trans hw), ← List.append_assoc]
    exact List.infix_append _ _ _
  rcases readAttribute_cases c with ⟨-, hread⟩ | ⟨-, r, -, hread⟩ | ⟨-, -, hread⟩
  · exact absurd (hread.symm.trans h) (by simp)
  · obtain rfl := Option.some.inj (hread.symm.trans h)
    refine ⟨Attribute.name_ofWritten _ _, hend.trans ?_⟩
    exact (leads_skip _ 1).trans ((leads_skipBlanks _).trans (leads_readValue _))
  · obtain rfl := Option.some.inj (hread.symm.trans h)
    exact ⟨Attribute.name_ofWritten _ _, hend⟩

/-- An attribute, with the caution on it if there is one. -/
theorem pointing_readAttribute (hc : On cs c) {s : Scan Attribute} (h : readAttribute c = some s)
    (tag : String) (seen : List String) :
    Pointing cs s.faults (duplicateCaution tag seen s) := by
  have hfaults : Pointing cs s.faults [] := ⟨sits_readAttribute hc h, by simp⟩
  rw [duplicateCaution]
  split
  · exact hfaults.caution ((hc.leads (leads_readAttribute h)).sits (infix_name_readAttribute hc h))
  · exact hfaults

theorem pointing_readAttributes (tag : String) (seen : List String) (hc : On cs c) :
    Pointing cs (readAttributes tag seen c).faults (readAttributes tag seen c).cautions := by
  fun_induction readAttributes tag seen c with
  | case1 seen c hnone => exact pointing_nil cs
  | case2 seen c s hsome hlt more ih =>
    have hblanks : On cs c.skipBlanks := hc.leads (leads_skipBlanks c)
    have hmore := ih (hblanks.leads (leads_readAttribute hsome))
    exact (pointing_readAttribute hblanks hsome tag seen).append hmore

theorem pointing_tagAttributes (hc : On cs c) :
    Pointing cs (tagAttributes c).faults (tagAttributes c).cautions :=
  pointing_readAttributes _ _ (hc.leads (leads_skip c _))

/-- Where a character is missed, another one stands there, or the text ends. -/
theorem getElem?_ne_of_missed (hc : On cs c) {x : Char} (h : ∀ r, c.rest ≠ x :: r) :
    cs[c.position.offset]? ≠ some x := by
  rw [hc.getElem?_eq]
  intro hx
  obtain ⟨r, hr⟩ := List.head?_eq_some_iff.mp hx
  exact h r hr

theorem pointing_readClosing (hc : On cs c) :
    Pointing cs (readClosing c).faults (readClosing c).cautions := by
  have hend : On cs (closingEnd c) := hc.leads ((leads_skip c _).trans (leads_skipBlanks _))
  rcases readClosing_cases c with ⟨r, -, h⟩ | ⟨hgt, h⟩
  · rw [h]
    exact pointing_nil cs
  · rw [h]
    exact (pointing_nil cs).fault (hend.sits (getElem?_ne_of_missed hend hgt))

theorem pointing_readTag (hc : On cs c) {t : List Char} (ht : c.rest = '<' :: t) :
    Pointing cs (readTag c).faults (readTag c).cautions := by
  have has := pointing_tagAttributes hc
  rcases readTag_cases c with ⟨hn, h⟩ | ⟨-, r, -, h⟩ | ⟨-, r, -, h⟩ | ⟨-, -, hgt, h⟩
  · rw [h]
    have hadv : On cs c.advance := hc.leads (leads_skip c 1)
    obtain ⟨hpos, hlt⟩ := hc.getElem?_advance ht
    refine (pointing_nil cs).fault (hadv.sits ⟨hpos, hlt, ?_⟩)
    -- the name is empty, so what follows the `<` is no character of a name
    rw [hadv.getElem?_eq, rest_advance]
    have hstops := stops_dropWhile isTagChar (c.rest.drop 1)
    have hrun := (run_takeWhile isTagChar (c.rest.drop 1)).split
    rw [tagName] at hn
    rw [hn, List.nil_append] at hrun
    rwa [← hrun] at hstops
  · rw [h]
    exact has
  · rw [h]
    exact has
  · rw [h]
    have hend : On cs (tagAttributes c).cursor := hc.leads (leads_tagAttributes c)
    exact has.fault (hend.sits (getElem?_ne_of_missed hend hgt))

theorem pointing_readPiece (hc : On cs c) :
    Pointing cs (readPiece c).faults (readPiece c).cautions := by
  rcases readPiece_cases c with ⟨-, h⟩ | ⟨-, h⟩ | ⟨⟨t, ht⟩, h⟩ | ⟨-, h⟩
  · rw [h]
    exact pointing_readClosing hc
  · rw [h]
    exact pointing_nil cs
  · rw [h]
    exact pointing_readTag hc ht
  · rw [h]
    exact pointing_nil cs

/-- An opening tag is left behind its `>`. -/
theorem getElem?_of_opening (hc : On cs c) {name : String} {as : List Attribute} {start : Position}
    (h : (readPiece c).value = some (.opening name as start)) :
    0 < (readPiece c).cursor.position.offset ∧
      cs[(readPiece c).cursor.position.offset - 1]? = some '>' := by
  rcases readPiece_cases c with ⟨-, hp⟩ | ⟨⟨t, ht⟩, hp⟩ | ⟨-, hp⟩ | ⟨-, hp⟩
  · rcases readClosing_cases c with ⟨r, -, hcl⟩ | ⟨-, hcl⟩ <;> simp [hp, hcl] at h
  · simp [hp, readComment] at h
  · rw [hp] at h ⊢
    rcases readTag_cases c with ⟨-, htag⟩ | ⟨-, r, -, htag⟩ | ⟨-, r, hr, htag⟩ | ⟨-, -, -, htag⟩
    · simp [htag] at h
    · simp [htag] at h
    · rw [htag]
      exact (hc.leads (leads_tagAttributes c)).getElem?_advance hr
    · simp [htag] at h
  · simp [hp, readText] at h

/-- A closing tag is where its `</` and its name begin. -/
theorem prefix_of_closing (hc : On cs c) {name : String} {start : Position}
    (h : (readPiece c).value = some (.closing name start)) :
    start = c.position ∧ ("</" ++ name).toList <+: cs.drop c.position.offset := by
  rcases readPiece_cases c with ⟨⟨t, ht⟩, hp⟩ | ⟨-, hp⟩ | ⟨-, hp⟩ | ⟨-, hp⟩
  · have hv : (readPiece c).value =
        some (.closing (String.ofList ((c.rest.drop 2).takeWhile isTagChar)) c.position) := by
      rw [hp]
      rcases readClosing_cases c with ⟨r, -, hcl⟩ | ⟨-, hcl⟩ <;> rw [hcl]
    obtain ⟨rfl, rfl⟩ := Piece.closing.inj (Option.some.inj (h.symm.trans hv))
    refine ⟨rfl, ?_⟩
    have hname : (String.ofList ((c.rest.drop 2).takeWhile isTagChar)).toList =
        t.takeWhile isTagChar := by
      rw [ht]
      exact String.toList_ofList
    rw [String.toList_append, hname, ← hc.rest, ht]
    exact (List.prefix_append_right_inj ['<', '/']).mpr (List.takeWhile_prefix isTagChar)
  · simp [hp, readComment] at h
  · rcases readTag_cases c with ⟨-, htag⟩ | ⟨-, r, -, htag⟩ | ⟨-, r, -, htag⟩ | ⟨-, -, -, htag⟩ <;>
      simp [hp, htag] at h
  · simp [hp, readText] at h

end Readers

/-! ### A reading -/

namespace Progress

variable {limit : Int} {cs : List Char} {p : Progress}

/-- A state whose cursor is on the text, and whose remarks point. -/
structure Points (cs : List Char) (p : Progress) : Prop where
  on : On cs p.cursor
  remarks : Pointing cs p.faults p.cautions

theorem Points.closeElement (h : p.Points cs) {name : String} {start : Position}
    (hplace : start.offset ≤ cs.length ∧ start = place cs start.offset)
    (hname : ("</" ++ name).toList <+: cs.drop start.offset) :
    (p.closeElement name start).Points cs := by
  cases hfs : p.frames with
  | nil =>
    rw [closeElement_of_nil hfs]
    exact ⟨h.on, h.remarks.fault ⟨hplace.1, hplace.2, hname⟩⟩
  | cons f fs =>
    rw [closeElement_of_cons hfs]
    refine ⟨by rw [cursor_add]; split <;> exact h.on, ?_⟩
    rw [faults_add, cautions_add]
    split
    · exact h.remarks
    · exact h.remarks.fault ⟨hplace.1, hplace.2, hname⟩

/-- **A step** keeps the remarks of its piece, and points at the tag if it makes one of its own. -/
theorem Points.step (h : p.Points cs) : (p.step limit).Points cs := by
  have hfollow : (p.follow (readPiece p.cursor)).Points cs :=
    ⟨h.on.leads (leads_readPiece _), h.remarks.append (pointing_readPiece h.on)⟩
  cases hv : (readPiece p.cursor).value with
  | none =>
    rw [step_none hv]
    exact hfollow
  | some x =>
    cases x with
    | leaf n =>
      rw [step_leaf hv]
      refine ⟨by rw [cursor_add]; exact hfollow.on, ?_⟩
      rw [faults_add, cautions_add]
      exact hfollow.remarks
    | opening name as start =>
      rw [step_opening hv, openElement]
      split
      · refine ⟨hfollow.on.leads (leads_skip _ _), hfollow.remarks.fault ?_⟩
        exact hfollow.on.sits (getElem?_of_opening h.on hv)
      · exact ⟨hfollow.on, hfollow.remarks⟩
    | closing name start =>
      rw [step_closing hv]
      obtain ⟨rfl, hname⟩ := prefix_of_closing h.on hv
      exact hfollow.closeElement ⟨h.on.le, h.on.position⟩ hname

theorem points_run (limit : Int) (h : p.Points cs) : (p.run limit).Points cs := by
  refine run_induction (motive := Points cs) ?_ ?_ p h
  · intro q hq
    exact ⟨hq.on.leads (leads_skipBlanks _), hq.remarks⟩
  · intro q a t _ _ hq
    exact hq.step

/-- At the end of the text all that is remarked on is there. -/
theorem points_finish (h : p.Points cs) (hend : p.cursor.rest = []) : p.finish.Points cs := by
  refine (finish_induction (motive := fun q => q.Points cs ∧ q.cursor.rest = []) ?_ p
    ⟨h, hend⟩).1
  intro q f fs _ ⟨hq, hqend⟩
  refine ⟨⟨by rw [cursor_endElement]; exact hq.on, ?_⟩, by rw [cursor_endElement]; exact hqend⟩
  rw [faults_endElement, cautions_endElement]
  split
  · rw [List.append_nil]
    exact hq.remarks
  · exact hq.remarks.caution (hq.on.sits (hq.on.offset_of_end hqend))

end Progress

/-! ### The remarks on a template -/

/-- The text of a remark that sits in a text has the line and the column of an offset. -/
theorem Located.Sits.report {α : Type} {P : List Char → Nat → α → Prop} {cs : List Char}
    {r : Located α} (h : r.Sits P cs) (message : String) :
    r.place.report message = "line " ++ toString (lineAt cs r.place.offset) ++ " column " ++
      toString (columnAt cs r.place.offset) ++ ": " ++ message := by
  rw [h.place]
  rfl

namespace Template

theorem pointing_readChars (limit : Int) (cs : List Char) :
    Pointing cs (readChars limit cs).faults (readChars limit cs).cautions := by
  have hstart : (Progress.start (ofList cs)).Points cs := ⟨on_ofList cs, pointing_nil cs⟩
  exact (Progress.points_finish (Progress.points_run limit hstart)
    (Progress.rest_run limit _)).remarks

end Template

end MiniTemplate
