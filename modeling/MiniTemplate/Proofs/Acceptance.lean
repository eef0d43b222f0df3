import MiniTemplate.Proofs.Progress

/-!
# Which templates are read without complaint

A reading complains when it finds a fault, or when the text ends inside an element; that
an attribute is repeated is no complaint. The main statement,
`MiniTemplate.Template.read_clean_iff`, is that a template is read without complaint exactly
if the grammar derives it with no more elements open at once than the limit allows.

Both directions go along the run, and in both the difficulty is the same: the grammar has
an element as one thing, and the run has it in two pieces with everything else in between.

* **From the grammar to the run** (`MiniTemplate.Progress.run_of_nodes`), a derivation of a
  forest is a stretch of the run that adds the nodes of the forest to whatever state it
  began in. Two such stretches, with an opening and a closing tag around the first, make
  the stretch of an element.
* **From the run to the grammar** (`MiniTemplate.Progress.closes_of_clean`), what a state still
  demands of the text ahead is written down as `MiniTemplate.Grammar.Closes`: for each open
  element a forest and its closing tag, and then a forest to the end. A step backwards in
  the run is a step backwards in these demands.
-/

namespace MiniTemplate

open Text Grammar

/-- **A template without complaint**: no fault, and no element that the text ends in. -/
def Template.Clean (t : Template) : Prop :=
  t.faults = [] ∧ Quiet t.cautions

namespace Progress

variable {p : Progress}

/-! ### From the grammar to the run -/

/-- One step of a run, where a piece is read without a fault. -/
theorem run_eq_step (limit : Int) {a : Char} {t : List Char} (hb : Blanks p.cursor.rest (a :: t)) :
    p.run limit = (p.skipBlanks.step limit).run limit := by
  refine run_of_rest ?_
  rw [cursor_skipBlanks, Cursor.rest_skipBlanks, blanks_iff.mp hb]
  simp

theorem follow_skipBlanks (p : Progress) {d : Cursor} (h : (readPiece d).faults = []) :
    p.skipBlanks.follow (readPiece d) = p.onTo (readPiece d).cursor (readPiece d).cautions := by
  rw [follow_eq_onTo _ h, skipBlanks_eq_onTo, onTo_onTo, List.nil_append]

/-- **The stretch of a leaf.** -/
theorem run_leaf (limit : Int) {n : Node} {t r : List Char} (hb : Blanks p.cursor.rest t)
    (h : Leaf t n r) :
    ∃ n' d cs, n'.unplaced = n ∧ d.rest = r ∧ Quiet cs ∧
      p.run limit = ((p.add n').onTo d cs).run limit := by
  obtain ⟨a, t', rfl, -⟩ := h.exists_cons
  have hrest : p.cursor.skipBlanks.rest = a :: t' := by
    rw [Cursor.rest_skipBlanks, blanks_iff.mp hb]
  rw [← hrest] at h
  obtain ⟨n', hval, hn', hr, hfaults⟩ := readPiece_leaf h
  refine ⟨n', _, _, hn', hr, quiet_readPiece p.cursor.skipBlanks, ?_⟩
  rw [run_eq_step limit hb, step_leaf hval, cursor_skipBlanks, follow_skipBlanks p hfaults,
    add_onTo]

/-- **The stretch of an opening tag**, where one more element may be open. -/
theorem run_opening {limit : Int} {name : String} {as : List Attribute} {t r : List Char}
    (hb : Blanks p.cursor.rest t) (h : Head t name as ('>' :: r))
    (hlimit : (p.frames.length : Int) < limit) :
    ∃ start d cs, d.rest = r ∧ Quiet cs ∧
      p.run limit = ((p.push ⟨name, as, start, []⟩).onTo d cs).run limit := by
  obtain ⟨t', rfl⟩ := h.exists_cons
  have hrest : p.cursor.skipBlanks.rest = '<' :: t' := by
    rw [Cursor.rest_skipBlanks, blanks_iff.mp hb]
  rw [← hrest] at h
  obtain ⟨hval, hr, hfaults⟩ := readPiece_opening h
  refine ⟨p.cursor.skipBlanks.position, _, _, hr, quiet_readPiece p.cursor.skipBlanks, ?_⟩
  rw [run_eq_step limit hb, step_opening hval, cursor_skipBlanks, follow_skipBlanks p hfaults,
    openElement_of_lt (by rwa [frames_onTo]), push_onTo]

/-- A closing tag of the name of the innermost open element ends it behind the tag. -/
theorem run_closing_eq (limit : Int) {f : Frame} {r : List Char}
    (h : Closing p.cursor.rest f.name r) :
    (p.push f).run limit =
      ((p.add (f.toNode (readPiece p.cursor).cursor.position.offset)).onTo
        (readPiece p.cursor).cursor (readPiece p.cursor).cautions).run limit := by
  obtain ⟨t, ht⟩ := h.exists_cons
  have hskip : (p.push f).cursor.skipBlanks = p.cursor :=
    Cursor.skipBlanks_of_rest ht (by decide)
  have hb : Blanks (p.push f).cursor.rest ('<' :: t) := by
    rw [show (p.push f).cursor.rest = '<' :: t from ht]
    exact blanks_refl (by decide) t
  obtain ⟨hval, -, hfaults⟩ := readPiece_closing h
  rw [run_eq_step limit hb]
  rw [← hskip] at hval
  rw [step_closing hval, cursor_skipBlanks, hskip, follow_skipBlanks _ hfaults, ← push_onTo,
    closeElement_push, add_onTo, cursor_onTo]

/-- **The stretch of a closing tag**, by the name of the innermost open element. -/
theorem run_closing (limit : Int) {f : Frame} {r : List Char} (h : Closing p.cursor.rest f.name r) :
    ∃ stop d cs, d.rest = r ∧ Quiet cs ∧
      (p.push f).run limit = ((p.add (f.toNode stop)).onTo d cs).run limit :=
  ⟨_, _, _, (readPiece_closing h).2.1, quiet_readPiece p.cursor, run_closing_eq limit h⟩

/-- **The stretch of a forest**: where the grammar derives a forest, the run adds its
nodes, with spans, to the state it began in. -/
theorem run_of_nodes {limit : Int} {t r : List Char} {ns : List Node} (h : Nodes t ns r)
    (p : Progress) (hp : p.cursor.rest = t)
    (hlimit : p.frames.length + Node.nestings ns ≤ limit.toNat) :
    ∃ ms d cs, Node.unplacedAll ms = ns ∧ d.rest = r ∧ Quiet cs ∧
      p.run limit = ((p.addAll ms).onTo d cs).run limit := by
  induction h generalizing p with
  | @nil t r hb =>
    refine ⟨[], p.cursor.skipBlanks, [], rfl, ?_, quiet_nil, ?_⟩
    · rw [Cursor.rest_skipBlanks, hp, blanks_iff.mp hb]
    · rw [addAll_nil, ← skipBlanks_eq_onTo, run_skipBlanks]
  | @leaf t t₁ t₂ r n ns hb hn _ ih =>
    subst hp
    obtain ⟨n', d, cs, rfl, hd, hcs, hrun⟩ := run_leaf limit hb hn
    have hlimit' : ((p.add n').onTo d cs).frames.length + Node.nestings ns ≤ limit.toNat := by
      rw [frames_onTo, length_frames_add]
      rw [Node.nestings_cons] at hlimit
      omega
    obtain ⟨ms, e, ds, hms, he, hds, hrest⟩ := ih ((p.add n').onTo d cs) hd hlimit'
    refine ⟨n' :: ms, e, cs ++ ds, by rw [Node.unplacedAll_cons, hms], he, hcs.append hds, ?_⟩
    rw [hrun, hrest, addAll_onTo, onTo_onTo, addAll_cons]
  | @element t t₁ t₂ t₃ t₄ r name as children ns hb hhead _ hclosing _ ihc ihn =>
    subst hp
    rw [Node.nestings_cons, Node.nesting_element, if_neg (by simp)] at hlimit
    have hlt : (p.frames.length : Int) < limit := by omega
    obtain ⟨start, d₁, cs₁, hd₁, hcs₁, hopen⟩ := run_opening hb hhead hlt
    have hlimit₁ : ((p.push ⟨name, as, start, []⟩).onTo d₁ cs₁).frames.length +
        Node.nestings children ≤ limit.toNat := by
      rw [frames_onTo, frames_push, List.length_cons]
      omega
    obtain ⟨ms, d₂, cs₂, hms, hd₂, hcs₂, hchildren⟩ := ihc _ hd₁ hlimit₁
    -- the children are in the frame now, and the closing tag takes it off
    have hstate : (((p.push ⟨name, as, start, []⟩).onTo d₁ cs₁).addAll ms).onTo d₂ cs₂ =
        (p.onTo d₂ (cs₁ ++ cs₂)).push ⟨name, as, start, ms.reverse⟩ := by
      rw [addAll_onTo, onTo_onTo, addAll_push, push_onTo, List.append_nil]
    rw [← hd₂] at hclosing
    obtain ⟨stop, d₃, cs₃, hd₃, hcs₃, hclose⟩ :=
      run_closing limit (p := p.onTo d₂ (cs₁ ++ cs₂)) (f := ⟨name, as, start, ms.reverse⟩) hclosing
    generalize hn : Frame.toNode ⟨name, as, start, ms.reverse⟩ stop = n at hclose
    have hlimit₃ : (((p.onTo d₂ (cs₁ ++ cs₂)).add n).onTo d₃ cs₃).frames.length +
        Node.nestings ns ≤ limit.toNat := by
      rw [frames_onTo, length_frames_add, frames_onTo]
      omega
    obtain ⟨ms', d₄, cs₄, hms', hd₄, hcs₄, hrest⟩ := ihn _ hd₃ hlimit₃
    refine ⟨n :: ms', d₄, cs₁ ++ cs₂ ++ cs₃ ++ cs₄, ?_, hd₄,
      ((hcs₁.append hcs₂).append hcs₃).append hcs₄, ?_⟩
    · rw [Node.unplacedAll_cons, hms', ← hn, Frame.toNode, Node.unplaced_element,
        List.reverse_reverse, hms]
    · rw [hopen, hchildren, hstate, hclose, hrest, add_onTo, onTo_onTo, addAll_onTo, onTo_onTo,
        addAll_cons]

end Progress

/-- **Templates of the grammar are read** as the grammar says, where the limit allows. -/
theorem Template.readChars_of_nodes {limit : Int} {t : List Char} {f : List Node}
    (h : Nodes t f []) (hlimit : Node.nestings f ≤ limit.toNat) :
    (readChars limit t).Clean ∧ Node.unplacedAll (readChars limit t).forest = f := by
  obtain ⟨ms, d, cs, hms, hd, hcs, hrun⟩ :=
    Progress.run_of_nodes h (Progress.start (Cursor.ofList t)) rfl (by simpa [Progress.start])
  obtain ⟨hroots, hframes⟩ :=
    Progress.roots_addAll (p := Progress.start (Cursor.ofList t)) rfl ms
  generalize hp : ((Progress.start (Cursor.ofList t)).addAll ms).onTo d cs = p at hrun
  have hend : p.skipBlanks.cursor.rest = [] := by
    rw [Progress.cursor_skipBlanks, Cursor.rest_skipBlanks, ← hp, Progress.cursor_onTo, hd]
    rfl
  have hfinish : p.skipBlanks.finish = p.skipBlanks := by
    refine Progress.finish_of_nil ?_
    rw [Progress.frames_skipBlanks, ← hp, Progress.frames_onTo, hframes]
  rw [readChars, hrun, Progress.run_of_end hend, hfinish, ← hp]
  refine ⟨⟨?_, ?_⟩, ?_⟩
  · change ((Progress.start (Cursor.ofList t)).addAll ms).faults = []
    rw [Progress.faults_addAll]
    rfl
  · change Quiet (((Progress.start (Cursor.ofList t)).addAll ms).cautions ++ cs)
    rw [Progress.cautions_addAll]
    exact hcs
  · change Node.unplacedAll ((Progress.start (Cursor.ofList t)).addAll ms).roots.reverse = f
    rw [hroots, Progress.start, List.append_nil, List.reverse_reverse, hms]

/-! ### From the run to the grammar -/

/-- **What is still demanded of the text** where elements of the names `names` are open, the
innermost first: for each of them a forest and its closing tag, and then a forest up to
the end. The forests are not nested deeper than the limit leaves room for. -/
def Grammar.Closes (limit : Int) : List String → List Char → Prop
  | [], t => ∃ ns, Nodes t ns [] ∧ Node.nestings ns ≤ limit.toNat
  | name :: names, t => ∃ ns t₁ t₂, Nodes t ns t₁ ∧ Closing t₁ name t₂ ∧
      names.length + 1 + Node.nestings ns ≤ limit.toNat ∧ Closes limit names t₂

section Backwards

variable {limit : Int} {names : List String} {t t₁ r : List Char}

theorem Grammar.Closes.of_blanks (hb : Blanks t t₁) (h : Closes limit names t₁) :
    Closes limit names t := by
  have hdrop : t₁.dropWhile isBlank = t.dropWhile isBlank := by
    rw [← blanks_iff.mp hb, dropWhile_dropWhile]
  cases names with
  | nil =>
    obtain ⟨ns, hns, hlimit⟩ := h
    exact ⟨ns, hns.of_blanks hdrop, hlimit⟩
  | cons name names =>
    obtain ⟨ns, t₂, t₃, hns, hrest⟩ := h
    exact ⟨ns, t₂, t₃, hns.of_blanks hdrop, hrest⟩

/-- In front of what is demanded there may be one more leaf. -/
theorem Grammar.Closes.leaf {n : Node} (hn : Leaf t n r) (h : Closes limit names r) :
    Closes limit names t := by
  obtain ⟨a, t', rfl, ha⟩ := hn.exists_cons
  cases names with
  | nil =>
    obtain ⟨ns, hns, hlimit⟩ := h
    refine ⟨n :: ns, .leaf (blanks_refl ha t') hn hns, ?_⟩
    rw [Node.nestings_cons, hn.nesting]
    omega
  | cons name names =>
    obtain ⟨ns, t₂, t₃, hns, hc, hlimit, hrest⟩ := h
    refine ⟨n :: ns, t₂, t₃, .leaf (blanks_refl ha t') hn hns, hc, ?_, hrest⟩
    rw [Node.nestings_cons, hn.nesting]
    omega

/-- An opening tag turns into an element what is demanded behind it. -/
theorem Grammar.Closes.opening {name : String} {as : List Attribute}
    (hh : Head t name as ('>' :: r)) (h : Closes limit (name :: names) r) :
    Closes limit names t := by
  obtain ⟨t', rfl⟩ := hh.exists_cons
  obtain ⟨children, t₂, t₃, hchildren, hc, hlimit, hrest⟩ := h
  have hb : Blanks ('<' :: t') ('<' :: t') := blanks_refl (by decide) t'
  cases names with
  | nil =>
    obtain ⟨ns, hns, hlimit'⟩ := hrest
    refine ⟨_, .element hb hh hchildren hc hns, ?_⟩
    rw [Node.nestings_cons, Node.nesting_element, if_neg (by simp)]
    simp only [List.length_nil] at hlimit
    omega
  | cons name' names =>
    obtain ⟨ns, t₄, t₅, hns, hc', hlimit', hrest⟩ := hrest
    refine ⟨_, t₄, t₅, .element hb hh hchildren hc hns, hc', ?_, hrest⟩
    rw [Node.nestings_cons, Node.nesting_element, if_neg (by simp)]
    simp only [List.length_cons] at hlimit
    omega

/-- A closing tag meets the first demand. -/
theorem Grammar.Closes.closing {name : String} (hlimit : names.length + 1 ≤ limit.toNat)
    (hc : Closing t name r) (h : Closes limit names r) : Closes limit (name :: names) t := by
  obtain ⟨t', rfl⟩ := hc.exists_cons
  exact ⟨[], _, r, .nil (blanks_refl (by decide) t'), hc, by simpa using hlimit, h⟩

end Backwards

namespace Progress

variable {limit : Int} {p : Progress}

/-- At the end of the text nothing is open. -/
theorem frames_of_clean (htr : p.truncated = false)
    (h : (Template.ofProgress p.finish).Clean) : p.frames = [] := by
  cases hfs : p.frames with
  | nil => rfl
  | cons f fs =>
    -- the innermost element is remarked on first, and no remark is taken back
    have hmem : (⟨p.cursor.position, .unclosed f.name⟩ : Located Caution) ∈ p.finish.cautions := by
      rw [finish_of_cons hfs]
      refine (cautions_finish _).subset ?_
      rw [cautions_endElement, htr]
      simp
    exact absurd rfl (h.2 _ hmem f.name)

/-- **A step without a fault** finishes a leaf, opens an element that there is room for, or ends
the innermost element by its name. -/
theorem step_of_faultless {a : Char} {t : List Char} (hat : p.cursor.rest = a :: t)
    (ha : isBlank a = false) (h : (p.step limit).faults = []) :
    (∃ n, (readPiece p.cursor).value = some (.leaf n) ∧
      Leaf p.cursor.rest n.unplaced (readPiece p.cursor).cursor.rest ∧
      p.step limit = (p.follow (readPiece p.cursor)).add n) ∨
    (∃ name as start, (readPiece p.cursor).value = some (.opening name as start) ∧
      Head p.cursor.rest name as ('>' :: (readPiece p.cursor).cursor.rest) ∧
      (p.frames.length : Int) < limit ∧
      p.step limit = (p.follow (readPiece p.cursor)).push ⟨name, as, start, []⟩) ∨
    (∃ f fs, p.frames = f :: fs ∧
      Closing p.cursor.rest f.name (readPiece p.cursor).cursor.rest ∧
      p.step limit = { p.follow (readPiece p.cursor) with frames := fs }.add
        (f.toNode (readPiece p.cursor).cursor.position.offset)) := by
  obtain ⟨-, hpiece⟩ := faults_readPiece_of_step h
  obtain ⟨x, hval, hx⟩ := readPiece_sound hat ha hpiece
  cases hx with
  | @leaf _ n hn => exact Or.inl ⟨n, hval, hn, step_leaf hval⟩
  | @opening _ name as start hh =>
    refine Or.inr (Or.inl ⟨name, as, start, hval, hh, ?_⟩)
    rw [step_opening hval] at h ⊢
    have hlt := length_lt_of_openElement h
    exact ⟨hlt, openElement_of_lt hlt⟩
  | closing start hc =>
    rw [step_closing hval] at h ⊢
    cases hfs : p.frames with
    | nil =>
      rw [closeElement_of_nil (by exact hfs)] at h
      exact absurd h (by simp [fault])
    | cons f fs =>
      rw [closeElement_of_cons (by exact hfs)] at h ⊢
      -- a closing tag of another name is a fault
      split at h
      · rename_i hname
        subst hname
        refine Or.inr (Or.inr ⟨f, fs, rfl, hc, ?_⟩)
        rw [if_pos rfl]
        rfl
      · rw [faults_add] at h
        exact absurd h (by simp [fault])

/-- **A step backwards**: what is demanded behind a step without a fault is demanded, with
its piece in front, before it. -/
theorem closes_of_step {a : Char} {t : List Char} (hat : p.cursor.rest = a :: t)
    (ha : isBlank a = false) (hlen : p.frames.length ≤ limit.toNat)
    (h : (p.step limit).faults = []) :
    (p.step limit).truncated = p.truncated ∧ (p.step limit).frames.length ≤ limit.toNat ∧
      (Closes limit ((p.step limit).frames.map Frame.name) (p.step limit).cursor.rest →
        Closes limit (p.frames.map Frame.name) p.cursor.rest) := by
  rcases step_of_faultless hat ha h with
    ⟨n, -, hn, hstep⟩ | ⟨name, as, start, -, hh, hlt, hstep⟩ | ⟨f, fs, hfs, hc, hstep⟩
  · rw [hstep, truncated_add, length_frames_add, names_add, cursor_add]
    exact ⟨rfl, hlen, fun hcl => hcl.leaf hn⟩
  · rw [hstep, frames_push]
    refine ⟨rfl, ?_, fun hcl => hcl.opening hh⟩
    rw [List.length_cons]
    change p.frames.length + 1 ≤ limit.toNat
    omega
  · rw [hfs, List.length_cons] at hlen
    rw [hstep, truncated_add, length_frames_add, names_add, cursor_add, hfs, List.map_cons]
    refine ⟨rfl, Nat.le_of_succ_le hlen, fun hcl => hcl.closing ?_ hc⟩
    rwa [List.length_map]

/-- **A reading without complaint meets every demand.** -/
theorem closes_of_clean (limit : Int) (p : Progress) (htr : p.truncated = false)
    (hlen : p.frames.length ≤ limit.toNat)
    (h : (Template.ofProgress (p.run limit).finish).Clean) :
    Closes limit (p.frames.map Frame.name) p.cursor.rest := by
  fun_induction run limit p with
  | case1 p hend =>
    have hnil : p.frames = [] := frames_of_clean (p := p.skipBlanks) htr h
    rw [hnil]
    refine ⟨[], .nil (blanks_iff.mpr ?_), by simp⟩
    rw [← Cursor.rest_skipBlanks]
    exact hend
  | case2 p hrest hlt ih =>
    obtain ⟨a, t, hat, ha⟩ := exists_rest_skipBlanks hrest
    have hstep : (p.skipBlanks.step limit).faults = [] := by
      have hprefix := faults_of_step limit p.skipBlanks
      rw [show ((p.skipBlanks.step limit).run limit).finish.faults = [] from h.1] at hprefix
      exact List.prefix_nil.mp hprefix
    obtain ⟨htr', hlen', hback⟩ := closes_of_step hat ha hlen hstep
    have hb : Blanks p.cursor.rest p.skipBlanks.cursor.rest :=
      blanks_iff.mpr (Cursor.rest_skipBlanks _).symm
    exact (hback (ih (htr'.trans htr) hlen' h)).of_blanks hb

end Progress

namespace Template

/-- A template that is read without complaint is derived, nested within the limit. -/
theorem exists_nodes_of_clean {limit : Int} {t : List Char} (h : (readChars limit t).Clean) :
    ∃ f, Nodes t f [] ∧ Node.nestings f ≤ limit.toNat :=
  Progress.closes_of_clean limit (Progress.start (Cursor.ofList t)) rfl (Nat.zero_le _) h

/-- **The templates that are read without complaint** are those that the grammar derives, as
forests with no more elements open at once than the limit allows. -/
theorem read_clean_iff (limit : Int) (text : String) :
    (read limit text).Clean ↔
      ∃ f, Nodes text.toList f [] ∧ (Node.nestings f : Int) ≤ max limit 0 := by
  constructor
  · intro h
    obtain ⟨f, hf, hlimit⟩ := exists_nodes_of_clean h
    exact ⟨f, hf, by omega⟩
  · rintro ⟨f, hf, hlimit⟩
    exact (readChars_of_nodes hf (by omega)).1

/-- The limit matters: an element that the grammar derives is a fault where no element may
be open. -/
theorem not_forall_clean_iff :
    ¬∀ (limit : Int) (text : String),
      (read limit text).Clean ↔ ∃ f, Nodes text.toList f [] := by
  intro h
  have hclean : (read 1 "<a></a>").Clean := by
    refine ⟨by decide +kernel, ?_⟩
    rw [show (read 1 "<a></a>").cautions = [] by decide +kernel]
    exact quiet_nil
  obtain ⟨f, hf, -⟩ := exists_nodes_of_clean hclean
  exact absurd ((h 0 "<a></a>").mpr ⟨f, hf⟩).1 (by decide +kernel)

end Template

end MiniTemplate
