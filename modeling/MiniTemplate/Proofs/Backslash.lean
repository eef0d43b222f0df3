import MiniTemplate.Proofs.Proper
import MiniTemplate.Proofs.RoundTrip
import MiniTemplate.Proofs.TopTags

/-!
# Values with a backslash are not read back

The grammar gives the backslash a meaning inside quotes, and the writer does not know of it: it
writes a value between quotes as it is. A value with a backslash is therefore never read back
as it was. Either a backslash in it takes a character of the value, and what is read is too
short, or the last one takes the closing quote, and what is read has a quote that the value has
not (`MiniTemplate.Grammar.Quoted.eq_of_value`).

For forests of self-closing elements this is the whole story. Where no value needs its quotes
masked, a forest that was read and written again is read as the same tags exactly if no value
in it has a backslash (`MiniTemplate.Template.tags_write_iff`). That nothing else can go wrong is
the round trip of well-formed forests. That a backslash always does, takes the reading of what
was written up to the first such value: the tags before it show as they were, and its own tag
shows otherwise, or is at fault.
-/

namespace MiniTemplate

open Text

namespace Grammar

open Markup

/-! ### What quotes are read as -/

section Quotes

variable {q : Char} {t v w r : List Char}

/-- What is read up to a quote is no longer than what stands before it, unless a quote is read
with it. -/
theorem Quoted.length_le (hq : q ≠ '\\') (hv : q ∉ v) (hw : q ∉ w)
    (h : Quoted q (v ++ q :: t) w r) : w.length ≤ v.length := by
  generalize hs : v ++ q :: t = s at h
  induction h generalizing v with
  | close r => exact Nat.zero_le _
  | @escape c s w r _ ih =>
    rw [List.mem_cons, not_or] at hw
    rcases v with _ | ⟨x, _ | ⟨y, v⟩⟩
    · exact absurd (List.cons.inj hs).1 hq
    · -- the backslash would take the quote
      exact absurd (List.cons.inj (List.cons.inj hs).2).1 hw.1
    · have hs' : v ++ q :: t = s := (List.cons.inj (List.cons.inj hs).2).2
      have hlen := ih (fun hmem => hv (by simp [hmem])) hw.2 hs'
      simp only [List.length_cons]
      omega
  | @plain c s w r hc _ _ ih =>
    rw [List.mem_cons, not_or] at hw
    rcases v with _ | ⟨x, v⟩
    · exact absurd (List.cons.inj hs).1.symm hc
    · have hlen := ih (fun hmem => hv (by simp [hmem])) hw.2 (List.cons.inj hs).2
      simp only [List.length_cons]
      omega

/-- **A value that is read as it stands** between its quotes has no backslash, and ends there. -/
theorem Quoted.eq_of_value (hq : q ≠ '\\') (hv : q ∉ v) (h : Quoted q (v ++ q :: t) v r) :
    '\\' ∉ v ∧ r = t := by
  induction v with
  | nil =>
    cases h with
    | close r => exact ⟨by simp, rfl⟩
  | cons x v ih =>
    rw [List.mem_cons, not_or] at hv
    generalize hs : x :: v ++ q :: t = s at h
    cases h with
    | @escape c s _ _ h =>
      -- a backslash that is read as a backslash takes the next one, and one is missing
      obtain ⟨hx, hs⟩ := List.cons.inj hs
      rcases v with _ | ⟨y, v⟩
      · exact absurd ((List.cons.inj hs).1.trans hx) hq
      · obtain ⟨-, hs⟩ := List.cons.inj hs
        rw [← hs] at h
        have hlen := h.length_le hq (fun hmem => hv.2 (by simp [hmem])) hv.2
        simp only [List.length_cons] at hlen
        omega
    | plain hc hb h =>
      obtain ⟨-, rfl⟩ := List.cons.inj hs
      obtain ⟨hnot, hr⟩ := ih hv.2 h
      exact ⟨by simp [hnot, Ne.symm hb], hr⟩

end Quotes

/-! ### What written attributes are read as -/

section Attributes

variable {a b : Attribute} {as bs : List Attribute} {t r r' : List Char}

/-- A value in quotes is read by its quotes. -/
theorem Value.eq_of_value {value : String} (hquotes : Quotable value)
    (h : Value ((quoteValue value).toList ++ t) value.toList r) : '\\' ∉ value.toList ∧ r = t := by
  obtain ⟨q, hq, hnot, htext⟩ := toList_quoteValue value
  rw [masked_eq_self hquotes] at hnot htext
  rw [htext, List.cons_append, List.append_assoc] at h
  generalize hs : q :: (value.toList ++ ([q] ++ t)) = s at h
  cases h with
  | @quoted q' s v r hq' h =>
    obtain ⟨rfl, rfl⟩ := List.cons.inj hs
    exact h.eq_of_value (ne_backslash_of_isQuote hq) hnot
  | bare hrun hhead =>
    -- a value that begins with a quote is never read as a bare one
    have hq' := isQuote_head_of_bare hrun hhead q (by rw [← hs]; rfl)
    exact absurd hq (by simp [hq'])

/-- **A written attribute that is read with its value** has no backslash in it, and ends where it
was written to end. -/
theorem Attr.eq_of_value (ha : a.WellFormed)
    (hquotes : Quotable a.value)
    (ht : ∀ c ∈ t.head?, isAttributeChar c = false)
    (hequals : ∀ c ∈ (t.dropWhile isBlank).head?, c ≠ '=')
    (h : Attr ((attributeText a).toList ++ t) b r) (hvalue : b.value = a.value) :
    '\\' ∉ a.value.toList ∧ r = t := by
  obtain ⟨hne, hname, -⟩ := ha
  generalize hs : (attributeText a).toList ++ t = s at h
  by_cases hempty : a.value = ""
  · -- a name alone: an equals sign behind it would be someone else's
    have hrun : Run isAttributeChar s a.name.toList t := by
      rw [← hs, attributeText, if_pos (by simp [hempty])]
      exact run_append hname ht
    refine ⟨by simp [hempty], ?_⟩
    cases h with
    | alone _ hrun' => exact (hrun.unique hrun').2.symm
    | valued _ hrun' hb _ _ =>
      obtain ⟨-, rfl⟩ := hrun.unique hrun'
      rw [blanks_iff.mp hb] at hequals
      exact absurd rfl (hequals '=' rfl)
  · have htext : s = a.name.toList ++ '=' :: ((quoteValue a.value).toList ++ t) := by
      rw [← hs, attributeText, if_neg (by simp [hempty]), assign]
      simp
    have hrun : Run isAttributeChar s a.name.toList ('=' :: ((quoteValue a.value).toList ++ t)) :=
      htext ▸ run_append hname (stops_cons (by decide) _)
    cases h with
    | alone _ _ => exact absurd (hvalue.symm.trans (Attribute.value_ofWritten _ _)) hempty
    | @valued _ t₁ t₂ t₃ v _ _ hrun' hb hb' hval =>
      obtain ⟨-, rfl⟩ := hrun.unique hrun'
      obtain rfl : (quoteValue a.value).toList ++ t = t₂ :=
        (List.cons.inj ((blanks_refl (by decide) _).unique hb)).2
      obtain rfl := (blanks_quoteValue a.value t).unique hb'
      have hv : v = a.value.toList := by
        rw [← hvalue, Attribute.value_ofWritten, String.toList_ofList]
      subst hv
      exact hval.eq_of_value hquotes

/-- What follows a written attribute is no equals sign: another attribute, or the end of the
tag. -/
theorem head_attributesText_ne (has : ∀ a ∈ as, a.WellFormed) (ht : Blanks t ('/' :: r)) :
    ∀ c ∈ ((attributesText as ++ t).dropWhile isBlank).head?,
      c ≠ '=' := by
  cases as with
  | nil =>
    rw [attributesText, List.flatMap_nil, List.nil_append, blanks_iff.mp ht]
    rintro c ⟨⟩
    decide
  | cons a as =>
    have ha := has a (by simp)
    obtain ⟨x, s, hs, hx⟩ := exists_attributeText ha
    rw [attributesText_cons, blanks_iff.mp (blanks_attributeText ha _), hs]
    rintro c ⟨⟩ rfl
    exact absurd hx (by decide)

/-- **Written attributes that are read with their names and values** have no backslash in
them. -/
theorem Attrs.backslash_of_pairs (has : ∀ a ∈ as, a.WellFormed)
    (hquotes : ∀ a ∈ as, Quotable a.value)
    (ht : Blanks t ('/' :: r')) (hstops : ∀ c ∈ t.head?, isAttributeChar c = false)
    (h : Attrs (attributesText as ++ t) bs r)
    (hpairs : bs.map Attribute.pair = as.map Attribute.pair) :
    ∀ a ∈ as, '\\' ∉ a.value.toList := by
  induction as generalizing bs with
  | nil => simp
  | cons a as ih =>
    rw [List.forall_mem_cons] at has hquotes ⊢
    rw [attributesText_cons] at h
    cases h with
    | nil _ => exact absurd hpairs (by simp)
    | @cons _ t₁ t₂ _ b bs hb hattr hmore =>
      obtain ⟨hpair, hpairs⟩ := List.cons.inj hpairs
      obtain rfl := (blanks_attributeText has.1 _).unique hb
      obtain ⟨hnot, rfl⟩ := hattr.eq_of_value has.1 hquotes.1
        (stops_attributesText (by decide) as hstops) (head_attributesText_ne has.2 ht)
        (congrArg Prod.snd hpair)
      exact ⟨hnot, ih has.2 hquotes.2 hmore hpairs⟩

/-- A written tag is read with its own name. -/
theorem Head.attrs_of_tagHead {name name' : String} (hname : ∀ c ∈ name.toList, isTagChar c)
    (has : ∀ a ∈ as, a.WellFormed) (ht : ∀ c ∈ t.head?, isTagChar c = false)
    (h : Head ((tagHead name (as.map attributeText)).toList ++ t) name' bs r) :
    Attrs (attributesText as ++ t) bs r := by
  rw [toList_tagHead has, List.cons_append, List.append_assoc] at h
  generalize hs : '<' :: (name.toList ++ (attributesText as ++ t))
    = s at h
  cases h with
  | @mk s n t₁ _ _ _ hrun hattrs =>
    obtain ⟨-, rfl⟩ := List.cons.inj hs
    have hrun' := run_append hname (stops_attributesText (by decide) as ht)
    obtain ⟨-, rfl⟩ := hrun'.unique hrun
    exact hattrs

end Attributes

end Grammar

open Grammar Markup

/-! ### Forests of self-closing elements -/

/-- Is it an element that closes itself? -/
def Node.isSelfClosing : Node → Bool
  | .element _ _ _ selfClosing _ => selfClosing
  | .text .. | .comment .. => false

theorem Node.Proper.eq_of_isSelfClosing {n : Node} (hn : n.Proper) (h : n.isSelfClosing) :
    ∃ name as span, n = .element name as [] true span := by
  cases n with
  | element name as children selfClosing span =>
    obtain rfl : selfClosing = true := h
    obtain rfl : children = [] := hn.2.2.2 rfl
    exact ⟨name, as, span, rfl⟩
  | text _ _ => exact absurd h (by simp [Node.isSelfClosing])
  | comment _ _ => exact absurd h (by simp [Node.isSelfClosing])

theorem map_pair_masked {as : List Attribute} (has : ∀ a ∈ as, a.WellFormed)
    (hquotes : ∀ a ∈ as, Quotable a.value) :
    (as.map Attribute.masked).map Attribute.pair = as.map Attribute.pair := by
  rw [List.map_map]
  refine List.map_congr_left fun a ha => ?_
  rw [Function.comp_apply, Attribute.masked_eq_self (has a ha) (hquotes a ha)]

namespace Progress

variable {limit indent : Int} {p : Progress}

/-- **A tag that shows as it was written** at the top level has no backslash in its values. -/
theorem backslash_of_step {name : String} {as : List Attribute} {span : Option Span}
    {t : List Char} {l : List (String × List (String × String))}
    (hn : (Node.element name as [] true span).Proper) (hquotes : ∀ a ∈ as, Quotable a.value)
    (hp : p.frames = [])
    (hrest : p.cursor.rest = (tagHead name (as.map attributeText) ++ " />").toList ++ t)
    (hfaults : (p.step limit).faults = [])
    (htags : (p.step limit).tags <+: p.tags ++ (name, as.map Attribute.pair) :: l) :
    ∀ a ∈ as, '\\' ∉ a.value.toList := by
  obtain ⟨hne, hname, has, -⟩ := hn
  rw [String.toList_append, List.append_assoc] at hrest
  obtain ⟨x, n, hx⟩ := List.exists_cons_of_ne_nil hne
  have hlt : p.cursor.rest = '<' :: x :: (n ++ attributesText as ++ (" />".toList ++ t)) := by
    rw [hrest, toList_tagHead has, hx]
    rfl
  obtain ⟨name', bs, r, hhead, hstep⟩ := tags_step hp hlt (hname x (by simp [hx])) hfaults
  rw [hstep, List.prefix_append_right_inj, List.cons_prefix_cons] at htags
  rw [hrest] at hhead
  have hslash : Blanks (" />".toList ++ t) ('/' :: '>' :: t) :=
    (blanks_refl (by decide) _).cons (by decide)
  have hattrs := hhead.attrs_of_tagHead hname has (stops_cons (by decide) _)
  exact hattrs.backslash_of_pairs has hquotes hslash (stops_cons (by decide) _)
    (Prod.ext_iff.mp htags.1).2

/-- **A reading that shows the tags of a written forest** has met no backslash. -/
theorem backslash_of_tags {f : List Node} (hf : ∀ n ∈ f, n.Proper ∧ n.isSelfClosing)
    (hquotes : Node.AllValues Quotable f) (hp : p.frames = [])
    (hrest : p.cursor.rest.dropWhile isBlank = (spread (lines indent 0 f)).dropWhile isBlank)
    (hfaults : (p.run limit).finish.faults = [])
    (htags : (p.run limit).finish.tags = p.tags ++ f.filterMap Node.tag) :
    Node.AllValues (fun v => '\\' ∉ v.toList) f := by
  induction f generalizing p with
  | nil => trivial
  | cons n f ih =>
    rw [List.forall_mem_cons] at hf
    obtain ⟨⟨hn, hself⟩, hf⟩ := hf
    obtain ⟨name, as, span, rfl⟩ := hn.eq_of_isSelfClosing hself
    obtain ⟨hvalues, hquotes⟩ := hquotes
    rw [lines_cons, spread_append, spread_selfClosing, List.append_assoc] at hrest
    obtain ⟨s, hs⟩ := tagHead_eq_cons name (as.map attributeText)
    have hb : Blanks p.cursor.rest ((tagHead name (as.map attributeText) ++ " />").toList ++
        spread (lines indent 0 f)) := by
      refine blanks_of_blanks hrest.symm ?_
      rw [String.toList_append, hs]
      exact (blanks_refl (by decide) _).append (isBlank_margin indent 0)
    have hrun : p.run limit = (p.skipBlanks.step limit).run limit := by
      have hb' := hb
      rw [String.toList_append, hs] at hb'
      exact run_eq_step limit hb'
    have hcursor : p.skipBlanks.cursor.rest =
        (tagHead name (as.map attributeText) ++ " />").toList ++ spread (lines indent 0 f) := by
      rw [cursor_skipBlanks, Cursor.rest_skipBlanks, blanks_iff.mp hb]
    -- the tag shows as soon as it is read, so it is the one that was written
    have hstep : (p.skipBlanks.step limit).faults = [] := by
      have h := faults_of_step limit p.skipBlanks
      rw [← hrun, hfaults] at h
      exact List.prefix_nil.mp h
    have hshows : (p.skipBlanks.step limit).tags <+:
        p.skipBlanks.tags ++ (name, as.map Attribute.pair) :: f.filterMap Node.tag := by
      have h := prefix_tags_finish limit (p.skipBlanks.step limit)
      rw [← hrun, htags] at h
      exact h
    have hnot := backslash_of_step hn hvalues.1 (p := p.skipBlanks) hp hcursor hstep hshows
    -- and then it is read as the grammar says, and the rest of the forest follows it
    obtain ⟨n, d, cs, htag, hd, -, hrun'⟩ := run_leaf limit hb (leaf_selfClosing hn hnot _)
    have htags' : ((p.add n).onTo d cs).tags = p.tags ++ [(name, as.map Attribute.pair)] := by
      change (p.add n).tags = _
      rw [tags_add_of_nil hp, ← Node.tag_recast_id id n, ← Node.unplaced, htag, Node.tag,
        map_pair_masked hn.2.2.1 hvalues.1]
      rfl
    refine ⟨⟨hnot, trivial⟩, ih (p := (p.add n).onTo d cs) hf hquotes ?_ ?_ ?_ ?_⟩
    · rw [frames_onTo, add, hp]
    · rw [cursor_onTo, hd]
    · rw [← hrun', hfaults]
    · rw [← hrun', htags, htags', List.append_assoc]
      rfl

end Progress

section SelfClosing

variable {f : List Node}

theorem allWellFormed_of_isSelfClosing (hf : ∀ n ∈ f, n.Proper ∧ n.isSelfClosing) :
    Node.AllWellFormed f := by
  induction f with
  | nil => trivial
  | cons n f ih =>
    rw [List.forall_mem_cons] at hf
    obtain ⟨⟨hn, hself⟩, hf⟩ := hf
    obtain ⟨name, as, span, rfl⟩ := hn.eq_of_isSelfClosing hself
    exact ⟨⟨hn, trivial⟩, by simp [Node.isText], ih hf⟩

theorem nestings_of_isSelfClosing (hf : ∀ n ∈ f, n.Proper ∧ n.isSelfClosing) :
    Node.nestings f = 0 := by
  induction f with
  | nil => rfl
  | cons n f ih =>
    rw [List.forall_mem_cons] at hf
    obtain ⟨⟨hn, hself⟩, hf⟩ := hf
    obtain ⟨name, as, span, rfl⟩ := hn.eq_of_isSelfClosing hself
    rw [Node.nestings_cons, ih hf]
    rfl

/-- Where no value is masked, what is read back has the tags that were written. -/
theorem filterMap_tag_readable (hf : ∀ n ∈ f, n.Proper ∧ n.isSelfClosing)
    (hquotes : Node.AllValues Quotable f) :
    (readable f).filterMap Node.tag = f.filterMap Node.tag := by
  induction f with
  | nil => rfl
  | cons n f ih =>
    rw [List.forall_mem_cons] at hf
    obtain ⟨⟨hn, hself⟩, hf⟩ := hf
    obtain ⟨name, as, span, rfl⟩ := hn.eq_of_isSelfClosing hself
    have htag : (Node.recast trim Attribute.masked (.element name as [] true span)).tag =
        (Node.element name as [] true span).tag := by
      rw [Node.recast_element, Node.tag, Node.tag, map_pair_masked hn.2.2.1 hquotes.1.1]
    rw [readable, Node.recastAll_cons, List.filterMap_cons, List.filterMap_cons, htag,
      ← readable, ih hf hquotes.2]

end SelfClosing

/-- **Which tags survive being written.** Let a template have only self-closing elements at the
top and nothing else, and let no value in it have both kinds of quotes. Written at any
indentation and read again, at any limit, it is read without a fault and with the same tags,
exactly if no value has a backslash. -/
theorem Template.tags_write_iff (limit limit' indent : Int) (text : String)
    (hself : ∀ n ∈ (read limit text).forest, n.isSelfClosing)
    (hquotes : Node.AllValues Quotable (read limit text).forest) :
    ((read limit' (write indent (read limit text).forest)).faults = [] ∧
      (read limit' (write indent (read limit text).forest)).forest.filterMap Node.tag =
        (read limit text).forest.filterMap Node.tag) ↔
    Node.AllValues (fun v => '\\' ∉ v.toList) (read limit text).forest := by
  have hf : ∀ n ∈ (read limit text).forest, n.Proper ∧ n.isSelfClosing := fun n hn =>
    ⟨proper_read limit text n (.here hn), hself n hn⟩
  generalize (read limit text).forest = f at hf hquotes ⊢
  constructor
  · rintro ⟨hfaults, htags⟩
    refine Progress.backslash_of_tags hf hquotes rfl (dropWhile_write indent f) hfaults ?_
    rw [Progress.tags_of_nil (Progress.frames_finish _)]
    exact htags
  · intro hb
    obtain ⟨f', hf', hnest, hnodes⟩ :=
      exists_nodes_write indent (allWellFormed_of_isSelfClosing hf) hb
    rw [nestings_of_isSelfClosing hf] at hnest
    have hroom : Node.nestings f' ≤ limit'.toNat := hnest ▸ Nat.zero_le _
    obtain ⟨hclean, hforest⟩ := readChars_of_nodes hnodes hroom
    refine ⟨hclean.1, ?_⟩
    rw [← Node.filterMap_tag_recastAll id, read, ← Node.unplacedAll, hforest,
      ← Node.filterMap_tag_recastAll trim, hf', filterMap_tag_readable hf hquotes]

/-- A value that is a single backslash is read without a fault, and written so that its backslash
takes the closing quote. -/
theorem Template.not_tags_write_backslash :
    (read 256 "<a x=\"\\\\\"/>").faults = [] ∧
      (∀ n ∈ (read 256 "<a x=\"\\\\\"/>").forest, n.isSelfClosing) ∧
      Node.AllValues Quotable (read 256 "<a x=\"\\\\\"/>").forest ∧
      ¬((read 256 (write 2 (read 256 "<a x=\"\\\\\"/>").forest)).faults = [] ∧
        (read 256 (write 2 (read 256 "<a x=\"\\\\\"/>").forest)).forest.filterMap Node.tag =
          (read 256 "<a x=\"\\\\\"/>").forest.filterMap Node.tag) := by
  have hself : ∀ n ∈ (read 256 "<a x=\"\\\\\"/>").forest, n.isSelfClosing := by decide +kernel
  have hquotes : Node.AllValues Quotable (read 256 "<a x=\"\\\\\"/>").forest := by decide +kernel
  refine ⟨by decide +kernel, hself, hquotes, ?_⟩
  rw [tags_write_iff 256 256 2 "<a x=\"\\\\\"/>" hself hquotes]
  decide +kernel

end MiniTemplate
