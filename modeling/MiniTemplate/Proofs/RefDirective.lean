import MiniTemplate.Proofs.DirectiveName
import MiniTemplate.Proofs.FixedPoint

/-!
# The directive of a ref, put in and read back

An attribute comes to its directive in two ways. Where it is read, the directive is taken apart
from the written name, with its modifiers and without the colon of an event. Where it is put in as
a ref, the whole name is the name of the directive, and there are no modifiers. The two agree
exactly if the name is bare (`MiniTemplate.RefStyle.asWritten_attributeOf_iff`).

A forest with refs that is written and read back is therefore the forest that was written, but
for spans and for blanks around texts, except that each attribute has the directive of its
written name. The attributes that were read before had that already. So it is the same forest if
there is no element to have a ref, or if the name of the refs is no directive's or a bare one, and
in no other case.

## Main statements

* `MiniTemplate.Template.read_write_annotate_iff`: when a forest with refs is read back as itself.
-/

namespace MiniTemplate

open Text Node Markup

namespace Attribute

/-- **An attribute as it is written**: the one that is read where this one stands. -/
def asWritten (a : Attribute) : Attribute := .ofWritten a.name a.value

theorem WellFormed.asWritten_eq {a : Attribute} (ha : a.WellFormed) : a.asWritten = a :=
  ha.2.2.symm

theorem masked_eq_asWritten {a : Attribute} (hq : Quotable a.value) : a.masked = a.asWritten := by
  rw [masked, Markup.masked_eq_self hq]
  rfl

end Attribute

/-- Values that need no masking are read back as they are. -/
theorem Markup.readable_of_quotable {f : List Node} (hf : AllValues Quotable f) :
    readable f = recastAll trim Attribute.asWritten f := by
  unfold readable
  induction f using forest_induction with
  | nil => rfl
  | text content span ns ih => rw [recastAll_cons, recastAll_cons, ih hf.2]; rfl
  | comment content span ns ih => rw [recastAll_cons, recastAll_cons, ih hf.2]; rfl
  | element name as children selfClosing span ns ihc ihn =>
    obtain ⟨⟨has, hc⟩, hns⟩ := hf
    have hmap : as.map Attribute.masked = as.map Attribute.asWritten :=
      List.map_congr_left fun a ha => Attribute.masked_eq_asWritten (has a ha)
    rw [recastAll_cons, recastAll_cons, recast_element, recast_element, hmap, ihc hc, ihn hns]

namespace RefStyle

variable {r : RefStyle} {f g : List Node}

/-! ### One ref -/

/-- The value of a ref has both kinds of quotes only if its stem does. -/
theorem quotable_value (hstem : Quotable r.stem) {name : String}
    (hname : ∀ c ∈ name.toList, isTagChar c) (path : List Nat) :
    Quotable (r.value path name) := by
  -- there is no quote in a path or in a name
  have hquote : ∀ q, q = '"' ∨ q = '\'' → q ∈ (r.value path name).toList → q ∈ r.stem.toList := by
    intro q hq hmem
    have hpath : q ∉ (pathText path).toList := by
      intro h
      rcases hq with rfl | rfl <;> rcases mem_pathText h with h | h <;> exact absurd h (by decide)
    have hn : q ∉ name.toList := by
      intro h
      rcases hq with rfl | rfl <;> exact absurd (hname _ h) (by decide)
    have hbar : q ≠ '_' := by
      rcases hq with rfl | rfl <;> decide
    simpa [value, hpath, hn, hbar] using hmem
  rintro ⟨hd, hs⟩
  exact hstem ⟨hquote _ (Or.inl rfl) hd, hquote _ (Or.inr rfl) hs⟩

/-- **The names for which the two ways agree**: a directive's name has to be bare. -/
def Agrees (name : String) : Prop := Directive.isName name → Directive.Bare name

instance : DecidablePred Agrees := fun _ => inferInstanceAs (Decidable (_ → _))

theorem asWritten_attributeOf_iff (name value : String) :
    (attributeOf name value).asWritten = attributeOf name value ↔ Agrees name := by
  rw [Attribute.asWritten, name_attributeOf, value_attributeOf, Attribute.ofWritten, attributeOf,
    Agrees]
  split
  · rename_i hdirective
    simpa [hdirective] using Directive.ofWritten_eq_iff name value
  · rename_i hplain
    simp [hplain]

theorem mem_place_self (a : Attribute) (as : List Attribute) : a ∈ place a as := by
  have hmem : a ∈ (place a as).filter fun b => b.name == a.name := by simp [filter_eq_place]
  exact List.mem_of_mem_filter hmem

/-- The tag of a marked element is read back as it is, if its ref is. -/
theorem map_asWritten_attributes_iff {as : List Attribute} (has : ∀ a ∈ as, a.WellFormed)
    (path : List Nat) (name : String) :
    (r.attributes path name as).map Attribute.asWritten = (r.attributes path name as).map id ↔
      Agrees r.name := by
  rw [List.map_inj_left, ← asWritten_attributeOf_iff r.name (r.value path name)]
  constructor
  · intro h
    exact h _ (mem_place_self _ as)
  · intro h a ha
    rcases mem_place ha with rfl | ha
    · exact h
    · exact (has a ha).asWritten_eq

/-! ### The refs of a forest -/

/-- **A forest with refs has the directives of its written names** exactly if there is no element
in it or the two ways agree. -/
theorem MarkedAll.asWritten_eq_iff (h : r.MarkedAll f g) (hf : AllWellFormed f) :
    recastAll trim Attribute.asWritten g = recastAll trim id g ↔
      Everywhere (fun n => n.isElement = false) f ∨ Agrees r.name := by
  induction f using forest_induction generalizing g with
  | nil =>
    cases h
    exact iff_of_true rfl (Or.inl everywhere_nil)
  | text content span ns ih =>
    obtain _ | ⟨⟨path, rfl⟩, hns⟩ := h
    simp [markNode, everywhere_cons, children, everywhere_nil, isElement, ih hns hf.2.2]
  | comment content span ns ih =>
    obtain _ | ⟨⟨path, rfl⟩, hns⟩ := h
    simp [markNode, everywhere_cons, children, everywhere_nil, isElement, ih hns hf.2.2]
  | element name as children selfClosing span ns ihc ihn =>
    obtain _ | ⟨⟨path, rfl⟩, hns⟩ := h
    obtain ⟨⟨⟨-, -, has, -⟩, hc⟩, -, hf⟩ := hf
    have htag := map_asWritten_attributes_iff (r := r) has path name
    have hinner := ihc (markedAll_markAll path 1 children) hc
    have hrest := ihn hns hf
    rw [recastAll_cons, recastAll_cons, markNode, recast_element, recast_element,
      List.cons.injEq, Node.element.injEq, htag, hinner, hrest]
    constructor
    · rintro ⟨⟨-, hagrees, -⟩, -⟩
      exact Or.inr hagrees
    · rintro (hnone | hagrees)
      · exact absurd (hnone _ (.here List.mem_cons_self)) (by simp [isElement])
      · exact ⟨⟨rfl, hagrees, Or.inr hagrees, rfl, rfl⟩, Or.inr hagrees⟩

end RefStyle

namespace Template

/-- **When a forest with refs is read back as itself.** Of a text that is read without a fault,
whose values have no backslash and not both kinds of quotes, the forest with refs of any name that
can be written, and a stem like the values, is written as a text that is read without a fault and
without an element left open, and as the forest that was written, with the directives of the
written names. It is the forest that was written, directives included, exactly if it has no element
or the name is no directive's or a bare one. -/
theorem read_write_annotate_iff (limit indent : Int) (text : String) (r : RefStyle)
    (hfaults : (read limit text).faults = [])
    (hb : AllValues (fun v => '\\' ∉ v.toList) (read limit text).forest)
    (hquotes : AllValues Quotable (read limit text).forest)
    (hne : r.name.toList ≠ []) (hname : ∀ c ∈ r.name.toList, isAttributeChar c)
    (hstem : '\\' ∉ r.stem.toList) (hstemQuotes : Quotable r.stem) :
    let marked := (read limit text).forest.annotate r
    let back := read limit (write indent marked)
    back.Clean ∧
      recastAll trim id back.forest = recastAll trim Attribute.asWritten marked ∧
      (recastAll trim id back.forest = recastAll trim id marked ↔
        Everywhere (fun n => n.isElement = false) (read limit text).forest ∨
          RefStyle.Agrees r.name) := by
  intro marked back
  obtain ⟨hf, hlimit⟩ := wellFormed_read hfaults
  have hmarked := RefStyle.markedAll_annotate r (read limit text).forest
  obtain ⟨hclean, htrimmed⟩ := trimmed_read_annotate hf hb hlimit hne hname hstem indent
  have hvalues : AllValues Quotable marked :=
    hmarked.allValues (fun path _ htag => RefStyle.quotable_value hstemQuotes htag path) hf hquotes
  have hback : recastAll trim id back.forest = recastAll trim Attribute.asWritten marked :=
    htrimmed.trans (readable_of_quotable hvalues)
  refine ⟨hclean, hback, ?_⟩
  rw [hback]
  exact hmarked.asWritten_eq_iff hf

/-- A ref under the name of an event with a colon is put in as the directive `bind:ref` and read
back as the directive `bindref`. -/
theorem not_read_write_annotate_colon :
    let text := "<a/>"
    let r : RefStyle := ⟨"bind:ref", "devtools"⟩
    let marked := (read 256 text).forest.annotate r
    let back := read 256 (write 2 marked)
    (read 256 text).faults = [] ∧ AllValues (fun v => '\\' ∉ v.toList) (read 256 text).forest ∧
      AllValues Quotable (read 256 text).forest ∧ r.name.toList ≠ [] ∧
      (∀ c ∈ r.name.toList, isAttributeChar c) ∧ '\\' ∉ r.stem.toList ∧ Quotable r.stem ∧
      back.Clean ∧ recastAll trim id back.forest ≠ recastAll trim id marked := by
  intro text r marked back
  have hfaults : (read 256 text).faults = [] := by decide +kernel
  have hb : AllValues (fun v => '\\' ∉ v.toList) (read 256 text).forest := by decide +kernel
  have hquotes : AllValues Quotable (read 256 text).forest := by decide +kernel
  have hname : ∀ c ∈ r.name.toList, isAttributeChar c := by decide
  have hstem : '\\' ∉ r.stem.toList := by decide
  have hstemQuotes : Quotable r.stem := by decide
  obtain ⟨hclean, -, hiff⟩ := read_write_annotate_iff 256 2 text r hfaults hb hquotes (by decide)
    hname hstem hstemQuotes
  refine ⟨hfaults, hb, hquotes, by decide, hname, hstem, hstemQuotes, hclean, ?_⟩
  rw [Ne, hiff]
  decide +kernel

end Template

end MiniTemplate
