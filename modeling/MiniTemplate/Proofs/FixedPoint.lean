import MiniTemplate.Proofs.RefValue
import MiniTemplate.Proofs.Reindentation

/-!
# Refs that are written and read are there to stay

A forest gets refs and is written, and what is written is read again. The forest that is read
need not be the one that was written: its spans are others, the blanks around its texts are
lost or changed, its values may be masked, and the directive of a ref is taken apart from its
name. But all of that is gone in the readable form, and in their readable forms the two are
the same. Three facts then say that refs and writing change nothing any more:

* a forest and its readable form are written alike (`MiniTemplate.Markup.write_readable`);
* they also get refs alike (`MiniTemplate.Forest.readable_annotate`), since masking keeps the
  names of attributes and the readable form keeps the elements where they are;
* a forest that has its refs keeps them (`MiniTemplate.Forest.annotate_annotate`).

The last of these does not need the refs to be the same: refs of one name give way to those of that
name that are put in later, wherever they stand and whatever they look like.

## Main statements

* `MiniTemplate.Forest.annotate_last`: of refs that are put in one after another, under one name,
  the last ones stay.
* `MiniTemplate.Template.write_annotate_fixed`: a text that was read without a fault, written
  with refs, is a fixed point of reading it and writing it with refs.
-/

namespace MiniTemplate

open Text Node Markup

namespace RefStyle

/-! ### One attribute in its place -/

theorem mem_place {a b : Attribute} {as : List Attribute} (h : b ∈ place a as) :
    b = a ∨ b ∈ as := by
  induction as with
  | nil => exact Or.inl (List.mem_singleton.mp h)
  | cons c as ih =>
    rw [place] at h
    split at h
    · rcases List.mem_cons.mp h with h | h
      · exact Or.inl h
      · exact Or.inr (List.mem_cons_of_mem c (List.mem_of_mem_filter h))
    · rcases List.mem_cons.mp h with rfl | h
      · exact Or.inr List.mem_cons_self
      · exact (ih h).imp_right (List.mem_cons_of_mem c)

/-- Of two attributes of one name that are put in one after the other, the second stays. -/
theorem place_place {a b : Attribute} (h : b.name = a.name) (as : List Attribute) :
    place a (place b as) = place a as := by
  induction as with
  | nil => simp [place, h]
  | cons c as ih =>
    by_cases hc : c.name = a.name
    · -- `b` is where `c` was, and nothing else of that name is left behind it
      simp [place, h, hc, List.filter_filter]
    · rw [place, if_neg (h ▸ hc), place, if_neg hc, ih, place, if_neg hc]

/-- Masking keeps names, so an attribute is put in the same place before and after. -/
theorem map_masked_place (a : Attribute) (as : List Attribute) :
    (place a (as.map Attribute.masked)).map Attribute.masked =
      (place a as).map Attribute.masked := by
  induction as with
  | nil => rfl
  | cons b as ih =>
    rw [List.map_cons, place, place, Attribute.name_masked]
    split
    · simp [List.filter_map, Function.comp_def, Attribute.masked_masked]
    · rw [List.map_cons, List.map_cons, Attribute.masked_masked, ih]

/-! ### Marking a forest again -/

variable (r : RefStyle)

/-- A second ref under the same name replaces the first, whatever the two look like. -/
theorem attributes_attributes {r r' : RefStyle} (h : r'.name = r.name) (path : List Nat)
    (name : String) (as : List Attribute) :
    r.attributes path name (r'.attributes path name as) = r.attributes path name as := by
  refine place_place ?_ as
  rw [name_attributeOf, name_attributeOf, h]

theorem markAll_markAll {r r' : RefStyle} (h : r'.name = r.name) (path : List Nat) (k : Nat)
    (f : List Node) : r.markAll path k (r'.markAll path k f) = r.markAll path k f := by
  induction f using forest_induction generalizing path k with
  | nil => rfl
  | text content span ns ih => simp [markAll_cons, markNode, isElement, ih]
  | comment content span ns ih => simp [markAll_cons, markNode, isElement, ih]
  | element name as children selfClosing span ns ihc ihn =>
    -- refs are no elements, so the numbers of the elements are the same in the marked forest
    simp [markAll_cons, markNode, isElement, attributes_attributes h, ihc, ihn]

theorem readable_markAll (path : List Nat) (k : Nat) (f : List Node) :
    readable (r.markAll path k (readable f)) = readable (r.markAll path k f) := by
  unfold readable
  induction f using forest_induction generalizing path k with
  | nil => rfl
  | text content span ns ih => simp [markAll_cons, markNode, isElement, trim_trim, ih]
  | comment content span ns ih => simp [markAll_cons, markNode, isElement, ih]
  | element name as children selfClosing span ns ihc ihn =>
    simp [markAll_cons, markNode, isElement, attributes, map_masked_place, ihc, ihn]

end RefStyle

namespace Forest

/-- Refs that are there already give way to those of the same name that are put in now. -/
theorem annotate_of_name_eq {r r' : RefStyle} (h : r'.name = r.name) (f : Forest) :
    (f.annotate r').annotate r = f.annotate r := by
  rw [annotate_eq, annotate_eq, annotate_eq, List.map_map]
  refine List.map_congr_left fun n _ => ?_
  -- a tree is marked as the only element of its parent would be
  simpa [RefStyle.markAll_cons] using RefStyle.markAll_markAll h [] 1 [n]

/-- **The last refs stay.** However often a forest has got refs of one name before, with any stems
and in any order, the refs of that name that it gets now are those it would have got at first. So of
two in a row the second stays, and the same refs twice are the same as once. -/
theorem annotate_last (name stem : String) (stems : List String) (f : Forest) :
    (stems.foldl (fun g stem' => g.annotate ⟨name, stem'⟩) f).annotate ⟨name, stem⟩ =
      f.annotate ⟨name, stem⟩ := by
  induction stems generalizing f with
  | nil => rfl
  | cons stem' stems ih =>
    rw [List.foldl_cons, ih]
    exact annotate_of_name_eq (by rfl) f

variable (r : RefStyle) (f : Forest)

/-- **Refs are put in once.** -/
theorem annotate_annotate : (f.annotate r).annotate r = f.annotate r :=
  annotate_of_name_eq rfl f

/-- **The refs of a forest are those of its readable form.** -/
theorem readable_annotate : readable (annotate r (readable f)) = readable (f.annotate r) := by
  rw [annotate_eq, annotate_eq, readable, readable, readable, recastAll_eq_map, recastAll_eq_map,
    recastAll_eq_map, List.map_map, List.map_map, List.map_map]
  refine List.map_congr_left fun n _ => ?_
  simpa [RefStyle.markAll_cons, readable] using r.readable_markAll [] 1 [n]

end Forest

/-! ### What is written is well-formed -/

namespace RefStyle

variable {r : RefStyle} {f g : List Node}

/-- **Trees that are marked** one by one, each with a path of its own. -/
def MarkedAll (r : RefStyle) : List Node → List Node → Prop :=
  List.Forall₂ fun n m => ∃ path, m = r.markNode path n

theorem markedAll_markAll (path : List Nat) (k : Nat) (f : List Node) :
    r.MarkedAll f (r.markAll path k f) := by
  induction f generalizing k with
  | nil => exact .nil
  | cons n ns ih => exact .cons ⟨_, rfl⟩ (ih _)

theorem markedAll_annotate (r : RefStyle) (f : Forest) : r.MarkedAll f (f.annotate r) := by
  rw [Forest.annotate_eq]
  induction f with
  | nil => exact .nil
  | cons n ns ih => exact .cons ⟨[1], rfl⟩ ih

/-- Refs nest nothing deeper. -/
theorem MarkedAll.nestings_eq (h : r.MarkedAll f g) : nestings g = nestings f := by
  induction f using forest_induction generalizing g with
  | nil =>
    cases h
    rfl
  | text content span ns ih =>
    obtain _ | ⟨⟨path, rfl⟩, hns⟩ := h
    rw [nestings_cons, nestings_cons, ih hns]
    rfl
  | comment content span ns ih =>
    obtain _ | ⟨⟨path, rfl⟩, hns⟩ := h
    rw [nestings_cons, nestings_cons, ih hns]
    rfl
  | element name as children selfClosing span ns ihc ihn =>
    obtain _ | ⟨⟨path, rfl⟩, hns⟩ := h
    rw [nestings_cons, nestings_cons, ihn hns, markNode, nesting_element, nesting_element,
      ihc (markedAll_markAll path 1 children)]

/-- Texts stay texts, and other nodes stay others. -/
theorem MarkedAll.exists_head? (h : r.MarkedAll f g) {m : Node} (hm : m ∈ (readable g).head?) :
    ∃ n ∈ f.head?, n.isText = m.isText := by
  obtain _ | ⟨⟨path, rfl⟩, -⟩ := h
  · exact absurd hm (by simp [readable])
  · rename_i n _ _
    obtain rfl := Option.some.inj hm
    refine ⟨n, rfl, ?_⟩
    cases n <;> rfl

section Names

variable (hne : r.name.toList ≠ []) (hname : ∀ c ∈ r.name.toList, isAttributeChar c)

include hne hname

/-- A marked tag can be written. -/
theorem wellFormed_attributes {as : List Attribute} (has : ∀ a ∈ as, a.WellFormed)
    (path : List Nat) (name : String) :
    ∀ a ∈ (r.attributes path name as).map Attribute.masked, a.WellFormed := by
  intro a ha
  obtain ⟨b, hb, rfl⟩ := List.mem_map.mp ha
  rcases mem_place hb with rfl | hb
  · exact Attribute.wellFormed_masked (by rwa [name_attributeOf]) (by rwa [name_attributeOf])
  · exact Attribute.wellFormed_masked (has b hb).1 (has b hb).2.1

/-- **A well-formed forest with refs** is well-formed in its readable form. -/
theorem MarkedAll.allWellFormed (h : r.MarkedAll f g) (hf : AllWellFormed f) :
    AllWellFormed (readable g) := by
  induction f using forest_induction generalizing g with
  | nil =>
    cases h
    trivial
  | text content span ns ih =>
    obtain _ | ⟨⟨path, rfl⟩, hns⟩ := h
    obtain ⟨hn, hmeet, hf⟩ := hf
    refine ⟨@Proper.trimmed content span hn, ?_, ih hns hf⟩
    intro _ m hm
    obtain ⟨n, hmem, htext⟩ := MarkedAll.exists_head? hns hm
    rw [← htext]
    exact hmeet rfl n hmem
  | comment content span ns ih =>
    obtain _ | ⟨⟨path, rfl⟩, hns⟩ := h
    obtain ⟨hn, -, hf⟩ := hf
    exact ⟨hn, nofun, ih hns hf⟩
  | element name as children selfClosing span ns ihc ihn =>
    obtain _ | ⟨⟨path, rfl⟩, hns⟩ := h
    obtain ⟨⟨⟨hne', hname', has, hempty⟩, hc⟩, -, hf⟩ := hf
    refine ⟨⟨⟨hne', hname', wellFormed_attributes hne hname has path name, ?_⟩, ?_⟩, nofun,
      ihn hns hf⟩
    · intro hclosed
      rw [hempty hclosed]
      rfl
    · exact ihc (markedAll_markAll path 1 children) hc

end Names

/-- The value of a ref has a backslash only if its stem or the name has one. -/
theorem backslash_value (hstem : '\\' ∉ r.stem.toList) {name : String}
    (hname : ∀ c ∈ name.toList, isTagChar c) (path : List Nat) :
    '\\' ∉ (r.value path name).toList := by
  have hpath : '\\' ∉ (pathText path).toList := by
    intro h
    rcases mem_pathText h with h | h <;> exact absurd h (by decide)
  have hn : '\\' ∉ name.toList := fun h => absurd (hname _ h) (by decide)
  simp [value, hstem, hpath, hn]

/-- The values of a forest with refs are the values it had and those of the refs. -/
theorem MarkedAll.allValues {P : String → Prop} (h : r.MarkedAll f g)
    (hP : ∀ path name, (∀ c ∈ name.toList, isTagChar c) → P (r.value path name))
    (hf : AllWellFormed f) (hv : AllValues P f) : AllValues P g := by
  induction f using forest_induction generalizing g with
  | nil =>
    cases h
    trivial
  | text content span ns ih =>
    obtain _ | ⟨⟨path, rfl⟩, hns⟩ := h
    exact ⟨trivial, ih hns hf.2.2 hv.2⟩
  | comment content span ns ih =>
    obtain _ | ⟨⟨path, rfl⟩, hns⟩ := h
    exact ⟨trivial, ih hns hf.2.2 hv.2⟩
  | element name as children selfClosing span ns ihc ihn =>
    obtain _ | ⟨⟨path, rfl⟩, hns⟩ := h
    obtain ⟨⟨⟨-, hname, -, -⟩, hc⟩, -, hf⟩ := hf
    refine ⟨⟨?_, ihc (markedAll_markAll path 1 children) hc hv.1.2⟩, ihn hns hf hv.2⟩
    intro a ha
    rcases mem_place ha with rfl | ha
    · rw [value_attributeOf]
      exact hP path name hname
    · exact hv.1.1 a ha

end RefStyle

namespace Template

/-- **What is written with refs is read back** in its readable form. -/
theorem trimmed_read_annotate {limit : Int} {f : Forest} {r : RefStyle} (hf : AllWellFormed f)
    (hb : AllValues (fun v => '\\' ∉ v.toList) f) (hlimit : nestings f ≤ limit.toNat)
    (hne : r.name.toList ≠ []) (hname : ∀ c ∈ r.name.toList, isAttributeChar c)
    (hstem : '\\' ∉ r.stem.toList) (indent : Int) :
    (read limit (write indent (f.annotate r))).Clean ∧
      recastAll trim id (read limit (write indent (f.annotate r))).forest =
        readable (f.annotate r) := by
  have hmarked := RefStyle.markedAll_annotate r f
  -- a ref may be a directive that no text has, so it is the readable form that is read back
  have hvalues := hmarked.allValues (fun path _ htag => RefStyle.backslash_value hstem htag path)
    hf hb
  have hroom : nestings (readable (f.annotate r)) ≤ limit.toNat := by
    rw [readable, nestings_recastAll, hmarked.nestings_eq]
    exact hlimit
  have hread := trimmed_read_write (hmarked.allWellFormed hne hname hf)
    (hvalues.readable fun _ => backslash_masked) hroom indent
  rwa [write_readable, readable_readable] at hread

/-- The two forests are the same up to what the readable form leaves out. -/
theorem readable_read_annotate {limit : Int} {f : Forest} {r : RefStyle} (hf : AllWellFormed f)
    (hb : AllValues (fun v => '\\' ∉ v.toList) f) (hlimit : nestings f ≤ limit.toNat)
    (hne : r.name.toList ≠ []) (hname : ∀ c ∈ r.name.toList, isAttributeChar c)
    (hstem : '\\' ∉ r.stem.toList) (indent : Int) :
    (read limit (write indent (f.annotate r))).Clean ∧
      readable (read limit (write indent (f.annotate r))).forest = readable (f.annotate r) := by
  obtain ⟨hclean, htrimmed⟩ := trimmed_read_annotate hf hb hlimit hne hname hstem indent
  refine ⟨hclean, ?_⟩
  rw [← readable_trimmed, htrimmed, readable_readable]

/-- **A written forest with refs is a fixed point.** If a text is read without a fault and no value
has a backslash, then with refs of any name that can be written, and a stem without a backslash,
the forest is written, at any indentation, as a text that is read without a fault and without
an element left open; and that text is what its own forest is written as with the same refs. -/
theorem write_annotate_fixed (limit indent : Int) (text : String) (r : RefStyle)
    (hfaults : (read limit text).faults = [])
    (hb : AllValues (fun v => '\\' ∉ v.toList) (read limit text).forest)
    (hne : r.name.toList ≠ []) (hname : ∀ c ∈ r.name.toList, isAttributeChar c)
    (hstem : '\\' ∉ r.stem.toList) :
    let out := write indent ((read limit text).forest.annotate r)
    (read limit out).Clean ∧ write indent ((read limit out).forest.annotate r) = out := by
  intro out
  obtain ⟨hf, hlimit⟩ := wellFormed_read hfaults
  obtain ⟨hclean, hback⟩ := readable_read_annotate hf hb hlimit hne hname hstem indent
  refine ⟨hclean, ?_⟩
  calc write indent ((read limit out).forest.annotate r)
      = write indent (readable (Forest.annotate r (readable (read limit out).forest))) := by
        rw [Forest.readable_annotate, write_readable]
    _ = write indent (((read limit text).forest.annotate r).annotate r) := by
        rw [hback, Forest.readable_annotate, write_readable]
    _ = out := by rw [Forest.annotate_annotate]

/-- Refs under the name of a directive with a modifier, of which there are two already, and
both kinds of quotes in the stem and in a value. -/
theorem write_annotate_fixed_quotes :
    let text := "<a x=\"it's \\\"b\\\"\">  t <i bind:tap.once=1 y bind:tap.once=2 /></a>"
    let r : RefStyle := ⟨"bind:tap.once", "'\""⟩
    let out := write 2 ((read 1 text).forest.annotate r)
    (read 1 text).faults = [] ∧
      AllValues (fun v => '\\' ∉ v.toList) (read 1 text).forest ∧
      (read 1 out).Clean ∧ write 2 ((read 1 out).forest.annotate r) = out := by
  intro text r out
  have hfaults : (read 1 text).faults = [] := by decide +kernel
  have hb : AllValues (fun v => '\\' ∉ v.toList) (read 1 text).forest := by decide +kernel
  exact ⟨hfaults, hb,
    write_annotate_fixed 1 2 text r hfaults hb (by decide) (by decide) (by decide)⟩

end Template

end MiniTemplate
