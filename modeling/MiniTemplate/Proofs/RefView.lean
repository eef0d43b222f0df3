import Mathlib.Data.List.Find
import MiniTemplate.Proofs.DirectiveName
import MiniTemplate.Proofs.Marking
import MiniTemplate.Proofs.Proper
import MiniTemplate.Proofs.VueAttributes
import MiniTemplate.Proofs.VueLines

/-!
# What is seen of a ref

A ref is put in the place of the attributes of its written name, `wx:ref`. Who looks at the
element afterwards looks at its directives, and these go by the name without modifiers: `wx:ref`
and `wx:ref.once` are two attributes, but one directive, of which the last one is seen. So a ref
that has been put in is seen unless another spelling stands behind it, and then that one is seen
in its stead: this is what *shadows* a ref (`MiniTemplate.RefStyle.shadows`).

Where the ref has to be put in at the end nothing stands behind it. So a shadow needs an element
that had an attribute `wx:ref` before, and a spelling with a modifier behind that.

What a conversion writes as `ref` is the directive that is seen, if no plain attribute becomes
`ref` before it: of all other directives none begins with an `r` in the target
(`MiniTemplate.Vue.key_convertDirective`).

## Main statements

* `MiniTemplate.Template.directive_ref_read`: which ref is seen, and converted, of every element
  of a template.
-/

namespace MiniTemplate

open Text Node

/-! ### The directives of an element -/

namespace Attribute

variable {a : Attribute} {as : List Attribute}

/-- Is it a ref, with modifiers or without? -/
def spellsRef (a : Attribute) : Bool :=
  a.name == "wx:ref" || "wx:ref.".toList.isPrefixOf a.name.toList

theorem isName_of_spellsRef (h : a.spellsRef) : Directive.isName a.name := by
  have hwx : "wx:".toList <+: a.name.toList := by
    rw [spellsRef, Bool.or_eq_true, beq_iff_eq, List.isPrefixOf_iff_prefix] at h
    rcases h with h | h
    · rw [h]
      decide
    · exact List.IsPrefix.trans (by decide) h
  exact List.any_eq_true.mpr ⟨"wx:", by simp [Directive.marks], by simpa using hwx⟩

/-- An attribute that can be read is seen as a ref exactly if it is spelled as one. -/
theorem WellFormed.any_directive? (ha : a.WellFormed) :
    a.directive?.any (·.name == "wx:ref") = a.spellsRef := by
  have hspell : ((Directive.ofWritten a.name a.value).name == "wx:ref") = a.spellsRef := by
    rw [Bool.eq_iff_iff, beq_iff_eq, spellsRef, Bool.or_eq_true, beq_iff_eq,
      List.isPrefixOf_iff_prefix]
    exact Directive.name_ofWritten_eq_iff (by decide) (by decide) (by decide) _ _
  rw [ha.directive?_eq]
  by_cases hname : Directive.isName a.name
  · rw [if_pos hname]
    exact hspell
  · rw [if_neg hname]
    exact (Bool.eq_false_iff.mpr (mt isName_of_spellsRef hname)).symm

/-- The ref that is seen is the last one, whatever its spelling. -/
theorem get?_directives_ref (has : ∀ a ∈ as, a.WellFormed) :
    (directives as).get? "wx:ref" =
      (as.reverse.find? spellsRef).map fun a => Directive.ofWritten a.name a.value := by
  have hspell : as.reverse.find? (fun a => a.directive?.any (·.name == "wx:ref")) =
      as.reverse.find? spellsRef :=
    List.find?_congr fun a ha => (has a (List.mem_reverse.mp ha)).any_directive?
  rw [get?_directives, hspell]
  cases hfind : as.reverse.find? spellsRef with
  | none => rfl
  | some a =>
    have hwf := has a (List.mem_reverse.mp (List.mem_of_find?_eq_some hfind))
    rw [Option.bind_some, hwf.directive?_eq, if_pos (isName_of_spellsRef (List.find?_some hfind))]
    rfl

end Attribute

/-! ### The directives of an element with its ref -/

namespace RefStyle

variable {a : Attribute} {as : List Attribute}

/-- An attribute is put between what stood before the first of its name and what stood behind it
under other names. -/
theorem place_eq (a : Attribute) (as : List Attribute) :
    place a as = as.takeWhile (·.name != a.name) ++
      a :: (as.dropWhile (·.name != a.name)).filter (·.name != a.name) := by
  induction as with
  | nil => rfl
  | cons b as ih =>
    rw [place]
    by_cases hb : b.name = a.name
    · simp [hb]
    · simp [hb, ih]

/-- **What shadows a ref**: the spellings with modifiers behind the first attribute that is a ref by
its written name. -/
def shadows (as : List Attribute) : List Attribute :=
  (as.dropWhile (·.name != "wx:ref")).filter fun a => "wx:ref.".toList.isPrefixOf a.name.toList

/-- The last ref of an element that has got its ref. -/
theorem find?_spellsRef_place (ha : a.name = "wx:ref") (as : List Attribute) :
    (place a as).reverse.find? Attribute.spellsRef = (shadows as).getLast?.or (some a) := by
  have hself : a.spellsRef := by simp [Attribute.spellsRef, ha]
  -- behind the ref stands no other of its name, so a spelling there has a modifier
  have hbehind : ∀ b : Attribute, decide (b.name != "wx:ref" ∧ b.spellsRef) =
      "wx:ref.".toList.isPrefixOf b.name.toList := by
    intro b
    by_cases hb : b.name = "wx:ref"
    · simp [hb]
    · have hother : b.spellsRef = "wx:ref.".toList.isPrefixOf b.name.toList := by
        rw [Attribute.spellsRef, beq_eq_false_iff_ne.mpr hb, Bool.false_or]
      rw [hother, Bool.eq_iff_iff, decide_eq_true_iff]
      simp [hb]
  have hlast : ((as.dropWhile (·.name != "wx:ref")).filter (·.name != "wx:ref")).reverse.find?
      Attribute.spellsRef = (shadows as).getLast? := by
    rw [← List.filter_reverse, List.find?_filter, shadows, ← List.head?_reverse,
      ← List.filter_reverse, List.head?_filter]
    exact List.find?_congr fun b _ => hbehind b
  rw [place_eq, ha, List.reverse_append, List.reverse_cons, List.append_assoc, List.find?_append,
    hlast, List.singleton_append, List.find?_cons_of_pos hself]

/-- The attributes of a template with a ref among them are again such as can be read. -/
theorem wellFormed_place (ha : a.WellFormed) (has : ∀ b ∈ as, b.WellFormed) :
    ∀ b ∈ place a as, b.WellFormed := by
  intro b hb
  rw [place_eq, List.mem_append, List.mem_cons] at hb
  rcases hb with hb | rfl | hb
  · exact has b (List.takeWhile_subset _ hb)
  · exact ha
  · exact has b (List.dropWhile_subset _ (List.mem_of_mem_filter hb))

theorem attributeOf_ref (value : String) :
    attributeOf "wx:ref" value = .ofWritten "wx:ref" value := by
  have hname : Directive.isName "wx:ref" = true := by decide
  have hdirective : Directive.ofWritten "wx:ref" value = ⟨"wx:ref", value, []⟩ :=
    (Directive.ofWritten_eq_iff "wx:ref" value).mpr (by decide)
  rw [attributeOf, Attribute.ofWritten, if_pos hname, if_pos hname, hdirective]

theorem wellFormed_attributeOf_ref (value : String) :
    (attributeOf "wx:ref" value).WellFormed := by
  rw [attributeOf_ref, Attribute.WellFormed, Attribute.name_ofWritten, Attribute.value_ofWritten]
  exact ⟨by decide, by decide, rfl⟩

/-- **The ref that is seen** of an element with its ref: the ref, or its last shadow. -/
theorem exists_directive_place (has : ∀ b ∈ as, b.WellFormed) (value : String) :
    ∃ d, (Attribute.directives (place (attributeOf "wx:ref" value) as)).get? "wx:ref" = some d ∧
      d.value = (shadows as).getLast?.elim value Attribute.value := by
  rw [Attribute.get?_directives_ref (wellFormed_place (wellFormed_attributeOf_ref value) has),
    find?_spellsRef_place (name_attributeOf _ _)]
  cases (shadows as).getLast? with
  | none => exact ⟨_, rfl, value_attributeOf "wx:ref" value⟩
  | some b => exact ⟨_, rfl, rfl⟩

end RefStyle

/-! ### The ref of an element in the target -/

namespace Vue

variable {t : Target} {as : List Attribute}

theorem Binding.key_ne_ref {b : Binding} (h : b.name.toList.head? ≠ some 'r') :
    b.key ≠ "ref" := by
  intro hkey
  have hchars : b.name.toList.takeWhile (· != '=') = ['r', 'e', 'f'] := by
    simpa [key] using congrArg String.toList hkey
  cases hname : b.name.toList with
  | nil => simp [hname] at hchars
  | cons c cs =>
    rw [hname, List.takeWhile_cons] at hchars
    split at hchars
    · exact h (by rw [hname, (List.cons.inj hchars).1]; rfl)
    · exact absurd hchars (by simp)

theorem head?_handler (event : String) (modifiers : List String) (value : String) :
    (handler event modifiers value).name.toList.head? = some '@' := by
  simp [handler]

theorem head?_eventBinding? {name : String} {d : Directive} {b : Binding}
    (h : eventBinding? name d = some b) : b.name.toList.head? = some '@' := by
  unfold eventBinding? at h
  split at h
  · obtain rfl := Option.some.inj h
    exact head?_handler _ _ _
  · split at h
    · obtain rfl := Option.some.inj h
      exact head?_handler _ _ _
    · split at h
      · obtain rfl := Option.some.inj h
        exact head?_handler _ _ _
      · split at h
        · obtain rfl := Option.some.inj h
          exact head?_handler _ _ _
        · exact absurd h (by simp)

theorem convertDirective_ref (d : Directive) (loop : Loop) :
    convertDirective "wx:ref" d loop = some ⟨"ref", some d.value⟩ := by
  have htable : directiveTable.get? "wx:ref" = none := by decide
  simp [convertDirective, render, htable, Rendering.binding?]

/-- **No other directive becomes a `ref`.** -/
theorem key_convertDirective {name : String} {d : Directive} {loop : Loop} {b : Binding} {c : Char}
    (hname : name ≠ "wx:ref") (hhead : name.toList.head? = some c) (hc : c ≠ 'r')
    (h : convertDirective name d loop = some b) : b.key ≠ "ref" := by
  refine Binding.key_ne_ref ?_
  unfold convertDirective render at h
  split at h
  · rename_i vue hvue
    obtain rfl := Option.some.inj h
    have htable : ∀ e ∈ directiveTable.entries, e.2.toList.head? ≠ some 'r' := by decide
    exact htable (name, vue) (Table.mem_of_get? hvue)
  · rw [if_neg hname] at h
    split_ifs at h
    · obtain rfl := Option.some.inj h
      simp
    · obtain rfl := Option.some.inj h
      simp
    · exact absurd h (by simp [Rendering.binding?])
    · obtain rfl := Option.some.inj h
      simp
    · split at h
      · rename_i hevent
        obtain rfl := Option.some.inj h
        rw [head?_eventBinding? hevent]
        decide
      · obtain rfl := Option.some.inj h
        rw [toList_withModifiers, List.head?_append, hhead]
        simpa using hc

/-- A directive begins as the attribute does that it was written as. -/
theorem head?_directive {a : Attribute} (ha : a.WellFormed) {d : Directive}
    (hd : a.directive? = some d) : ∃ c, d.name.toList.head? = some c ∧ c ≠ 'r' := by
  rw [ha.directive?_eq] at hd
  split at hd
  · rename_i hname
    obtain rfl := Option.some.inj hd
    rw [Directive.ofWritten, String.toList_ofList, Directive.head?_plainSpelling, Text.split_fst]
    obtain ⟨mark, hmark, hbegins⟩ := List.any_eq_true.mp hname
    obtain ⟨r, hr⟩ := List.isPrefixOf_iff_prefix.mp hbegins
    rw [← hr]
    simp only [Directive.marks, List.mem_cons, List.not_mem_nil, or_false] at hmark
    rcases hmark with rfl | rfl | rfl | rfl <;> simp
  · exact absurd hd (by simp)

/-- **The `ref` of an element in the target** is the directive that is seen, unless a plain
attribute becomes `ref`. -/
theorem filter_bindings_ref (has : ∀ a ∈ as, a.WellFormed) {d : Directive}
    (hd : (Attribute.directives as).get? "wx:ref" = some d)
    (hprops : ∀ e ∈ (Attribute.props as).entries, ∀ b ∈ convertProp t e.1 e.2, b.key ≠ "ref") :
    (bindings t as).filter (·.key == "ref") = [⟨"ref", some d.value⟩] := by
  have hplain : ((Attribute.props as).entries.filterMap fun e => convertProp t e.1 e.2).find?
      (·.key == "ref") = none := by
    rw [List.find?_eq_none]
    intro b hb
    obtain ⟨e, he, hconvert⟩ := List.mem_filterMap.mp hb
    simpa using hprops e he b hconvert
  let loop := Loop.ofDirectives (Attribute.directives as)
  -- an entry becomes a `ref` exactly if it is the one that is looked up
  have hentry : ∀ e ∈ (Attribute.directives as).entries,
      (convertDirective e.1 e.2 loop).any (·.key == "ref") = (e.1 == "wx:ref") := by
    intro e he
    obtain ⟨a, ha, d, hd, rfl⟩ := Attribute.mem_directives he
    by_cases hname : d.name = "wx:ref"
    · simp [hname, convertDirective_ref, Binding.key]
    · obtain ⟨c, hhead, hc⟩ := head?_directive (has a ha) hd
      rw [beq_eq_false_iff_ne.mpr hname, Option.any_eq_false]
      intro b hb
      simpa using key_convertDirective hname hhead hc hb
  obtain ⟨e, he, rfl⟩ := Option.map_eq_some_iff.mp hd
  have hkey : e.1 = "wx:ref" := by simpa using List.find?_some he
  rw [bindings, filter_keepFirst, if_neg List.not_mem_nil, candidates, List.find?_append, hplain,
    Option.none_or, List.find?_filterMap, List.find?_congr hentry, he, Option.bind_some, hkey,
    convertDirective_ref]
  rfl

/-! ### The lines of an element -/

theorem layout_subset {n : Node} {f : List Node} (h : n ∈ f) (level : Int) :
    nodeLayout t level n ⊆ layout t level f := by
  induction f with
  | nil => exact absurd h List.not_mem_nil
  | cons m f ih =>
    rw [layout_cons]
    rcases List.mem_cons.mp h with rfl | h
    · exact List.subset_append_left _ _
    · exact List.subset_append_of_subset_right _ (ih h)

/-- The opening tag of an element stands on one of the lines. -/
theorem exists_line {n : Node} {f : List Node} (h : Occurs n f) {name : String}
    {children : List Node} {selfClosing : Bool} {span : Option Span}
    (hn : n = .element name as children selfClosing span) (level : Int) :
    ∃ line ∈ layout t level f, (head t name as).toList <:+: line.toList := by
  induction h generalizing level with
  | here hmem =>
    subst hn
    have hsubset := layout_subset (t := t) hmem level
    rw [nodeLayout_element] at hsubset
    split at hsubset
    · refine ⟨_, hsubset List.mem_cons_self, ?_⟩
      split
      · exact ⟨(Text.spaces (level * t.indent)).toList, " />".toList, by simp⟩
      · exact ⟨(Text.spaces (level * t.indent)).toList,
          "></".toList ++ (t.tagName name).toList ++ ['>'], by simp⟩
    · exact ⟨_, hsubset List.mem_cons_self, (Text.spaces (level * t.indent)).toList, ['>'],
        by simp⟩
  | @within m ns hmem hoccurs ih =>
    obtain ⟨line, hline, hhead⟩ := ih (level + 1)
    refine ⟨line, layout_subset hmem level ?_, hhead⟩
    cases m with
    | text _ _ => exact absurd hline (by simp [Node.children])
    | comment _ _ => exact absurd hline (by simp [Node.children])
    | element _ _ children _ _ =>
      rw [Node.children] at hline
      rw [nodeLayout_element, if_neg]
      · exact List.mem_cons_of_mem _ (List.mem_append_left _ hline)
      · rintro hempty
        rw [List.isEmpty_iff.mp hempty] at hline
        exact absurd hline List.not_mem_nil

theorem infix_intercalate {line : String} {l : List String} (h : line ∈ l) :
    line.toList <:+: ("\n".intercalate l).toList := by
  induction l with
  | nil => exact absurd h List.not_mem_nil
  | cons x l ih =>
    cases l with
    | nil =>
      obtain rfl := List.mem_singleton.mp h
      simp
    | cons y l =>
      rw [String.intercalate_cons_cons, String.toList_append, String.toList_append]
      rcases List.mem_cons.mp h with rfl | h
      · exact ((List.prefix_append _ _).trans (List.prefix_append _ _)).isInfix
      · exact (ih h).trans (List.suffix_append _ _).isInfix

/-- **The opening tag of an element** is written in the conversion of its forest. -/
theorem head_infix_convert {f : Forest} {name : String} {children : List Node}
    {selfClosing : Bool} {span : Option Span}
    (h : Occurs (.element name as children selfClosing span) f) :
    (head t name as).toList <:+: (convert t f).toList := by
  obtain ⟨line, hline, hhead⟩ := exists_line (t := t) h rfl 0
  rw [convert, lines_eq]
  exact hhead.trans (infix_intercalate hline)

end Vue

namespace Template

/-- **Which ref is seen.** In the forest of any text, with refs of the standard name and any stem,
every element has a directive `wx:ref`. Its value is the ref, which names the stem, the path and
the element, unless the ref has shadows: then it is the value of the last of these. The opening
tag of the element in a conversion is written from the attributes that have the ref, and has this
value as its one attribute `ref`, unless a plain attribute becomes `ref`. -/
theorem directive_ref_read (limit : Int) (text stem : String) (t : Vue.Target) {i : Nat}
    {is : List Nat} {name : String} {as : List Attribute} {children : List Node}
    {selfClosing : Bool} {span : Option Span}
    (hn : (read limit text).forest.node? i is =
      some (.element name as children selfClosing span)) :
    let f := (read limit text).forest
    let marked := f.annotate ⟨"wx:ref", stem⟩
    let value := stem ++ "_" ++ f.route i is ++ "_" ++ name
    ∃ as' children' d,
      marked.node? i is = some (.element name as' children' selfClosing span) ∧
      (Attribute.directives as').get? "wx:ref" = some d ∧
      d.value = (RefStyle.shadows as).getLast?.elim value Attribute.value ∧
      (Vue.head t name as').toList <:+: (Vue.convert t marked).toList ∧
      ((∀ e ∈ (Attribute.props as').entries, ∀ b ∈ Vue.convertProp t e.1 e.2, b.key ≠ "ref") →
        (Vue.bindings t as').filter (·.key == "ref") = [⟨"ref", some d.value⟩]) := by
  intro f marked value
  have has : ∀ a ∈ as, a.WellFormed := (proper_read limit text _ (Forest.occurs_of_node? hn)).2.2.1
  have hvalue : value = RefStyle.value ⟨"wx:ref", stem⟩ (1 :: f.path i is) name := by
    rw [RefStyle.value, ← Forest.route_eq hn]
  have hmarked := Forest.node?_annotate ⟨"wx:ref", stem⟩ f i is
  rw [hn] at hmarked
  obtain ⟨d, hd, hdvalue⟩ := RefStyle.exists_directive_place has value
  have hwf := RefStyle.wellFormed_place (RefStyle.wellFormed_attributeOf_ref value) has
  rw [hvalue] at hd hwf
  refine ⟨_, _, d, hmarked, hd, hdvalue, ?_, ?_⟩
  · exact Vue.head_infix_convert (Forest.occurs_of_node? hmarked)
  · exact Vue.filter_bindings_ref hwf hd

/-- An element with a ref and, behind it, a ref with a modifier: the ref that is put in is not the
one that is seen, nor the one that is converted. -/
theorem directive_ref_read_shadowed :
    let text := "<a wx:ref=\"p\" wx:ref.x=\"q\"/>"
    let as := [Attribute.ofWritten "wx:ref" "p", Attribute.ofWritten "wx:ref.x" "q"]
    let marked := (read 256 text).forest.annotate ⟨"wx:ref", "devtools"⟩
    (∃ name children selfClosing span as' children' d,
      (read 256 text).forest.node? 0 [] = some (.element name as children selfClosing span) ∧
      marked.node? 0 [] = some (.element name as' children' selfClosing span) ∧
      (Attribute.directives as').get? "wx:ref" = some d ∧ d.value = "q") ∧
      Vue.convert .standard marked = "<a ref=\"q\"></a>" := by
  intro text as marked
  have has : ((read 256 text).forest.node? 0 []).map Node.attributes = some as := by
    decide +kernel
  obtain ⟨n, hn, hattributes⟩ := Option.map_eq_some_iff.mp has
  cases n with
  | text content span => exact absurd hattributes (by simp [Node.attributes, as])
  | comment content span => exact absurd hattributes (by simp [Node.attributes, as])
  | element name as₀ children selfClosing span =>
    obtain rfl : as₀ = as := hattributes
    obtain ⟨as', children', d, hmarked, hd, hvalue, -⟩ :=
      directive_ref_read 256 text "devtools" .standard hn
    have hshadows : (RefStyle.shadows as).getLast? = some (.ofWritten "wx:ref.x" "q") := by
      decide
    rw [hshadows] at hvalue
    exact ⟨⟨name, children, selfClosing, span, as', children', d, hn, hmarked, hd, hvalue⟩,
      by decide +kernel⟩

end Template

end MiniTemplate
