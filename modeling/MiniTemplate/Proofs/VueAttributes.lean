import MiniTemplate.Proofs.AttributeViews
import MiniTemplate.Proofs.Tag
import MiniTemplate.Proofs.Proper
import MiniTemplate.Proofs.VueExpression
import MiniTemplate.Vue.Attributes

/-!
# The attributes of a conversion can be written

An attribute of Vue is put together from parts of the attributes of the template: the name of a
directive without its modifiers or its colon, what follows a mark, an expression without its
braces, the variables of a loop. All of this only leaves characters out, or puts in
characters of names, so a name made of the characters of names stays one, and a value without
backslashes stays one (`MiniTemplate.Vue.writable_bindings`). The tables of the target are the
other source of names, and they have to be asked for as much (`MiniTemplate.Vue.Target.Writable`).

What is left out is never all of a name: a directive begins with a mark that has no dot, so
something stands in front of its modifiers (`MiniTemplate.Directive.writable_ofWritten`).
-/

namespace MiniTemplate

open Text

/-- **A name for attributes**: not empty, and made of the characters of such names. -/
def IsAttributeName (s : String) : Prop := s.toList ≠ [] ∧ ∀ c ∈ s.toList, isAttributeChar c

/-- **A name for tags**, likewise. -/
def IsTagName (s : String) : Prop := s.toList ≠ [] ∧ ∀ c ∈ s.toList, isTagChar c

instance : DecidablePred IsAttributeName := fun _ => inferInstanceAs (Decidable (_ ∧ _))

instance : DecidablePred IsTagName := fun _ => inferInstanceAs (Decidable (_ ∧ _))

/-! ### Directives -/

/-- **A directive that can be written**: its name and its modifiers are made of the characters
of names, and its value has no backslash. -/
structure Directive.Writable (d : Directive) : Prop where
  name : IsAttributeName d.name
  modifiers : ∀ m ∈ d.modifiers, ∀ c ∈ m.toList, isAttributeChar c
  value : '\\' ∉ d.value.toList

namespace Directive

/-- In front of its modifiers a directive has a name. -/
theorem split_ne_nil {name : String} (h : isName name) : (split '.' name.toList).1 ≠ [] := by
  obtain ⟨mark, hmark, hprefix⟩ := List.any_eq_true.mp h
  have hhead : ∃ c s, mark.toList = c :: s ∧ c ≠ '.' := by
    simp only [marks, List.mem_cons, List.not_mem_nil, or_false] at hmark
    rcases hmark with rfl | rfl | rfl | rfl
    all_goals exact ⟨_, _, rfl, by decide⟩
  obtain ⟨c, s, hs, hc⟩ := hhead
  obtain ⟨r, hr⟩ := List.isPrefixOf_iff_prefix.mp hprefix
  rw [← hr, hs, List.cons_append, split]
  simp [hc]

theorem writable_ofWritten {name value : String} (h : isName name)
    (hname : ∀ c ∈ name.toList, isAttributeChar c) (hvalue : '\\' ∉ value.toList) :
    (ofWritten name value).Writable := by
  refine ⟨⟨?_, ?_⟩, ?_, hvalue⟩
  · rw [ofWritten, String.toList_ofList, plainSpelling]
    exact dropColon_ne_nil (by simp) (dropColon_ne_nil (by simp) (split_ne_nil h))
  · intro c hc
    rw [ofWritten, String.toList_ofList, plainSpelling] at hc
    have hbase := mem_of_mem_dropColon (mem_of_mem_dropColon hc)
    exact hname c (mem_of_mem_split (Or.inl hbase))
  · intro m hm c hc
    obtain ⟨p, hp, rfl⟩ := List.mem_map.mp hm
    rw [String.toList_ofList] at hc
    exact hname c (mem_of_mem_split (Or.inr ⟨p, hp, hc⟩))

end Directive

namespace Attribute

variable {a : Attribute} {as : List Attribute}

theorem writable_directive? (ha : a.WellFormed) (hb : '\\' ∉ a.value.toList) {d : Directive}
    (h : a.directive? = some d) : d.Writable := by
  rw [ha.directive?_eq] at h
  split at h
  · rename_i hd
    obtain rfl := Option.some.inj h
    exact Directive.writable_ofWritten hd ha.2.1 hb
  · exact absurd h (by simp)

theorem writable_directives (has : ∀ a ∈ as, a.WellFormed)
    (hb : ∀ a ∈ as, '\\' ∉ a.value.toList) :
    ∀ e ∈ (directives as).entries, e.1 = e.2.name ∧ e.2.Writable := by
  intro e he
  obtain ⟨a, ha, d, hd, rfl⟩ := mem_directives he
  exact ⟨rfl, writable_directive? (has a ha) (hb a ha) hd⟩

end Attribute

namespace Vue

/-! ### Names and values -/

/-- **An attribute of Vue that can be written**, and read back. -/
structure Binding.Writable (b : Binding) : Prop where
  name : IsAttributeName b.name
  value : ∀ v ∈ b.value, '\\' ∉ v.toList

theorem Binding.writable_some {name value : String} (hname : IsAttributeName name)
    (hvalue : '\\' ∉ value.toList) : Binding.Writable ⟨name, some value⟩ := by
  refine ⟨hname, ?_⟩
  rintro v ⟨⟩
  exact hvalue

/-- **A target whose names can be written**; an attribute may also become nothing. -/
structure Target.Writable (t : Target) : Prop where
  tags : ∀ e ∈ t.tags.entries, IsTagName e.2
  attributes : ∀ e ∈ t.attributes.entries, e.2 = "" ∨ IsAttributeName e.2

theorem mem_of_mem_unwrap {value : String} {c : Char} (h : c ∈ (unwrap value).toList) :
    c ∈ value.toList := by
  by_cases hsame : unwrap value = value
  · rwa [hsame] at h
  · obtain ⟨b, b', -, -, hsplit⟩ := (unwraps_of_ne hsame).padded
    rw [hsplit]
    simp [h]

theorem backslash_unwrap {value : String} (h : '\\' ∉ value.toList) :
    '\\' ∉ (unwrap value).toList := fun hmem => h (mem_of_mem_unwrap hmem)

theorem toList_withModifiers (name : String) (modifiers : List String) :
    (withModifiers name modifiers).toList =
      name.toList ++ modifiers.flatMap fun m => '.' :: m.toList := by
  induction modifiers using List.reverseRecOn with
  | nil => simp [withModifiers]
  | append_singleton ms m ih =>
    rw [List.flatMap_append, ← List.append_assoc, ← ih, withModifiers, withModifiers]
    simp [String.join]

theorem isAttributeChar_withModifiers {name : String} {modifiers : List String}
    (hname : ∀ c ∈ name.toList, isAttributeChar c)
    (hmods : ∀ m ∈ modifiers, ∀ c ∈ m.toList, isAttributeChar c) :
    ∀ c ∈ (withModifiers name modifiers).toList, isAttributeChar c := by
  intro c hc
  rw [toList_withModifiers, List.mem_append, List.mem_flatMap] at hc
  rcases hc with hc | ⟨m, hm, hc⟩
  · exact hname c hc
  · rcases List.mem_cons.mp hc with rfl | hc
    · decide
    · exact hmods m hm c hc

theorem writable_handler {event value : String} {modifiers : List String}
    (hevent : ∀ c ∈ event.toList, isAttributeChar c)
    (hmods : ∀ m ∈ modifiers, ∀ c ∈ m.toList, isAttributeChar c) (hvalue : '\\' ∉ value.toList) :
    (handler event modifiers value).Writable := by
  have htable : ∀ e ∈ eventTable.entries, ∀ c ∈ e.2.toList, isAttributeChar c := by decide
  have hrenamed : ∀ c ∈ (eventTable.getD event event).toList, isAttributeChar c :=
    eventTable.getD_of_forall (P := fun s : String => ∀ c ∈ s.toList, isAttributeChar c)
      htable event hevent
  refine Binding.writable_some ⟨by simp, ?_⟩ hvalue
  intro c hc
  rw [String.toList_append] at hc
  rcases List.mem_append.mp hc with hc | hc
  · obtain rfl : c = '@' := by simpa using hc
    decide
  · exact isAttributeChar_withModifiers hrenamed hmods c hc

/-! ### Plain attributes -/

variable {t : Target} {as : List Attribute} {d : Directive} {b : Binding}

theorem writable_convertProp (ht : t.Writable) {name value : String} (hname : IsAttributeName name)
    (hvalue : '\\' ∉ value.toList) (h : convertProp t name value = some b) : b.Writable := by
  rw [convertProp] at h
  split at h
  · exact absurd h (by simp)
  · rename_i hne
    obtain rfl := Option.some.inj h
    refine Binding.writable_some ?_ hvalue
    have hrenamed := t.attributes.getD_of_forall (P := fun s => s = "" ∨ IsAttributeName s)
      ht.attributes name (Or.inr hname)
    rcases hrenamed with hempty | hattr
    · exact absurd hempty (by simpa using hne)
    · exact hattr

/-! ### Directives -/

/-- A loop whose variables have no backslash. -/
def Loop.Writable (loop : Loop) : Prop := '\\' ∉ loop.item.toList ∧ '\\' ∉ loop.index.toList

theorem backslash_named {o : Option Directive} {default : String}
    (ho : ∀ d ∈ o, '\\' ∉ d.value.toList) (hdefault : '\\' ∉ default.toList) :
    '\\' ∉ (Loop.named o default).toList := by
  unfold Loop.named
  split
  · split
    · exact hdefault
    · exact backslash_unwrap (ho _ rfl)
  · exact hdefault

theorem Loop.writable_ofDirectives (has : ∀ a ∈ as, a.WellFormed)
    (hb : ∀ a ∈ as, '\\' ∉ a.value.toList) :
    (Loop.ofDirectives (Attribute.directives as)).Writable := by
  have hget : ∀ key, ∀ d ∈ (Attribute.directives as).get? key, '\\' ∉ d.value.toList := by
    intro key d hd
    exact (Attribute.writable_directives has hb _ (Table.mem_of_get? hd)).2.value
  exact ⟨backslash_named (hget _) (by decide), backslash_named (hget _) (by decide)⟩

theorem writable_eventBinding? (hd : d.Writable) (h : eventBinding? d.name d = some b) :
    b.Writable := by
  have hafter : ∀ {mark event : String}, after? mark d.name = some event →
      ∀ c ∈ event.toList, isAttributeChar c := by
    intro mark event hevent c hc
    exact hd.name.2 c (mem_of_mem_after? hevent hc)
  rw [eventBinding?] at h
  split at h
  · obtain rfl := Option.some.inj h
    exact writable_handler (by decide) hd.modifiers hd.value
  split at h
  · rename_i event hevent
    obtain rfl := Option.some.inj h
    exact writable_handler (hafter hevent) hd.modifiers hd.value
  split at h
  · rename_i event hevent
    obtain rfl := Option.some.inj h
    refine writable_handler (hafter hevent) ?_ hd.value
    exact List.forall_mem_cons.mpr ⟨by decide, hd.modifiers⟩
  split at h
  · rename_i event hevent
    obtain rfl := Option.some.inj h
    exact writable_handler (hafter hevent) hd.modifiers hd.value
  · exact absurd h (by simp)

theorem writable_convertDirective {loop : Loop} (hloop : loop.Writable) (hd : d.Writable)
    (h : convertDirective d.name d loop = some b) : b.Writable := by
  have htable : ∀ e ∈ directiveTable.entries, IsAttributeName e.2 := by decide
  have hunwrap := backslash_unwrap hd.value
  rw [convertDirective, render] at h
  split at h
  · rename_i vue hvue
    obtain rfl := Option.some.inj h
    exact Binding.writable_some (htable _ (Table.mem_of_get? hvue)) hunwrap
  split at h
  · -- the one that is written by its name alone
    obtain rfl := Option.some.inj h
    exact ⟨by decide, by rintro v ⟨⟩⟩
  split at h
  · obtain rfl := Option.some.inj h
    refine Binding.writable_some (by decide) ?_
    simp [hloop.1, hloop.2, hunwrap]
  split at h
  · exact absurd h (by simp [Rendering.binding?])
  split at h
  · obtain rfl := Option.some.inj h
    refine Binding.writable_some (by decide) ?_
    split
    · exact hloop.1
    · exact hunwrap
  split at h
  · obtain rfl := Option.some.inj h
    exact Binding.writable_some (by decide) hd.value
  split at h
  · rename_i hevent
    obtain rfl := Option.some.inj h
    exact writable_eventBinding? hd hevent
  · obtain rfl := Option.some.inj h
    refine Binding.writable_some ⟨?_, ?_⟩ hd.value
    · simp [toList_withModifiers, hd.name.1]
    · exact isAttributeChar_withModifiers hd.name.2 hd.modifiers

/-! ### All of them -/

theorem keepFirst_subset (seen : List String) (bs : List Binding) : keepFirst seen bs ⊆ bs := by
  fun_induction keepFirst seen bs with
  | case1 => exact List.Subset.refl _
  | case2 seen b bs hseen ih => exact List.subset_cons_of_subset b ih
  | case3 seen b bs hseen ih => exact List.cons_subset_cons b ih

/-- What is kept of a key is the first that comes under it. -/
theorem filter_keepFirst (seen : List String) (bs : List Binding) (key : String) :
    (keepFirst seen bs).filter (·.key == key) =
      if key ∈ seen then [] else (bs.find? (·.key == key)).toList := by
  fun_induction keepFirst seen bs with
  | case1 => simp
  | case2 seen b bs hseen ih =>
    rw [ih]
    split
    · rfl
    · rename_i hkey
      have hne : b.key ≠ key := fun h => hkey (h ▸ hseen)
      rw [List.find?_cons_of_neg (by simpa using hne)]
  | case3 seen b bs hseen ih =>
    by_cases hb : b.key = key
    · subst hb
      simp [ih, hseen]
    · rw [List.filter_cons_of_neg (by simpa using hb), ih,
        List.find?_cons_of_neg (by simpa using hb)]
      simp [List.mem_cons, Ne.symm hb]

theorem writable_candidates (ht : t.Writable) (has : ∀ a ∈ as, a.WellFormed)
    (hb : ∀ a ∈ as, '\\' ∉ a.value.toList) : ∀ b ∈ candidates t as, b.Writable := by
  intro b hmem
  rcases List.mem_append.mp hmem with hmem | hmem
  · obtain ⟨e, he, hconvert⟩ := List.mem_filterMap.mp hmem
    obtain ⟨a, ha, rfl⟩ := Attribute.mem_props he
    obtain ⟨hne, hname, -⟩ := has a ha
    exact writable_convertProp ht ⟨hne, hname⟩ (hb a ha) hconvert
  · obtain ⟨e, he, hconvert⟩ := List.mem_filterMap.mp hmem
    obtain ⟨hname, hd⟩ := Attribute.writable_directives has hb e he
    rw [hname] at hconvert
    exact writable_convertDirective (Loop.writable_ofDirectives has hb) hd hconvert

/-- **The attributes of an element in Vue can be written.** -/
theorem writable_bindings (ht : t.Writable) (has : ∀ a ∈ as, a.WellFormed)
    (hb : ∀ a ∈ as, '\\' ∉ a.value.toList) : ∀ b ∈ bindings t as, b.Writable :=
  fun b hmem => writable_candidates ht has hb b (keepFirst_subset _ _ hmem)

/-- The name of a tag in a target that can be written. -/
theorem isTagName_tagName (ht : t.Writable) {name : String} (hname : IsTagName name) :
    IsTagName (t.tagName name) :=
  Table.getD_of_forall _ ht.tags name hname

end Vue

end MiniTemplate
