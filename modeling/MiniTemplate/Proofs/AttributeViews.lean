import Mathlib.Data.List.Find
import MiniTemplate.Proofs.DirectiveName
import MiniTemplate.Proofs.WellFormed

/-!
# The views of an element's attributes

Three notions of sameness meet in the attributes of an element. The plain ones are looked up by the
name they were written under, the directives by their own name, and a repetition is noticed by a
key that is one or the other. For attributes that were read these notions fit together: whether an
attribute is a directive shows in how its name begins, and its own name begins in the same way
(`MiniTemplate.Directive.isName_ownName`). So no name is ever in both views, and every attribute of
a name is in the same one.

## Main statements

* `MiniTemplate.Attribute.viewed_of_wellFormed`: what the two views of such attributes have, and
  which attribute each of their entries shows.
-/

namespace MiniTemplate.Attribute

variable {a : Attribute} {as : List Attribute} {p : Attribute → Bool} {k : String}

/-! ### What the views show -/

theorem mem_props {e : String × String} (h : e ∈ (props as).entries) :
    ∃ a ∈ as, e = (a.name, a.value) := by
  obtain ⟨a, ha, rfl⟩ := List.mem_map.mp (Table.mem_ofList h)
  exact ⟨a, List.mem_of_mem_filter ha, rfl⟩

theorem mem_directives {e : String × Directive} (h : e ∈ (directives as).entries) :
    ∃ a ∈ as, ∃ d, a.directive? = some d ∧ e = (d.name, d) := by
  obtain ⟨d, hd, rfl⟩ := List.mem_map.mp (Table.mem_ofList h)
  obtain ⟨a, ha, had⟩ := List.mem_filterMap.mp hd
  exact ⟨a, ha, d, had, rfl⟩

theorem mem_keys_props : k ∈ (props as).keys ↔ ∃ a ∈ as, a.isDirective = false ∧ a.name = k := by
  rw [props, Table.mem_keys_ofList]
  simp [and_assoc]

theorem mem_keys_directives :
    k ∈ (directives as).keys ↔ ∃ a ∈ as, ∃ d, a.directive? = some d ∧ d.name = k := by
  rw [directives, Table.mem_keys_ofList, List.map_map, List.mem_map]
  constructor
  · rintro ⟨d, hd, rfl⟩
    obtain ⟨a, ha, had⟩ := List.mem_filterMap.mp hd
    exact ⟨a, ha, d, had, rfl⟩
  · rintro ⟨a, ha, d, had, rfl⟩
    exact ⟨d, List.mem_filterMap.mpr ⟨a, ha, had⟩, rfl⟩

/-- **The plain attribute that is seen** under a name is the last one of that name. -/
theorem get?_props (as : List Attribute) (key : String) :
    (props as).get? key =
      (as.reverse.find? fun a => !a.isDirective && a.name == key).map Attribute.value := by
  rw [props, Table.get?_ofList, ← List.map_reverse, List.find?_map, Option.map_map,
    ← List.filter_reverse, List.find?_filter]
  simp only [Bool.decide_and, Bool.decide_eq_true, Function.comp_def]

/-- **The directive that is seen** under a name is that of the last attribute that has one of that
name. -/
theorem get?_directives (as : List Attribute) (key : String) :
    (directives as).get? key =
      (as.reverse.find? fun a => a.directive?.any (·.name == key)).bind directive? := by
  rw [directives, Table.get?_ofList, ← List.map_reverse, List.find?_map, Option.map_map,
    ← List.filterMap_reverse, List.find?_filterMap]
  simp [Function.comp_def]

/-- The directive that is seen under a name is the last one that has it. -/
theorem get?_directives_eq_getLast? (as : List Attribute) (k : String) :
    (directives as).get? k = ((as.filterMap directive?).filter (·.name == k)).getLast? := by
  rw [directives, Table.get?_ofList, ← List.map_reverse, List.find?_map, Option.map_map,
    List.getLast?_eq_head?_reverse, ← List.filter_reverse, List.head?_filter]
  exact Option.map_id'

/-- The entries of the names that `p` chooses come from the directives of these names. -/
theorem filter_directives (p : String → Bool) (as : List Attribute) :
    (directives as).entries.filter (fun e => p e.1) =
      (Table.ofList (((as.filterMap directive?).filter fun d => p d.name).map
        fun d => (d.name, d))).entries := by
  rw [directives, Table.filter_ofList, List.filter_map]
  rfl

/-! ### Attributes that were written -/

/-- The directive of a well-formed attribute is that of its name and value. -/
theorem WellFormed.directive?_eq (ha : a.WellFormed) : a.directive? =
    if Directive.isName a.name then some (Directive.ofWritten a.name a.value) else none := by
  conv_lhs => rw [ha.2.2, ofWritten]
  split <;> rfl

theorem WellFormed.isDirective_eq (ha : a.WellFormed) :
    a.isDirective = Directive.isName a.name := by
  conv_lhs => rw [ha.2.2, ofWritten]
  split
  · rename_i h
    exact h.symm
  · rename_i h
    exact (Bool.eq_false_iff.mpr h).symm

theorem WellFormed.key_eq (ha : a.WellFormed) :
    a.key = if Directive.isName a.name then Directive.ownName a.name else a.name := by
  conv_lhs => rw [ha.2.2, ofWritten]
  split <;> rfl

/-! ### The last of some attributes -/

/-- **The last attribute** of those that `p` chooses. -/
def IsLast (p : Attribute → Bool) (a : Attribute) (as : List Attribute) : Prop :=
  p a ∧ ∃ before after, as = before ++ a :: after ∧ ∀ b ∈ after, p b = false

theorem find?_reverse_eq_some_iff : as.reverse.find? p = some a ↔ IsLast p a as := by
  rw [List.find?_eq_some_iff_append, IsLast]
  refine and_congr_right fun _ => ?_
  constructor
  · rintro ⟨after, before, has, hafter⟩
    refine ⟨before.reverse, after.reverse, ?_, ?_⟩
    · simpa using congrArg List.reverse has
    · intro b hb
      simpa using hafter b (List.mem_reverse.mp hb)
  · rintro ⟨before, after, rfl, hafter⟩
    refine ⟨after.reverse, before.reverse, by simp, ?_⟩
    intro b hb
    simpa using hafter b (List.mem_reverse.mp hb)

/-! ### Views that fit -/

/-- **Views that fit their attributes.** No name is there twice, be it in one view or in both. The
names of the props are those of the attributes without a mark, and the names of the directives are
the own names of the others. Each entry shows the last attribute of its name: the written name for
a prop, the own name for a directive. -/
structure Viewed (as : List Attribute) : Prop where
  nodup : ((props as).keys ++ (directives as).keys).Nodup
  props_iff : ∀ k, k ∈ (props as).keys ↔ ∃ a ∈ as, Directive.isName a.name = false ∧ a.name = k
  directives_iff : ∀ k, k ∈ (directives as).keys ↔
    ∃ a ∈ as, Directive.isName a.name ∧ Directive.ownName a.name = k
  prop : ∀ k ∈ (props as).keys, ∃ a, IsLast (·.name == k) a as ∧ find? as k = some a ∧
    (props as).get? k = some a.value
  directive : ∀ k ∈ (directives as).keys, ∃ a d,
    IsLast (fun b => Directive.ownName b.name == k) a as ∧ a.directive = some d ∧
      (directives as).get? k = some d

section WellFormed

variable (has : ∀ a ∈ as, a.WellFormed)

include has

theorem mem_keys_props_iff :
    k ∈ (props as).keys ↔ ∃ a ∈ as, Directive.isName a.name = false ∧ a.name = k := by
  rw [mem_keys_props]
  refine exists_congr fun a => and_congr_right fun ha => ?_
  rw [(has a ha).isDirective_eq]

theorem mem_keys_directives_iff :
    k ∈ (directives as).keys ↔
      ∃ a ∈ as, Directive.isName a.name ∧ Directive.ownName a.name = k := by
  rw [mem_keys_directives]
  refine exists_congr fun a => and_congr_right fun ha => ?_
  rw [(has a ha).directive?_eq]
  constructor
  · rintro ⟨d, hd, rfl⟩
    split at hd
    · rename_i hname
      obtain rfl := Option.some.inj hd
      exact ⟨hname, rfl⟩
    · exact absurd hd (by simp)
  · rintro ⟨hname, rfl⟩
    exact ⟨_, if_pos hname, rfl⟩

/-- **No name is in both views**: it is a directive's in one and not in the other. -/
theorem nodup_keys : ((props as).keys ++ (directives as).keys).Nodup := by
  refine List.nodup_append.mpr ⟨Table.nodup_keys_ofList _, Table.nodup_keys_ofList _, ?_⟩
  rintro k hprop _ hdirective rfl
  obtain ⟨a, -, hplain, rfl⟩ := (mem_keys_props_iff has).mp hprop
  obtain ⟨b, -, hname, hown⟩ := (mem_keys_directives_iff has).mp hdirective
  rw [← Directive.isName_ownName, hown, hplain] at hname
  exact absurd hname (by simp)

theorem exists_prop (hk : k ∈ (props as).keys) :
    ∃ a, find? as k = some a ∧ (props as).get? k = some a.value := by
  obtain ⟨a, -, hplain, hname⟩ := (mem_keys_props_iff has).mp hk
  -- an attribute of this name is plain, wherever it stands
  have hfind : as.reverse.find? (fun b => !b.isDirective && b.name == k) = find? as k := by
    refine List.find?_congr fun b hb => ?_
    rw [(has b (List.mem_reverse.mp hb)).isDirective_eq]
    by_cases hbk : b.name = k
    · simp [hbk, ← hname, hplain]
    · simp [hbk]
  have hsome := (Table.isSome_get?_iff _ _).mpr hk
  rw [get?_props, hfind, Option.isSome_map] at hsome
  obtain ⟨b, hb⟩ := Option.isSome_iff_exists.mp hsome
  exact ⟨b, hb, by rw [get?_props, hfind, hb, Option.map_some]⟩

theorem exists_directive (hk : k ∈ (directives as).keys) :
    ∃ a d, IsLast (fun b => Directive.ownName b.name == k) a as ∧ a.directive = some d ∧
      (directives as).get? k = some d := by
  obtain ⟨a, -, hname, hown⟩ := (mem_keys_directives_iff has).mp hk
  have hisName : Directive.isName k := by rw [← hown, Directive.isName_ownName, hname]
  -- an attribute of this own name is a directive, whatever its spelling
  have hfind : as.reverse.find? (fun b => b.directive?.any (·.name == k)) =
      as.reverse.find? fun b => Directive.ownName b.name == k := by
    refine List.find?_congr fun b hb => ?_
    rw [(has b (List.mem_reverse.mp hb)).directive?_eq]
    split
    · rfl
    · rename_i hplain
      refine (beq_eq_false_iff_ne.mpr fun hbk => hplain ?_).symm
      rw [← Directive.isName_ownName, hbk, hisName]
  have hsome := (Table.isSome_get?_iff _ _).mpr hk
  obtain ⟨d, hd⟩ := Option.isSome_iff_exists.mp hsome
  rw [get?_directives, hfind] at hd
  obtain ⟨b, hb, hbd⟩ := Option.bind_eq_some_iff.mp hd
  refine ⟨b, d, find?_reverse_eq_some_iff.mp hb, ?_, ?_⟩
  · rw [directive?] at hbd
    split at hbd
    · exact hbd
    · exact absurd hbd (by simp)
  · rw [get?_directives, hfind, hb, Option.bind_some, hbd]

/-- **The views of attributes that were written fit them.** -/
theorem viewed_of_wellFormed : Viewed as where
  nodup := nodup_keys has
  props_iff _ := mem_keys_props_iff has
  directives_iff _ := mem_keys_directives_iff has
  prop k hk := by
    obtain ⟨a, hfind, hget⟩ := exists_prop has hk
    exact ⟨a, find?_reverse_eq_some_iff.mp hfind, hfind, hget⟩
  directive _ hk := exists_directive has hk

/-- The keys under which repetitions are noticed are the names of the two views. -/
theorem mem_map_key : k ∈ as.map key ↔ k ∈ (props as).keys ++ (directives as).keys := by
  rw [List.mem_append, mem_keys_props_iff has, mem_keys_directives_iff has, List.mem_map]
  constructor
  · rintro ⟨a, ha, rfl⟩
    rw [(has a ha).key_eq]
    split
    · rename_i hname
      exact Or.inr ⟨a, ha, hname, rfl⟩
    · rename_i hname
      exact Or.inl ⟨a, ha, Bool.eq_false_iff.mpr hname, rfl⟩
  · rintro (⟨a, ha, hplain, rfl⟩ | ⟨a, ha, hname, rfl⟩)
    · exact ⟨a, ha, by rw [(has a ha).key_eq, hplain]; rfl⟩
    · exact ⟨a, ha, by rw [(has a ha).key_eq, if_pos hname]⟩

end WellFormed

end MiniTemplate.Attribute
