import Mathlib.Data.List.Forall2
import Mathlib.Data.List.Nodup
import Mathlib.Data.Nat.Find
import MiniTemplate.Proofs.Address
import MiniTemplate.Proofs.VueAttributes

/-!
# Which attributes of an element are converted

The entries of the two views are converted one by one, the plain attributes first
(`MiniTemplate.Vue.translations`). Some of them become nothing, and several may come out under one
name, along quite different ways: a table may rename a plain attribute to what a directive becomes,
and an event can be bound, caught or written with an `@`. Then the first is written.

Whether two are the same is seen from what is written, up to the first equals sign. A value may have
any number of these, but it comes behind the name and its own equals sign, so what is seen is the
name as far as it has none (`MiniTemplate.Vue.Binding.takeWhile_text`). The names of a template have
none, and nothing that is put in front of them or behind them has; so it is only the table of a
target that has to be asked for it.

## Main statements

* `MiniTemplate.Template.bindings_read`: which entries of an element are written, and as what.
-/

namespace MiniTemplate

open Text Node

namespace Vue

variable {t : Target} {as : List Attribute} {b : Binding}

/-! ### What is seen of a name -/

/-- **What is written before the first equals sign** is the key. -/
theorem Binding.takeWhile_text (b : Binding) :
    b.text.toList.takeWhile (· != '=') = b.key.toList := by
  rw [text, key, String.toList_ofList]
  split
  · rename_i value _
    have hassign : (Markup.assign b.name value).toList =
        b.name.toList ++ '=' :: (Markup.quoteValue value).toList := by
      simp [Markup.assign]
    rw [hassign, List.takeWhile_append]
    split
    · rename_i hall
      rw [List.takeWhile_cons_of_neg (by simp), List.append_nil]
      exact ((List.takeWhile_prefix _).eq_of_length hall).symm
    · rfl
  · rfl

theorem Binding.key_eq_name (h : '=' ∉ b.name.toList) : b.key = b.name := by
  have hall : b.name.toList.takeWhile (· != '=') = b.name.toList := by
    rw [List.takeWhile_eq_self_iff]
    intro c hc
    rw [bne_iff_ne]
    rintro rfl
    exact h hc
  rw [key, hall, String.ofList_toList]

theorem not_mem_of_isAttributeName {s : String} (h : IsAttributeName s) : '=' ∉ s.toList :=
  fun hmem => absurd (h.2 _ hmem) (by decide)

/-! ### The names of a conversion -/

/-- What an event is called depends on neither the value nor the variables of a loop. -/
theorem map_name_eventBinding? (name : String) (d : Directive) (value : String) :
    (eventBinding? name { d with value }).map Binding.name =
      (eventBinding? name d).map Binding.name := by
  unfold eventBinding?
  split
  · rfl
  · cases after? "bind" name with
    | some event => rfl
    | none =>
      cases after? "catch" name with
      | some event => rfl
      | none => cases after? "@" name <;> rfl

/-- **What a directive is called** depends on neither its value nor the variables of a loop. -/
theorem map_name_convertDirective (name : String) (d : Directive) (value : String)
    (loop loop' : Loop) :
    (convertDirective name { d with value } loop').map Binding.name =
      (convertDirective name d loop).map Binding.name := by
  have hevent := map_name_eventBinding? name d value
  unfold convertDirective render
  cases directiveTable.get? name with
  | some vue => rfl
  | none =>
    dsimp only
    split_ifs
    any_goals rfl
    -- an event, or a directive that is not known: the same one with either value
    cases h : eventBinding? name d with
    | some b =>
      cases h' : eventBinding? name { d with value } with
      | some b' => rwa [h, h'] at hevent
      | none => exact absurd hevent (by simp [h, h'])
    | none =>
      cases h' : eventBinding? name { d with value } with
      | some b' => exact absurd hevent (by simp [h, h'])
      | none => rfl

/-- The name of a directive that was written is made of the characters of names. -/
theorem isAttributeName_convertDirective {a : Attribute} (ha : a.WellFormed) {d : Directive}
    (hd : a.directive? = some d) {loop : Loop} (h : convertDirective d.name d loop = some b) :
    IsAttributeName b.name := by
  rw [ha.directive?_eq] at hd
  split at hd
  · rename_i hname
    obtain rfl := Option.some.inj hd
    -- the value does not matter, and with the empty one the directive can be written
    have hempty := map_name_convertDirective (Directive.ownName a.name)
      (.ofWritten a.name a.value) "" loop .standard
    rw [Directive.name_ofWritten] at h
    rw [h, Option.map_some] at hempty
    obtain ⟨b', hb', hbname⟩ := Option.map_eq_some_iff.mp hempty
    rw [← hbname]
    have hwritable : (Directive.ofWritten a.name "").Writable :=
      Directive.writable_ofWritten hname ha.2.1 (by simp)
    exact (writable_convertDirective ⟨by decide, by decide⟩ hwritable hb').name
  · exact absurd hd (by simp)

/-- **No name of a conversion has an equals sign**, if the table of the target has none. -/
theorem not_mem_name_of_mem_candidates (ht : ∀ e ∈ t.attributes.entries, '=' ∉ e.2.toList)
    (has : ∀ a ∈ as, a.WellFormed) : ∀ b ∈ candidates t as, '=' ∉ b.name.toList := by
  intro b hb
  rcases List.mem_append.mp hb with hb | hb
  · obtain ⟨e, he, hconvert⟩ := List.mem_filterMap.mp hb
    obtain ⟨a, ha, rfl⟩ := Attribute.mem_props he
    have hrenamed := t.attributes.getD_of_forall (P := fun s => '=' ∉ s.toList) ht a.name
      (not_mem_of_isAttributeName ⟨(has a ha).1, (has a ha).2.1⟩)
    rw [convertProp] at hconvert
    split at hconvert
    · exact absurd hconvert (by simp)
    · obtain rfl := Option.some.inj hconvert
      exact hrenamed
  · obtain ⟨e, he, hconvert⟩ := List.mem_filterMap.mp hb
    obtain ⟨a, ha, d, hd, rfl⟩ := Attribute.mem_directives he
    exact not_mem_of_isAttributeName (isAttributeName_convertDirective (has a ha) hd hconvert)

/-! ### Which entries are written -/

/-- **What the entries of an element become**, one by one: the plain attributes, and then the
directives. An entry that is dropped, or taken up elsewhere, becomes nothing. -/
def translations (t : Target) (as : List Attribute) : List (Option Binding) :=
  (Attribute.props as).entries.map (fun e => convertProp t e.1 e.2) ++
    (Attribute.directives as).entries.map fun e =>
      convertDirective e.1 e.2 (Loop.ofDirectives (Attribute.directives as))

theorem candidates_eq (t : Target) (as : List Attribute) :
    candidates t as = (translations t as).filterMap id := by
  rw [translations, List.filterMap_append, List.filterMap_map, List.filterMap_map]
  rfl

/-- The entry at an index becomes an attribute. -/
def Becomes (os : List (Option Binding)) (i : Nat) (b : Binding) : Prop := os[i]? = some (some b)

/-- An entry leads if no entry before it has its key. -/
def Leads (os : List (Option Binding)) (i : Nat) (b : Binding) : Prop :=
  ∀ j < i, ∀ b', Becomes os j b' → b'.key ≠ b.key

theorem becomes_succ {o : Option Binding} {os : List (Option Binding)} {i : Nat} :
    Becomes (o :: os) (i + 1) b ↔ Becomes os i b := by
  rw [Becomes, Becomes, List.getElem?_cons_succ]

theorem leads_succ {o : Option Binding} {os : List (Option Binding)} {i : Nat} :
    Leads (o :: os) (i + 1) b ↔ (∀ b' ∈ o, b'.key ≠ b.key) ∧ Leads os i b := by
  constructor
  · intro h
    refine ⟨fun b' hb' => h 0 (Nat.succ_pos i) b' ?_, fun j hj b' hb' => ?_⟩
    · rw [Option.mem_def] at hb'
      rw [Becomes, hb']
      rfl
    · exact h (j + 1) (Nat.succ_lt_succ hj) b' (becomes_succ.mpr hb')
  · rintro ⟨hfirst, h⟩ j hj b' hb'
    cases j with
    | zero => exact hfirst b' (Option.some.inj hb')
    | succ j => exact h j (Nat.lt_of_succ_lt_succ hj) b' (becomes_succ.mp hb')

/-- **What is kept of some entries**, and from where: the attributes `bs` are what the entries at
the indices `is` become, in this order, and these entries are those that lead and whose keys are
not among those seen. -/
structure Kept (os : List (Option Binding)) (seen : List String) (is : List Nat)
    (bs : List Binding) : Prop where
  lt : is.Pairwise (· < ·)
  becomes : List.Forall₂ (Becomes os) is bs
  mem_iff : ∀ i b, Becomes os i b → (i ∈ is ↔ b.key ∉ seen ∧ Leads os i b)

section Kept

variable {os : List (Option Binding)} {seen : List String} {is : List Nat} {bs : List Binding}

theorem forall₂_becomes_cons (o : Option Binding) (h : List.Forall₂ (Becomes os) is bs) :
    List.Forall₂ (Becomes (o :: os)) (is.map (· + 1)) bs := by
  rw [List.forall₂_map_left_iff]
  exact h.imp fun i b => becomes_succ.mpr

theorem pairwise_map_succ (h : is.Pairwise (· < ·)) : (is.map (· + 1)).Pairwise (· < ·) :=
  h.map _ fun _ _ => Nat.succ_lt_succ

theorem succ_mem_map_succ {i : Nat} : i + 1 ∈ is.map (· + 1) ↔ i ∈ is := by
  simp

/-- An entry that becomes nothing, or what was seen before, is passed over. -/
theorem Kept.skip {o : Option Binding} (h : Kept os seen is bs) (ho : ∀ b ∈ o, b.key ∈ seen) :
    Kept (o :: os) seen (is.map (· + 1)) bs := by
  refine ⟨pairwise_map_succ h.lt, forall₂_becomes_cons o h.becomes, fun i b hb => ?_⟩
  cases i with
  | zero =>
    have hseen : b.key ∈ seen := ho b (Option.some.inj hb)
    exact iff_of_false (by simp) fun hnew => hnew.1 hseen
  | succ i =>
    rw [becomes_succ] at hb
    rw [leads_succ, succ_mem_map_succ, h.mem_iff i b hb]
    refine and_congr_right fun hnew => (and_iff_right fun b' hb' hkey => hnew ?_).symm
    exact hkey ▸ ho b' hb'

/-- An entry with a new key is kept, and its key has been seen from then on. -/
theorem Kept.cons (h : Kept os (b.key :: seen) is bs) (hb : b.key ∉ seen) :
    Kept (some b :: os) seen (0 :: is.map (· + 1)) (b :: bs) := by
  refine ⟨?_, .cons rfl (forall₂_becomes_cons _ h.becomes), fun i b' hb' => ?_⟩
  · refine List.pairwise_cons.mpr ⟨fun i hi => ?_, pairwise_map_succ h.lt⟩
    obtain ⟨j, -, rfl⟩ := List.mem_map.mp hi
    exact Nat.succ_pos j
  · cases i with
    | zero =>
      obtain rfl : b = b' := Option.some.inj (Option.some.inj hb')
      exact iff_of_true List.mem_cons_self ⟨hb, fun j hj => absurd hj (Nat.not_lt_zero j)⟩
    | succ i =>
      rw [becomes_succ] at hb'
      rw [leads_succ, List.mem_cons, succ_mem_map_succ,
        h.mem_iff i b' hb', List.mem_cons, not_or]
      constructor
      · rintro (hzero | ⟨⟨hne, hnew⟩, hleads⟩)
        · exact absurd hzero (Nat.succ_ne_zero i)
        · refine ⟨hnew, ?_, hleads⟩
          rintro _ ⟨⟩
          exact Ne.symm hne
      · rintro ⟨hnew, hne, hleads⟩
        exact Or.inr ⟨⟨Ne.symm (hne b rfl), hnew⟩, hleads⟩

/-- **The first of every key is kept**, from the place where it stands. -/
theorem exists_kept (seen : List String) (os : List (Option Binding)) :
    ∃ is, Kept os seen is (keepFirst seen (os.filterMap id)) := by
  induction os generalizing seen with
  | nil => exact ⟨[], .nil, .nil, fun i b hb => absurd hb (by simp [Becomes])⟩
  | cons o os ih =>
    cases o with
    | none =>
      obtain ⟨is, h⟩ := ih seen
      exact ⟨_, h.skip (by simp)⟩
    | some b =>
      rw [List.filterMap_cons_some (f := id) rfl, keepFirst]
      by_cases hseen : b.key ∈ seen
      · obtain ⟨is, h⟩ := ih seen
        rw [if_pos hseen]
        exact ⟨_, h.skip (by simpa using hseen)⟩
      · obtain ⟨is, h⟩ := ih (b.key :: seen)
        rw [if_neg hseen]
        exact ⟨_, h.cons hseen⟩

end Kept

/-- No key is kept twice. -/
theorem nodup_map_key_keepFirst (seen : List String) (bs : List Binding) :
    ((keepFirst seen bs).map Binding.key).Nodup := by
  rw [List.nodup_iff_count_le_one]
  intro key
  have hcount : ((keepFirst seen bs).map Binding.key).count key =
      ((keepFirst seen bs).filter (·.key == key)).length := by
    rw [List.count, List.countP_map, List.countP_eq_length_filter]
    rfl
  rw [hcount, filter_keepFirst]
  split
  · exact Nat.zero_le _
  · cases bs.find? (·.key == key) <;> simp

/-- What is written is what some entry becomes. -/
theorem mem_candidates_of_becomes {i : Nat} (h : Becomes (translations t as) i b) :
    b ∈ candidates t as := by
  rw [candidates_eq, List.mem_filterMap]
  exact ⟨some b, List.mem_of_getElem? h, rfl⟩

end Vue

/-- **The attributes of an element in the target**, for every element of any text and a target that
has no equals sign in the names of attributes. What is written before the first equals sign of such
an attribute is its name, and no name is written twice. The attributes are written from entries of
the two views, in the order of the entries. For every entry that becomes an attribute there is one
of the same name, written from that entry or from an earlier one; and an entry is written exactly if
none before it becomes an attribute of the same name. -/
theorem Template.bindings_read (limit : Int) (text : String) (t : Vue.Target)
    (ht : ∀ e ∈ t.attributes.entries, '=' ∉ e.2.toList) {name : String} {as : List Attribute}
    {children : List Node} {selfClosing : Bool} {span : Option Span}
    (h : Occurs (.element name as children selfClosing span) (read limit text).forest) :
    let os := Vue.translations t as
    let bs := Vue.bindings t as
    (∀ b ∈ bs, b.text.toList.takeWhile (· != '=') = b.name.toList) ∧
      (bs.map Vue.Binding.name).Nodup ∧
      ∃ is : List Nat, is.Pairwise (· < ·) ∧ List.Forall₂ (Vue.Becomes os) is bs ∧
        (∀ i b, Vue.Becomes os i b →
          ∃ j ∈ is, j ≤ i ∧ ∃ b', Vue.Becomes os j b' ∧ b'.name = b.name) ∧
        ∀ i b, Vue.Becomes os i b →
          (i ∈ is ↔ ∀ j < i, ∀ b', Vue.Becomes os j b' → b'.name ≠ b.name) := by
  intro os bs
  have has : ∀ a ∈ as, a.WellFormed := (proper_read limit text _ h).2.2.1
  have hkey : ∀ b ∈ Vue.candidates t as, b.key = b.name := fun b hb =>
    Vue.Binding.key_eq_name (Vue.not_mem_name_of_mem_candidates ht has b hb)
  have hbs : ∀ b ∈ bs, b.key = b.name := fun b hb => hkey b (Vue.keepFirst_subset _ _ hb)
  obtain ⟨is, hkept⟩ := Vue.exists_kept [] os
  rw [← Vue.candidates_eq] at hkept
  -- the same with names in place of keys
  have hmem : ∀ i b, Vue.Becomes os i b →
      (i ∈ is ↔ ∀ j < i, ∀ b', Vue.Becomes os j b' → b'.name ≠ b.name) := by
    intro i b hb
    rw [hkept.mem_iff i b hb, and_iff_right List.not_mem_nil]
    refine forall_congr' fun j => forall_congr' fun _ => forall_congr' fun b' =>
      forall_congr' fun hb' => ?_
    rw [hkey b (Vue.mem_candidates_of_becomes hb), hkey b' (Vue.mem_candidates_of_becomes hb')]
  refine ⟨fun b hb => ?_, ?_, is, hkept.lt, hkept.becomes, fun i b hb => ?_, hmem⟩
  · rw [Vue.Binding.takeWhile_text, hbs b hb]
  · rw [← List.map_congr_left hbs]
    exact Vue.nodup_map_key_keepFirst _ _
  · -- the first entry with this name is written
    classical
    have hsome : ∃ j, ∃ b', Vue.Becomes os j b' ∧ b'.name = b.name := ⟨i, b, hb, rfl⟩
    obtain ⟨b', hb', hname⟩ := Nat.find_spec hsome
    refine ⟨Nat.find hsome, ?_, Nat.find_min' hsome ⟨b, hb, rfl⟩, b', hb', hname⟩
    rw [hmem _ b' hb']
    intro j hj b'' hb'' hsame
    exact Nat.find_min hsome hj ⟨b'', hb'', hsame.trans hname⟩

/-- A plain attribute and a directive that both become `:class`, an event that is bound and caught,
an equals sign in a value, and a directive that becomes nothing: two of the five are written, the
first and the second. -/
theorem Template.bindings_read_collisions :
    let text := "<view hover-class='a=b' bindtap=f wx:class=c catchtap=g wx:for-item=x />"
    let as := [Attribute.ofWritten "hover-class" "a=b", Attribute.ofWritten "bindtap" "f",
      Attribute.ofWritten "wx:class" "c", Attribute.ofWritten "catchtap" "g",
      Attribute.ofWritten "wx:for-item" "x"]
    let bs : List Vue.Binding := [⟨":class", some "a=b"⟩, ⟨"@click", some "f"⟩]
    (∃ name children selfClosing span,
      Occurs (.element name as children selfClosing span) (read 256 text).forest) ∧
      (∀ e ∈ Vue.Target.standard.attributes.entries, '=' ∉ e.2.toList) ∧
      Vue.bindings .standard as = bs ∧ (bs.map Vue.Binding.name).Nodup ∧
      ∃ is : List Nat, is.Pairwise (· < ·) ∧
        List.Forall₂ (Vue.Becomes (Vue.translations .standard as)) is bs := by
  intro text as bs
  have ht : ∀ e ∈ Vue.Target.standard.attributes.entries, '=' ∉ e.2.toList := by decide
  have hbs : Vue.bindings .standard as = bs := by decide +kernel
  have has : ((read 256 text).forest.node? 0 []).map Node.attributes = some as := by
    decide +kernel
  obtain ⟨n, hn, hattributes⟩ := Option.map_eq_some_iff.mp has
  cases n with
  | text content span => exact absurd hattributes (by simp [Node.attributes, as])
  | comment content span => exact absurd hattributes (by simp [Node.attributes, as])
  | element name as₀ children selfClosing span =>
    obtain rfl : as₀ = as := hattributes
    have hoccurs := Forest.occurs_of_node? hn
    obtain ⟨-, hnodup, is, hlt, hbecomes, -⟩ := bindings_read 256 text .standard ht hoccurs
    rw [hbs] at hnodup hbecomes
    exact ⟨⟨name, children, selfClosing, span, hoccurs⟩, ht, hbs, hnodup, is, hlt, hbecomes⟩

end MiniTemplate
