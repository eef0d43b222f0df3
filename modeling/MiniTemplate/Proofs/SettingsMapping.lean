import Mathlib.Logic.Basic
import Mathlib.Tactic.ByContra
import Mathlib.Tactic.MkIffOfInductiveProp
import MiniTemplate.Settings

/-!
# Which mappings are settings

A mapping gives settings exactly if all its keys are known and each field has what the field asks
for (`MiniTemplate.Settings.exists_ofMapping_iff`). What the fields ask for is said here of values
alone, by `MiniTemplate.Settings.IsNatural` and the like, and the checks are shown to find just
that.

Where a mapping gives no settings, either its keys are at fault or the mistake is one of a field,
and then it names the field (`MiniTemplate.Settings.exists_field_of_error`). So the mistake that
cannot be listed is about the keys, and it is made exactly if a key is not a text
(`MiniTemplate.Settings.ofMapping_eq_unlistableKey_iff`).
-/

namespace MiniTemplate.Settings

open Yaml (Value)

variable {entries : List (Value × Value)} {key name : String} {v : Value} {α β ε : Type}

/-! ### What a field asks for -/

/-- A key that is known. -/
def IsKnown (k : Value) : Prop := ∃ s ∈ knownKeys, k = .text s

/-- An integer from zero on. -/
def IsNatural (v : Value) : Prop := ∃ n : Nat, v = .int n

/-- An integer from one on. -/
def IsDepth (v : Value) : Prop := ∃ n : Nat, 0 < n ∧ v = .int n

/-- A mapping from texts to texts, of which some may be missing; or nothing. -/
def IsTextTable (v : Value) : Prop :=
  v = .null ∨ ∃ es, v.entries? = some es ∧
    ∀ e ∈ es, (∃ k, e.1 = .text k) ∧ (e.2 = .null ∨ ∃ s, e.2 = .text s)

/-- A list of texts. -/
def IsTextList (v : Value) : Prop := ∃ items, v = .list items ∧ ∀ x ∈ items, ∃ s, x = .text s

/-- A text that is not empty. -/
def IsNonemptyText (v : Value) : Prop := ∃ s, s ≠ "" ∧ v = .text s

/-- **A mapping of settings**: known keys, and under each of them what is asked for. -/
@[mk_iff] structure Valid (entries : List (Value × Value)) : Prop where
  keys : ∀ e ∈ entries, IsKnown e.1
  indentSize : ∀ v ∈ lookup entries "indent_size", IsNatural v
  maxDepth : ∀ v ∈ lookup entries "max_depth", IsDepth v
  tags : ∀ v ∈ lookup entries "tags", IsTextTable v
  attributes : ∀ v ∈ lookup entries "attributes", IsTextTable v
  voidTags : ∀ v ∈ lookup entries "void_tags", IsTextList v
  refName : ∀ v ∈ lookup entries "ref_attribute", IsNonemptyText v
  refStem : ∀ v ∈ lookup entries "ref_prefix", IsNonemptyText v

/-! ### What the checks find -/

theorem exists_natural_iff : (∃ n, natural name v = .ok n) ↔ IsNatural v := by
  constructor
  · rintro ⟨n, h⟩
    unfold natural at h
    split at h
    · exact ⟨_, rfl⟩
    · exact absurd h (by simp)
  · rintro ⟨n, rfl⟩
    exact ⟨n, rfl⟩

theorem exists_depth_iff : (∃ n, depth v = .ok n) ↔ IsDepth v := by
  constructor
  · rintro ⟨n, h⟩
    unfold depth at h
    split at h
    · exact absurd h (by simp)
    · rename_i hzero
      obtain ⟨m, rfl⟩ := exists_natural_iff.mp ⟨n, h⟩
      refine ⟨m, Nat.pos_of_ne_zero ?_, rfl⟩
      rintro rfl
      exact hzero rfl
  · rintro ⟨n, hn, rfl⟩
    obtain ⟨m, rfl⟩ := Nat.exists_eq_succ_of_ne_zero (Nat.ne_of_gt hn)
    exact ⟨m + 1, rfl⟩

theorem exists_textEntries_iff {es : List (Value × Value)} :
    (∃ ps, textEntries name es = .ok ps) ↔
      ∀ e ∈ es, (∃ k, e.1 = .text k) ∧ (e.2 = .null ∨ ∃ s, e.2 = .text s) := by
  fun_induction textEntries name es with
  | case1 => simp
  | case2 k v es rest hrest ih => simpa [hrest] using ih
  | case3 k v es m hm ih => simpa [hm] using ih
  | case4 k es rest hrest ih => simpa [hrest] using ih
  | case5 k es m hm ih => simpa [hm] using ih
  | case6 k v es htext hnull =>
    refine iff_of_false (by simp) fun h => ?_
    obtain ⟨⟨k', hk⟩, hv | ⟨s, hv⟩⟩ := h (k, v) List.mem_cons_self
    · exact hnull k' hk hv
    · exact htext k' s hk hv

theorem exists_textTable_iff : (∃ t, textTable name v = .ok t) ↔ IsTextTable v := by
  unfold textTable IsTextTable
  split
  · simp
  · rename_i hnull
    have hne : v ≠ .null := hnull
    cases hes : v.entries? with
    | none => simp [hne]
    | some es =>
      have h : (∃ ps, textEntries name es = .ok ps) ↔ _ := exists_textEntries_iff
      cases hps : textEntries name es with
      | ok ps => simpa [hps, hne] using h
      | error m => simpa [hps, hne] using h

theorem isSome_text?_iff : (text? v).isSome ↔ ∃ s, v = .text s := by
  unfold text?
  split
  · simp
  · rename_i htext
    simpa using htext

theorem filterMap_text?_map_text (l : List String) : (l.map Value.text).filterMap text? = l := by
  rw [List.filterMap_map]
  exact List.filterMap_some

theorem all_isSome_text?_map_text (l : List String) :
    (l.map Value.text).all fun v => (text? v).isSome := by
  rw [List.all_map, List.all_eq_true]
  exact fun _ _ => rfl

theorem exists_textList_iff : (∃ l, textList name v = .ok l) ↔ IsTextList v := by
  unfold textList IsTextList
  split
  · rename_i items
    have hall : (items.all fun v => (text? v).isSome) ↔ ∀ x ∈ items, ∃ s, x = .text s := by
      simp only [List.all_eq_true, isSome_text?_iff]
    by_cases h : items.all fun v => (text? v).isSome
    · simpa [h] using hall.mp h
    · simpa [h] using mt hall.mpr h
  · rename_i hlist
    refine iff_of_false (by simp) ?_
    rintro ⟨items, rfl, -⟩
    exact hlist items rfl

theorem exists_nonemptyText_iff : (∃ s, nonemptyText name v = .ok s) ↔ IsNonemptyText v := by
  unfold nonemptyText IsNonemptyText
  split
  · rename_i s
    by_cases hs : s = "" <;> simp [hs]
  · rename_i htext
    refine iff_of_false (by simp) ?_
    rintro ⟨s, -, rfl⟩
    exact htext s rfl

/-! ### All of them -/

theorem exists_bind_iff {x : Except ε α} {f : α → Except ε β} :
    (∃ b, x >>= f = .ok b) ↔ ∃ a, x = .ok a ∧ ∃ b, f a = .ok b := by
  cases x with
  | ok a => simp [bind, Except.bind]
  | error e => simp [bind, Except.bind]

theorem exists_field_iff {check : String → Value → Except Mistake α} {absent : α} :
    (∃ a, field entries key check absent = .ok a) ↔
      ∀ v ∈ lookup entries key, ∃ a, check key v = .ok a := by
  unfold field
  cases lookup entries key with
  | none => simp
  | some v => simp

/-- The keys of a mapping that are not known. -/
def unknown (entries : List (Value × Value)) : List Value :=
  (entries.map (·.1)).filter fun k =>
    match k with
    | .text s => !knownKeys.contains s
    | _ => true

theorem mem_unknown_iff {k : Value} :
    k ∈ unknown entries ↔ (∃ e ∈ entries, e.1 = k) ∧ ¬IsKnown k := by
  rw [unknown, List.mem_filter, List.mem_map, IsKnown]
  refine and_congr_right fun _ => ?_
  cases k <;> simp

theorem checkKeys_eq (entries : List (Value × Value)) : checkKeys entries =
    if (unknown entries).isEmpty then .ok ()
    else if (unknown entries).all fun k => (text? k).isSome then
      .error (.unknownKeys (((unknown entries).filterMap text?).mergeSort (fun a b => a ≤ b)))
    else .error .unlistableKey := rfl

theorem checkKeys_eq_ok_iff :
    checkKeys entries = .ok () ↔ ∀ e ∈ entries, IsKnown e.1 := by
  have hempty : (unknown entries).isEmpty ↔ ∀ e ∈ entries, IsKnown e.1 := by
    rw [List.isEmpty_iff, List.eq_nil_iff_forall_not_mem]
    constructor
    · intro h e he
      by_contra hknown
      exact h e.1 (mem_unknown_iff.mpr ⟨⟨e, he, rfl⟩, hknown⟩)
    · intro h k hk
      obtain ⟨⟨e, he, rfl⟩, hknown⟩ := mem_unknown_iff.mp hk
      exact hknown (h e he)
  rw [checkKeys_eq, ← hempty]
  by_cases h : (unknown entries).isEmpty
  · simp [h]
  · rw [if_neg h]
    refine iff_of_false ?_ h
    split <;> simp

/-- **The keys cannot be listed** exactly if there is one that is not a text. -/
theorem checkKeys_eq_unlistableKey_iff :
    checkKeys entries = .error .unlistableKey ↔ ∃ e ∈ entries, ∀ k, e.1 ≠ .text k := by
  have hall : (unknown entries).all (fun k => (text? k).isSome) ↔
      ¬∃ e ∈ entries, ∀ k, e.1 ≠ .text k := by
    rw [List.all_eq_true]
    constructor
    · rintro h ⟨e, he, hkey⟩
      have hmem : e.1 ∈ unknown entries :=
        mem_unknown_iff.mpr ⟨⟨e, he, rfl⟩, fun ⟨k, _, hk⟩ => hkey k hk⟩
      obtain ⟨k, hk⟩ := isSome_text?_iff.mp (h e.1 hmem)
      exact hkey k hk
    · intro h k hk
      obtain ⟨⟨e, he, rfl⟩, -⟩ := mem_unknown_iff.mp hk
      rw [isSome_text?_iff]
      by_contra hkey
      exact h ⟨e, he, fun k hk => hkey ⟨k, hk⟩⟩
  rw [checkKeys_eq]
  by_cases hlistable : (unknown entries).all fun k => (text? k).isSome
  · rw [if_pos hlistable]
    refine iff_of_false ?_ (hall.mp hlistable)
    split <;> simp
  · have hne : (unknown entries).isEmpty ≠ true := by
      intro hempty
      rw [List.isEmpty_iff.mp hempty] at hlistable
      exact hlistable rfl
    rw [if_neg hne, if_neg hlistable]
    exact iff_of_true rfl (not_not.mp (mt hall.mpr hlistable))

/-- **Which mappings are settings.** -/
theorem exists_ofMapping_iff : (∃ s, ofMapping entries = .ok s) ↔ Valid entries := by
  have hkeys : (∃ u, checkKeys entries = .ok u) ↔ ∀ e ∈ entries, IsKnown e.1 := by
    rw [← checkKeys_eq_ok_iff]
    exact ⟨fun ⟨(), h⟩ => h, fun h => ⟨(), h⟩⟩
  rw [ofMapping]
  simp only [exists_bind_iff, pure, Except.pure, Except.ok.injEq, exists_eq', and_true,
    exists_and_right, hkeys, exists_field_iff, exists_natural_iff, exists_depth_iff,
    exists_textTable_iff, exists_textList_iff, exists_nonemptyText_iff]
  exact (valid_iff entries).symm

/-! ### Mistakes -/

/-- The field that a mistake is about. -/
def Mistake.field? : Mistake → Option String
  | unknownKeys _ | unlistableKey => none
  | notNatural name _ | notMapping name | notTextEntry name _ | notTextList name
  | notNonemptyText name => some name
  | zeroDepth => some "max_depth"

/-- The value that a mistake shows. -/
def Mistake.shows? : Mistake → Option Value
  | notNatural _ found => some found
  | notTextEntry _ key => some key
  | unknownKeys _ | unlistableKey | zeroDepth | notMapping _ | notTextList _
  | notNonemptyText _ => none

variable {m : Mistake}

theorem field?_of_natural (h : natural name v = .error m) : m.field? = some name := by
  unfold natural at h
  split at h
  · exact absurd h (by simp)
  · obtain rfl := Except.error.inj h
    rfl

theorem field?_of_depth (h : depth v = .error m) : m.field? = some "max_depth" := by
  unfold depth at h
  split at h
  · obtain rfl := Except.error.inj h
    rfl
  · exact field?_of_natural h

theorem field?_of_textEntries {es : List (Value × Value)} (h : textEntries name es = .error m) :
    m.field? = some name := by
  fun_induction textEntries name es with
  | case1 => exact absurd h (by simp)
  | case2 k v es rest hrest ih => exact absurd h (by simp)
  | case3 k v es m' hm ih =>
    obtain rfl := Except.error.inj h
    exact ih hm
  | case4 k es rest hrest ih => exact absurd h (by simp)
  | case5 k es m' hm ih =>
    obtain rfl := Except.error.inj h
    exact ih hm
  | case6 k v es htext hnull =>
    obtain rfl := Except.error.inj h
    rfl

theorem field?_of_textTable (h : textTable name v = .error m) : m.field? = some name := by
  unfold textTable at h
  split at h
  · exact absurd h (by simp)
  · split at h
    · obtain rfl := Except.error.inj h
      rfl
    · split at h
      · exact absurd h (by simp)
      · rename_i hm
        obtain rfl := Except.error.inj h
        exact field?_of_textEntries hm

theorem field?_of_textList (h : textList name v = .error m) : m.field? = some name := by
  unfold textList at h
  split at h
  · split at h
    · exact absurd h (by simp)
    · obtain rfl := Except.error.inj h
      rfl
  · obtain rfl := Except.error.inj h
    rfl

theorem field?_of_nonemptyText (h : nonemptyText name v = .error m) : m.field? = some name := by
  unfold nonemptyText at h
  split at h
  · split at h
    · obtain rfl := Except.error.inj h
      rfl
    · exact absurd h (by simp)
  · obtain rfl := Except.error.inj h
    rfl

theorem field?_of_field {check : String → Value → Except Mistake α} {absent : α}
    (hcheck : ∀ v m, check key v = .error m → m.field? = some key)
    (h : field entries key check absent = .error m) : m.field? = some key := by
  unfold field at h
  split at h
  · exact hcheck _ m h
  · exact absurd h (by simp)

theorem bind_eq_error_iff {x : Except ε α} {f : α → Except ε β} {e : ε} :
    x >>= f = .error e ↔ x = .error e ∨ ∃ a, x = .ok a ∧ f a = .error e := by
  cases x with
  | ok a => simp [bind, Except.bind]
  | error e => simp [bind, Except.bind]

/-- **A mistake is about the keys, or names its field.** -/
theorem exists_field_of_error (h : ofMapping entries = .error m) :
    checkKeys entries = .error m ∨ ∃ key, m.field? = some key := by
  rw [ofMapping] at h
  rcases bind_eq_error_iff.mp h with h | ⟨_, _, h⟩
  · exact Or.inl h
  rcases bind_eq_error_iff.mp h with h | ⟨_, _, h⟩
  · exact Or.inr ⟨_, field?_of_field (fun _ _ => field?_of_natural) h⟩
  rcases bind_eq_error_iff.mp h with h | ⟨_, _, h⟩
  · exact Or.inr ⟨_, field?_of_field (fun _ _ => field?_of_depth) h⟩
  rcases bind_eq_error_iff.mp h with h | ⟨_, _, h⟩
  · exact Or.inr ⟨_, field?_of_field (fun _ _ => field?_of_textTable) h⟩
  rcases bind_eq_error_iff.mp h with h | ⟨_, _, h⟩
  · exact Or.inr ⟨_, field?_of_field (fun _ _ => field?_of_textTable) h⟩
  rcases bind_eq_error_iff.mp h with h | ⟨_, _, h⟩
  · exact Or.inr ⟨_, field?_of_field (fun _ _ => field?_of_textList) h⟩
  rcases bind_eq_error_iff.mp h with h | ⟨_, _, h⟩
  · exact Or.inr ⟨_, field?_of_field (fun _ _ => field?_of_nonemptyText) h⟩
  rcases bind_eq_error_iff.mp h with h | ⟨_, _, h⟩
  · exact Or.inr ⟨_, field?_of_field (fun _ _ => field?_of_nonemptyText) h⟩
  exact absurd h (by simp [pure, Except.pure])

theorem ofMapping_eq_unlistableKey_iff :
    ofMapping entries = .error .unlistableKey ↔ ∃ e ∈ entries, ∀ k, e.1 ≠ .text k := by
  rw [← checkKeys_eq_unlistableKey_iff]
  constructor
  · intro h
    rcases exists_field_of_error h with h | ⟨key, hkey⟩
    · exact h
    · exact absurd hkey (by simp [Mistake.field?])
  · intro h
    rw [ofMapping, bind_eq_error_iff]
    exact Or.inl h

/-! ### Mistakes without a message -/

/-- **Why a mistake has no message**: the keys cannot be listed, or it would show a value that
cannot be shown. -/
theorem Mistake.message?_eq_none_iff {fits : Value → Bool} {m : Mistake} :
    m.message? fits = none ↔
      m = .unlistableKey ∨ ∃ v, m.shows? = some v ∧ (fits v = false ∨ v.showable = false) := by
  have hshown {v : Value} : (fits v && v.showable) = false ↔ fits v = false ∨ v.showable = false :=
    Bool.and_eq_false_iff
  cases m <;> simp [message?, shows?, Value.display?, Value.label?, ← hshown]

/-- **Which mappings have a mistake without a message.** -/
theorem exists_mistake_untold_iff {fits : Value → Bool} :
    (∃ m, ofMapping entries = .error m ∧ m.message? fits = none) ↔
      (∃ e ∈ entries, ∀ k, e.1 ≠ .text k) ∨
        ∃ m v, ofMapping entries = .error m ∧ m.shows? = some v ∧
          (fits v = false ∨ v.showable = false) := by
  rw [← ofMapping_eq_unlistableKey_iff]
  constructor
  · rintro ⟨m, hm, hnone⟩
    rcases Mistake.message?_eq_none_iff.mp hnone with rfl | ⟨v, hv, hshow⟩
    · exact Or.inl hm
    · exact Or.inr ⟨m, v, hm, hv, hshow⟩
  · rintro (hm | ⟨m, v, hm, hv, hshow⟩)
    · exact ⟨_, hm, rfl⟩
    · exact ⟨m, hm, Mistake.message?_eq_none_iff.mpr (Or.inr ⟨v, hv, hshow⟩)⟩

end MiniTemplate.Settings
