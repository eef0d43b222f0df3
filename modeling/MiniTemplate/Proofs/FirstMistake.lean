import MiniTemplate.Proofs.SettingsMapping

/-!
# The mistake that is reported

Of several mistakes in a mapping of settings one is reported. If there are keys that are not known,
it is about all of them, in order. Otherwise it is about the first field that is amiss, in the order
of the fields and not of the mapping (`MiniTemplate.Settings.FirstAmiss`), and what it says of the
field depends on the value there alone (`MiniTemplate.Settings.Complaint`).

The checks of the fields do not depend on each other. So the mistake of a mapping is the first one
in a list, `MiniTemplate.Settings.mistake?_ofMapping`, and that the fields before it have what they
ask for is a fact about lists.

A message may show a value, and there are values that cannot be shown: an integer in it has too many
digits, or it is nested too deep, where it is left open how deep that is. Then there is no message,
and nothing that is reported is about the field.

## Main statements

* `MiniTemplate.Settings.ofMapping_textKeyed`: which mappings are settings, what is reported of the
  others, when there is no message, and that the order of the mapping does not matter.
-/

namespace MiniTemplate.Settings

open Yaml (Value)

variable {es : List (String × Value)} {entries : List (Value × Value)} {key k : String} {v : Value}
  {m : Mistake} {α β : Type}

/-! ### What is amiss -/

/-- What each field asks for, in the order of the fields. -/
def demands : List (String × (Value → Prop)) := [
  ("indent_size", IsNatural),
  ("max_depth", IsDepth),
  ("tags", IsTextTable),
  ("attributes", IsTextTable),
  ("void_tags", IsTextList),
  ("ref_attribute", IsNonemptyText),
  ("ref_prefix", IsNonemptyText)]

/-- **The first field that is amiss**, and the value there: all fields before it have what they ask
for. -/
def FirstAmiss (es : List (String × Value)) (key : String) (v : Value) : Prop :=
  ∃ before asks after, demands = before ++ (key, asks) :: after ∧
    (∀ d ∈ before, ∀ w, (d.1, w) ∈ es → d.2 w) ∧ (key, v) ∈ es ∧ ¬asks v

/-- An entry of a mapping from texts to texts, which may be missing. -/
def IsTextEntry (e : Value × Value) : Prop :=
  (∃ k, e.1 = .text k) ∧ (e.2 = .null ∨ ∃ s, e.2 = .text s)

/-- **What is said of a value** that is not what its field asks for. -/
inductive Complaint : String → Value → Mistake → Prop
  | notNatural {key : String} {v : Value} (hkey : key = "indent_size" ∨ key = "max_depth")
    (hv : ¬IsNatural v) : Complaint key v (.notNatural key v)
  | zeroDepth : Complaint "max_depth" (.int 0) .zeroDepth
  | notMapping {key : String} {v : Value} (hkey : key = "tags" ∨ key = "attributes")
    (hnull : v ≠ .null) (hv : v.entries? = none) : Complaint key v (.notMapping key)
  /-- The first entry that is not a text is the one that is named. -/
  | notTextEntry {key : String} {v k w : Value} {before after : List (Value × Value)}
    (hkey : key = "tags" ∨ key = "attributes")
    (hv : v.entries? = some (before ++ (k, w) :: after)) (hbefore : ∀ e ∈ before, IsTextEntry e)
    (hentry : ¬IsTextEntry (k, w)) : Complaint key v (.notTextEntry key k)
  | notTextList {v : Value} (hv : ¬IsTextList v) :
    Complaint "void_tags" v (.notTextList "void_tags")
  | notNonemptyText {key : String} {v : Value} (hkey : key = "ref_attribute" ∨ key = "ref_prefix")
    (hv : ¬IsNonemptyText v) : Complaint key v (.notNonemptyText key)

/-- The message of a complaint begins with the name of the field. -/
theorem Complaint.exists_message_eq {fits : Value → Bool} {text : String} (h : Complaint key v m)
    (htext : m.message? fits = some text) :
    ∃ rest, text = key ++ ": " ++ rest ∨ text = key ++ "." ++ rest := by
  have behind (key : String) {s t : String} (hs : s = ": " ++ t) : key ++ s = key ++ ": " ++ t := by
    rw [hs, String.append_assoc]
  cases h with
  | notNatural hkey hv =>
    obtain ⟨shown, -, rfl⟩ := Option.map_eq_some_iff.mp htext
    have hfirst : key ++ ": expected a non-negative integer, got " =
        key ++ ": " ++ "expected a non-negative integer, got " := behind key rfl
    exact ⟨_, Or.inl ((congrArg (· ++ shown) hfirst).trans String.append_assoc)⟩
  | zeroDepth =>
    obtain rfl := Option.some.inj htext
    exact ⟨"must be positive", Or.inl rfl⟩
  | notMapping hkey hnull hv =>
    obtain rfl := Option.some.inj htext
    exact ⟨"expected a mapping", Or.inl (behind key rfl)⟩
  | notTextEntry hkey hv hbefore hentry =>
    obtain ⟨shown, -, rfl⟩ := Option.map_eq_some_iff.mp htext
    exact ⟨shown ++ ": expected a string value", Or.inr String.append_assoc⟩
  | notTextList hv =>
    obtain rfl := Option.some.inj htext
    exact ⟨"expected a list of strings", Or.inl rfl⟩
  | notNonemptyText hkey hv =>
    obtain rfl := Option.some.inj htext
    exact ⟨"expected a non-empty string", Or.inl (behind key rfl)⟩

/-! ### What the checks complain about -/

theorem not_of_error {x : Except Mistake α} {asks : Prop} (hasks : (∃ a, x = .ok a) ↔ asks)
    (h : x = .error m) : ¬asks := by
  rw [← hasks, h]
  simp

theorem complaint_of_natural (hkey : key = "indent_size" ∨ key = "max_depth")
    (h : natural key v = .error m) : Complaint key v m := by
  have hv : ¬IsNatural v := not_of_error exists_natural_iff h
  unfold natural at h
  split at h
  · exact absurd h (by simp)
  · obtain rfl := Except.error.inj h
    exact .notNatural hkey hv

theorem complaint_of_depth (h : depth v = .error m) : Complaint "max_depth" v m := by
  unfold depth at h
  split at h
  · rename_i hzero
    obtain rfl := Except.error.inj h
    obtain ⟨n, rfl⟩ := exists_natural_iff.mp ⟨0, hzero⟩
    have hn : (n : Int) = 0 := Except.ok.inj hzero
    rw [hn]
    exact .zeroDepth
  · exact complaint_of_natural (Or.inr rfl) h

theorem exists_split_of_textEntries (h : textEntries key entries = .error m) :
    ∃ before k w after, entries = before ++ (k, w) :: after ∧ (∀ e ∈ before, IsTextEntry e) ∧
      ¬IsTextEntry (k, w) ∧ m = .notTextEntry key k := by
  fun_induction textEntries key entries with
  | case1 => exact absurd h (by simp)
  | case2 k v es rest hrest ih => exact absurd h (by simp)
  | case3 k v es m' hm ih =>
    obtain rfl := Except.error.inj h
    obtain ⟨before, k', w, after, rfl, hbefore, hentry, rfl⟩ := ih hm
    refine ⟨(.text k, .text v) :: before, k', w, after, rfl, ?_, hentry, rfl⟩
    exact List.forall_mem_cons.mpr ⟨⟨⟨k, rfl⟩, Or.inr ⟨v, rfl⟩⟩, hbefore⟩
  | case4 k es rest hrest ih => exact absurd h (by simp)
  | case5 k es m' hm ih =>
    obtain rfl := Except.error.inj h
    obtain ⟨before, k', w, after, rfl, hbefore, hentry, rfl⟩ := ih hm
    refine ⟨(.text k, .null) :: before, k', w, after, rfl, ?_, hentry, rfl⟩
    exact List.forall_mem_cons.mpr ⟨⟨⟨k, rfl⟩, Or.inl rfl⟩, hbefore⟩
  | case6 k v es htext hnull =>
    obtain rfl := Except.error.inj h
    refine ⟨[], k, v, es, rfl, List.forall_mem_nil _, ?_, rfl⟩
    rintro ⟨⟨k', hk⟩, hv | ⟨s, hv⟩⟩
    · exact hnull k' hk hv
    · exact htext k' s hk hv

theorem complaint_of_textTable (hkey : key = "tags" ∨ key = "attributes")
    (h : textTable key v = .error m) : Complaint key v m := by
  unfold textTable at h
  split at h
  · exact absurd h (by simp)
  · rename_i hnull
    split at h
    · rename_i hnone
      obtain rfl := Except.error.inj h
      exact .notMapping hkey hnull hnone
    · rename_i entries hentries
      split at h
      · exact absurd h (by simp)
      · rename_i m' hm
        obtain rfl := Except.error.inj h
        obtain ⟨before, k, w, after, rfl, hbefore, hentry, rfl⟩ := exists_split_of_textEntries hm
        exact .notTextEntry hkey hentries hbefore hentry

theorem complaint_of_textList (h : textList "void_tags" v = .error m) :
    Complaint "void_tags" v m := by
  have hv : ¬IsTextList v := not_of_error exists_textList_iff h
  unfold textList at h
  split at h
  · split at h
    · exact absurd h (by simp)
    · obtain rfl := Except.error.inj h
      exact .notTextList hv
  · obtain rfl := Except.error.inj h
    exact .notTextList hv

theorem complaint_of_nonemptyText (hkey : key = "ref_attribute" ∨ key = "ref_prefix")
    (h : nonemptyText key v = .error m) : Complaint key v m := by
  have hv : ¬IsNonemptyText v := not_of_error exists_nonemptyText_iff h
  unfold nonemptyText at h
  split at h
  · split at h
    · obtain rfl := Except.error.inj h
      exact .notNonemptyText hkey hv
    · exact absurd h (by simp)
  · obtain rfl := Except.error.inj h
    exact .notNonemptyText hkey hv

/-! ### The first mistake of a list -/

/-- The mistake that a check ends with. -/
def mistake? : Except Mistake α → Option Mistake
  | .ok _ => none
  | .error m => some m

theorem mistake?_eq_none_iff {x : Except Mistake α} : mistake? x = none ↔ ∃ a, x = .ok a := by
  cases x <;> simp [mistake?]

theorem mistake?_eq_some_iff {x : Except Mistake α} : mistake? x = some m ↔ x = .error m := by
  cases x <;> simp [mistake?]

/-- If what is done next makes the same mistake in any case, then the first mistake counts. -/
theorem mistake?_bind {x : Except Mistake α} {f : α → Except Mistake β} {next : Option Mistake}
    (h : ∀ a, mistake? (f a) = next) : mistake? (x >>= f) = (mistake? x).or next := by
  cases x with
  | ok a => exact h a
  | error m => rfl

/-- So a field comes before the fields that are checked after it. -/
theorem mistake?_field_bind {check : String → Value → Except Mistake α} {absent : α}
    {f : α → Except Mistake β} {next : Option Mistake} (h : ∀ a, mistake? (f a) = next) :
    mistake? (field entries key check absent >>= f) =
      ((lookup entries key).bind fun v => mistake? (check key v)).or next := by
  have hfield : mistake? (field entries key check absent) =
      (lookup entries key).bind fun v => mistake? (check key v) := by
    unfold field
    cases lookup entries key <;> rfl
  rw [mistake?_bind h, hfield]

/-- The check of a field: what the field asks for is all that the check lets pass, and of anything
else it complains. -/
structure Inspection where
  key : String
  asks : Value → Prop
  mistake? : Value → Option Mistake
  eq_none_iff : ∀ v, mistake? v = none ↔ asks v
  complaint : ∀ v m, mistake? v = some m → Complaint key v m

/-- The inspection that a check of the settings makes. -/
def Inspection.ofCheck (key : String) (asks : Value → Prop)
    (check : String → Value → Except Mistake α) (hasks : ∀ v, (∃ a, check key v = .ok a) ↔ asks v)
    (hcomplaint : ∀ v m, check key v = .error m → Complaint key v m) : Inspection where
  key := key
  asks := asks
  mistake? v := Settings.mistake? (check key v)
  eq_none_iff v := mistake?_eq_none_iff.trans (hasks v)
  complaint v m h := hcomplaint v m (mistake?_eq_some_iff.mp h)

/-- **The inspections of all fields**, in order. -/
def inspections : List Inspection := [
  .ofCheck "indent_size" IsNatural natural (fun _ => exists_natural_iff)
    fun _ _ => complaint_of_natural (Or.inl rfl),
  .ofCheck "max_depth" IsDepth (fun _ => depth) (fun _ => exists_depth_iff)
    fun _ _ => complaint_of_depth,
  .ofCheck "tags" IsTextTable textTable (fun _ => exists_textTable_iff)
    fun _ _ => complaint_of_textTable (Or.inl rfl),
  .ofCheck "attributes" IsTextTable textTable (fun _ => exists_textTable_iff)
    fun _ _ => complaint_of_textTable (Or.inr rfl),
  .ofCheck "void_tags" IsTextList textList (fun _ => exists_textList_iff)
    fun _ _ => complaint_of_textList,
  .ofCheck "ref_attribute" IsNonemptyText nonemptyText (fun _ => exists_nonemptyText_iff)
    fun _ _ => complaint_of_nonemptyText (Or.inl rfl),
  .ofCheck "ref_prefix" IsNonemptyText nonemptyText (fun _ => exists_nonemptyText_iff)
    fun _ _ => complaint_of_nonemptyText (Or.inr rfl)]

theorem demands_eq : demands = inspections.map fun i => (i.key, i.asks) := rfl

theorem findSome?_cons_eq_or {γ δ : Type} (f : γ → Option δ) (a : γ) (l : List γ) :
    (a :: l).findSome? f = (f a).or (l.findSome? f) := by
  rw [List.findSome?_cons]
  cases f a <;> rfl

/-- **The mistake of a mapping** is about its keys, or it is the first one in the list of the
fields. -/
theorem mistake?_ofMapping (entries : List (Value × Value)) :
    mistake? (ofMapping entries) = (mistake? (checkKeys entries)).or
      (inspections.findSome? fun i => (lookup entries i.key).bind i.mistake?) := by
  rw [ofMapping]
  refine mistake?_bind fun _ => ?_
  simp only [inspections, findSome?_cons_eq_or, List.findSome?_nil]
  iterate 7 refine mistake?_field_bind fun _ => ?_
  rfl

/-! ### Mappings whose keys are texts -/

/-- A mapping whose keys are texts. -/
def textKeyed (es : List (String × Value)) : List (Value × Value) :=
  es.map fun e => (.text e.1, e.2)

/-- Where each key is there once, what is found under a key is what stands there. -/
theorem lookup_textKeyed_eq_some_iff (hes : (es.map Prod.fst).Nodup) :
    lookup (textKeyed es) key = some v ↔ (key, v) ∈ es := by
  induction es with
  | nil => simp [lookup, textKeyed]
  | cons e es ih =>
    obtain ⟨k, w⟩ := e
    obtain ⟨hk, hes⟩ := List.nodup_cons.mp hes
    by_cases hkey : k = key
    · subst hkey
      have hnot : (k, v) ∉ es := fun h => hk (List.mem_map.mpr ⟨(k, v), h, rfl⟩)
      simp [lookup, textKeyed, hnot, eq_comm]
    · have hnext : lookup (textKeyed ((k, w) :: es)) key = lookup (textKeyed es) key := by
        simp [lookup, textKeyed, hkey]
      rw [hnext, ih hes]
      simp [Ne.symm hkey]

/-- The keys that are not known. -/
def unknownNames (es : List (String × Value)) : List String :=
  (es.map Prod.fst).filter fun k => !knownKeys.contains k

theorem mem_unknownNames_iff : k ∈ unknownNames es ↔ k ∈ es.map Prod.fst ∧ k ∉ knownKeys := by
  rw [unknownNames, List.mem_filter]
  simp

theorem unknownNames_eq_nil_iff : unknownNames es = [] ↔ ∀ e ∈ es, e.1 ∈ knownKeys := by
  rw [List.eq_nil_iff_forall_not_mem]
  constructor
  · intro h e he
    by_contra hknown
    exact h e.1 (mem_unknownNames_iff.mpr ⟨List.mem_map_of_mem he, hknown⟩)
  · intro h k hk
    obtain ⟨hmem, hknown⟩ := mem_unknownNames_iff.mp hk
    obtain ⟨e, he, rfl⟩ := List.mem_map.mp hmem
    exact hknown (h e he)

theorem unknown_textKeyed (es : List (String × Value)) :
    unknown (textKeyed es) = (unknownNames es).map .text := by
  have hkeys : (textKeyed es).map (·.1) = (es.map Prod.fst).map .text := by simp [textKeyed]
  rw [unknown, hkeys, List.filter_map]
  rfl

theorem checkKeys_textKeyed (es : List (String × Value)) : checkKeys (textKeyed es) =
    if unknownNames es = [] then .ok ()
    else .error (.unknownKeys ((unknownNames es).mergeSort (fun a b => a ≤ b))) := by
  rw [checkKeys_eq, unknown_textKeyed, filterMap_text?_map_text,
    if_pos (all_isSome_text?_map_text _), List.isEmpty_map]
  simp only [List.isEmpty_iff]

/-- The unknown keys are listed in order, each once. -/
theorem pairwise_mergeSort_unknownNames (hes : (es.map Prod.fst).Nodup) :
    ((unknownNames es).mergeSort (fun a b => a ≤ b)).Pairwise (· < ·) := by
  have hsorted : ((unknownNames es).mergeSort (fun a b => a ≤ b)).Pairwise
      (fun a b => decide (a ≤ b) = true) := by
    refine List.pairwise_mergeSort ?_ ?_ _
    · intro a b c hab hbc
      rw [decide_eq_true_iff] at hab hbc ⊢
      exact String.le_trans hab hbc
    · intro a b
      simpa using String.le_total a b
  have hnodup : ((unknownNames es).mergeSort (fun a b => a ≤ b)).Nodup :=
    (List.mergeSort_perm _ _).nodup_iff.mpr (hes.filter _)
  refine hsorted.imp₂ ?_ hnodup
  intro a b hab hne
  rw [decide_eq_true_iff] at hab
  exact String.not_le.mp fun hba => hne (String.le_antisymm hab hba)

theorem mistake?_checkKeys_eq_none_iff :
    mistake? (checkKeys (textKeyed es)) = none ↔ ∀ e ∈ es, e.1 ∈ knownKeys := by
  rw [← unknownNames_eq_nil_iff, checkKeys_textKeyed]
  split
  · rename_i hnil
    exact iff_of_true rfl hnil
  · rename_i hne
    exact iff_of_false (by simp [mistake?]) hne

/-- A field has no mistake in it exactly if what stands there is what it asks for. -/
theorem inspection_eq_none_iff (hes : (es.map Prod.fst).Nodup) (i : Inspection) :
    (lookup (textKeyed es) i.key).bind i.mistake? = none ↔ ∀ v, (i.key, v) ∈ es → i.asks v := by
  simp only [← lookup_textKeyed_eq_some_iff hes, ← i.eq_none_iff]
  cases lookup (textKeyed es) i.key <;> simp

theorem exists_ofMapping_textKeyed_iff (hes : (es.map Prod.fst).Nodup) :
    (∃ s, ofMapping (textKeyed es) = .ok s) ↔
      (∀ e ∈ es, e.1 ∈ knownKeys) ∧ ∀ d ∈ demands, ∀ v, (d.1, v) ∈ es → d.2 v := by
  rw [← mistake?_eq_none_iff, mistake?_ofMapping, Option.or_eq_none_iff,
    mistake?_checkKeys_eq_none_iff, List.findSome?_eq_none_iff, demands_eq, List.forall_mem_map]
  simp only [inspection_eq_none_iff hes]

/-- **What a mistake in a mapping is about**, and the text that says so, if there is one. -/
inductive Blame (es : List (String × Value)) : Mistake → Option String → Prop
  /-- All keys that are not known, in order. -/
  | unknownKeys {keys : List String} (hne : keys ≠ []) (hsorted : keys.Pairwise (· < ·))
    (hkeys : ∀ k, k ∈ keys ↔ k ∈ es.map Prod.fst ∧ k ∉ knownKeys) :
    Blame es (.unknownKeys keys) (some ("unknown config keys: " ++ ", ".intercalate keys))
  /-- The first field that is amiss, if all keys are known. -/
  | field {key : String} {v : Value} {m : Mistake} {text? : Option String}
    (hknown : ∀ e ∈ es, e.1 ∈ knownKeys) (hfirst : FirstAmiss es key v)
    (hcomplaint : Complaint key v m)
    (htext : ∀ text, text? = some text →
      ∃ rest, text = key ++ ": " ++ rest ∨ text = key ++ "." ++ rest) : Blame es m text?

theorem blame_of_error (hes : (es.map Prod.fst).Nodup) (h : ofMapping (textKeyed es) = .error m)
    (fits : Value → Bool) : Blame es m (m.message? fits) := by
  rw [← mistake?_eq_some_iff, mistake?_ofMapping, Option.or_eq_some_iff, mistake?_eq_some_iff,
    mistake?_checkKeys_eq_none_iff, List.findSome?_eq_some_iff] at h
  rcases h with h | ⟨hknown, before, i, after, hsplit, hmistake, hbefore⟩
  · rw [checkKeys_textKeyed] at h
    split at h
    · exact absurd h (by simp)
    · rename_i hne
      obtain rfl := Except.error.inj h
      have hmem (k : String) : k ∈ (unknownNames es).mergeSort (fun a b => a ≤ b) ↔
          k ∈ es.map Prod.fst ∧ k ∉ knownKeys := by
        rw [List.mem_mergeSort, mem_unknownNames_iff]
      refine .unknownKeys (fun hnil => hne ?_) (pairwise_mergeSort_unknownNames hes) hmem
      exact List.Perm.eq_nil (hnil ▸ (List.mergeSort_perm _ _).symm)
  · obtain ⟨v, hv, hm⟩ := Option.bind_eq_some_iff.mp hmistake
    have hcomplaint : Complaint i.key v m := i.complaint v m hm
    refine .field hknown ⟨before.map fun j => (j.key, j.asks), i.asks,
      after.map fun j => (j.key, j.asks), ?_, ?_, ?_, ?_⟩ hcomplaint
      fun text => hcomplaint.exists_message_eq
    · rw [demands_eq, hsplit, List.map_append, List.map_cons]
    · rw [List.forall_mem_map]
      exact fun j hj => (inspection_eq_none_iff hes j).mp (hbefore j hj)
    · exact (lookup_textKeyed_eq_some_iff hes).mp hv
    · rw [← i.eq_none_iff, hm]
      simp

theorem Blame.ne_unlistableKey {text? : Option String} (h : Blame es m text?) :
    m ≠ .unlistableKey := by
  rintro rfl
  cases h with
  | field hknown hfirst hcomplaint htext => cases hcomplaint

/-! ### The order of the mapping -/

/-- All that counts of a mapping is whether its keys are known, and what is found under them. -/
theorem ofMapping_congr {entries' : List (Value × Value)}
    (hkeys : checkKeys entries = checkKeys entries')
    (hlookup : ∀ key, lookup entries key = lookup entries' key) :
    ofMapping entries = ofMapping entries' := by
  simp only [ofMapping, field, hkeys, hlookup]

theorem ofMapping_textKeyed_of_perm {es' : List (String × Value)} (hes : (es.map Prod.fst).Nodup)
    (h : es.Perm es') : ofMapping (textKeyed es') = ofMapping (textKeyed es) := by
  have hes' : (es'.map Prod.fst).Nodup := (h.map Prod.fst).nodup_iff.mp hes
  have hunknown : (unknownNames es').Perm (unknownNames es) :=
    ((h.map Prod.fst).filter _).symm
  refine ofMapping_congr ?_ fun key => ?_
  · have hsorted : (unknownNames es').mergeSort (fun a b => a ≤ b) =
        (unknownNames es).mergeSort (fun a b => a ≤ b) := by
      refine List.Perm.eq_of_pairwise ?_ (pairwise_mergeSort_unknownNames hes')
        (pairwise_mergeSort_unknownNames hes) ?_
      · intro a b _ _ hab hba
        exact absurd (String.lt_trans hab hba) (String.lt_irrefl a)
      · exact (List.mergeSort_perm _ _).trans (hunknown.trans (List.mergeSort_perm _ _).symm)
    have hnil : unknownNames es' = [] ↔ unknownNames es = [] :=
      ⟨fun h => (h ▸ hunknown.symm).eq_nil, fun h => (h ▸ hunknown).eq_nil⟩
    rw [checkKeys_textKeyed, checkKeys_textKeyed, hsorted]
    simp only [hnil]
  · refine Option.ext fun v => ?_
    rw [lookup_textKeyed_eq_some_iff hes', lookup_textKeyed_eq_some_iff hes]
    exact h.mem_iff.symm

/-- **What becomes of a mapping whose keys are texts**, each there once.

* It gives settings exactly if all keys are known and every field that is there has what it asks
  for.
* Otherwise the mistake is about all unknown keys, or else about the first field that is amiss, and
  its message says so; but there is no message exactly if it would have to show a value that cannot
  be shown, whichever values are nested too deep for that.
* The order of the mapping does not matter. -/
theorem ofMapping_textKeyed (es : List (String × Value)) (hes : (es.map Prod.fst).Nodup) :
    ((∃ s, ofMapping (textKeyed es) = .ok s) ↔
        (∀ e ∈ es, e.1 ∈ knownKeys) ∧ ∀ d ∈ demands, ∀ v, (d.1, v) ∈ es → d.2 v) ∧
      (∀ m, ofMapping (textKeyed es) = .error m → ∀ fits : Value → Bool,
        Blame es m (m.message? fits) ∧
          (m.message? fits = none ↔
            ∃ w, m.shows? = some w ∧ (fits w = false ∨ w.showable = false))) ∧
      ∀ es', es.Perm es' → ofMapping (textKeyed es') = ofMapping (textKeyed es) := by
  refine ⟨exists_ofMapping_textKeyed_iff hes, fun m hm fits => ?_,
    fun es' h => ofMapping_textKeyed_of_perm hes h⟩
  have hblame : Blame es m (m.message? fits) := blame_of_error hes hm fits
  refine ⟨hblame, ?_⟩
  rw [Mistake.message?_eq_none_iff, or_iff_right hblame.ne_unlistableKey]

/-- A list that holds an integer of more digits than are written out: a one and 3600 zeros to the
base sixteen. -/
def overlong : Value := .list [.int (.ofNat (Nat.pow (Nat.pow 16 36) 100))]

theorem showable_overlong : overlong.showable = false := by
  -- for every power, since the number itself should not be computed
  have hlong (n : Nat) (hn : 0 < n) :
      ¬(Nat.toDigits 10 (Nat.pow (Nat.pow 16 36) n)).length ≤ 43 * n := by
    rw [Nat.length_toDigits_le_iff (by decide) (by omega), Nat.not_lt, Nat.pow_mul]
    exact Nat.pow_le_pow_left (by decide) n
  have hlimit : ¬(Nat.toDigits 10 (Nat.pow (Nat.pow 16 36) 100)).length ≤ Number.digitLimit :=
    hlong 100 (by decide)
  simp only [overlong, Value.showable, Value.showableItems, Int.natAbs_ofNat', hlimit, decide_false,
    Bool.false_and]

/-- Even where every value fits, this one is not shown. -/
theorem ofMapping_textKeyed_overlong : ∃ m,
    ofMapping (textKeyed [("indent_size", overlong)]) = .error m ∧
      m.message? (fun _ => true) = none ∧ Blame [("indent_size", overlong)] m none := by
  obtain ⟨-, hblame, -⟩ := ofMapping_textKeyed [("indent_size", overlong)] (by simp)
  have hm : ofMapping (textKeyed [("indent_size", overlong)]) =
      .error (.notNatural "indent_size" overlong) := rfl
  obtain ⟨hblamed, hnone⟩ := hblame _ hm fun _ => true
  have huntold := hnone.mpr ⟨overlong, rfl, Or.inr showable_overlong⟩
  rw [huntold] at hblamed
  exact ⟨_, hm, huntold, hblamed⟩

end MiniTemplate.Settings
