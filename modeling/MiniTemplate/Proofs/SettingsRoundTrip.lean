import Mathlib.Data.List.Nodup
import MiniTemplate.Proofs.SettingsMapping

/-!
# Settings written out and read again

Settings can be written as a mapping with every key, `MiniTemplate.Settings.toMapping`. Not all
settings come back from it: a depth of zero is a mistake, and so is an empty ref name. But those
that were read from a mapping do, whatever that mapping left out or left empty. What reading ensures
is `MiniTemplate.Settings.Restorable`, and it is all that reading again asks for.

What the settings convert to is the built-in tables with the entries of the mapping put over them.
That is said of the mapping itself, before any check (`MiniTemplate.Settings.Extends`).

## Main statements

* `MiniTemplate.Settings.ofMapping_toMapping`: settings that were read come back, and their target
  extends the built-in one by what the mapping says.
-/

namespace MiniTemplate.Settings

open Yaml (Value)

variable {entries es : List (Value × Value)} {key name : String} {v : Value} {s : Settings}
  {t : Table String} {α β ε : Type}

/-! ### What each check gives -/

theorem natural_eq_ok_iff {n : Int} : natural name v = .ok n ↔ 0 ≤ n ∧ v = .int n := by
  unfold natural
  split
  · rename_i k
    rw [Except.ok.injEq, Value.int.injEq]
    constructor
    · rintro rfl
      exact ⟨Int.natCast_nonneg k, rfl⟩
    · exact And.right
  · rename_i hint
    refine iff_of_false (by simp) ?_
    rintro ⟨hn, rfl⟩
    exact hint n.toNat (congrArg Value.int (Int.toNat_of_nonneg hn).symm)

theorem depth_eq_ok_iff {n : Int} : depth v = .ok n ↔ 0 < n ∧ v = .int n := by
  unfold depth
  split
  · rename_i hzero
    refine iff_of_false (by simp) ?_
    rintro ⟨hn, rfl⟩
    have h : n = 0 := Value.int.inj (natural_eq_ok_iff.mp hzero).2
    omega
  · rename_i hzero
    rw [natural_eq_ok_iff]
    refine and_congr_left fun hv => ?_
    subst hv
    have hne : n ≠ 0 := by
      rintro rfl
      exact hzero rfl
    omega

theorem map_text_filterMap_text? {items : List Value} (h : ∀ x ∈ items, ∃ t, x = .text t) :
    (items.filterMap text?).map .text = items := by
  induction items with
  | nil => rfl
  | cons x items ih =>
    obtain ⟨t, rfl⟩ := h x List.mem_cons_self
    exact congrArg (Value.text t :: ·) (ih fun x hx => h x (List.mem_cons_of_mem _ hx))

theorem textList_eq_ok_iff {l : List String} :
    textList name v = .ok l ↔ v = .list (l.map .text) := by
  constructor
  · intro h
    obtain ⟨items, rfl, hitems⟩ := exists_textList_iff.mp ⟨l, h⟩
    rw [textList] at h
    split at h
    · obtain rfl := Except.ok.inj h
      rw [map_text_filterMap_text? hitems]
    · exact absurd h (by simp)
  · rintro rfl
    rw [textList, if_pos (all_isSome_text?_map_text l), filterMap_text?_map_text]

theorem nonemptyText_eq_ok_iff {u : String} :
    nonemptyText name v = .ok u ↔ u ≠ "" ∧ v = .text u := by
  unfold nonemptyText
  split
  · rename_i w
    rw [Value.text.injEq]
    by_cases hw : w = ""
    · rw [if_pos (String.isEmpty_iff.mpr hw)]
      refine iff_of_false (by simp) ?_
      rintro ⟨hu, rfl⟩
      exact hu hw
    · rw [if_neg (mt String.isEmpty_iff.mp hw), Except.ok.injEq, iff_and_self]
      rintro rfl
      exact hw
  · rename_i htext
    refine iff_of_false (by simp) ?_
    rintro ⟨-, rfl⟩
    exact htext u rfl

/-- The text that an entry has as its value, where nothing counts as the empty one. -/
def reading : Value → String
  | .text u => u
  | _ => ""

theorem map_reading_of_textEntries {ps : List (String × String)}
    (h : textEntries name es = .ok ps) :
    es.map (fun e => (e.1, reading e.2)) = ps.map fun p => (.text p.1, p.2) := by
  fun_induction textEntries name es generalizing ps with
  | case1 =>
    obtain rfl := Except.ok.inj h
    rfl
  | case2 k v es rest hrest ih =>
    obtain rfl := Except.ok.inj h
    exact congrArg ((Value.text k, v) :: ·) (ih hrest)
  | case3 k v es m hm ih => exact absurd h (by simp)
  | case4 k es rest hrest ih =>
    obtain rfl := Except.ok.inj h
    exact congrArg ((Value.text k, "") :: ·) (ih hrest)
  | case5 k es m hm ih => exact absurd h (by simp)
  | case6 k v es htext hnull => exact absurd h (by simp)

theorem exists_ofList_of_textTable (h : textTable name v = .ok t) :
    ∃ ps, t = .ofList ps ∧
      (v.entries?.getD []).map (fun e => (e.1, reading e.2)) =
        ps.map fun p => (.text p.1, p.2) := by
  unfold textTable at h
  split at h
  · obtain rfl := Except.ok.inj h
    exact ⟨[], rfl, rfl⟩
  · split at h
    · exact absurd h (by simp)
    · rename_i hes
      split at h
      · rename_i ps hps
        obtain rfl := Except.ok.inj h
        refine ⟨ps, rfl, ?_⟩
        rw [hes]
        exact map_reading_of_textEntries hps
      · exact absurd h (by simp)

theorem nodup_keys_of_textTable (h : textTable name v = .ok t) : t.keys.Nodup := by
  obtain ⟨ps, rfl, -⟩ := exists_ofList_of_textTable h
  exact Table.nodup_keys_ofList ps

theorem textEntries_map_text (name : String) (ps : List (String × String)) :
    textEntries name (ps.map fun p => (.text p.1, .text p.2)) = .ok ps := by
  induction ps with
  | nil => rfl
  | cons p ps ih => rw [List.map_cons, textEntries, ih]

/-- **A table comes back** from the mapping that it is written as. -/
theorem textTable_tableValue (h : t.keys.Nodup) : textTable name (tableValue t) = .ok t := by
  have hentries : (tableValue t).entries? =
      some (t.entries.map fun p => (.text p.1, .text p.2)) := rfl
  rw [textTable, hentries]
  · simp only [textEntries_map_text, Table.ofList_entries h]
  · simp [tableValue]

/-! ### What settings that were read are like -/

theorem bind_eq_ok_iff {x : Except ε α} {f : α → Except ε β} {b : β} :
    x >>= f = .ok b ↔ ∃ a, x = .ok a ∧ f a = .ok b := by
  cases x with
  | ok a => simp [bind, Except.bind]
  | error e => simp [bind, Except.bind]

theorem field_eq_ok_iff {check : String → Value → Except Mistake α} {absent a : α} :
    field entries key check absent = .ok a ↔
      lookup entries key = none ∧ absent = a ∨
        ∃ v, lookup entries key = some v ∧ check key v = .ok a := by
  unfold field
  cases lookup entries key with
  | none => simp
  | some v => simp

/-- What holds of the value for a missing key and of all that the check gives holds of the field. -/
theorem forall_of_field {check : String → Value → Except Mistake α} {absent a : α} {P : α → Prop}
    (habsent : P absent) (hcheck : ∀ v, check key v = .ok a → P a)
    (h : field entries key check absent = .ok a) : P a := by
  rcases field_eq_ok_iff.mp h with ⟨-, rfl⟩ | ⟨v, -, hv⟩
  · exact habsent
  · exact hcheck v hv

/-- **Settings read from a mapping**, field by field. -/
structure Reads (entries : List (Value × Value)) (s : Settings) : Prop where
  keys : checkKeys entries = .ok ()
  indentSize : field entries "indent_size" natural standard.indentSize = .ok s.indentSize
  maxDepth : field entries "max_depth" (fun _ => depth) standard.maxDepth = .ok s.maxDepth
  tags : field entries "tags" textTable .empty = .ok s.tags
  attributes : field entries "attributes" textTable .empty = .ok s.attributes
  voidTags : field entries "void_tags" textList [] = .ok s.voidTags
  refName : field entries "ref_attribute" nonemptyText standard.ref.name = .ok s.ref.name
  refStem : field entries "ref_prefix" nonemptyText standard.ref.stem = .ok s.ref.stem

theorem ofMapping_eq_ok_iff : ofMapping entries = .ok s ↔ Reads entries s := by
  rw [ofMapping]
  constructor
  · intro h
    obtain ⟨_, hkeys, h⟩ := bind_eq_ok_iff.mp h
    obtain ⟨_, hindentSize, h⟩ := bind_eq_ok_iff.mp h
    obtain ⟨_, hmaxDepth, h⟩ := bind_eq_ok_iff.mp h
    obtain ⟨_, htags, h⟩ := bind_eq_ok_iff.mp h
    obtain ⟨_, hattributes, h⟩ := bind_eq_ok_iff.mp h
    obtain ⟨_, hvoidTags, h⟩ := bind_eq_ok_iff.mp h
    obtain ⟨_, hname, h⟩ := bind_eq_ok_iff.mp h
    obtain ⟨_, hstem, h⟩ := bind_eq_ok_iff.mp h
    obtain rfl := Except.ok.inj h
    exact ⟨hkeys, hindentSize, hmaxDepth, htags, hattributes, hvoidTags, hname, hstem⟩
  · intro h
    rw [h.keys, h.indentSize, h.maxDepth, h.tags, h.attributes, h.voidTags, h.refName, h.refStem]
    rfl

/-- **Settings that come back** when they are written out and read again. -/
structure Restorable (s : Settings) : Prop where
  indentSize : 0 ≤ s.indentSize
  maxDepth : 0 < s.maxDepth
  tags : s.tags.keys.Nodup
  attributes : s.attributes.keys.Nodup
  refName : s.ref.name ≠ ""
  refStem : s.ref.stem ≠ ""

theorem Reads.restorable (h : Reads entries s) : s.Restorable where
  indentSize := forall_of_field (P := (0 ≤ ·)) (by decide)
    (fun _ hv => (natural_eq_ok_iff.mp hv).1) h.indentSize
  maxDepth := forall_of_field (P := (0 < ·)) (by decide)
    (fun _ hv => (depth_eq_ok_iff.mp hv).1) h.maxDepth
  tags := forall_of_field (P := fun t => t.keys.Nodup) List.nodup_nil
    (fun _ => nodup_keys_of_textTable) h.tags
  attributes := forall_of_field (P := fun t => t.keys.Nodup) List.nodup_nil
    (fun _ => nodup_keys_of_textTable) h.attributes
  refName := forall_of_field (P := (· ≠ "")) (by decide)
    (fun _ hv => (nonemptyText_eq_ok_iff.mp hv).1) h.refName
  refStem := forall_of_field (P := (· ≠ "")) (by decide)
    (fun _ hv => (nonemptyText_eq_ok_iff.mp hv).1) h.refStem

theorem checkKeys_toMapping (s : Settings) : checkKeys s.toMapping = .ok () := by
  rw [checkKeys_eq_ok_iff]
  simp [toMapping, IsKnown, knownKeys]

theorem Restorable.reads_toMapping (h : s.Restorable) : Reads s.toMapping s where
  keys := checkKeys_toMapping s
  indentSize := field_eq_ok_iff.mpr (Or.inr ⟨_, rfl, natural_eq_ok_iff.mpr ⟨h.indentSize, rfl⟩⟩)
  maxDepth := field_eq_ok_iff.mpr (Or.inr ⟨_, rfl, depth_eq_ok_iff.mpr ⟨h.maxDepth, rfl⟩⟩)
  tags := field_eq_ok_iff.mpr (Or.inr ⟨_, rfl, textTable_tableValue h.tags⟩)
  attributes := field_eq_ok_iff.mpr (Or.inr ⟨_, rfl, textTable_tableValue h.attributes⟩)
  voidTags := field_eq_ok_iff.mpr (Or.inr ⟨_, rfl, textList_eq_ok_iff.mpr rfl⟩)
  refName := field_eq_ok_iff.mpr (Or.inr ⟨_, rfl, nonemptyText_eq_ok_iff.mpr ⟨h.refName, rfl⟩⟩)
  refStem := field_eq_ok_iff.mpr (Or.inr ⟨_, rfl, nonemptyText_eq_ok_iff.mpr ⟨h.refStem, rfl⟩⟩)

/-! ### What the mapping adds to the built-in tables -/

/-- The entries of the mapping under a key, if there is one. -/
def entriesUnder (entries : List (Value × Value)) (key : String) : List (Value × Value) :=
  ((lookup entries key).bind Value.entries?).getD []

/-- The items of the list under a key, if there is one. -/
def itemsUnder (entries : List (Value × Value)) (key : String) : List Value :=
  match lookup entries key with
  | some (.list items) => items
  | _ => []

/-- **A table with entries put over it**: each entry gives its name a value, and the names that have
no entry keep theirs. -/
structure Overlaid (es : List (Value × Value)) (base merged : Table String) : Prop where
  given : ∀ k v, (.text k, v) ∈ es → merged.get? k = some (reading v)
  kept : ∀ k, (∀ v, (.text k, v) ∉ es) → merged.get? k = base.get? k

/-- **The built-in target with what a mapping says**: its own names of tags and attributes, and
further void tags. -/
structure Extends (entries : List (Value × Value)) (target : Vue.Target) : Prop where
  tags : Overlaid (entriesUnder entries "tags") Vue.tagTable target.tags
  attributes : Overlaid (entriesUnder entries "attributes") Vue.attributeTable target.attributes
  voidTags : ∀ tag, target.isVoid tag ↔
    tag ∈ Vue.voidTags ∨ .text tag ∈ itemsUnder entries "void_tags"

/-- Every mapping among the values of a mapping has each of its keys once. -/
def KeysOnce (entries : List (Value × Value)) : Prop :=
  ∀ e ∈ entries, ∀ es, e.2.entries? = some es → (es.map Prod.fst).Nodup

theorem exists_mem_of_lookup (h : lookup entries key = some v) : ∃ k, (k, v) ∈ entries := by
  obtain ⟨e, he, rfl⟩ := Option.map_eq_some_iff.mp h
  exact ⟨e.1, List.mem_of_find?_eq_some he⟩

theorem KeysOnce.nodup_entriesUnder (h : KeysOnce entries) (key : String) :
    ((entriesUnder entries key).map Prod.fst).Nodup := by
  rw [entriesUnder]
  cases hes : (lookup entries key).bind Value.entries? with
  | none => exact List.nodup_nil
  | some es =>
    obtain ⟨v, hv, hes⟩ := Option.bind_eq_some_iff.mp hes
    obtain ⟨k, hmem⟩ := exists_mem_of_lookup hv
    exact h _ hmem es hes

theorem exists_ofList_of_field (h : field entries key textTable .empty = .ok t) :
    ∃ ps, t = .ofList ps ∧
      (entriesUnder entries key).map (fun e => (e.1, reading e.2)) =
        ps.map fun p => (.text p.1, p.2) := by
  rw [entriesUnder]
  rcases field_eq_ok_iff.mp h with ⟨hnone, rfl⟩ | ⟨v, hv, hcheck⟩
  · rw [hnone]
    exact ⟨[], rfl, rfl⟩
  · rw [hv]
    exact exists_ofList_of_textTable hcheck

theorem overlaid_of_field (hes : ((entriesUnder entries key).map Prod.fst).Nodup)
    (h : field entries key textTable .empty = .ok t) (base : Table String) :
    Overlaid (entriesUnder entries key) base (base.insertAll t.entries) := by
  obtain ⟨ps, rfl, hmap⟩ := exists_ofList_of_field h
  have hkeys : (entriesUnder entries key).map Prod.fst = (ps.map (·.1)).map .text := by
    simpa [Function.comp_def] using congrArg (List.map Prod.fst) hmap
  have hps : (ps.map (·.1)).Nodup := by
    rw [hkeys] at hes
    exact List.Nodup.of_map _ hes
  constructor
  · intro k v hv
    have hmem : (Value.text k, reading v) ∈ ps.map fun p => (Value.text p.1, p.2) := by
      rw [← hmap]
      exact List.mem_map_of_mem hv
    obtain ⟨⟨k', u⟩, hp, heq⟩ := List.mem_map.mp hmem
    obtain ⟨hk, rfl⟩ := Prod.mk.inj heq
    obtain rfl := Value.text.inj hk
    have hget : (Table.ofList ps).get? k' = some (reading v) := by
      rw [Table.get?_eq_some_iff (Table.nodup_keys_ofList ps), Table.entries_ofList hps]
      exact hp
    rw [Table.get?_insertAll_entries (Table.nodup_keys_ofList ps), hget]
    rfl
  · intro k hk
    have hnone : (Table.ofList ps).get? k = none := by
      rw [← Option.not_isSome_iff_eq_none, Table.isSome_get?_iff, Table.mem_keys_ofList]
      intro hmem
      have htext : Value.text k ∈ (entriesUnder entries key).map Prod.fst := by
        rw [hkeys]
        exact List.mem_map_of_mem hmem
      obtain ⟨⟨k', v⟩, hv, rfl⟩ := List.mem_map.mp htext
      exact hk v hv
    rw [Table.get?_insertAll_entries (Table.nodup_keys_ofList ps), hnone]
    rfl

theorem itemsUnder_of_field {l : List String} (h : field entries key textList [] = .ok l) :
    itemsUnder entries key = l.map .text := by
  rw [itemsUnder]
  rcases field_eq_ok_iff.mp h with ⟨hnone, rfl⟩ | ⟨v, hv, hcheck⟩
  · rw [hnone]
    rfl
  · rw [hv, textList_eq_ok_iff.mp hcheck]

theorem Reads.extends_target (h : Reads entries s) (hkeys : KeysOnce entries) :
    Extends entries s.target where
  tags := overlaid_of_field (hkeys.nodup_entriesUnder _) h.tags _
  attributes := overlaid_of_field (hkeys.nodup_entriesUnder _) h.attributes _
  voidTags tag := by
    rw [itemsUnder_of_field h.voidTags]
    simp [target, Vue.Target.isVoid]

/-- **Settings that were read come back** from the mapping that they are written as, and with them
what they convert to: the built-in target with what the first mapping says. -/
theorem ofMapping_toMapping (hkeys : KeysOnce entries) (h : ofMapping entries = .ok s) :
    ofMapping s.toMapping = .ok s ∧ Extends entries s.target := by
  have hreads : Reads entries s := ofMapping_eq_ok_iff.mp h
  constructor
  · exact ofMapping_eq_ok_iff.mpr hreads.restorable.reads_toMapping
  · exact hreads.extends_target hkeys

/-- A mapping that leaves out most of the keys, and a name without a value. -/
def sparse : List (Value × Value) := [
  (.text "void_tags", .list [.text "icon"]),
  (.text "tags", .mapping [(.text "view", .text "section"), (.text "icon", .null)]),
  (.text "attributes", .null)]

/-- The settings of it. -/
def sparseSettings : Settings :=
  { standard with tags := ⟨[("view", "section"), ("icon", "")]⟩, voidTags := ["icon"] }

theorem ofMapping_toMapping_sparse :
    KeysOnce sparse ∧ ofMapping sparse = .ok sparseSettings ∧
      (ofMapping sparseSettings.toMapping = .ok sparseSettings ∧
        Extends sparse sparseSettings.target) := by
  have hkeys : KeysOnce sparse := by
    simp [KeysOnce, sparse, Value.entries?]
  have h : ofMapping sparse = .ok sparseSettings := by rfl
  exact ⟨hkeys, h, ofMapping_toMapping hkeys h⟩

end MiniTemplate.Settings
