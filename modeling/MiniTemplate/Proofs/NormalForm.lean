import Mathlib.Logic.Relation
import MiniTemplate.Proofs.ReportShape

/-!
# Validation normalises

A value that is accepted comes out in normal form, and a normal form is left as it is. So one pass
is enough: what comes out of validation is accepted again, and comes out the same.

A value can be *restated* in ways that its shape does not tell apart: a field under its other name,
a `null` where a field may be missing, a list or a table that is empty written out or left out; and
all of this at any depth. `MiniTemplate.Shape.Restates` is one such change. It makes no difference
to validation (`MiniTemplate.Shape.Restates.agrees`), unless something is wrong with the value
anyway, and so all restatements of a value have the same normal form.

## Main statements

* `MiniTemplate.Shape.normal_check`: what is accepted comes out in normal form.
* `MiniTemplate.Record.validateWith_stable`: the normal form of a value is accepted as it is, and is
  the normal form of all its restatements.
-/

namespace MiniTemplate

/-- **Induction on a value**: on an array by its items, on an object by the values in it. -/
@[elab_as_elim]
theorem Json.induction {motive : Json → Prop}
    (scalar : ∀ v, (∀ vs, v ≠ .arr vs) → (∀ ms, v ≠ .obj ms) → motive v)
    (arr : ∀ vs, (∀ v ∈ vs, motive v) → motive (.arr vs))
    (obj : ∀ ms, (∀ m ∈ ms, motive m.2) → motive (.obj ms)) (v : Json) : motive v := by
  refine @Json.rec motive (fun vs => ∀ v ∈ vs, motive v) (fun ms => ∀ m ∈ ms, motive m.2)
    (fun m => motive m.2) ?_ ?_ ?_ ?_ ?_ arr obj ?_ ?_ ?_ ?_ ?_ v
  · exact scalar _ nofun nofun
  · exact fun b => scalar _ nofun nofun
  · exact fun n => scalar _ nofun nofun
  · exact fun d => scalar _ nofun nofun
  · exact fun s => scalar _ nofun nofun
  · exact fun v hv => absurd hv List.not_mem_nil
  · exact fun v vs hv hvs => List.forall_mem_cons.mpr ⟨hv, hvs⟩
  · exact fun m hm => absurd hm List.not_mem_nil
  · exact fun m ms hm hms => List.forall_mem_cons.mpr ⟨hm, hms⟩
  · exact fun k v hv => hv

variable {l : Leniency} {r : Record} {f : Field} {s item : Shape} {v w d e : Json}
  {keys : List String} {ms ns : List (String × Json)}

/-! ### What is accepted comes out in normal form -/

theorem Shape.normal_of_scalar? (h : s.scalar? l v = some w) : s.Normal w := by
  unfold scalar? at h
  split at h
  · obtain rfl := Option.some.inj h
    exact .text _
  · obtain ⟨n, -, rfl⟩ := Option.map_eq_some_iff.mp h
    exact .whole n
  · obtain ⟨b, -, rfl⟩ := Option.map_eq_some_iff.mp h
    exact .truth b
  · split at h
    · rename_i hword
      obtain rfl := Option.some.inj h
      exact .word hword
    · exact absurd h (by simp)
  · exact absurd h (by simp)

theorem Shape.normal_checkScalar (l : Leniency) (h : (s.checkScalar l v).issues = []) :
    s.Normal (s.checkScalar l v).value := by
  unfold checkScalar at h ⊢
  split at h
  · rename_i w hw
    exact normal_of_scalar? hw
  · exact absurd h (by simp)

theorem Shape.normal_checkItems {vs : List Json}
    (hparts : ∀ v ∈ vs, ∀ s : Shape, (s.check l v).issues = [] → s.Normal (s.check l v).value)
    (i : Nat) (h : (checkItems l item i vs).issues = []) :
    ∀ w ∈ (checkItems l item i vs).value, item.Normal w := by
  induction vs generalizing i with
  | nil => exact fun w hw => absurd hw List.not_mem_nil
  | cons v vs ih =>
    obtain ⟨hv, hvs⟩ := List.forall_mem_cons.mp hparts
    obtain ⟨hfirst, hmore⟩ := List.append_eq_nil_iff.mp h
    exact List.forall_mem_cons.mpr ⟨hv item (List.map_eq_nil_iff.mp hfirst), ih hvs _ hmore⟩

section Parts

variable (hparts : ∀ m ∈ ms, ∀ s : Shape, (s.check l m.2).issues = [] →
  s.Normal (s.check l m.2).value)
include hparts

theorem Shape.normal_checkEntries (h : (checkEntries l item ms).issues = []) :
    ∀ m ∈ (checkEntries l item ms).value, item.Normal m.2 := by
  induction ms with
  | nil => exact fun m hm => absurd hm List.not_mem_nil
  | cons m ms ih =>
    obtain ⟨k, v⟩ := m
    obtain ⟨hv, hms⟩ := List.forall_mem_cons.mp hparts
    obtain ⟨hfirst, hmore⟩ := List.append_eq_nil_iff.mp h
    exact List.forall_mem_cons.mpr ⟨hv item (List.map_eq_nil_iff.mp hfirst), ih hms hmore⟩

/-- A member that is checked stands under the key of a field; it is nothing only if the field may
be missing, and in normal form otherwise. -/
theorem Record.normal_checkMembers (h : (checkMembers l r keys ms).issues = []) :
    ∀ g ∈ (checkMembers l r keys ms).value, ∃ f ∈ r.fields, f.key = g.1 ∧
      (g.2 = none → f.absence = .allowed) ∧ ∀ w, g.2 = some w → f.shape.Normal w := by
  induction ms with
  | nil => exact fun g hg => absurd hg List.not_mem_nil
  | cons m ms ih =>
    obtain ⟨k, v⟩ := m
    obtain ⟨hv, hms⟩ := List.forall_mem_cons.mp hparts
    rw [checkMembers] at h ⊢
    cases hfield : r.field? keys k with
    | none =>
      rw [hfield] at h
      exact absurd h (by simp)
    | some f =>
      have hf : f ∈ r.fields := List.mem_of_find?_eq_some hfield
      simp only [hfield] at h ⊢
      split at h
      · rename_i habsence
        have hnone : ∀ w, (none : Option Json) = some w → f.shape.Normal w := by simp
        exact List.forall_mem_cons.mpr ⟨⟨f, hf, rfl, fun _ => habsence, hnone⟩, ih hms h⟩
      · obtain ⟨hfirst, hmore⟩ := List.append_eq_nil_iff.mp h
        refine List.forall_mem_cons.mpr ⟨⟨f, hf, rfl, by simp, ?_⟩, ih hms hmore⟩
        intro w hw
        obtain rfl := Option.some.inj hw
        exact hv f.shape (List.map_eq_nil_iff.mp hfirst)

end Parts

/-- What stands for a field that is not there. -/
def Absence.value? : Absence → Option Json
  | .emptyList => some (.arr [])
  | .emptyTable => some (.obj [])
  | .refused | .allowed => none

/-- Every value that stands for a missing field has the shape of the field. -/
theorem Record.normal_default (r : Record) :
    ∀ f ∈ r.fields, ∀ w, f.absence.value? = some w → f.shape.Normal w := by
  have hlist (item : Shape) : (Shape.list item).Normal (.arr []) := .list nofun
  have htable (item : Shape) : (Shape.table item).Normal (.obj []) := .table nofun
  cases r <;>
    simp [Record.fields, Field.required, Field.optional, Field.items, Field.entries,
      Absence.value?, hlist, htable]

section Assembly

variable {given : List (String × Option Json)} {fs : List Field}

open Record (Filled)

theorem Field.filled_assemble
    (hgiven : ∀ g ∈ given, g.1 = f.key →
      (g.2 = none → f.absence = .allowed) ∧ ∀ w, g.2 = some w → f.shape.Normal w)
    (hdefault : ∀ w, f.absence.value? = some w → f.shape.Normal w)
    (h : (f.assemble given).issues = []) (hfs : Filled fs ms) :
    Filled (f :: fs) ((f.assemble given).value ++ ms) := by
  unfold assemble at h ⊢
  cases hfind : given.find? (fun g => g.1 == f.key) with
  | some g =>
    obtain ⟨k, v⟩ := g
    obtain ⟨hleft, hnormal⟩ :=
      hgiven (k, v) (List.mem_of_find?_eq_some hfind) (by simpa using List.find?_some hfind)
    cases v with
    | some v => exact .given (hnormal v rfl) hfs
    | none => exact .left (hleft rfl) hfs
  | none =>
    rw [hfind] at h
    cases habsence : f.absence with
    | refused =>
      rw [habsence] at h
      exact absurd h (by simp)
    | emptyList => exact .given (hdefault _ (by rw [habsence, Absence.value?])) hfs
    | emptyTable => exact .given (hdefault _ (by rw [habsence, Absence.value?])) hfs
    | allowed => exact .left habsence hfs

theorem Record.filled_assemble
    (hgiven : ∀ f ∈ fs, ∀ g ∈ given, g.1 = f.key →
      (g.2 = none → f.absence = .allowed) ∧ ∀ w, g.2 = some w → f.shape.Normal w)
    (hdefault : ∀ f ∈ fs, ∀ w, f.absence.value? = some w → f.shape.Normal w)
    (h : (fs.map fun f => f.assemble given).flatMap (·.issues) = []) :
    Filled fs ((fs.map fun f => f.assemble given).flatMap (·.value)) := by
  induction fs with
  | nil => exact .nil
  | cons f fs ih =>
    obtain ⟨hfirst, hmore⟩ := List.append_eq_nil_iff.mp h
    obtain ⟨hf, hfs⟩ := List.forall_mem_cons.mp hgiven
    obtain ⟨hdf, hdfs⟩ := List.forall_mem_cons.mp hdefault
    exact Field.filled_assemble hf hdf hfirst (ih hfs hdfs hmore)

end Assembly

/-- **What is accepted comes out in normal form.** -/
theorem Shape.normal_check (l : Leniency) (v : Json) :
    ∀ s : Shape, (s.check l v).issues = [] → s.Normal (s.check l v).value := by
  induction v using Json.induction with
  | scalar v harr hobj =>
    intro s h
    unfold check at h ⊢
    split at h
    · exact absurd rfl (harr _)
    · exact absurd rfl (hobj _)
    · exact absurd rfl (hobj _)
    · exact normal_checkScalar l h
  | arr vs ih =>
    intro s h
    cases s with
    | list item => exact .list (normal_checkItems ih 0 h)
    | _ => exact normal_checkScalar l h
  | obj ms ih =>
    intro s h
    cases s with
    | table item => exact .table (normal_checkEntries ih h)
    | record r =>
      obtain ⟨hmembers, hparts⟩ := List.append_eq_nil_iff.mp h
      refine (Record.filled_assemble ?_ r.normal_default hparts).normal
      intro f hf g hg hkey
      obtain ⟨f', hf', hkey', hg⟩ := Record.normal_checkMembers ih hmembers g hg
      obtain rfl : f' = f :=
        List.inj_on_of_nodup_map r.nodup_keys hf' hf (hkey'.trans hkey)
      exact hg
    | _ => exact normal_checkScalar l h

/-! ### Restating a value -/

namespace Field

/-- The names that a field may be given under. -/
def Names (f : Field) (k : String) : Prop := k = f.key ∨ f.alternative = some k

/-- A field that none of the members gives. -/
def Free (f : Field) (ms : List (String × Json)) : Prop := ∀ m ∈ ms, ¬f.Names m.1

theorem free_append_iff : f.Free (ms ++ ns) ↔ f.Free ms ∧ f.Free ns := List.forall_mem_append

end Field

/-- **A value is restated**, at one place in it: it says the same in another way. -/
inductive Shape.Restates : Shape → Json → Json → Prop
  /-- A field is given under its other name. -/
  | renamed {r : Record} {f : Field} {k : String} {v : Json} {ms ns : List (String × Json)}
    (hf : f ∈ r.fields) (hk : f.alternative = some k) (hfree : f.Free (ms ++ ns)) :
    Restates (.record r) (.obj (ms ++ (f.key, v) :: ns)) (.obj (ms ++ (k, v) :: ns))
  /-- A field that is null is left out, if it may be missing. -/
  | null {r : Record} {f : Field} {k : String} {ms ns : List (String × Json)} (hf : f ∈ r.fields)
    (hk : f.Names k) (habsence : f.absence = .allowed) (hfree : f.Free (ms ++ ns)) :
    Restates (.record r) (.obj (ms ++ (k, .null) :: ns)) (.obj (ms ++ ns))
  /-- A field is left out if it is what stands for it anyway. -/
  | default {r : Record} {f : Field} {k : String} {v : Json} {ms ns : List (String × Json)}
    (hf : f ∈ r.fields) (hk : f.Names k) (hv : f.absence.value? = some v)
    (hfree : f.Free (ms ++ ns)) :
    Restates (.record r) (.obj (ms ++ (k, v) :: ns)) (.obj (ms ++ ns))
  /-- A member of a record is restated. -/
  | member {r : Record} {f : Field} {k : String} {v w : Json} {ms ns : List (String × Json)}
    (hf : f ∈ r.fields) (hk : f.Names k) (hfree : f.Free (ms ++ ns)) (h : Restates f.shape v w) :
    Restates (.record r) (.obj (ms ++ (k, v) :: ns)) (.obj (ms ++ (k, w) :: ns))
  /-- An item of a list is restated. -/
  | item {item : Shape} {v w : Json} {vs ws : List Json} (h : Restates item v w) :
    Restates (.list item) (.arr (vs ++ v :: ws)) (.arr (vs ++ w :: ws))
  /-- An entry of a table is restated. -/
  | entry {item : Shape} {k : String} {v w : Json} {ms ns : List (String × Json)}
    (h : Restates item v w) :
    Restates (.table item) (.obj (ms ++ (k, v) :: ns)) (.obj (ms ++ (k, w) :: ns))

theorem Shape.Restates.ne_null (h : s.Restates v w) : v ≠ .null ∧ w ≠ .null := by
  cases h <;> exact ⟨nofun, nofun⟩

namespace Record

variable {k : String} {keys' : List String}

/-- No two fields have the same second name. -/
theorem alternative_inj (r : Record) :
    ∀ f ∈ r.fields, ∀ g ∈ r.fields, f.alternative ≠ none → f.alternative = g.alternative →
      f = g := by
  cases r <;> decide

theorem key_inj {g : Field} (hf : f ∈ r.fields) (hg : g ∈ r.fields) (h : f.key = g.key) : f = g :=
  List.inj_on_of_nodup_map r.nodup_keys hf hg h

/-- A field is found by its second name, if its key is not there. -/
theorem field?_alternative (hf : f ∈ r.fields) (hk : f.alternative = some k)
    (hkey : f.key ∉ keys) : r.field? keys k = some f := by
  rw [field?, ← find?_key r.nodup_keys hf]
  refine List.find?_congr fun g hg => ?_
  have hgk : (g.key == k) = false := by
    rw [beq_eq_false_iff_ne]
    rintro rfl
    exact r.alternative_ne_key f hf g hg hk
  rw [hgk, Bool.false_or]
  by_cases hgf : g = f
  · subst hgf
    simp [hk, hkey]
  · have halternative : (g.alternative == some k) = false := by
      rw [beq_eq_false_iff_ne]
      intro h
      exact hgf (r.alternative_inj g hg f hf (by simp [h]) (h.trans hk.symm))
    have hgkey : (g.key == f.key) = false :=
      beq_eq_false_iff_ne.mpr fun h => hgf (key_inj hg hf h)
    rw [halternative, hgkey, Bool.false_and]

/-- **A field is found by either of its names**, if nothing else gives it. -/
theorem field?_of_names (hf : f ∈ r.fields) (hk : f.Names k) (hfree : f.Free (ms ++ ns)) :
    r.field? ((ms ++ (k, v) :: ns).map (·.1)) k = some f := by
  obtain ⟨hms, hns⟩ := Field.free_append_iff.mp hfree
  rcases hk with rfl | hk
  · exact field?_key r _ hf
  · refine field?_alternative hf hk fun hmem => ?_
    obtain ⟨m, hm, hkey⟩ := List.mem_map.mp hmem
    rcases List.mem_append.mp hm with hm | hm
    · exact hms m hm (Or.inl hkey)
    · rcases List.mem_cons.mp hm with rfl | hm
      · exact r.alternative_ne_key f hf f hf (hkey ▸ hk)
      · exact hns m hm (Or.inl hkey)

/-- What other keys stand for does not depend on how a field is given, or whether it is. -/
theorem field?_congr (hf : f ∈ r.fields)
    (hkeys : ∀ j, ¬f.Names j → (j ∈ keys ↔ j ∈ keys')) (hk : ¬f.Names k) :
    r.field? keys k = r.field? keys' k := by
  refine List.find?_congr fun g hg => ?_
  by_cases hgk : g.alternative = some k
  · have hgf : g ≠ f := by
      rintro rfl
      exact hk (Or.inr hgk)
    have hgkey : ¬f.Names g.key := by
      rintro (h | h)
      · exact hgf (key_inj hg hf h)
      · exact r.alternative_ne_key f hf g hg h
    simp [hkeys g.key hgkey]
  · rw [beq_eq_false_iff_ne.mpr hgk, Bool.false_and, Bool.false_and]

theorem checkMembers_congr (hf : f ∈ r.fields)
    (hkeys : ∀ j, ¬f.Names j → (j ∈ keys ↔ j ∈ keys')) (hfree : f.Free ms) :
    checkMembers l r keys ms = checkMembers l r keys' ms := by
  induction ms with
  | nil => rfl
  | cons m ms ih =>
    obtain ⟨k, v⟩ := m
    obtain ⟨hk, hms⟩ := List.forall_mem_cons.mp hfree
    rw [checkMembers, checkMembers, ih hms, field?_congr hf hkeys hk]

theorem checkMembers_append (l : Leniency) (r : Record) (keys : List String)
    (ms ns : List (String × Json)) :
    checkMembers l r keys (ms ++ ns) =
      ⟨(checkMembers l r keys ms).value ++ (checkMembers l r keys ns).value,
        (checkMembers l r keys ms).issues ++ (checkMembers l r keys ns).issues⟩ := by
  induction ms with
  | nil => rfl
  | cons m ms ih =>
    obtain ⟨k, v⟩ := m
    rw [List.cons_append, checkMembers, checkMembers, ih]
    cases r.field? keys k with
    | none => rfl
    | some f =>
      dsimp only
      split
      · rfl
      · rw [List.cons_append, List.append_assoc]

end Record

/-- Checking what an object gives for a field: nothing, if it is null and may be. -/
def Field.checkMember (l : Leniency) (f : Field) (v : Json) : Checked (Option Json) :=
  match f.absence, v with
  | .allowed, .null => ⟨none, []⟩
  | _, v => ⟨some (f.shape.check l v).value, (f.shape.check l v).issues.map (.under f.key)⟩

theorem Field.checkMember_null (habsence : f.absence = .allowed) :
    f.checkMember l .null = ⟨none, []⟩ := by
  simp only [checkMember, habsence]

theorem Field.checkMember_of_imp_ne (hv : f.absence = .allowed → v ≠ .null) : f.checkMember l v =
    ⟨some (f.shape.check l v).value, (f.shape.check l v).issues.map (.under f.key)⟩ := by
  unfold checkMember
  split
  · rename_i habsence
    exact absurd rfl (hv habsence)
  · rfl

namespace Record

variable {k : String} {keys' : List String} {gs hs : List (String × Option Json)}
  {x : Option Json} {is : List Issue}

/-- **The outcome around one member.** -/
theorem checkMembers_split (hk : r.field? keys k = some f) :
    checkMembers l r keys (ms ++ (k, v) :: ns) =
      ⟨(checkMembers l r keys ms).value ++
          (f.key, (f.checkMember l v).value) :: (checkMembers l r keys ns).value,
        (checkMembers l r keys ms).issues ++
          ((f.checkMember l v).issues ++ (checkMembers l r keys ns).issues)⟩ := by
  rw [checkMembers_append, checkMembers, hk]
  dsimp only
  split
  · rename_i habsence
    rw [Field.checkMember_null habsence]
    rfl
  · rename_i hv
    rw [Field.checkMember_of_imp_ne hv]

/-- A field that no member gives is not among what is checked. -/
theorem key_ne_of_free (hf : f ∈ r.fields) (hfree : f.Free ms) :
    ∀ g ∈ (checkMembers l r keys ms).value, g.1 ≠ f.key := by
  induction ms with
  | nil => exact fun g hg => absurd hg List.not_mem_nil
  | cons m ms ih =>
    obtain ⟨k, v⟩ := m
    obtain ⟨hk, hms⟩ := List.forall_mem_cons.mp hfree
    rw [checkMembers]
    cases hfield : r.field? keys k with
    | none => exact ih hms
    | some f' =>
      have hne : f'.key ≠ f.key := by
        intro hkey
        obtain rfl := key_inj (List.mem_of_find?_eq_some hfield) hf hkey
        have hnames := List.find?_some hfield
        simp only [Bool.or_eq_true, Bool.and_eq_true, beq_iff_eq] at hnames
        exact hk (hnames.imp Eq.symm And.left)
      dsimp only
      split
      · exact List.forall_mem_cons.mpr ⟨hne, ih hms⟩
      · exact List.forall_mem_cons.mpr ⟨hne, ih hms⟩

/-- What is given for other fields does not matter to a field. -/
theorem assemble_append_cons_of_ne (hne : k ≠ f.key) :
    f.assemble (gs ++ (k, x) :: hs) = f.assemble (gs ++ hs) := by
  rw [Field.assemble, Field.assemble, List.find?_append, List.find?_append,
    List.find?_cons_of_neg (by simpa using hne)]

/-- A field that is given as what its absence means may as well be absent. -/
theorem assemble_of_implied (hgs : ∀ g ∈ gs, g.1 ≠ f.key) (hhs : ∀ g ∈ hs, g.1 ≠ f.key)
    (hx : x = none ∧ f.absence = .allowed ∨ ∃ v, x = some v ∧ f.absence.value? = some v) :
    f.assemble (gs ++ (f.key, x) :: hs) = f.assemble (gs ++ hs) := by
  have hgs' : gs.find? (fun g => g.1 == f.key) = none :=
    List.find?_eq_none.mpr fun g hg => by simpa using hgs g hg
  have hhs' : hs.find? (fun g => g.1 == f.key) = none :=
    List.find?_eq_none.mpr fun g hg => by simpa using hhs g hg
  rw [Field.assemble, Field.assemble, List.find?_append, List.find?_append, hgs', hhs',
    List.find?_cons_of_pos (by simp)]
  rcases hx with ⟨rfl, habsence⟩ | ⟨v, rfl, hv⟩
  · simp [habsence]
  · cases habsence : f.absence with
    | refused => simp [habsence, Absence.value?] at hv
    | emptyList =>
      rw [habsence] at hv
      obtain rfl := Option.some.inj hv
      rfl
    | emptyTable =>
      rw [habsence] at hv
      obtain rfl := Option.some.inj hv
      rfl
    | allowed => simp [habsence, Absence.value?] at hv

/-- So a record is the same without it. -/
theorem assemble_omitted (hf : f ∈ r.fields) (hgs : ∀ g ∈ gs, g.1 ≠ f.key)
    (hhs : ∀ g ∈ hs, g.1 ≠ f.key)
    (hx : x = none ∧ f.absence = .allowed ∨ ∃ v, x = some v ∧ f.absence.value? = some v) :
    r.assemble ⟨gs ++ (f.key, x) :: hs, is⟩ = r.assemble ⟨gs ++ hs, is⟩ := by
  have hparts : (r.fields.map fun g => g.assemble (gs ++ (f.key, x) :: hs)) =
      r.fields.map fun g => g.assemble (gs ++ hs) := by
    refine List.map_congr_left fun g hg => ?_
    by_cases hgf : g = f
    · subst hgf
      exact assemble_of_implied hgs hhs hx
    · exact assemble_append_cons_of_ne fun hkey => hgf (key_inj hg hf hkey.symm)
  rw [assemble, assemble]
  dsimp only
  rw [hparts]

theorem mem_keys_iff_of_names (hk : f.Names k) (j : String) (hj : ¬f.Names j) :
    j ∈ (ms ++ (k, v) :: ns).map (·.1) ↔ j ∈ (ms ++ ns).map (·.1) := by
  have hne : j ≠ k := by
    rintro rfl
    exact hj hk
  simp [hne]

/-- Leaving out a field that is given as what its absence means. -/
theorem check_omitted (hf : f ∈ r.fields) (hk : f.Names k) (hfree : f.Free (ms ++ ns))
    (hx : x = none ∧ f.absence = .allowed ∨ ∃ v, x = some v ∧ f.absence.value? = some v)
    (hv : f.checkMember l v = ⟨x, []⟩) :
    (Shape.record r).check l (.obj (ms ++ (k, v) :: ns)) =
      (Shape.record r).check l (.obj (ms ++ ns)) := by
  obtain ⟨hms, hns⟩ := Field.free_append_iff.mp hfree
  have hkeys (j : String) (hj : ¬f.Names j) :
      j ∈ (ms ++ (k, v) :: ns).map (·.1) ↔ j ∈ (ms ++ ns).map (·.1) :=
    mem_keys_iff_of_names hk j hj
  rw [Shape.check, Shape.check, checkMembers_split (field?_of_names hf hk hfree), hv,
    checkMembers_congr hf hkeys hms, checkMembers_congr hf hkeys hns, checkMembers_append]
  exact assemble_omitted hf (key_ne_of_free hf hms) (key_ne_of_free hf hns) hx

end Record

/-! ### Restatements are not told apart -/

namespace Checked

variable {α : Type}

/-- **Two outcomes agree**: they are the same, or something is wrong in both. -/
def Agrees (c c' : Checked α) : Prop := c = c' ∨ c.issues ≠ [] ∧ c'.issues ≠ []

end Checked

theorem checkItems_append (l : Leniency) (item : Shape) (i : Nat) (vs ws : List Json) :
    checkItems l item i (vs ++ ws) =
      ⟨(checkItems l item i vs).value ++ (checkItems l item (i + vs.length) ws).value,
        (checkItems l item i vs).issues ++ (checkItems l item (i + vs.length) ws).issues⟩ := by
  induction vs generalizing i with
  | nil => rfl
  | cons v vs ih =>
    have hlength : i + (v :: vs).length = i + 1 + vs.length := by
      rw [List.length_cons]
      omega
    rw [List.cons_append, checkItems, checkItems, ih, hlength]
    dsimp only
    rw [List.cons_append, List.append_assoc]

theorem checkEntries_append (l : Leniency) (item : Shape) (ms ns : List (String × Json)) :
    checkEntries l item (ms ++ ns) =
      ⟨(checkEntries l item ms).value ++ (checkEntries l item ns).value,
        (checkEntries l item ms).issues ++ (checkEntries l item ns).issues⟩ := by
  induction ms with
  | nil => rfl
  | cons m ms ih =>
    obtain ⟨k, v⟩ := m
    rw [List.cons_append, checkEntries, checkEntries, ih]
    dsimp only
    rw [List.cons_append, List.append_assoc]

/-- **Restating a value makes no difference**, unless something is wrong with it anyway. -/
theorem Shape.Restates.agrees (h : s.Restates d e) (l : Leniency) :
    (s.check l d).Agrees (s.check l e) := by
  induction h with
  | @renamed r f k v ms ns hf hk hfree =>
    obtain ⟨hms, hns⟩ := Field.free_append_iff.mp hfree
    have hkeys (j : String) (hj : ¬f.Names j) :
        j ∈ (ms ++ (f.key, v) :: ns).map (·.1) ↔ j ∈ (ms ++ (k, v) :: ns).map (·.1) :=
      (Record.mem_keys_iff_of_names (Or.inl rfl) j hj).trans
        (Record.mem_keys_iff_of_names (Or.inr hk) j hj).symm
    left
    rw [check, check, Record.checkMembers_split (Record.field?_of_names hf (Or.inl rfl) hfree),
      Record.checkMembers_split (Record.field?_of_names hf (Or.inr hk) hfree),
      Record.checkMembers_congr hf hkeys hms, Record.checkMembers_congr hf hkeys hns]
  | null hf hk habsence hfree =>
    exact Or.inl (Record.check_omitted hf hk hfree (Or.inl ⟨rfl, habsence⟩)
      (Field.checkMember_null habsence))
  | @default r f k v ms ns hf hk hv hfree =>
    have hnormal : f.shape.Normal v := r.normal_default f hf v hv
    refine Or.inl (Record.check_omitted hf hk hfree (Or.inr ⟨v, rfl, hv⟩) ?_)
    rw [Field.checkMember_of_imp_ne fun _ => hnormal.ne_null, hnormal.check_eq]
    rfl
  | @member r f k v w ms ns hf hk hfree h ih =>
    have hkeys : (ms ++ (k, v) :: ns).map (·.1) = (ms ++ (k, w) :: ns).map (·.1) := by simp
    rw [check, check, Record.checkMembers_split (Record.field?_of_names hf hk hfree),
      Record.checkMembers_split (Record.field?_of_names hf hk hfree), hkeys,
      Field.checkMember_of_imp_ne fun _ => h.ne_null.1,
      Field.checkMember_of_imp_ne fun _ => h.ne_null.2]
    rcases ih with heq | ⟨hv, hw⟩
    · exact Or.inl (by rw [heq])
    · exact Or.inr (by simp [Record.assemble, hv, hw])
  | @item item v w vs ws h ih =>
    rw [check, check, checkItems_append, checkItems_append, checkItems, checkItems]
    rcases ih with heq | ⟨hv, hw⟩
    · exact Or.inl (by rw [heq])
    · exact Or.inr (by simp [hv, hw])
  | @entry item k v w ms ns h ih =>
    rw [check, check, checkEntries_append, checkEntries_append, checkEntries, checkEntries]
    rcases ih with heq | ⟨hv, hw⟩
    · exact Or.inl (by rw [heq])
    · exact Or.inr (by simp [hv, hw])

/-! ### One pass is enough -/

theorem Shape.validateWith_eq_ok_iff : s.validateWith l d = .ok v ↔ s.check l d = ⟨v, []⟩ := by
  unfold validateWith
  rcases s.check l d with ⟨value, issues⟩
  cases issues with
  | nil => simp
  | cons i is => simp

theorem Checked.Agrees.eq_iff {α : Type} {c c' : Checked α} {a : α} (h : c.Agrees c') :
    c = ⟨a, []⟩ ↔ c' = ⟨a, []⟩ := by
  rcases h with rfl | ⟨hc, hc'⟩
  · rfl
  · constructor
    · rintro rfl
      exact absurd rfl hc
    · rintro rfl
      exact absurd rfl hc'

/-- **Restated as often as one likes**, back and forth, a value is accepted or not as before, with
the same normal form. -/
theorem Shape.validateWith_eq_ok_iff_of_eqvGen (h : Relation.EqvGen s.Restates d e) :
    s.validateWith l d = .ok v ↔ s.validateWith l e = .ok v := by
  induction h with
  | rel d e h => rw [validateWith_eq_ok_iff, validateWith_eq_ok_iff, (h.agrees l).eq_iff]
  | refl d => rfl
  | symm d e h ih => exact ih.symm
  | trans d e d' h h' ih ih' => exact ih.trans ih'

namespace Record

/-- **One pass is enough.** What comes out of validation is in normal form: every field under its
key, in order, with what was left out filled in and no `null` anywhere. It is accepted again and
comes out the same; and so it does for every restatement of the value that went in. -/
theorem validateWith_stable (l : Leniency) (r : Record) {d v : Json}
    (h : (Shape.record r).validateWith l d = .ok v) :
    (Shape.record r).Normal v ∧ (Shape.record r).validateWith l v = .ok v ∧
      ∀ e, Relation.EqvGen (Shape.record r).Restates d e →
        (Shape.record r).validateWith l e = .ok v := by
  have hcheck : (Shape.record r).check l d = ⟨v, []⟩ := Shape.validateWith_eq_ok_iff.mp h
  have hnormal : (Shape.record r).Normal v := by
    have hv := Shape.normal_check l d (.record r)
    rw [hcheck] at hv
    exact hv rfl
  exact ⟨hnormal, hnormal.validateWith_eq l,
    fun e he => (Shape.validateWith_eq_ok_iff_of_eqvGen he).mp h⟩

end Record

/-- Zero and one stand for the truth values, and the truth values for them. -/
def Leniency.binary : Leniency where
  whole?
    | .int n => some n
    | .bool b => some (if b then 1 else 0)
    | _ => none
  truth?
    | .bool b => some b
    | .int 0 => some false
    | .int 1 => some true
    | _ => none
  whole?_int _ := rfl
  truth?_bool _ := rfl

/-- A node with a null, with fields under their second names, and with tables left out. -/
def looseNode : Json := .obj [
  ("self_closing", .int 1), ("name", .null), ("type", .str "element"),
  ("attributes", .obj [("all", .arr [
    .obj [("is_directive", .bool true), ("directive", .null), ("value", .str "b"),
      ("name", .str "a")]])])]

/-- The same node in normal form. -/
def tidyNode : Json := .obj [
  ("type", .str "element"),
  ("attributes", .obj [("props", .obj []), ("directives", .obj []), ("all", .arr [
    .obj [("name", .str "a"), ("value", .str "b"), ("isDirective", .bool true)]])]),
  ("selfClosing", .bool true)]

theorem Record.validateWith_stable_loose :
    (Shape.record .node).validateWith .binary looseNode = .ok tidyNode ∧
      (Shape.record .node).Normal tidyNode ∧
      (Shape.record .node).validateWith .binary tidyNode = .ok tidyNode ∧
      ∀ e, Relation.EqvGen (Shape.record .node).Restates looseNode e →
        (Shape.record .node).validateWith .binary e = .ok tidyNode := by
  have h : (Shape.record .node).validateWith .binary looseNode = .ok tidyNode := rfl
  exact ⟨h, validateWith_stable .binary .node h⟩

end MiniTemplate
