import Mathlib.Data.List.Find
import Mathlib.Data.List.Nodup
import MiniTemplate.Proofs.Tree
import MiniTemplate.Report

/-!
# A report has the shape of reports

A report is validated before it is given out, and that can never fail: everything that is said of
a node has the shape that is asked for, whatever forest it is in and however it was made. Nor does
validation change a report (`MiniTemplate.Report.make_eq_ok`).

The values that validation does not change are in *normal form*, `MiniTemplate.Shape.Normal`. For a
list or a table this comes down to the items. A record in normal form has its members in the order
of its fields, each under its key, and only such fields are left out as may be missing
(`MiniTemplate.Record.Listed`); there is no `null` in it at all. Normal forms do not depend on how
leniently scalars are read.
-/

namespace MiniTemplate

/-- **The keys of a record in normal form**: those of the fields, in order, less some that may be
missing. -/
inductive Record.Listed : List Field → List String → Prop
  | nil : Listed [] []
  | given {f : Field} {fs : List Field} {keys : List String} (h : Listed fs keys) :
    Listed (f :: fs) (f.key :: keys)
  | left {f : Field} {fs : List Field} {keys : List String} (habsence : f.absence = .allowed)
    (h : Listed fs keys) : Listed (f :: fs) keys

/-- **A value in normal form.** -/
inductive Shape.Normal : Shape → Json → Prop
  | text (s : String) : Normal .text (.str s)
  | whole (n : Int) : Normal .whole (.int n)
  | truth (b : Bool) : Normal .truth (.bool b)
  | word {words : List String} {s : String} (h : s ∈ words) : Normal (.word words) (.str s)
  | list {item : Shape} {vs : List Json} (h : ∀ v ∈ vs, Normal item v) :
    Normal (.list item) (.arr vs)
  | table {item : Shape} {ms : List (String × Json)} (h : ∀ m ∈ ms, Normal item m.2) :
    Normal (.table item) (.obj ms)
  | record {r : Record} {ms : List (String × Json)} (hkeys : Record.Listed r.fields (ms.map (·.1)))
    (hvalues : ∀ m ∈ ms, ∀ f ∈ r.fields, f.key = m.1 → Normal f.shape m.2) :
    Normal (.record r) (.obj ms)

variable {l : Leniency}

namespace Shape

variable {item : Shape} {s : Shape} {v : Json}

theorem Normal.ne_null (h : s.Normal v) : v ≠ .null := by
  cases h <;> nofun

theorem Normal.strings (ss : List String) : (Shape.list .text).Normal (.strings ss) := by
  refine .list fun v hv => ?_
  obtain ⟨s, -, rfl⟩ := List.mem_map.mp hv
  exact .text s

theorem checkItems_of_unchanged {vs : List Json} (h : ∀ v ∈ vs, item.check l v = ⟨v, []⟩)
    (i : Nat) : checkItems l item i vs = ⟨vs, []⟩ := by
  induction vs generalizing i with
  | nil => rfl
  | cons v vs ih =>
    have hvs := ih (fun w hw => h w (List.mem_cons_of_mem v hw)) (i + 1)
    rw [checkItems, h v List.mem_cons_self, hvs]
    rfl

theorem checkEntries_of_unchanged {ms : List (String × Json)}
    (h : ∀ m ∈ ms, item.check l m.2 = ⟨m.2, []⟩) : checkEntries l item ms = ⟨ms, []⟩ := by
  induction ms with
  | nil => rfl
  | cons m ms ih =>
    obtain ⟨k, v⟩ := m
    have hms := ih fun n hn => h n (List.mem_cons_of_mem _ hn)
    rw [checkEntries, h (k, v) List.mem_cons_self, hms]
    rfl

end Shape

/-! ### Records -/

namespace Record

theorem nodup_keys (r : Record) : (r.fields.map Field.key).Nodup := by
  cases r <;> decide

/-- No key is the second name of a field. -/
theorem alternative_ne_key (r : Record) :
    ∀ f ∈ r.fields, ∀ g ∈ r.fields, f.alternative ≠ some g.key := by
  cases r <;> decide

theorem find?_key {f : Field} {fs : List Field} (hnodup : (fs.map Field.key).Nodup)
    (hf : f ∈ fs) : fs.find? (fun g => g.key == f.key) = some f := by
  induction fs with
  | nil => exact absurd hf List.not_mem_nil
  | cons g fs ih =>
    obtain ⟨hg, hnodup⟩ := List.nodup_cons.mp hnodup
    rcases List.mem_cons.mp hf with rfl | hf
    · simp
    · have hne : g.key ≠ f.key := fun h => hg (h ▸ List.mem_map_of_mem hf)
      rw [List.find?_cons_of_neg (by simpa using hne), ih hnodup hf]

/-- **A field is found by its key**, whatever else is given. -/
theorem field?_key (r : Record) (keys : List String) {f : Field} (hf : f ∈ r.fields) :
    r.field? keys f.key = some f := by
  rw [field?, ← find?_key r.nodup_keys hf]
  refine List.find?_congr fun g hg => ?_
  have hne : (g.alternative == some f.key) = false :=
    beq_eq_false_iff_ne.mpr (r.alternative_ne_key g hg f hf)
  rw [hne, Bool.false_and, Bool.or_false]

variable {r : Record} {fs : List Field} {ms : List (String × Json)} {keys : List String}

theorem Listed.subset (h : Listed fs keys) : keys ⊆ fs.map Field.key := by
  induction h with
  | nil => exact List.Subset.refl _
  | given h ih => exact List.cons_subset_cons _ ih
  | left habsence h ih => exact List.subset_cons_of_subset _ ih

/-- Members that stand under their keys, and that their fields leave as they are, come out as they
are. -/
theorem checkMembers_of_unchanged
    (h : ∀ m ∈ ms, ∃ f ∈ r.fields, f.key = m.1 ∧ m.2 ≠ .null ∧ f.shape.check l m.2 = ⟨m.2, []⟩) :
    checkMembers l r keys ms = ⟨ms.map fun m => (m.1, some m.2), []⟩ := by
  induction ms with
  | nil => rfl
  | cons m ms ih =>
    obtain ⟨k, v⟩ := m
    obtain ⟨f, hf, rfl, hnull, hcheck⟩ := h (k, v) List.mem_cons_self
    have hmore := ih fun n hn => h n (List.mem_cons_of_mem _ hn)
    rw [checkMembers, field?_key r keys hf, hmore]
    dsimp only
    split
    · exact absurd rfl hnull
    · rw [hcheck]
      rfl

/-- What is given under another key does not matter to a field. -/
theorem assemble_cons_of_ne {f : Field} {k : String} (hne : k ≠ f.key) (v : Option Json)
    (given : List (String × Option Json)) :
    f.assemble ((k, v) :: given) = f.assemble given := by
  rw [Field.assemble, List.find?_cons_of_neg (by simpa using hne)]
  rfl

/-- The fields put together are the members again. -/
theorem Listed.assemble_eq (h : Listed fs (ms.map (·.1))) (hnodup : (fs.map Field.key).Nodup) :
    (fs.map fun f => f.assemble (ms.map fun m => (m.1, some m.2))).flatMap (·.value) = ms ∧
      (fs.map fun f => f.assemble (ms.map fun m => (m.1, some m.2))).flatMap (·.issues) = [] := by
  generalize hkeys : ms.map (·.1) = keys at h
  induction h generalizing ms with
  | nil =>
    obtain rfl := List.map_eq_nil_iff.mp hkeys
    exact ⟨rfl, rfl⟩
  | @given f fs keys h ih =>
    obtain ⟨⟨k, v⟩, ms, rfl, rfl, hmore⟩ := List.map_eq_cons_iff.mp hkeys
    obtain ⟨hf, hnodup⟩ := List.nodup_cons.mp hnodup
    have hfirst : f.assemble (((f.key, v) :: ms).map fun m => (m.1, some m.2)) =
        ⟨[(f.key, v)], []⟩ := by simp [Field.assemble]
    have hothers : (fs.map fun g => g.assemble (((f.key, v) :: ms).map fun m => (m.1, some m.2))) =
        fs.map fun g => g.assemble (ms.map fun m => (m.1, some m.2)) := by
      refine List.map_congr_left fun g hg => assemble_cons_of_ne ?_ _ _
      intro hkey
      exact hf (List.mem_map.mpr ⟨g, hg, hkey.symm⟩)
    rw [List.map_cons, List.flatMap_cons, List.flatMap_cons, hfirst, hothers,
      (ih hnodup hmore).1, (ih hnodup hmore).2]
    exact ⟨rfl, rfl⟩
  | @left f fs keys habsence h ih =>
    obtain ⟨hf, hnodup⟩ := List.nodup_cons.mp hnodup
    have hnone : (ms.map fun m => (m.1, some m.2)).find? (fun g => g.1 == f.key) = none := by
      rw [List.find?_eq_none]
      intro g hg
      obtain ⟨m, hm, rfl⟩ := List.mem_map.mp hg
      rw [beq_iff_eq]
      intro hkey
      exact hf (hkey ▸ h.subset (hkeys ▸ List.mem_map_of_mem hm))
    have hfirst : f.assemble (ms.map fun m => (m.1, some m.2)) = ⟨[], []⟩ := by
      rw [Field.assemble, hnone, habsence]
    rw [List.map_cons, List.flatMap_cons, List.flatMap_cons, hfirst, (ih hnodup hkeys).1,
      (ih hnodup hkeys).2]
    exact ⟨rfl, rfl⟩

end Record

/-- **A value in normal form is left as it is**, and nothing is found wrong with it. -/
theorem Shape.Normal.check_eq {s : Shape} {v : Json} (h : s.Normal v) (l : Leniency) :
    s.check l v = ⟨v, []⟩ := by
  induction h with
  | text s => rfl
  | whole n => simp [check, checkScalar, scalar?, l.whole?_int]
  | truth b => simp [check, checkScalar, scalar?, l.truth?_bool]
  | word h => simp [check, checkScalar, scalar?, h]
  | list h ih => rw [check, checkItems_of_unchanged ih]
  | table h ih => rw [check, checkEntries_of_unchanged ih]
  | @record r ms hkeys hvalues ih =>
    have hmembers : checkMembers l r (ms.map (·.1)) ms =
        ⟨ms.map fun m => (m.1, some m.2), []⟩ := by
      refine Record.checkMembers_of_unchanged fun m hm => ?_
      obtain ⟨f, hf, hkey⟩ := List.mem_map.mp (hkeys.subset (List.mem_map_of_mem hm))
      exact ⟨f, hf, hkey, (hvalues m hm f hf hkey).ne_null, ih m hm f hf hkey⟩
    obtain ⟨hvalue, hissues⟩ := hkeys.assemble_eq r.nodup_keys
    rw [check, hmembers, Record.assemble]
    dsimp only
    rw [hvalue, hissues]
    rfl

theorem Shape.Normal.validateWith_eq {s : Shape} {v : Json} (h : s.Normal v) (l : Leniency) :
    s.validateWith l v = .ok v := by
  rw [validateWith, h.check_eq]
  rfl

namespace Record

/-- **The members fill the fields**: each field in its turn is given by a value in normal form, or
left out if it may be. -/
inductive Filled : List Field → List (String × Json) → Prop
  | nil : Filled [] []
  | given {f : Field} {fs : List Field} {v : Json} {ms : List (String × Json)}
    (hv : f.shape.Normal v) (h : Filled fs ms) : Filled (f :: fs) ((f.key, v) :: ms)
  | left {f : Field} {fs : List Field} {ms : List (String × Json)}
    (habsence : f.absence = .allowed) (h : Filled fs ms) : Filled (f :: fs) ms

variable {r : Record} {fs : List Field} {ms : List (String × Json)}

theorem Filled.listed (h : Filled fs ms) : Listed fs (ms.map (·.1)) := by
  induction h with
  | nil => exact .nil
  | given hv h ih => exact .given ih
  | left habsence h ih => exact .left habsence ih

theorem Filled.normal_value (h : Filled fs ms) (hnodup : (fs.map Field.key).Nodup) :
    ∀ m ∈ ms, ∀ f ∈ fs, f.key = m.1 → f.shape.Normal m.2 := by
  induction h with
  | nil => exact fun m hm => absurd hm List.not_mem_nil
  | @given g fs v ms hv h ih =>
    obtain ⟨hg, hnodup⟩ := List.nodup_cons.mp hnodup
    intro m hm f hf hkey
    rcases List.mem_cons.mp hm with rfl | hmore
    · rcases List.mem_cons.mp hf with rfl | hf
      · exact hv
      · exact absurd (List.mem_map.mpr ⟨f, hf, hkey⟩) hg
    · rcases List.mem_cons.mp hf with rfl | hf
      · exact absurd (hkey ▸ h.listed.subset (List.mem_map_of_mem hmore)) hg
      · exact ih hnodup m hmore f hf hkey
  | @left g fs ms habsence h ih =>
    obtain ⟨hg, hnodup⟩ := List.nodup_cons.mp hnodup
    intro m hm f hf hkey
    rcases List.mem_cons.mp hf with rfl | hf
    · exact absurd (hkey ▸ h.listed.subset (List.mem_map_of_mem hm)) hg
    · exact ih hnodup m hm f hf hkey

/-- **A record is in normal form** if its members fill its fields. -/
theorem Filled.normal (h : Filled r.fields ms) : (Shape.record r).Normal (.obj ms) :=
  .record h.listed (h.normal_value r.nodup_keys)

end Record

/-! ### What is said of a template -/

open Shape Record

theorem Span.normal_toJson (s : Span) : (Shape.record .span).Normal s.toJson :=
  Filled.normal (.given (.whole _) (.given (.whole _) (.given (.whole _) (.given (.whole _) .nil))))

namespace Directive

theorem normal_toJson (d : Directive) : (Shape.record .directive).Normal d.toJson :=
  Filled.normal (.given (.text _) (.given (.text _) (.given (.strings _) .nil)))

theorem normal_valueJson (d : Directive) : (Shape.record .directiveValue).Normal d.valueJson :=
  Filled.normal (.given (.text _) (.given (.strings _) .nil))

end Directive

namespace Attribute

theorem normal_toJson (a : Attribute) : (Shape.record .attribute).Normal a.toJson := by
  have hdirective : Filled [.optional "directive" (.record .directive)]
      (a.directive.toList.map fun d => ("directive", d.toJson)) := by
    cases a.directive with
    | none => exact .left rfl .nil
    | some d => exact .given d.normal_toJson .nil
  exact Filled.normal (.given (.text _) (.given (.text _) (.given (.truth _) hdirective)))

theorem normal_listJson (as : List Attribute) :
    (Shape.record .attributes).Normal (listJson as) := by
  have hprops : (Shape.table .text).Normal
      (.obj ((props as).entries.map fun e => (e.1, .str e.2))) := by
    refine .table fun m hm => ?_
    obtain ⟨e, -, rfl⟩ := List.mem_map.mp hm
    exact .text e.2
  have hdirectives : (Shape.table (.record .directiveValue)).Normal
      (.obj ((directives as).entries.map fun e => (e.1, e.2.valueJson))) := by
    refine .table fun m hm => ?_
    obtain ⟨e, -, rfl⟩ := List.mem_map.mp hm
    exact e.2.normal_valueJson
  have hall : (Shape.list (.record .attribute)).Normal (.arr (as.map toJson)) := by
    refine .list fun v hv => ?_
    obtain ⟨a, -, rfl⟩ := List.mem_map.mp hv
    exact a.normal_toJson
  exact Filled.normal (.given hprops (.given hdirectives (.given hall .nil)))

end Attribute

namespace Node

theorem filled_positionMember (span : Option Span) :
    Filled [.optional "position" (.record .span)] (positionMember span) := by
  cases span with
  | none => exact .left rfl .nil
  | some s => exact .given s.normal_toJson .nil

/-- The nodes of a forest are all in normal form, since children have the same shape. -/
theorem normal_toJson (f : List Node) :
    ∀ v ∈ listJson f, (Shape.record .node).Normal v := by
  induction f using forest_induction with
  | nil => simp [listJson]
  | text content span ns ih =>
    intro v hv
    rcases List.mem_cons.mp hv with rfl | hv
    · exact Filled.normal (.given (.word (by decide)) (.left rfl (.left rfl (.left rfl (.left rfl
        (.given (.text _) (filled_positionMember span)))))))
    · exact ih v hv
  | comment content span ns ih =>
    intro v hv
    rcases List.mem_cons.mp hv with rfl | hv
    · exact Filled.normal (.given (.word (by decide)) (.left rfl (.left rfl (.left rfl (.left rfl
        (.given (.text _) (filled_positionMember span)))))))
    · exact ih v hv
  | element name as children selfClosing span ns ihc ihn =>
    intro v hv
    rcases List.mem_cons.mp hv with rfl | hv
    · exact Filled.normal (.given (.word (by decide)) (.given (.text _)
        (.given (Attribute.normal_listJson as) (.given (.list ihc) (.given (.truth _)
          (.left rfl (filled_positionMember span)))))))
    · exact ihn v hv

theorem listJson_eq_map (f : List Node) : listJson f = f.map toJson := by
  induction f with
  | nil => rfl
  | cons n ns ih => rw [listJson, ih, List.map_cons]

end Node

namespace Report

/-- **A report is in normal form as it is put together**, of every forest and all texts. -/
theorem normal_draft (version : String) (f : Forest) (errors warnings : List String) :
    (Shape.record .report).Normal (draft version f errors warnings) :=
  Filled.normal (.given (.text _) (.given (.truth _) (.given (.list (Node.normal_toJson f))
    (.given (.strings _) (.given (.strings _) .nil)))))

theorem ofTemplate_eq_draft (version : String) (t : Template) :
    ofTemplate version t = .ok (draft version t.forest t.errors t.warnings) :=
  (normal_draft version t.forest t.errors t.warnings).validateWith_eq .strict

/-- **A report is never refused, and says what it was made of**: the version, whether there are no
errors, each node as it is, and all texts. Validation adds nothing, drops nothing and renames
nothing, at any depth and however leniently scalars are read. -/
theorem make_eq_ok (l : Leniency) (version : String) (f : Forest) (errors warnings : List String) :
    make l version f errors warnings = .ok (.obj [
      ("version", .str version),
      ("ok", .bool (decide (errors = []))),
      ("tree", .arr (f.map Node.toJson)),
      ("errors", .arr (errors.map .str)),
      ("warnings", .arr (warnings.map .str))]) := by
  have hok : decide (errors = []) = errors.isEmpty := by cases errors <;> rfl
  rw [make, (normal_draft version f errors warnings).validateWith_eq, draft, Node.listJson_eq_map,
    hok]
  rfl

end Report

end MiniTemplate
