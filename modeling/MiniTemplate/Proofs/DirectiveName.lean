import Mathlib.Data.List.Infix
import Mathlib.Data.List.TakeWhile
import MiniTemplate.Directive

/-!
# Which name a directive has

The name of a directive is taken from a written name in two steps: what stands behind the first
dot is a modifier, and the colon of `bind:` and `catch:` is dropped. Both steps only ever make a
name shorter. So the written name is the directive's own name exactly if neither step does
anything (`MiniTemplate.Directive.ofWritten_eq_iff`); such a name is called *bare*.

Neither step changes how a name begins. So a directive that is no event's has its bare name, and
that name with modifiers behind it, as its only spellings
(`MiniTemplate.Directive.name_ofWritten_eq_iff`). And the mark that makes a name that of a directive
is never lost (`MiniTemplate.Directive.isName_ownName`).
-/

namespace MiniTemplate

namespace Text

variable {sep : Char} {cs : List Char}

/-- The first piece goes to the first separator. -/
theorem split_fst (sep : Char) (cs : List Char) :
    (split sep cs).1 = cs.takeWhile (· != sep) := by
  induction cs with
  | nil => rfl
  | cons c cs ih =>
    rw [split]
    by_cases hc : c = sep
    · simp [hc]
    · simp [hc, ih]

theorem split_snd_eq_nil_iff : (split sep cs).2 = [] ↔ sep ∉ cs := by
  induction cs with
  | nil => simp [split]
  | cons c cs ih =>
    rw [split]
    by_cases hc : c = sep
    · simp [hc]
    · simp [hc, Ne.symm hc, ih]

/-- A text whose first piece is known is that piece, or goes on with the separator. -/
theorem takeWhile_eq_iff {w : List Char} (hw : sep ∉ w) :
    cs.takeWhile (· != sep) = w ↔ cs = w ∨ w ++ [sep] <+: cs := by
  have hall : ∀ c ∈ w, (c != sep) = true := by
    intro c hc
    rw [bne_iff_ne]
    rintro rfl
    exact hw hc
  constructor
  · rintro rfl
    cases hrest : cs.dropWhile (· != sep) with
    | nil => exact Or.inl (List.takeWhile_eq_self_iff.mpr (List.dropWhile_eq_nil_iff.mp hrest)).symm
    | cons c t =>
      obtain rfl : c = sep := by
        simpa [hrest] using List.head_dropWhile_not (· != sep) (l := cs) (by simp [hrest])
      refine Or.inr ⟨t, ?_⟩
      rw [List.append_assoc, List.singleton_append, ← hrest, List.takeWhile_append_dropWhile]
  · rintro (rfl | ⟨t, rfl⟩)
    · exact List.takeWhile_eq_self_iff.mpr hall
    · rw [List.append_assoc, List.takeWhile_append_of_pos hall]
      simp

theorem split_of_not_mem (h : sep ∉ cs) : split sep cs = (cs, []) := by
  refine Prod.ext ?_ (split_snd_eq_nil_iff.mpr h)
  rw [split_fst]
  exact (takeWhile_eq_iff h).mpr (Or.inl rfl)

end Text

namespace Directive

variable {word cs : List Char}

/-! ### Names without a colon -/

theorem length_dropColon_le (word cs : List Char) : (dropColon word cs).length ≤ cs.length := by
  rw [dropColon]
  split
  · rename_i h
    obtain ⟨t, rfl⟩ := List.isPrefixOf_iff_prefix.mp h
    simp
  · exact le_rfl

theorem dropColon_eq_self_iff : dropColon word cs = cs ↔ ¬word ++ [':'] <+: cs := by
  rw [dropColon]
  split
  · rename_i h
    rw [List.isPrefixOf_iff_prefix] at h
    refine iff_of_false (fun heq => ?_) (not_not_intro h)
    obtain ⟨t, rfl⟩ := h
    exact absurd (congrArg List.length heq) (by simp)
  · rename_i h
    rw [List.isPrefixOf_iff_prefix] at h
    exact iff_of_true rfl h

theorem head?_dropColon (hword : word ≠ []) (cs : List Char) :
    (dropColon word cs).head? = cs.head? := by
  rw [dropColon]
  split
  · rename_i h
    obtain ⟨t, rfl⟩ := List.isPrefixOf_iff_prefix.mp h
    obtain ⟨c, w, rfl⟩ := List.exists_cons_of_ne_nil hword
    rfl
  · rfl

/-- The spelling without a colon is the same exactly if there is no colon to drop. -/
theorem plainSpelling_eq_self_iff :
    plainSpelling cs = cs ↔ ¬"bind:".toList <+: cs ∧ ¬"catch:".toList <+: cs := by
  constructor
  · intro h
    -- the second step cannot make up for what the first one drops
    have hbind : dropColon "bind".toList cs = cs := by
      by_contra hne
      have hbinds := not_not.mp (mt dropColon_eq_self_iff.mpr hne)
      have hle := length_dropColon_le "catch".toList (dropColon "bind".toList cs)
      rw [← plainSpelling, h, dropColon, if_pos (List.isPrefixOf_iff_prefix.mpr hbinds)] at hle
      obtain ⟨t, rfl⟩ := hbinds
      simp only [List.length_append, List.length_drop, List.length_singleton] at hle
      omega
    rw [plainSpelling, hbind] at h
    exact ⟨dropColon_eq_self_iff.mp hbind, dropColon_eq_self_iff.mp h⟩
  · rintro ⟨hbind, hcatch⟩
    have hfirst : dropColon "bind".toList cs = cs := dropColon_eq_self_iff.mpr hbind
    rw [plainSpelling, hfirst]
    exact dropColon_eq_self_iff.mpr hcatch

@[simp] theorem head?_plainSpelling (cs : List Char) : (plainSpelling cs).head? = cs.head? := by
  rw [plainSpelling, head?_dropColon (by simp), head?_dropColon (by simp)]

/-- What does not begin like an event has no colon to drop. -/
theorem plainSpelling_of_head (hb : cs.head? ≠ some 'b') (hc : cs.head? ≠ some 'c') :
    plainSpelling cs = cs := by
  refine plainSpelling_eq_self_iff.mpr ⟨?_, ?_⟩
  · rintro ⟨t, rfl⟩
    exact hb rfl
  · rintro ⟨t, rfl⟩
    exact hc rfl

/-! ### Bare names -/

/-- **A bare name**: no modifier behind it, and no colon behind the word that binds an event. -/
def Bare (name : String) : Prop :=
  '.' ∉ name.toList ∧ ¬"bind:".toList <+: name.toList ∧ ¬"catch:".toList <+: name.toList

instance : DecidablePred Bare := fun _ => inferInstanceAs (Decidable (_ ∧ _ ∧ _))

/-- **A written name is its directive's own** exactly if it is bare. -/
theorem ofWritten_eq_iff (name value : String) :
    ofWritten name value = ⟨name, value, []⟩ ↔ Bare name := by
  rw [ofWritten, Directive.mk.injEq, List.map_eq_nil_iff, Text.split_snd_eq_nil_iff]
  constructor
  · rintro ⟨hname, -, hdot⟩
    rw [Text.split_of_not_mem hdot] at hname
    refine ⟨hdot, plainSpelling_eq_self_iff.mp ?_⟩
    simpa using congrArg String.toList hname
  · rintro ⟨hdot, hcolon⟩
    rw [Text.split_of_not_mem hdot, plainSpelling_eq_self_iff.mpr hcolon, String.ofList_toList]
    exact ⟨rfl, rfl, hdot⟩

/-- **The spellings of a directive** that is no event's: its name, with modifiers or without. -/
theorem name_ofWritten_eq_iff {own : String} (hb : own.toList.head? ≠ some 'b')
    (hc : own.toList.head? ≠ some 'c') (hdot : '.' ∉ own.toList) (name value : String) :
    (ofWritten name value).name = own ↔ name = own ∨ own.toList ++ ['.'] <+: name.toList := by
  have hplain : ∀ base, plainSpelling base = own.toList ↔ base = own.toList := by
    intro base
    constructor
    · intro h
      rw [← h, head?_plainSpelling] at hb hc
      rwa [plainSpelling_of_head hb hc] at h
    · rintro rfl
      exact plainSpelling_of_head hb hc
  rw [ofWritten, ← String.toList_inj, String.toList_ofList, hplain, Text.split_fst,
    Text.takeWhile_eq_iff hdot, String.toList_inj]

/-! ### Names and marks -/

/-- **The directive's own name** under a written one: without its modifiers, and without the colon
of an event. -/
def ownName (name : String) : String :=
  String.ofList (plainSpelling (Text.split '.' name.toList).1)

theorem name_ofWritten (name value : String) : (ofWritten name value).name = ownName name := rfl

/-- Does a text begin with one of the marks of directives? -/
def Marked (cs : List Char) : Prop := ∃ mark ∈ marks, mark.toList <+: cs

theorem isName_iff {name : String} : isName name ↔ Marked name.toList := by
  simp [isName, Marked]

/-- Dropping the colon behind a mark leaves the mark. -/
theorem marked_dropColon {word : String} (hword : word ∈ marks) (cs : List Char) :
    Marked (dropColon word.toList cs) ↔ Marked cs := by
  rw [dropColon]
  split
  · rename_i h
    have hbegins := (List.prefix_append word.toList [':']).trans (List.isPrefixOf_iff_prefix.mp h)
    exact iff_of_true ⟨word, hword, List.prefix_append _ _⟩ ⟨word, hword, hbegins⟩
  · rfl

/-- Leaving out the modifiers leaves the mark, since no mark has a dot. -/
theorem marked_takeWhile (cs : List Char) : Marked (cs.takeWhile (· != '.')) ↔ Marked cs := by
  have hdot : ∀ mark ∈ marks, ∀ c ∈ mark.toList, (c != '.') = true := by simp [marks]
  constructor
  · rintro ⟨mark, hmark, h⟩
    exact ⟨mark, hmark, h.trans (List.takeWhile_prefix _)⟩
  · rintro ⟨mark, hmark, t, rfl⟩
    rw [List.takeWhile_append_of_pos (hdot mark hmark)]
    exact ⟨mark, hmark, List.prefix_append _ _⟩

/-- **The own name of a directive is again the name of one**, and no other name has such an own
name. -/
theorem isName_ownName (name : String) : isName (ownName name) = isName name := by
  rw [Bool.eq_iff_iff, isName_iff, isName_iff, ownName, String.toList_ofList, plainSpelling,
    marked_dropColon (by decide), marked_dropColon (by decide), Text.split_fst, marked_takeWhile]

end Directive

end MiniTemplate
