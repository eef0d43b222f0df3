import Mathlib.Data.List.Infix
import MiniTemplate.Text.Split

/-!
# What stands before a mark

`MiniTemplate.Text.before` cuts a text at the first occurrence of a mark. Here it is said what
that means: the mark does not occur in what stands before it, and if it was found, it
follows there; it is found whenever it occurs (`MiniTemplate.Text.occurs_iff`). For the mark that ends a comment the converse holds too
(`MiniTemplate.Text.before_append_commentEnd`): no part of `-->` is also a beginning of it, so
a text without the mark, followed by the mark, has it first where it was put.
-/

namespace MiniTemplate.Text

variable {mark t : List Char}

theorem before_cons_of_found {c : Char} (h : mark <+: c :: t) :
    before mark (c :: t) = ([], true) := by
  rw [before, if_pos (List.isPrefixOf_iff_prefix.mpr h)]

theorem before_cons_of_skipped {c : Char} (h : ¬mark <+: c :: t) :
    before mark (c :: t) = (c :: (before mark t).1, (before mark t).2) := by
  rw [before, if_neg (fun hp => h (List.isPrefixOf_iff_prefix.mp hp))]

theorem prefix_before (mark t : List Char) : (before mark t).1 <+: t := by
  induction t with
  | nil => exact List.nil_prefix
  | cons c t ih =>
    by_cases h : mark <+: c :: t
    · rw [before_cons_of_found h]
      exact List.nil_prefix
    · rw [before_cons_of_skipped h]
      exact List.cons_prefix_cons.mpr ⟨rfl, ih⟩

/-- **The mark does not occur before its first occurrence.** -/
theorem not_infix_before (hm : mark ≠ []) (t : List Char) : ¬mark <:+: (before mark t).1 := by
  induction t with
  | nil => simpa [before] using hm
  | cons c t ih =>
    by_cases h : mark <+: c :: t
    · rw [before_cons_of_found h]
      simpa using hm
    · rw [before_cons_of_skipped h]
      intro hin
      rcases List.infix_cons_iff.mp hin with hp | hin
      · exact h (hp.trans (List.cons_prefix_cons.mpr ⟨rfl, prefix_before mark t⟩))
      · exact ih hin

/-- A mark that was found follows what stands before it. -/
theorem before_found (h : (before mark t).2) : ∃ r, t = (before mark t).1 ++ mark ++ r := by
  induction t with
  | nil =>
    have hm : mark = [] := by simpa [before] using h
    exact ⟨[], by simp [before, hm]⟩
  | cons c t ih =>
    by_cases hp : mark <+: c :: t
    · rw [before_cons_of_found hp]
      obtain ⟨r, hr⟩ := hp
      exact ⟨r, hr.symm⟩
    · rw [before_cons_of_skipped hp] at h ⊢
      obtain ⟨r, hr⟩ := ih h
      refine ⟨r, ?_⟩
      rw [List.cons_append, List.cons_append, ← hr]

/-- Where no mark was found, everything stands before it. -/
theorem before_missed (h : (before mark t).2 = false) : (before mark t).1 = t := by
  induction t with
  | nil => rfl
  | cons c t ih =>
    by_cases hp : mark <+: c :: t
    · rw [before_cons_of_found hp] at h
      exact absurd h (by simp)
    · rw [before_cons_of_skipped hp] at h ⊢
      rw [ih h]

theorem before_of_not_infix (h : ¬mark <:+: t) : before mark t = (t, false) := by
  have hf : (before mark t).2 = false := by
    by_contra hf
    obtain ⟨r, hr⟩ := before_found (by simpa using hf)
    exact h ⟨(before mark t).1, r, hr.symm⟩
  exact Prod.ext (before_missed hf) hf

/-- **A mark occurs** where it stands between two parts of the text. -/
theorem occurs_iff : occurs mark t ↔ mark <:+: t := by
  constructor
  · intro h
    obtain ⟨r, hr⟩ := before_found h
    exact ⟨(before mark t).1, r, hr.symm⟩
  · intro h
    induction t with
    | nil => simpa [occurs, before] using h
    | cons c t ih =>
      by_cases hp : mark <+: c :: t
      · rw [occurs, before_cons_of_found hp]
      · rw [occurs, before_cons_of_skipped hp]
        exact ih ((List.infix_cons_iff.mp h).resolve_left hp)

theorem before_append_commentEnd {w : List Char} (h : ¬"-->".toList <:+: w) (r : List Char) :
    before "-->".toList (w ++ "-->".toList ++ r) = (w, true) := by
  induction w with
  | nil => exact before_cons_of_found ⟨r, rfl⟩
  | cons c w ih =>
    have hp : ¬"-->".toList <+: c :: (w ++ "-->".toList ++ r) := by
      intro hp
      -- the mark would end inside `w`, or its `>` would be one of the dashes behind `w`
      match w with
      | [] => simp at hp
      | [d] => simp at hp
      | d :: e :: w =>
        have hp : "-->".toList <+: c :: d :: e :: w := by simpa using hp
        exact h hp.isInfix
    have hin : ¬"-->".toList <:+: w := fun hin => h (List.infix_cons hin)
    rw [List.cons_append, List.cons_append, before_cons_of_skipped hp, ih hin]

end MiniTemplate.Text
