import MiniTemplate.Proofs.Mark
import MiniTemplate.Proofs.Trim
import MiniTemplate.Vue.Expression

/-!
# Unwrapping an expression

A value loses its braces if it is one expression between them, that is, if no other pair of
braces stands between the two (`MiniTemplate.Vue.Braced`). The pairs at its ends are made of
different characters, so they do not overlap (`MiniTemplate.Vue.marks_iff`), and a brace
next to them belongs to what is between them: `{a}` comes out of `{{{a}}}`.

What comes out is trimmed and has no pair of braces, and these two facts, with where it stands in
the value, determine it (`MiniTemplate.Vue.Unwraps`). In particular it is not unwrapped again
(`MiniTemplate.Vue.unwrap_stable`).
-/

namespace MiniTemplate.Vue

open Text

variable {cs inner w : List Char} {value result : String}

/-- **A text without pairs of braces.** -/
structure Unbraced (cs : List Char) : Prop where
  opening : ¬openMark <:+: cs
  closing : ¬closeMark <:+: cs

/-- **One expression between braces**, and nothing else. -/
structure Braced (cs inner : List Char) : Prop where
  /-- The text is the expression between its braces. -/
  split : cs = openMark ++ inner ++ closeMark
  /-- No other expression begins or ends in it. -/
  unbraced : Unbraced inner

/-- **What comes out of braces**: a text without pairs of braces and without blanks at its ends,
which stands in the value between blanks, between braces. -/
structure Unwraps (cs w : List Char) : Prop where
  unbraced : Unbraced w
  trimmed : Trimmed w
  padded : ∃ b b', (∀ c ∈ b, isBlank c) ∧ (∀ c ∈ b', isBlank c) ∧
    cs = openMark ++ (b ++ w ++ b') ++ closeMark

/-! ### Braces -/

theorem eq_of_mem_openMark {c : Char} (h : c ∈ openMark) : c = '\x7b' := by
  simpa [openMark] using h

theorem eq_of_mem_closeMark {c : Char} (h : c ∈ closeMark) : c = '\x7d' := by
  simpa [closeMark] using h

/-- **The braces at the two ends do not overlap.** -/
theorem marks_iff : openMark.isPrefixOf cs && closeMark.isSuffixOf cs ↔
    ∃ inner, cs = openMark ++ inner ++ closeMark := by
  rw [Bool.and_eq_true, List.isPrefixOf_iff_prefix, List.isSuffixOf_iff_suffix]
  constructor
  · rintro ⟨⟨t, rfl⟩, s, hs⟩
    rcases List.append_eq_append_iff.mp hs with ⟨both, ho, hc⟩ | ⟨inner, rfl, rfl⟩
    · -- what belongs to both ends would be made of both kinds of braces
      have hboth : both = [] := by
        refine List.eq_nil_iff_forall_not_mem.mpr fun c hmem => ?_
        have hl : c = '\x7b' := eq_of_mem_openMark (by simp [ho, hmem])
        have hr : c = '\x7d' := eq_of_mem_closeMark (by simp [hc, hmem])
        exact absurd (hl.symm.trans hr) (by decide)
      refine ⟨[], ?_⟩
      rw [hc, hboth, List.nil_append, List.append_nil]
    · exact ⟨inner, (List.append_assoc _ _ _).symm⟩
  · rintro ⟨inner, rfl⟩
    exact ⟨⟨inner ++ closeMark, (List.append_assoc _ _ _).symm⟩, List.suffix_append _ _⟩

theorem not_occurs_iff : ¬(occurs openMark cs || occurs closeMark cs) ↔ Unbraced cs := by
  rw [Bool.or_eq_true, occurs_iff, occurs_iff, not_or]
  exact ⟨fun h => ⟨h.1, h.2⟩, fun h => ⟨h.opening, h.closing⟩⟩

/-- Blanks are no braces, so trimming neither makes nor takes a pair. -/
theorem unbraced_trimChars_iff : Unbraced (trimChars cs) ↔ Unbraced cs := by
  have hopen : openMark <:+: trimChars cs ↔ openMark <:+: cs :=
    infix_trimChars_iff fun c hc => by rw [eq_of_mem_openMark hc]; decide
  have hclose : closeMark <:+: trimChars cs ↔ closeMark <:+: cs :=
    infix_trimChars_iff fun c hc => by rw [eq_of_mem_closeMark hc]; decide
  constructor
  · rintro ⟨ho, hc⟩
    exact ⟨fun h => ho (hopen.mpr h), fun h => hc (hclose.mpr h)⟩
  · rintro ⟨ho, hc⟩
    exact ⟨fun h => ho (hopen.mp h), fun h => hc (hclose.mp h)⟩

/-! ### Values between braces -/

/-- What stands between the braces is cut out by its length. -/
theorem take_drop_marks (w : List Char) :
    ((openMark ++ w ++ closeMark).drop 2).take ((openMark ++ w ++ closeMark).length - 4) = w := by
  simp [openMark, closeMark]

/-- **What is wrapped** is one expression between braces. -/
theorem wrapped?_eq_some_iff : wrapped? cs = some inner ↔ Braced cs inner := by
  constructor
  · intro h
    rw [wrapped?] at h
    split at h
    · rename_i hmarks
      obtain ⟨w, rfl⟩ := marks_iff.mp hmarks
      rw [take_drop_marks] at h
      dsimp only at h
      split at h
      · exact absurd h (by simp)
      · rename_i hoccurs
        obtain rfl := Option.some.inj h
        exact ⟨rfl, not_occurs_iff.mp hoccurs⟩
    · exact absurd h (by simp)
  · rintro ⟨rfl, hunbraced⟩
    rw [wrapped?, if_pos (marks_iff.mpr ⟨inner, rfl⟩), take_drop_marks]
    exact if_neg (not_occurs_iff.mpr hunbraced)

theorem Braced.toList_unwrap (h : Braced value.toList inner) :
    (unwrap value).toList = trimChars inner := by
  rw [unwrap, wrapped?_eq_some_iff.mpr h]
  exact String.toList_ofList

/-- **A value changes only between braces.** -/
theorem exists_braced_of_ne (h : unwrap value ≠ value) : ∃ inner, Braced value.toList inner := by
  rw [unwrap] at h
  split at h
  · rename_i inner hinner
    exact ⟨inner, wrapped?_eq_some_iff.mp hinner⟩
  · exact absurd rfl h

/-- A text without pairs of braces is left as it is. -/
theorem unwrap_of_unbraced (h : Unbraced value.toList) : unwrap value = value := by
  by_contra hne
  obtain ⟨inner, hbraced⟩ := exists_braced_of_ne hne
  refine h.opening ⟨[], inner ++ closeMark, ?_⟩
  rw [hbraced.split, List.nil_append, List.append_assoc]

/-! ### What comes out -/

theorem Braced.unwraps (h : Braced cs inner) : Unwraps cs (trimChars inner) where
  unbraced := unbraced_trimChars_iff.mpr h.unbraced
  trimmed := trimmed_trimChars inner
  padded := by
    obtain ⟨b, b', hb, hb', hsplit, -⟩ := exists_trimChars inner
    refine ⟨b, b', hb, hb', ?_⟩
    rw [← hsplit]
    exact h.split

theorem unwraps_of_ne (h : unwrap value ≠ value) :
    Unwraps value.toList (unwrap value).toList := by
  obtain ⟨inner, hbraced⟩ := exists_braced_of_ne h
  rw [hbraced.toList_unwrap]
  exact hbraced.unwraps

namespace Unwraps

/-- The blanks are part of the expression between the braces. -/
theorem exists_braced (h : Unwraps cs w) : ∃ inner, Braced cs inner ∧ trimChars inner = w := by
  obtain ⟨b, b', hb, hb', hsplit⟩ := h.padded
  have htrim : trimChars (b ++ w ++ b') = w := trimChars_eq hb hb' h.trimmed
  refine ⟨b ++ w ++ b', ⟨hsplit, unbraced_trimChars_iff.mp ?_⟩, htrim⟩
  rw [htrim]
  exact h.unbraced

theorem length_lt (h : Unwraps cs w) : w.length < cs.length := by
  obtain ⟨b, b', -, -, hsplit⟩ := h.padded
  simp only [hsplit, openMark, closeMark, List.length_append, List.length_cons, List.length_nil]
  omega

theorem unwrap_eq (h : Unwraps value.toList result.toList) : unwrap value = result := by
  obtain ⟨inner, hbraced, htrim⟩ := h.exists_braced
  exact String.toList_injective (hbraced.toList_unwrap.trans htrim)

theorem ne (h : Unwraps value.toList result.toList) : result ≠ value := by
  rintro rfl
  exact Nat.lt_irrefl _ h.length_lt

end Unwraps

/-- **Unwrapping is stable.** What comes out is not unwrapped again. And a value becomes another
one exactly if it is that other one between blanks, between braces, where this has no pair of
braces and no blank at its ends. -/
theorem unwrap_stable (value : String) :
    unwrap (unwrap value) = unwrap value ∧
      ∀ result, unwrap value = result ∧ result ≠ value ↔ Unwraps value.toList result.toList := by
  constructor
  · by_cases h : unwrap value = value
    · rw [h, h]
    · exact unwrap_of_unbraced (unwraps_of_ne h).unbraced
  · intro result
    constructor
    · rintro ⟨rfl, hne⟩
      exact unwraps_of_ne hne
    · intro h
      exact ⟨h.unwrap_eq, h.ne⟩

/-- Braces next to the marks stay, unless they make another pair. -/
example : unwrap "\x7b\x7b\x7ba\x7d\x7d" = "\x7ba" ∧
    unwrap "\x7b\x7b\x7b\x7b\x7d\x7d" = "\x7b\x7b\x7b\x7b\x7d\x7d" := by
  decide +kernel

end MiniTemplate.Vue
