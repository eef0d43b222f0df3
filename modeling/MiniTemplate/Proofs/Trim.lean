import MiniTemplate.Proofs.Run

/-!
# Trimming

Trimming takes the blanks off both ends of a text, and this determines what is left: a text
between blanks that is not blank at either end is what trimming leaves of the whole
(`MiniTemplate.Text.trimChars_eq`), and every text is of that form
(`MiniTemplate.Text.exists_trimChars`). Every other fact on trimming comes from these two, among
them that a mark without blanks is neither lost nor made (`MiniTemplate.Text.infix_trimChars_iff`).
-/

namespace MiniTemplate.Text

variable {b b' w : List Char}

/-- A text that is not blank at either end; it may be empty. -/
def Trimmed (w : List Char) : Prop :=
  (∀ c ∈ w.head?, isBlank c = false) ∧ ∀ c ∈ w.getLast?, isBlank c = false

theorem trimEndChars_append (hb : ∀ c ∈ b, isBlank c) (w : List Char) :
    trimEndChars (w ++ b) = trimEndChars w := by
  have hrev : ∀ c ∈ b.reverse, isBlank c := fun c hc => hb c (List.mem_reverse.mp hc)
  rw [trimEndChars, trimEndChars, List.reverse_append, List.dropWhile_append_of_pos hrev]

theorem trimEndChars_of_last (h : ∀ c ∈ w.getLast?, isBlank c = false) : trimEndChars w = w := by
  rw [trimEndChars, dropWhile_of_stops (by rwa [List.head?_reverse]), List.reverse_reverse]

theorem exists_trimEndChars (w : List Char) :
    ∃ b, (∀ c ∈ b, isBlank c) ∧ w = trimEndChars w ++ b ∧
      ∀ c ∈ (trimEndChars w).getLast?, isBlank c = false := by
  have hrun := run_takeWhile isBlank w.reverse
  refine ⟨(w.reverse.takeWhile isBlank).reverse, ?_, ?_, ?_⟩
  · intro c hc
    exact hrun.all c (List.mem_reverse.mp hc)
  · rw [trimEndChars, ← List.reverse_append, ← hrun.split, List.reverse_reverse]
  · intro c hc
    rw [trimEndChars, List.getLast?_reverse] at hc
    exact hrun.stops c hc

/-- **What trimming leaves** of a trimmed text between blanks is that text. -/
theorem trimChars_eq (hb : ∀ c ∈ b, isBlank c) (hb' : ∀ c ∈ b', isBlank c) (hw : Trimmed w) :
    trimChars (b ++ w ++ b') = w := by
  rw [trimChars, List.append_assoc, List.dropWhile_append_of_pos hb]
  cases w with
  | nil =>
    rw [List.nil_append, List.dropWhile_eq_nil_iff.mpr hb']
    rfl
  | cons c w =>
    rw [List.cons_append, dropWhile_of_stops (stops_cons (hw.1 c rfl) (w ++ b')),
      ← List.cons_append, trimEndChars_append hb', trimEndChars_of_last hw.2]

/-- **Every text** is what trimming leaves of it, between blanks. -/
theorem exists_trimChars (cs : List Char) :
    ∃ b b', (∀ c ∈ b, isBlank c) ∧ (∀ c ∈ b', isBlank c) ∧ cs = b ++ trimChars cs ++ b' ∧
      Trimmed (trimChars cs) := by
  have hrun := run_takeWhile isBlank cs
  obtain ⟨b', hb', hsplit, hlast⟩ := exists_trimEndChars (cs.dropWhile isBlank)
  refine ⟨cs.takeWhile isBlank, b', hrun.all, hb', ?_, ?_, hlast⟩
  · rw [trimChars, List.append_assoc, ← hsplit]
    exact hrun.split
  · intro c hc
    refine hrun.stops c ?_
    rw [hsplit]
    change c ∈ (trimEndChars (cs.dropWhile isBlank)).head? at hc
    rw [List.head?_append, Option.mem_def.mp hc]
    rfl

theorem trimmed_trimChars (cs : List Char) : Trimmed (trimChars cs) := by
  obtain ⟨-, -, -, -, -, h⟩ := exists_trimChars cs
  exact h

theorem infix_trimChars (cs : List Char) : trimChars cs <:+: cs := by
  obtain ⟨b, b', -, -, hsplit, -⟩ := exists_trimChars cs
  exact ⟨b, b', hsplit.symm⟩

theorem mem_of_mem_trimChars {cs : List Char} {c : Char} (h : c ∈ trimChars cs) : c ∈ cs :=
  (infix_trimChars cs).subset h

/-- What shares no character with the beginning of a text occurs behind it. -/
theorem infix_of_infix_append {mark : List Char} (hb : ∀ c ∈ b, c ∉ mark)
    (h : mark <:+: b ++ w) : mark <:+: w := by
  have hnil : ∀ m, m ⊆ b → m ⊆ mark → m = [] := fun m hmb hmm =>
    List.eq_nil_iff_forall_not_mem.mpr fun c hc => hb c (hmb hc) (hmm hc)
  rcases List.infix_append_iff.mp h with hin | hin | ⟨m, m', hmark, hm, hm'⟩
  · rw [hnil mark hin.subset (List.Subset.refl mark)]
    exact List.nil_infix
  · exact hin
  · rw [hmark, hnil m hm.subset (by simp [hmark]), List.nil_append]
    exact hm'.isInfix

/-- **Trimming keeps every mark** that has no blanks. -/
theorem infix_trimChars_iff {mark cs : List Char} (hmark : ∀ c ∈ mark, isBlank c = false) :
    mark <:+: trimChars cs ↔ mark <:+: cs := by
  refine ⟨fun h => h.trans (infix_trimChars cs), fun h => ?_⟩
  have hblank : ∀ c, isBlank c → c ∉ mark := by
    intro c hc hmem
    simp [hmark c hmem] at hc
  obtain ⟨b, b', hb, hb', hsplit, -⟩ := exists_trimChars cs
  rw [hsplit, List.append_assoc] at h
  have hfront := infix_of_infix_append (fun c hc => hblank c (hb c hc)) h
  -- the blanks behind the text stand in front of it when it is reversed
  rw [← List.reverse_infix, List.reverse_append] at hfront
  refine List.reverse_infix.mp (infix_of_infix_append (fun c hc => ?_) hfront)
  rw [List.mem_reverse] at hc ⊢
  exact hblank c (hb' c hc)

/-- A text that is not blank is not trimmed away. -/
theorem trimChars_ne_nil {cs : List Char} (h : ∃ c ∈ cs, isBlank c = false) :
    trimChars cs ≠ [] := by
  intro hnil
  obtain ⟨b, b', hb, hb', hsplit, -⟩ := exists_trimChars cs
  obtain ⟨c, hc, hblank⟩ := h
  rw [hsplit, hnil, List.append_nil] at hc
  rcases List.mem_append.mp hc with hc | hc
  · exact absurd (hb c hc) (by simp [hblank])
  · exact absurd (hb' c hc) (by simp [hblank])

/-- Blanks behind a trimmed text are trimmed off again. -/
theorem trim_ofList_append (hb : ∀ c ∈ b, isBlank c) (s : String) :
    trim (String.ofList (trimChars s.toList ++ b)) = trim s := by
  have h := trimChars_eq (b := []) (by simp) hb (trimmed_trimChars s.toList)
  rw [List.nil_append] at h
  rw [trim, trim, String.toList_ofList, h]

/-- **Trimming once is enough.** -/
theorem trim_trim (s : String) : trim (trim s) = trim s := by
  have h := trim_ofList_append (b := []) (by simp) s
  rwa [List.append_nil] at h

end MiniTemplate.Text
