import MiniTemplate.Proofs.Acceptance
import MiniTemplate.Proofs.Extension
import MiniTemplate.Proofs.Relocation

/-!
# Reading one text behind another

A template in which everything is closed, and which ends with an element, stays what it is
whatever is written behind it. Two things are to be shown. Up to the end of the first text the
reading of the two together is the reading of the first one, since no step of it has looked
further than the piece that it has read: this is `MiniTemplate.Progress.run_extended`, by
induction on the first reading. From there on it is the reading of the second one, in other
places: this is `MiniTemplate.Progress.finish_run_after`. In between stands the state at the end
of the first text, which has nothing open and is the beginning of a reading at its own place
(`MiniTemplate.Progress.extended_eq_after`).

The last top-level node matters. A text or a comment at the end of the first template may have
ended only because the characters did, and what follows may then belong to it.

## Main statements

* `MiniTemplate.Template.read_append`: reading is compatible with putting texts one behind the
  other.
-/

namespace MiniTemplate

open Cursor

namespace Progress

variable {limit : Int} {p : Progress}

/-! ### To the end of the first text -/

theorem rest_run (limit : Int) (p : Progress) : (p.run limit).cursor.rest = [] := by
  fun_induction run limit p with
  | case1 p hend => exact hend
  | case2 p hrest hlt ih => exact ih

theorem leads_run (limit : Int) (p : Progress) : Leads p.cursor (p.run limit).cursor := by
  fun_induction run limit p with
  | case1 p hend => exact leads_skipBlanks _
  | case2 p hrest hlt ih =>
    exact ((leads_skipBlanks _).trans (leads_step limit p.skipBlanks)).trans ih

/-- A leaf with which the text ends is the last top-level node, if nothing stays open. -/
theorem roots_run_of_leaf {n : Node} (hv : (readPiece p.cursor).value = some (.leaf n))
    (hend : (readPiece p.cursor).cursor.rest = [])
    (hfs : ((p.step limit).run limit).frames = []) :
    ((p.step limit).run limit).roots.head? = some n := by
  have hstep : p.step limit = (p.follow (readPiece p.cursor)).add n := step_leaf hv
  have hblanks : (p.step limit).skipBlanks.cursor.rest = [] := by
    rw [cursor_skipBlanks, hstep, cursor_add, rest_skipBlanks]
    change (readPiece p.cursor).cursor.rest.dropWhile _ = []
    rw [hend]
    rfl
  rw [run_of_end hblanks] at hfs ⊢
  have hnil : (p.follow (readPiece p.cursor)).frames = [] := by
    rw [frames_skipBlanks, hstep] at hfs
    rw [← List.length_eq_zero_iff, ← length_frames_add _ n, hfs]
    rfl
  change (p.step limit).roots.head? = some n
  rw [hstep, add, hnil]
  rfl

/-- Without a fault, nothing is passed over. -/
theorem truncated_run (htr : p.truncated = false) (hlen : p.frames.length ≤ limit.toNat)
    (hfaults : (p.run limit).faults = []) : (p.run limit).truncated = false := by
  fun_induction run limit p with
  | case1 p hend => exact htr
  | case2 p hrest hlt ih =>
    obtain ⟨a, s, has, ha⟩ := exists_rest_skipBlanks hrest
    have hstep : (p.skipBlanks.step limit).faults = [] :=
      List.prefix_nil.mp (hfaults ▸ faults_run limit _)
    obtain ⟨htr', hlen', -⟩ := closes_of_step has ha hlen hstep
    exact ih (htr'.trans htr) hlen' hfaults

theorem frames_run_of_clean (htr : p.truncated = false) (hlen : p.frames.length ≤ limit.toNat)
    (hclean : (Template.ofProgress (p.run limit).finish).Clean) : (p.run limit).frames = [] := by
  refine frames_of_clean (truncated_run htr hlen ?_) hclean
  rw [← faults_finish]
  exact hclean.1

/-- **A reading without complaint looks no further than its text**, if the text ends with an
element: when the text goes on, the reading goes on where it was. -/
theorem run_extended (t : List Char) (htr : p.truncated = false)
    (hlen : p.frames.length ≤ limit.toNat)
    (hclean : (Template.ofProgress (p.run limit).finish).Clean)
    (hlast : ∀ n ∈ (p.run limit).roots.head?, n.isElement) :
    ((p.run limit).extended t).run limit = (p.extended t).run limit := by
  have hfaults : (p.run limit).faults = [] := by
    rw [← faults_finish]
    exact hclean.1
  have hfs := frames_run_of_clean htr hlen hclean
  refine run_extended_of hfaults fun q hq hrest => ?_
  rw [← hq.run_eq] at hfaults hfs hlast
  have hstep := faults_step_of_run hrest hfaults
  refine readPiece_extended hrest (faults_readPiece_of_step hstep).2 ?_ t
  -- a text or a comment at the very end would be the last top-level node
  intro hnil n hv
  rw [run_of_rest hrest] at hfs hlast
  exact hlast n (roots_run_of_leaf hv hnil hfs)

/-! ### At the end of the first text -/

theorem cursor_run_start (limit : Int) (t : List Char) :
    ((start (ofList t)).run limit).cursor = (ofList t).skip t.length := by
  obtain ⟨w, hw⟩ := leads_run limit (start (ofList t))
  have hrest : t = w ++ [] := by
    rw [← rest_run limit (start (ofList t))]
    exact hw.rest
  rw [List.append_nil] at hrest
  rw [hw.skip, hrest]
  rfl

/-- Where nothing is open at the end of a text, what follows is read from its beginning. -/
theorem extended_eq_after {q : Progress} {t₁ : List Char}
    (hcursor : q.cursor = (ofList t₁).skip t₁.length) (hfs : q.frames = [])
    (htr : q.truncated = false) (t₂ : List Char) :
    q.extended t₂ = after q t₁ (start (ofList t₂)) := by
  obtain ⟨cursor, frames, roots, faults, cautions, truncated⟩ := q
  subst hcursor hfs htr
  simp [extended, after, start, ofList, Cursor.extended, Cursor.moved, Cursor.skip,
    Position.moved_start]

end Progress

/-! ### The two texts -/

namespace Template

open Progress

variable {limit : Int} {t₁ : List Char}

/-- What is read of a text in which everything is closed is there when the characters are
passed. -/
theorem readChars_of_clean (hclean : (readChars limit t₁).Clean) :
    readChars limit t₁ = ofProgress ((start (ofList t₁)).run limit) := by
  rw [readChars, finish_of_nil (frames_run_of_clean rfl (Nat.zero_le _) hclean)]

theorem run_append (hclean : (readChars limit t₁).Clean)
    (hlast : ∀ n ∈ (readChars limit t₁).forest.getLast?, n.isElement) (t₂ : List Char) :
    (start (ofList (t₁ ++ t₂))).run limit =
      (Progress.after ((start (ofList t₁)).run limit) t₁ (start (ofList t₂))).run limit := by
  have hfs : ((start (ofList t₁)).run limit).frames = [] :=
    frames_run_of_clean rfl (Nat.zero_le _) hclean
  have htr : ((start (ofList t₁)).run limit).truncated = false := by
    refine truncated_run rfl (Nat.zero_le _) ?_
    rw [← faults_finish]
    exact hclean.1
  have hroots : ∀ n ∈ ((start (ofList t₁)).run limit).roots.head?, n.isElement := by
    rw [readChars_of_clean hclean] at hlast
    simpa [ofProgress] using hlast
  rw [← extended_eq_after (cursor_run_start limit t₁) hfs htr,
    Progress.run_extended t₂ rfl (Nat.zero_le _) hclean hroots]
  rfl

/-- **Reading two texts, one behind the other.** Where the first is read without complaint and
ends with an element, what is read is what is read of the first and then, with all places
moved behind it, what is read of the second, faults and cautions included. -/
theorem read_append (limit : Int) (t₁ t₂ : String) (hclean : (read limit t₁).Clean)
    (hlast : ∀ n ∈ (read limit t₁).forest.getLast?, n.isElement) :
    read limit (t₁ ++ t₂) =
      ⟨(read limit t₁).forest ++ (read limit t₂).forest.map (Node.moved t₁.toList),
        (read limit t₁).faults ++ (read limit t₂).faults.map (Located.moved t₁.toList),
        (read limit t₁).cautions ++
          (read limit t₂).cautions.map (Located.moved t₁.toList)⟩ := by
  rw [read, String.toList_append, readChars, run_append hclean hlast,
    finish_run_after _ _ (by exact Nat.one_pos), read, readChars_of_clean hclean]
  simp [ofProgress, Progress.after, read, readChars]

/-- A repeated attribute and a line break in the first text, and a closing tag of nothing in the
second, whose fault is on the second line. -/
theorem read_append_stray :
    (read 1 "<a x=1 x=2>\n</a> ").Clean ∧
      (∀ n ∈ (read 1 "<a x=1 x=2>\n</a> ").forest.getLast?, n.isElement) ∧
      (read 1 ("<a x=1 x=2>\n</a> " ++ "</i>\n<b>")).faults =
        [⟨⟨17, 2, 6⟩, .unexpectedClosing "i"⟩] := by
  have hclean : (read 1 "<a x=1 x=2>\n</a> ").Clean := by
    refine ⟨by decide +kernel, ?_⟩
    have hcautions : (read 1 "<a x=1 x=2>\n</a> ").cautions =
        [⟨⟨10, 1, 11⟩, .duplicateAttribute "x" "a"⟩] := by decide +kernel
    rw [hcautions]
    simp [Quiet]
  have hlast : ∀ n ∈ (read 1 "<a x=1 x=2>\n</a> ").forest.getLast?, n.isElement := by
    decide +kernel
  refine ⟨hclean, hlast, ?_⟩
  rw [read_append 1 _ "</i>\n<b>" hclean hlast]
  decide +kernel

end Template

end MiniTemplate
