import MiniTemplate.Proofs.Lines
import MiniTemplate.Proofs.VueLines
import MiniTemplate.Vue.Converter

/-!
# Writers and the recursion on a forest

Both writers put their lines down along a traversal, on a sheet whose level goes up when a block
is entered and down when it is left. That the lines are those of the recursion on the forest was
shown for each of them (`MiniTemplate.Markup.write_eq` and `MiniTemplate.Vue.lines_eq`). This file
adds what a reader of the loop would worry about: that the level never falls below where it began
(`MiniTemplate.Sheet.level_le_of_mem_scanl`), and that nothing of one forest shows in what is
written for the next.

The level is the same for both, as long as a visit in does not lower it and a whole tree brings
it back. For markup the second holds only in its place: in an inline element the way in is passed
over, so there a tree that is not a text would come out one level too low. No such tree is ever
there, and this is the condition that the induction carries.

## Main statements

* `MiniTemplate.Forest.writers_eq`: the two writers, their levels, forests one behind the other, and
  conversions one after another.
-/

namespace MiniTemplate

/-! ### Levels along a traversal -/

theorem Node.isText_of_mem_children {n c : Node} (h : n.isInline) (hc : c ∈ n.children) :
    c.isText := by
  cases n with
  | element name as children selfClosing span =>
    rw [Node.isInline, Bool.and_eq_true, List.all_eq_true] at h
    exact h.2 c hc
  | text content span => exact absurd hc (by simp [Node.children])
  | comment content span => exact absurd hc (by simp [Node.children])

section Levels

variable {step : Sheet → Visit → Sheet}
  (hin : ∀ s n parent, s.level ≤ (step s ⟨.enter, n, parent⟩).level)
  (hround : ∀ s n (parent : Option Node), (parent.any Node.isInline → n.isText) →
    ((Forest.nodeVisits parent n).foldl step s).level = s.level)

include hin hround in
/-- **The level never falls** below where a traversal began. -/
theorem Sheet.level_le_of_mem_scanl (f : List Node) (parent : Option Node)
    (hf : ∀ n ∈ f, parent.any Node.isInline → n.isText) (s : Sheet) :
    ∀ s' ∈ (Forest.visits parent f).scanl step s, s.level ≤ s'.level := by
  induction f using Node.children_induction generalizing parent s with
  | nil =>
    intro s' hs'
    rw [Forest.visits_nil, List.scanl_nil, List.mem_singleton] at hs'
    exact Int.le_of_eq (by rw [hs'])
  | cons n ns ihc ihn =>
    obtain ⟨hn, hns⟩ := List.forall_mem_cons.mp hf
    have hback := hround s n parent hn
    have hchildren : ∀ c ∈ n.children, (some n).any Node.isInline → c.isText :=
      fun c hc hinline => Node.isText_of_mem_children hinline hc
    intro s' hs'
    rw [Forest.visits_cons, List.scanl_append, List.mem_append] at hs'
    rcases hs' with hs' | hs'
    · -- in the tree: before it, among its children, or behind them
      rw [Forest.nodeVisits_eq] at hs' hback
      rw [List.scanl_cons, List.mem_cons, List.scanl_append, List.mem_append] at hs'
      rcases hs' with rfl | hs' | hs'
      · exact Int.le_refl _
      · exact Int.le_trans (hin s n parent) (ihc (some n) hchildren _ s' hs')
      · rw [List.scanl_cons, List.tail_cons, List.scanl_nil, List.mem_singleton] at hs'
        rw [List.foldl_cons, List.foldl_append, List.foldl_cons, List.foldl_nil, ← hs'] at hback
        exact Int.le_of_eq hback.symm
    · have hlater := ihn parent hns _ s' (List.mem_of_mem_tail hs')
      rwa [hback] at hlater

end Levels

/-! ### Lines of two forests -/

section Join

variable {l l' : List String}

theorem intercalate_eq_empty_iff (h : ∀ x ∈ l, x ≠ "") : "\n".intercalate l = "" ↔ l = [] := by
  cases l with
  | nil => simp
  | cons x l =>
    have hx : x ≠ "" := h x (by simp)
    cases l with
    | nil => simpa using hx
    | cons y l => simp [String.intercalate_cons_cons, String.append_eq_empty_iff, hx]

/-- **Joining the lines of two texts** is joining the texts, if no line is empty: a text is then
empty only if it has no line. -/
theorem intercalate_append_eq (h : ∀ x ∈ l, x ≠ "") (h' : ∀ x ∈ l', x ≠ "") :
    "\n".intercalate (l ++ l') =
      "\n".intercalate (["\n".intercalate l, "\n".intercalate l'].filter (· ≠ "")) := by
  by_cases hl : l = []
  · by_cases hl' : l' = []
    · simp [hl, hl']
    · have hne := (intercalate_eq_empty_iff h').not.mpr hl'
      simp [hl, hne]
  · have hne := (intercalate_eq_empty_iff h).not.mpr hl
    by_cases hl' : l' = []
    · simp [hl', hne]
    · have hne' := (intercalate_eq_empty_iff h').not.mpr hl'
      rw [String.intercalate_append_of_ne_nil hl hl']
      simp [hne, hne', String.intercalate_cons_cons]

end Join

/-! ### The two writers -/

namespace Markup

variable (indent : Int)

theorem level_enter (s : Sheet) (n : Node) (parent : Option Node) :
    s.level ≤ (visit indent s ⟨.enter, n, parent⟩).level := by
  by_cases hp : parent.any Node.isInline
  · exact Int.le_of_eq (by rw [visit_enter_inline hp])
  · rw [visit_enter (by simpa using hp)]
    cases n with
    | text content span => simp only [enter]; split <;> simp [Sheet.put]
    | comment content span => simp [enter, Sheet.put]
    | element name as children selfClosing span =>
      simp only [enter]
      split_ifs <;> simp only [Sheet.put, Sheet.deeper] <;> omega

theorem level_nodeVisits (s : Sheet) (n : Node) (parent : Option Node)
    (hn : parent.any Node.isInline → n.isText) :
    ((Forest.nodeVisits parent n).foldl (visit indent) s).level = s.level := by
  have hvisits : Forest.visits parent [n] = Forest.nodeVisits parent n := by simp
  rw [← hvisits]
  by_cases hp : parent.any Node.isInline
  · rw [foldl_visits_inline hp [n] (by simpa using hn hp)]
  · rw [foldl_visits [n] (by simpa using hp)]

end Markup

namespace Vue

variable (t : Target)

theorem level_enter (s : Sheet) (n : Node) (parent : Option Node) :
    s.level ≤ (visit t s ⟨.enter, n, parent⟩).level := by
  rw [visit_enter]
  cases n with
  | text content span => simp only [enter]; split <;> simp [Sheet.put]
  | comment content span => simp [enter, Sheet.put]
  | element name as children selfClosing span =>
    simp only [enter]
    split_ifs <;> simp only [Sheet.put, Sheet.deeper] <;> omega

theorem level_nodeVisits (s : Sheet) (n : Node) (parent : Option Node) :
    ((Forest.nodeVisits parent n).foldl (visit t) s).level = s.level := by
  have hvisits : Forest.visits parent [n] = Forest.nodeVisits parent n := by simp
  rw [← hvisits, foldl_visits]

theorem layout_append (level : Int) (f g : List Node) :
    layout t level (f ++ g) = layout t level f ++ layout t level g := by
  induction f with
  | nil => rfl
  | cons n ns ih => rw [List.cons_append, layout_cons, layout_cons, ih, List.append_assoc]

/-- No line of a conversion is empty. -/
theorem ne_empty_of_mem_layout (level : Int) (f : List Node) :
    ∀ x ∈ layout t level f, x ≠ "" := by
  induction f using Node.forest_induction generalizing level with
  | nil => simp
  | text content span ns ih =>
    rw [layout_cons, nodeLayout, List.forall_mem_append]
    refine ⟨?_, ih level⟩
    split
    · simp
    · rename_i hempty
      simpa [String.append_eq_empty_iff] using fun _ => hempty
  | comment content span ns ih =>
    rw [layout_cons, nodeLayout, List.forall_mem_append]
    exact ⟨by simp [String.append_eq_empty_iff], ih level⟩
  | element name as children selfClosing span ns ihc ihn =>
    rw [layout_cons, nodeLayout_element, List.forall_mem_append]
    refine ⟨?_, ihn level⟩
    split
    · split <;> simp [String.append_eq_empty_iff]
    · rw [List.forall_mem_cons, List.forall_mem_append]
      exact ⟨by simp [String.append_eq_empty_iff], ihc (level + 1),
        by simp [String.append_eq_empty_iff]⟩

theorem convert_append (f g : Forest) :
    convert t (f ++ g) = "\n".intercalate ([convert t f, convert t g].filter (· ≠ "")) := by
  simp only [convert, lines_eq, layout_append]
  exact intercalate_append_eq (ne_empty_of_mem_layout t 0 f) (ne_empty_of_mem_layout t 0 g)

namespace Converter

theorem target_after (c : Converter) (q : Call) : (c.after q).target = c.target := by
  cases q <;> rfl

/-- What a converter answers depends on its target alone, not on what is on its sheet. -/
theorem answer_congr {c d : Converter} (h : c.target = d.target) (q : Call) :
    c.answer q = d.answer q := by
  obtain ⟨t, sheet⟩ := c
  obtain ⟨t', sheet'⟩ := d
  obtain rfl : t = t' := h
  cases q <;> rfl

/-- **A session** is answered call by call as by a converter that has not been used. -/
theorem session_eq (c : Converter) (qs : List Call) :
    c.session qs = qs.map (ofTarget c.target).answer := by
  induction qs generalizing c with
  | nil => rfl
  | cons q qs ih =>
    have hq : c.answer q = (ofTarget c.target).answer q := answer_congr rfl q
    rw [session, ih, target_after, List.map_cons, hq]

end Converter

end Vue

/-- **The writers follow the recursion on a forest.** A conversion writes the lines of the
forest at the first level, with line breaks between them, and so does the writer of markup. On any
sheet, the level never falls below where it began, and comes back to it. So forests one behind the
other are converted one behind the other, and what a converter was asked before does not show in a
conversion. -/
theorem Forest.writers_eq (t : Vue.Target) (indent : Int) (f : Forest) :
    Vue.lines t f = Vue.layout t 0 f ∧
      Vue.convert t f = "\n".intercalate (Vue.layout t 0 f) ∧
      Markup.write indent f = "\n".intercalate (Markup.lines indent 0 f) ∧
      (∀ s, (∀ s' ∈ f.traverse.scanl (Vue.visit t) s, s.level ≤ s'.level) ∧
        (f.traverse.foldl (Vue.visit t) s).level = s.level) ∧
      (∀ s, (∀ s' ∈ f.traverse.scanl (Markup.visit indent) s, s.level ≤ s'.level) ∧
        (f.traverse.foldl (Markup.visit indent) s).level = s.level) ∧
      (∀ g, Vue.convert t (f ++ g) =
        "\n".intercalate ([Vue.convert t f, Vue.convert t g].filter (· ≠ ""))) ∧
      ∀ earlier, (Vue.Converter.ofTarget t).session (earlier ++ [.convert f]) =
        (Vue.Converter.ofTarget t).session earlier ++ [Vue.convert t f] := by
  refine ⟨Vue.lines_eq t f, by rw [Vue.convert, Vue.lines_eq], Markup.write_eq indent f, ?_, ?_,
    Vue.convert_append t f, ?_⟩
  · intro s
    rw [traverse_eq, Vue.foldl_visits]
    exact ⟨Sheet.level_le_of_mem_scanl (Vue.level_enter t)
      (fun s n parent _ => Vue.level_nodeVisits t s n parent) f none (by simp) s, rfl⟩
  · intro s
    rw [traverse_eq, Markup.foldl_visits f (by rfl)]
    exact ⟨Sheet.level_le_of_mem_scanl (Markup.level_enter indent)
      (Markup.level_nodeVisits indent) f none (by simp) s, rfl⟩
  · intro earlier
    rw [Vue.Converter.session_eq, Vue.Converter.session_eq, List.map_append]
    rfl

end MiniTemplate
