import Mathlib.Data.List.Chain
import MiniTemplate.Proofs.Acceptance
import MiniTemplate.Proofs.Proper

/-!
# Readings without a fault

A text may be read without a fault and still end inside an element, so the grammar need not
derive it. What is read then is well-formed nevertheless, and nested no deeper than the limit
(`MiniTemplate.Template.wellFormed_read`). The first needs more than what a single node shows:
two texts must not meet. They do not, because a text goes on up to a `<`, and from there, where
nothing is a fault, no text is read. So the state has to remember that behind a text the
next character is a `<` (`MiniTemplate.Progress.Tidy`).

The nodes under one parent are kept latest first while they are read. Being well-formed does
not depend on the direction (`MiniTemplate.Node.AllWellFormed.reverse`), and neither does the
nesting.
-/

namespace MiniTemplate

open Text Node Grammar

/-! ### Forests in either direction -/

namespace Node

theorem allWellFormed_iff {f : List Node} :
    AllWellFormed f ↔
      (∀ n ∈ f, n.WellFormed) ∧ f.IsChain fun n m => n.isText → m.isText = false := by
  induction f with
  | nil => simp [AllWellFormed]
  | cons n ns ih =>
    rw [AllWellFormed, ih, List.forall_mem_cons, List.isChain_cons]
    constructor
    · rintro ⟨hn, hmeet, hns, hchain⟩
      exact ⟨⟨hn, hns⟩, fun m hm ht => hmeet ht m hm, hchain⟩
    · rintro ⟨⟨hn, hns⟩, hmeet, hchain⟩
      exact ⟨hn, fun ht m hm => hmeet m hm ht, hns, hchain⟩

theorem AllWellFormed.reverse {f : List Node} (h : AllWellFormed f) : AllWellFormed f.reverse := by
  rw [allWellFormed_iff] at h ⊢
  refine ⟨fun n hn => h.1 n (List.mem_reverse.mp hn), List.isChain_reverse.mpr ?_⟩
  refine h.2.imp fun n m hnm hm => ?_
  -- of two texts that meet, neither may come first
  by_contra hn
  exact absurd (hnm (by simpa using hn)) (by simp [hm])

theorem nestings_append (f g : List Node) : nestings (f ++ g) = max (nestings f) (nestings g) := by
  induction f with
  | nil => simp
  | cons n ns ih => simp [ih, Nat.max_assoc]

theorem nestings_reverse (f : List Node) : nestings f.reverse = nestings f := by
  induction f with
  | nil => rfl
  | cons n ns ih => simp [nestings_append, ih, Nat.max_comm]

end Node

namespace Progress

variable {limit : Int} {p : Progress} {n : Node}

/-! ### What is finished -/

/-- The nodes that are finished under the innermost parent, the latest first. -/
def siblings (p : Progress) : List Node :=
  match p.frames with
  | f :: _ => f.children
  | [] => p.roots

theorem siblings_add (p : Progress) (n : Node) : (p.add n).siblings = n :: p.siblings := by
  unfold add siblings
  cases p.frames <;> rfl

/-- **Open elements that end well**, the innermost first: whenever one of them ends, it is a
well-formed element, and there is room for it. -/
def Standing (limit : Int) : List Frame → Prop
  | [] => True
  | f :: fs =>
    (∀ children span, (Node.element f.name f.attributes children false span).Proper) ∧
      AllWellFormed f.children ∧ nestings f.children + (fs.length + 1) ≤ limit.toNat ∧
      Standing limit fs

theorem Standing.length_le {fs : List Frame} (h : Standing limit fs) :
    fs.length ≤ limit.toNat := by
  cases fs with
  | nil => exact Nat.zero_le _
  | cons f fs =>
    obtain ⟨-, -, hnest, -⟩ := h
    rw [List.length_cons]
    omega

/-- **A state that is well built**: what is finished is well-formed and within the limit, and
what is open will be. -/
structure Built (limit : Int) (p : Progress) : Prop where
  roots : AllWellFormed p.roots
  within : nestings p.roots ≤ limit.toNat
  frames : Standing limit p.frames

theorem Built.add (h : p.Built limit) (hn : n.WellFormed)
    (hroom : n.nesting + p.frames.length ≤ limit.toNat)
    (hmeet : n.isText → ∀ m ∈ p.siblings.head?, m.isText = false) : (p.add n).Built limit := by
  rw [siblings] at hmeet
  rw [Progress.add]
  split
  · rename_i f fs hfs
    rw [hfs] at hmeet hroom
    obtain ⟨hproper, hchildren, hnest, hrest⟩ : Standing limit (f :: fs) := hfs ▸ h.frames
    refine ⟨h.roots, h.within, hproper, ⟨hn, hmeet, hchildren⟩, ?_, hrest⟩
    rw [List.length_cons] at hroom
    rw [nestings_cons]
    omega
  · rename_i hfs
    rw [hfs] at hmeet hroom
    refine ⟨⟨hn, hmeet, h.roots⟩, ?_, h.frames⟩
    have hnest := h.within
    rw [List.length_nil] at hroom
    rw [nestings_cons]
    omega

theorem Built.push (h : p.Built limit) {f : Frame}
    (hproper : ∀ children span, (Node.element f.name f.attributes children false span).Proper)
    (hchildren : f.children = []) (hlt : (p.frames.length : Int) < limit) :
    (p.push f).Built limit := by
  refine ⟨h.roots, h.within, hproper, ?_, ?_, h.frames⟩
  · rw [hchildren]
    trivial
  · rw [hchildren, nestings_nil]
    omega

theorem Built.ending (h : p.Built limit) {f : Frame} {fs : List Frame} (hfs : p.frames = f :: fs)
    (stop : Nat) : Built limit ({ p with frames := fs }.add (f.toNode stop)) := by
  obtain ⟨hproper, hchildren, hnest, hrest⟩ : Standing limit (f :: fs) := hfs ▸ h.frames
  have hq : Built limit { p with frames := fs } := ⟨h.roots, h.within, hrest⟩
  refine hq.add ⟨hproper _ _, hchildren.reverse⟩ ?_ ?_
  · rw [Frame.toNode, nesting_element, nestings_reverse, if_neg (by simp)]
    change nestings f.children + 1 + fs.length ≤ limit.toNat
    omega
  · intro htext
    exact absurd htext (by simp [Frame.toNode, isText])

/-! ### What is ahead -/

/-- **A tidy state** is well built, and behind a text it is at a `<` or at the end. -/
structure Tidy (limit : Int) (p : Progress) : Prop where
  built : p.Built limit
  ahead : ∀ n ∈ p.siblings.head?, n.isText → ∀ c ∈ p.cursor.rest.head?, c = '<'

theorem Tidy.skipBlanks (h : p.Tidy limit) : p.skipBlanks.Tidy limit := by
  refine ⟨⟨h.built.roots, h.built.within, h.built.frames⟩, ?_⟩
  intro n hn htext c hc
  rw [cursor_skipBlanks, Cursor.rest_skipBlanks] at hc
  cases hrest : p.cursor.rest with
  | nil => simp [hrest] at hc
  | cons a t =>
    -- the `<` behind a text is not passed
    obtain rfl : a = '<' := h.ahead n hn htext a (by simp [hrest])
    rw [hrest, List.dropWhile_cons_of_neg (by decide)] at hc
    simpa using hc.symm

/-- A text is read up to a `<`, and never from one. -/
theorem ahead_of_leaf {t r : List Char} (h : Leaf t n.unplaced r) (hn : n.isText) :
    (∃ a t', t = a :: t' ∧ a ≠ '<') ∧ ∀ c ∈ r.head?, c = '<' := by
  cases n with
  | element _ _ _ _ _ => exact absurd hn (by simp [isText])
  | comment _ _ => exact absurd hn (by simp [isText])
  | text content span =>
    rw [unplaced_text] at h
    generalize hm : Node.text content none = m at h
    cases h with
    | @text t w r hw _ hrun =>
      obtain ⟨a, w, rfl⟩ := List.exists_cons_of_ne_nil hw
      refine ⟨⟨a, w ++ r, hrun.split, ?_⟩, ?_⟩
      · simpa using hrun.all a (by simp)
      · intro c hc
        simpa using hrun.stops c hc
    | comment _ _ => exact absurd hm (by simp)
    | lastComment _ => exact absurd hm (by simp)
    | selfClosing _ => exact absurd hm (by simp)

theorem tidy_start (limit : Int) (c : Cursor) : (Progress.start c).Tidy limit :=
  ⟨⟨trivial, Nat.zero_le _, trivial⟩, by rintro n ⟨⟩⟩

/-- **A step without a fault keeps a state tidy.** -/
theorem Tidy.step {a : Char} {t : List Char} (hp : p.Tidy limit) (hat : p.cursor.rest = a :: t)
    (ha : isBlank a = false) (h : (p.step limit).faults = []) : (p.step limit).Tidy limit := by
  have hq : (p.follow (readPiece p.cursor)).Built limit :=
    ⟨hp.built.roots, hp.built.within, hp.built.frames⟩
  rcases step_of_faultless hat ha h with
    ⟨n, hval, hleaf, hstep⟩ | ⟨name, as, start, hval, -, hlt, hstep⟩ | ⟨f, fs, hfs, -, hstep⟩
  · obtain ⟨hproper, hchildren⟩ := proper_leaf hat ha hval
    rw [hstep]
    refine ⟨hq.add ?_ ?_ ?_, ?_⟩
    · cases n with
      | element name as children selfClosing span =>
        obtain rfl : children = [] := hchildren
        exact ⟨hproper, trivial⟩
      | text content span => exact hproper
      | comment content span => exact hproper
    · have hnesting : n.nesting = 0 := by
        rw [← hleaf.nesting]
        cases n <;> simp [unplaced, nestings_recastAll]
      have hlen := hp.built.frames.length_le
      change n.nesting + p.frames.length ≤ limit.toNat
      omega
    · -- where a text stands, no text came before
      intro htext m hm
      obtain ⟨⟨x, t', ht', hx⟩, -⟩ := ahead_of_leaf hleaf htext
      by_contra hmtext
      exact hx (hp.ahead m hm (by simpa using hmtext) x (by simp [ht']))
    · rw [siblings_add, cursor_add]
      rintro m ⟨⟩ htext
      exact (ahead_of_leaf hleaf htext).2
  · rw [hstep]
    refine ⟨hq.push (proper_opening hval) rfl hlt, ?_⟩
    rintro m ⟨⟩
  · rw [hstep]
    refine ⟨hq.ending hfs _, ?_⟩
    rw [siblings_add]
    rintro m ⟨⟩ htext
    exact absurd htext (by simp [Frame.toNode, isText])

/-- **A reading without a fault is tidy to its end.** -/
theorem Tidy.run (hp : p.Tidy limit) (h : (p.run limit).faults = []) :
    (p.run limit).Tidy limit := by
  refine run_induction (motive := fun q => q.faults = [] → q.Tidy limit) ?_ ?_ p (fun _ => hp) h
  · intro q hq hfaults
    exact (hq hfaults).skipBlanks
  · intro q a t hat ha hq hfaults
    obtain ⟨hq', -⟩ := faults_readPiece_of_step hfaults
    exact (hq hq').step hat ha hfaults

theorem Built.finish (hp : p.Built limit) : p.finish.Built limit := by
  refine finish_induction (motive := Built limit) ?_ p hp
  intro q f fs hfs hq
  rw [endElement]
  split
  · exact hq.ending hfs _
  · have hremark : (q.caution q.cursor.position (.unclosed f.name)).Built limit :=
      ⟨hq.roots, hq.within, hq.frames⟩
    exact hremark.ending hfs _

end Progress

/-- **What is read without a fault** is well-formed, and nested within the limit. -/
theorem Template.wellFormed_read {limit : Int} {text : String}
    (h : (read limit text).faults = []) :
    AllWellFormed (read limit text).forest ∧ nestings (read limit text).forest ≤ limit.toNat := by
  have hrun := (Progress.tidy_start limit _).run ((Progress.faults_finish _).symm.trans h)
  have hbuilt := hrun.built.finish
  refine ⟨hbuilt.roots.reverse, ?_⟩
  rw [read, readChars, ofProgress, nestings_reverse]
  exact hbuilt.within

end MiniTemplate
