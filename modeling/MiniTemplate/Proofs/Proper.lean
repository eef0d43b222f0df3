import MiniTemplate.Proofs.Reading
import MiniTemplate.Proofs.WellFormed

/-!
# Nodes that are read are proper

Whatever the text, and with whatever faults it is read, the nodes that come out of it are
proper (`MiniTemplate.Template.proper_read`). A reading makes nodes in two ways: a leaf is a
piece, and an element is made of an opening tag when it ends. So what holds of every leaf
piece, and of every element that an opening tag can become, holds of every node of the
forest (`MiniTemplate.Progress.Makes`).
-/

namespace MiniTemplate

open Text Node

namespace Progress

variable {P : Node → Prop} {p : Progress} {n : Node} {limit : Int}

/-- **A state that makes only such nodes**: every node it has finished is as `P` says, and so
will be every element that is open. -/
structure Makes (P : Node → Prop) (p : Progress) : Prop where
  roots : Everywhere P p.roots
  children : ∀ f ∈ p.frames, Everywhere P f.children
  elements : ∀ f ∈ p.frames, ∀ children span,
    P (.element f.name f.attributes children false span)

theorem Makes.add (h : p.Makes P) (hn : P n) (hc : Everywhere P n.children) :
    (p.add n).Makes P := by
  rw [Progress.add]
  split
  · rename_i f fs hfs
    have hchildren := h.children
    have helements := h.elements
    rw [hfs, List.forall_mem_cons] at hchildren helements
    refine ⟨h.roots, ?_, ?_⟩
    · rw [List.forall_mem_cons]
      exact ⟨hchildren.1.cons hn hc, hchildren.2⟩
    · rw [List.forall_mem_cons]
      exact helements
  · exact ⟨h.roots.cons hn hc, h.children, h.elements⟩

/-- An element that ends is as `P` says, and its children were before. -/
theorem Makes.ending {f : Frame} {fs : List Frame} (h : p.Makes P) (hfs : p.frames = f :: fs)
    (stop : Nat) : Makes P ({ p with frames := fs }.add (f.toNode stop)) := by
  have hchildren := h.children
  have helements := h.elements
  rw [hfs, List.forall_mem_cons] at hchildren helements
  -- the children are kept latest first, and turned round in the element
  have hq : Makes P { p with frames := fs } := ⟨h.roots, hchildren.2, helements.2⟩
  exact hq.add (helements.1 _ _) hchildren.1.reverse

/-- **What pieces make, a reading makes**: if every leaf that is read is as `P` says, and every
element that an opening tag can become, then so is every node of the forest. -/
theorem everywhere_finish
    (hleaf : ∀ (c : Cursor) (a : Char) (t : List Char) (n : Node), c.rest = a :: t →
      isBlank a = false → (readPiece c).value = some (.leaf n) → P n ∧ n.children = [])
    (hopen : ∀ (c : Cursor) (name : String) (as : List Attribute) (start : Position),
      (readPiece c).value = some (.opening name as start) →
      ∀ children span, P (.element name as children false span))
    (limit : Int) (c : Cursor) : Everywhere P ((Progress.start c).run limit).finish.roots := by
  have hstart : (Progress.start c).Makes P := ⟨everywhere_nil, by simp [start], by simp [start]⟩
  refine Makes.roots (reading_induction (motive := Makes P) ?_ ?_ ?_ ?_ ?_ _ hstart)
  · rintro p ⟨_, _, _, _, _, _⟩ rfl rfl rfl hp
    exact ⟨hp.roots, hp.children, hp.elements⟩
  · intro p d _ hp
    exact ⟨hp.roots, hp.children, hp.elements⟩
  · intro p a t n hat ha hn hp
    obtain ⟨hP, hchildren⟩ := hleaf p.cursor a t n hat ha hn
    have hq : Makes P { p with cursor := (readPiece p.cursor).cursor } :=
      ⟨hp.roots, hp.children, hp.elements⟩
    exact hq.add hP (hchildren ▸ everywhere_nil)
  · intro p name as start _ _ hx hp
    refine ⟨hp.roots, ?_, ?_⟩
    · exact List.forall_mem_cons.mpr ⟨everywhere_nil, hp.children⟩
    · exact List.forall_mem_cons.mpr ⟨hopen p.cursor name as start hx, hp.elements⟩
  · intro p f fs hfs hp
    exact hp.ending hfs _

end Progress

/-! ### Proper attributes -/

theorem Attribute.name_ofWritten (name value : String) :
    (Attribute.ofWritten name value).name = name := by
  rw [Attribute.ofWritten]
  split <;> rfl

theorem Attribute.value_ofWritten (name value : String) :
    (Attribute.ofWritten name value).value = value := by
  rw [Attribute.ofWritten]
  split <;> rfl

theorem Attribute.wellFormed_ofWritten {n : List Char} (hne : n ≠ [])
    (hn : ∀ x ∈ n, isAttributeChar x) (value : String) :
    (Attribute.ofWritten (String.ofList n) value).WellFormed := by
  rw [Attribute.WellFormed, name_ofWritten, value_ofWritten, String.toList_ofList]
  exact ⟨hne, hn, rfl⟩

section Readers

variable {c : Cursor}

theorem wellFormed_readAttribute {s : Scan Attribute} (h : readAttribute c = some s) :
    s.value.WellFormed := by
  have hrun := run_takeWhile isAttributeChar c.rest
  unfold readAttribute at h
  dsimp only at h
  split at h
  · exact absurd h (by simp)
  rename_i hempty
  have hne : c.rest.takeWhile isAttributeChar ≠ [] := by simpa using hempty
  split at h
  · cases h
    exact Attribute.wellFormed_ofWritten hne hrun.all _
  · cases h
    exact Attribute.wellFormed_ofWritten hne hrun.all _

theorem wellFormed_readAttributes (tag : String) (seen : List String) (c : Cursor) :
    ∀ a ∈ (readAttributes tag seen c).value, a.WellFormed := by
  fun_induction readAttributes tag seen c with
  | case1 => simp
  | case2 seen c s hsome hlt more ih =>
    exact List.forall_mem_cons.mpr ⟨wellFormed_readAttribute hsome, ih⟩

/-! ### Proper pieces -/

theorem proper_tag {t : List Char} (hrest : c.rest = '<' :: t) (hn : tagName c ≠ [])
    {children : List Node} {selfClosing : Bool} (hempty : selfClosing → children = [])
    (span : Option Span) :
    (Node.element (String.ofList (tagName c)) (tagAttributes c).value children selfClosing
      span).Proper := by
  refine ⟨?_, ?_, wellFormed_readAttributes _ _ _, hempty⟩
  · rwa [String.toList_ofList]
  · rw [String.toList_ofList]
    exact (run_tagName hrest).all

theorem proper_leaf {a : Char} {t : List Char} {n : Node} (hat : c.rest = a :: t)
    (ha : isBlank a = false) (h : (readPiece c).value = some (.leaf n)) :
    n.Proper ∧ n.children = [] := by
  rcases readPiece_cases c with ⟨-, hp⟩ | ⟨⟨t, ht⟩, hp⟩ | ⟨⟨t, ht⟩, hp⟩ | ⟨hlt, hp⟩
  · rcases readClosing_cases c with ⟨r, -, hcl⟩ | ⟨-, hcl⟩ <;> simp [hp, hcl] at h
  · obtain ⟨w, hw, hcm⟩ := readComment_cases ht
    have hproper : ∀ span, (Node.comment (String.ofList w) span).Proper := by
      intro span
      rwa [Node.Proper, String.toList_ofList (l := w)]
    rcases hcm with ⟨r, -, hcm⟩ | ⟨-, hcm⟩
    all_goals
      rw [hp, hcm] at h
      obtain rfl := Piece.leaf.inj (Option.some.inj h)
      exact ⟨hproper _, rfl⟩
  · rw [hp] at h
    rcases readTag_cases c with ⟨-, htag⟩ | ⟨hn, r, -, htag⟩ | ⟨-, r, -, htag⟩ | ⟨-, -, -, htag⟩
    · simp [htag] at h
    · rw [htag] at h
      obtain rfl := Piece.leaf.inj (Option.some.inj h)
      exact ⟨proper_tag ht hn (fun _ => rfl) _, rfl⟩
    · simp [htag] at h
    · simp [htag] at h
  · have hrun := run_takeWhile (· != '<') c.rest
    have hlt' : a ≠ '<' := by
      rintro rfl
      exact hlt t hat
    rw [hp] at h
    obtain rfl := Piece.leaf.inj (Option.some.inj h)
    refine ⟨?_, rfl⟩
    rw [Node.Proper, String.toList_ofList]
    refine ⟨fun hmem => absurd (hrun.all _ hmem) (by simp), a, ?_, ha⟩
    rw [hat, List.takeWhile_cons_of_pos (by simpa using hlt')]
    exact List.mem_cons_self

theorem proper_opening {name : String} {as : List Attribute} {start : Position}
    (h : (readPiece c).value = some (.opening name as start)) (children : List Node)
    (span : Option Span) : (Node.element name as children false span).Proper := by
  obtain ⟨⟨t, ht⟩, hn, rfl, rfl, -⟩ := opening_of_readPiece h
  exact proper_tag ht hn (by simp) span

end Readers

/-- **Every node that is read is proper**, in any text. -/
theorem Template.proper_read (limit : Int) (text : String) :
    Everywhere Proper (read limit text).forest := by
  refine Everywhere.reverse (Progress.everywhere_finish ?_ ?_ limit _)
  · intro c a t n hat ha h
    exact proper_leaf hat ha h
  · intro c name as start h children span
    exact proper_opening h children span

end MiniTemplate
