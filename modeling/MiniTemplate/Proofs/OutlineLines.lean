import Mathlib.Data.List.Forall2
import MiniTemplate.Node.Outline
import MiniTemplate.Proofs.DocumentOrder
import MiniTemplate.Proofs.Proper

/-!
# The lines of an outline

An outline is a text, and whoever looks at it takes it for lines: the first one is the first node,
the next one the next node, and the deeper a node is, the further to the right it stands. For a
forest that was read from a text this is always right, since nothing in a line breaks it. Names are
made of the characters of names, and all else that comes from the text is shown between quotes,
where no line break is left (`MiniTemplate.Text.newline_not_mem_quoted`).

So the lines of the text are those that the outline was joined from
(`MiniTemplate.Forest.splitOn_outline`). That these follow the nodes in document order is shown
along the roll of the forest, which has the address of each node beside it
(`MiniTemplate.Forest.forall₂_outlineLines`), and the roll follows the walk
(`MiniTemplate.Forest.forall₂_roll_walk`).

## Main statements

* `MiniTemplate.Template.outline_read`: the outline of a template has one line for each node.
-/

namespace MiniTemplate

open Text

/-! ### No line break between quotes -/

namespace Text

theorem newline_ne_hexDigit : ∀ n < 16, '\n' ≠ hexDigit n := by decide

theorem newline_not_mem_hexDigits (n width : Nat) : '\n' ∉ hexDigits n width := by
  induction width generalizing n with
  | zero => exact List.not_mem_nil
  | succ width ih =>
    rw [hexDigits, List.mem_append, List.mem_singleton]
    rintro (h | h)
    · exact ih _ h
    · exact newline_ne_hexDigit (n % 16) (Nat.mod_lt _ (by omega)) h

theorem newline_not_mem_showChar {quote : Char} (hq : quote ≠ '\n') (c : Char) :
    '\n' ∉ showChar quote c := by
  unfold showChar
  split_ifs with hmark hn hr ht hprintable
  · rcases hmark with rfl | rfl
    · simpa using hq.symm
    · decide
  · decide
  · decide
  · decide
  · simpa using Ne.symm hn
  all_goals simp [newline_not_mem_hexDigits]

/-- **A text between quotes is on one line.** -/
theorem newline_not_mem_quoted (s : String) : '\n' ∉ (quoted s).toList := by
  have hq : showQuote s.toList ≠ '\n' := by
    unfold showQuote
    split <;> decide
  rw [quoted, String.toList_ofList, quotedChars, List.mem_cons, List.mem_append, List.mem_flatMap,
    List.mem_singleton]
  rintro (h | ⟨c, -, h⟩ | h)
  · exact hq h.symm
  · exact newline_not_mem_showChar hq c h
  · exact hq h.symm

end Text

/-! ### The line of a node -/

/-- **How the line of a node begins**, behind its indentation. -/
def Node.label : Node → String
  | .element name .. => "<" ++ name
  | .text .. => "Text("
  | .comment .. => "Comment("

/-- **A line shows a node** at a level: two spaces for each level, none if it is negative, and then
the label of the node. -/
def Node.ShownAt (level : Int) (n : Node) (line : List Char) : Prop :=
  ∃ tail, line = List.replicate (2 * level.toNat) ' ' ++ n.label.toList ++ tail

theorem Node.label_bare (n : Node) : n.bare.label = n.label := by
  cases n <;> rfl

namespace Forest

/-- What an outline says of a node itself. -/
def summary : Node → String
  | .element name attributes _ selfClosing _ =>
    "<" ++ name ++ outlineAttributes attributes ++ (if selfClosing then " />" else ">")
  | .text content _ => "Text(" ++ Text.quoted (preview content) ++ ")"
  | .comment content _ => "Comment(" ++ Text.quoted content ++ ")"

theorem nodeOutline_eq (level : Int) (n : Node) :
    nodeOutline level n =
      (outlineIndent level ++ summary n) :: outlineLines (level + 1) n.children := by
  cases n with
  | element _ _ _ _ _ => simp [nodeOutline, summary, Node.children, String.append_assoc]
  | text _ _ => simp [nodeOutline, summary, Node.children, outlineLines, String.append_assoc]
  | comment _ _ => simp [nodeOutline, summary, Node.children, outlineLines, String.append_assoc]

theorem outlineLines_cons (level : Int) (n : Node) (ns : List Node) :
    outlineLines level (n :: ns) = nodeOutline level n ++ outlineLines level ns := rfl

theorem shownAt_line (level : Int) (n : Node) :
    n.ShownAt level (outlineIndent level ++ summary n).toList := by
  have hindent : (outlineIndent level).toList = List.replicate (2 * level.toNat) ' ' := by
    rw [outlineIndent, String.toList_ofList]
  rw [Node.ShownAt, String.toList_append, hindent]
  cases n with
  | element name as children selfClosing span =>
    refine ⟨(outlineAttributes as ++ if selfClosing then " />" else ">").toList, ?_⟩
    simp [summary, Node.label]
  | text content span =>
    refine ⟨(Text.quoted (preview content) ++ ")").toList, ?_⟩
    simp [summary, Node.label]
  | comment content span =>
    refine ⟨(Text.quoted content ++ ")").toList, ?_⟩
    simp [summary, Node.label]

theorem newline_not_mem_outlineAttributes {as : List Attribute} (h : ∀ a ∈ as, a.WellFormed) :
    '\n' ∉ (outlineAttributes as).toList := by
  rw [outlineAttributes, String.toList_join, List.mem_flatMap]
  rintro ⟨s, hs, hmem⟩
  obtain ⟨a, ha, rfl⟩ := List.mem_map.mp hs
  have hname : '\n' ∉ a.name.toList := fun hn => absurd ((h a ha).2.1 _ hn) (by decide)
  simp [hname, newline_not_mem_quoted] at hmem

/-- **The line of a proper node is one line.** -/
theorem newline_not_mem_line {n : Node} (h : n.Proper) (level : Int) :
    '\n' ∉ (outlineIndent level ++ summary n).toList := by
  have hindent : '\n' ∉ (outlineIndent level).toList := by
    rw [outlineIndent, String.toList_ofList]
    exact fun hmem => absurd (List.eq_of_mem_replicate hmem) (by decide)
  cases n with
  | element name as children selfClosing span =>
    obtain ⟨-, hname, has, -⟩ := h
    have htag : '\n' ∉ name.toList := fun hn => absurd (hname _ hn) (by decide)
    have hattributes := newline_not_mem_outlineAttributes has
    cases selfClosing <;> simp [summary, hindent, htag, hattributes]
  | text content span => simp [summary, hindent, newline_not_mem_quoted]
  | comment content span => simp [summary, hindent, newline_not_mem_quoted]

/-! ### The lines of a forest -/

/-- **No line breaks in two** where all nodes are proper. -/
theorem newline_not_mem_outlineLines {f : List Node} (h : Node.Everywhere Node.Proper f)
    (level : Int) : ∀ line ∈ outlineLines level f, '\n' ∉ line.toList := by
  induction f using Node.children_induction generalizing level with
  | nil => simp [outlineLines]
  | cons n ns ihc ihn =>
    obtain ⟨⟨hn, hchildren⟩, hns⟩ := Node.everywhere_cons.mp h
    rw [outlineLines_cons, nodeOutline_eq, List.forall_mem_append, List.forall_mem_cons]
    exact ⟨⟨newline_not_mem_line hn level, ihc hchildren (level + 1)⟩, ihn hns level⟩

/-- **The lines of an outline**, as a reader of the text finds them. -/
theorem splitOn_outline {f : Forest} (hf : f ≠ []) (h : Node.Everywhere Node.Proper f)
    (level : Int) :
    (f.outline level).toList.splitOn '\n' = (outlineLines level f).map String.toList := by
  have hne : outlineLines level f ≠ [] := by
    obtain ⟨n, ns, rfl⟩ := List.exists_cons_of_ne_nil hf
    rw [outlineLines_cons, nodeOutline_eq]
    simp
  rw [outline, String.toList_intercalate]
  refine List.splitOn_intercalate '\n' ?_ (by simpa using hne)
  intro line hline
  obtain ⟨s, hs, rfl⟩ := List.mem_map.mp hline
  exact newline_not_mem_outlineLines h level s hs

/-- **A line shows an entry of a roll**: its node, at the level that its address says where the
trees of the forest stand at a given one. -/
def Shows (level : Int) (line : List Char) (x : List Nat × Node) : Prop :=
  x.2.ShownAt (level + (x.1.length - 1)) line

/-- **The lines follow the roll.** -/
theorem forall₂_outlineLines (level : Int) (f : List Node) (is : List Nat) (i : Nat) :
    List.Forall₂ (fun line x => Shows level (String.toList line) x)
      (outlineLines (level + is.length) f) (Node.rollAll is i f) := by
  induction f using Node.children_induction generalizing is i with
  | nil => exact .nil
  | cons n ns ihc ihn =>
    have hlength : ((is ++ [i]).length : Int) = is.length + 1 := by
      rw [List.length_append, List.length_singleton, Int.natCast_add, Int.natCast_one]
    have hroot : Shows level (outlineIndent (level + is.length) ++ summary n).toList
        (is ++ [i], n.bare) := by
      rw [Shows, hlength, Int.add_sub_cancel, Node.ShownAt, Node.label_bare]
      exact shownAt_line _ n
    have hchildren := ihc (is ++ [i]) 0
    rw [hlength, ← Int.add_assoc] at hchildren
    rw [outlineLines_cons, nodeOutline_eq, Node.rollAll_cons, Node.roll_eq, List.cons_append,
      List.cons_append]
    exact .cons hroot (List.rel_append hchildren (ihn is (i + 1)))

/-! ### The roll and the walk -/

theorem length_entered_visits (f : List Node) (parent : Option Node) :
    (entered (visits parent f)).length = Node.sizes f := by
  induction f using Node.children_induction generalizing parent with
  | nil => rfl
  | cons n ns ihc ihn =>
    rw [visits_cons, nodeVisits_eq, entered_append, List.length_append, ihn, entered_enter,
      entered_append, entered_leave, List.length_cons, List.length_append, ihc, Node.sizes,
      Node.size_eq]
    rfl

theorem forall₂_rollAll_entered (f : List Node) (is : List Nat) (i : Nat) (parent : Option Node) :
    List.Forall₂ (fun (x : List Nat × Node) (y : Node × Option Node) =>
        ∃ k ks, x = (is ++ (i + k) :: ks, y.1.bare) ∧ node? f k ks = some y.1)
      (Node.rollAll is i f) (entered (visits parent f)) := by
  induction f using Node.children_induction generalizing is i parent with
  | nil => exact .nil
  | cons n ns ihc ihn =>
    rw [Node.rollAll_cons, Node.roll_eq, visits_cons, nodeVisits_eq, entered_append, entered_enter,
      entered_append, entered_leave]
    refine List.rel_append (.cons ⟨0, [], rfl, rfl⟩ ?_) ?_
    · have hend : entered ([] : List Visit) = [] := rfl
      rw [hend, List.append_nil]
      refine (ihc (is ++ [i]) 0 (some n)).imp ?_
      rintro x y ⟨k, ks, rfl, hy⟩
      refine ⟨0, k :: ks, ?_, hy⟩
      rw [List.append_assoc, Nat.zero_add, List.singleton_append, Nat.add_zero]
    · refine (ihn is (i + 1) parent).imp ?_
      rintro x y ⟨k, ks, rfl, hy⟩
      exact ⟨k + 1, ks, by rw [Nat.add_right_comm, Nat.add_assoc], hy⟩

/-- **The roll follows the walk**: each node of the walk stands at the address that the roll has in
the same place. -/
theorem forall₂_roll_walk (f : Forest) :
    List.Forall₂ (fun (x : List Nat × Node) (y : Node × Option Node) =>
      ∃ i is, x = (i :: is, y.1.bare) ∧ f.node? i is = some y.1) f.roll f.walk := by
  rw [roll, walk_eq]
  refine (forall₂_rollAll_entered f [] 0 none).imp ?_
  rintro x y ⟨k, ks, rfl, hy⟩
  exact ⟨k, ks, by rw [List.nil_append, Nat.zero_add], hy⟩

theorem exists_getElem?_of_forall₂ {α β : Type} {R : α → β → Prop} {l : List α} {l' : List β}
    (h : List.Forall₂ R l l') {k : Nat} {b : β} (hb : l'[k]? = some b) :
    ∃ a, l[k]? = some a ∧ R a b := by
  obtain ⟨hk, rfl⟩ := List.getElem?_eq_some_iff.mp hb
  have hk' : k < l.length := h.length_eq ▸ hk
  exact ⟨l[k], List.getElem?_eq_getElem hk', h.get hk' hk⟩

end Forest

namespace Template

/-- **The outline of a template has one line for each node.** The lines that a reader of the text
finds are as many as the forest has nodes. Each is the line of the node that a walk comes to under
its number. If that node stands at the address `i :: is`, the line begins with two spaces for each
of `level + is.length` levels, and goes on with the name of the element behind `<`, or with the word
for a text or a comment. -/
theorem outline_read (limit level : Int) (text : String) (hne : (read limit text).forest ≠ []) :
    let f := (read limit text).forest
    let lines := (f.outline level).toList.splitOn '\n'
    lines.length = Node.sizes f ∧ f.walk.length = Node.sizes f ∧
      ∀ (k : Nat) (n : Node) (parent : Option Node), f.walk[k]? = some (n, parent) →
        ∃ i is line, f.node? i is = some n ∧ f.roll[k]? = some (i :: is, n.bare) ∧
          lines[k]? = some line ∧ n.ShownAt (level + is.length) line := by
  intro f lines
  have hlines : List.Forall₂ (Forest.Shows level) lines f.roll := by
    have h := Forest.forall₂_outlineLines level f [] 0
    rw [List.length_nil, Int.natCast_zero, Int.add_zero] at h
    rwa [← List.forall₂_map_left_iff, ← Forest.splitOn_outline hne (proper_read limit text)] at h
  have hroll := Forest.forall₂_roll_walk f
  have hwalk : f.walk.length = Node.sizes f := by
    rw [Forest.walk_eq, Forest.length_entered_visits]
  refine ⟨by rw [hlines.length_eq, hroll.length_eq, hwalk], hwalk, ?_⟩
  intro k n parent hk
  obtain ⟨x, hx, i, is, rfl, hnode⟩ := Forest.exists_getElem?_of_forall₂ hroll hk
  obtain ⟨line, hline, hshown⟩ := Forest.exists_getElem?_of_forall₂ hlines hx
  refine ⟨i, is, line, hnode, hx, hline, ?_⟩
  rwa [Forest.Shows, List.length_cons, Int.natCast_add, Int.natCast_one, Int.add_sub_cancel,
    Node.ShownAt, Node.label_bare] at hshown

/-- Line breaks in a value, in a comment and in a text, and a level below the first. -/
theorem outline_read_breaks :
    let f := (read 8 "<a b='x\ny'><!--\n-->p\nq</a>").forest
    let lines := (f.outline (-1)).toList.splitOn '\n'
    f ≠ [] ∧ lines.length = 3 ∧
      ∃ n parent line, f.walk[1]? = some (n, parent) ∧ lines[1]? = some line ∧
        n.label = "Comment(" ∧ ∃ i is, f.node? i is = some n ∧ n.ShownAt (-1 + is.length) line := by
  intro f lines
  have hne : f ≠ [] := List.ne_nil_of_length_pos (by decide +kernel)
  have hall := outline_read 8 (-1) "<a b='x\ny'><!--\n-->p\nq</a>" hne
  have hcomment : (f.walk[1]?.map fun x => x.1.label) = some "Comment(" := by decide +kernel
  obtain ⟨⟨n, parent⟩, hn, hlabel⟩ := Option.map_eq_some_iff.mp hcomment
  obtain ⟨i, is, line, hnode, -, hline, hshown⟩ := hall.2.2 1 n parent hn
  refine ⟨hne, ?_, n, parent, line, hn, hline, hlabel, i, is, hnode, hshown⟩
  rw [hall.1]
  decide +kernel

end Template

end MiniTemplate
