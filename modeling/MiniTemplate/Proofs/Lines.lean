import MiniTemplate.Markup.Write
import MiniTemplate.Proofs.Traversal

/-!
# The lines of written markup

The writer follows a traversal and keeps a sheet of lines with a level. What it puts down
can be said by recursion on the forest instead: `MiniTemplate.Markup.lines` gives the lines of
a forest at a level. A traversal leaves the sheet with these lines more and the level
unchanged (`MiniTemplate.Markup.foldl_visits`), except inside an inline element, whose texts
were written with it (`MiniTemplate.Markup.foldl_visits_inline`).

The recursion does not use what the writer is made of. A line is spaces and characters here
(`MiniTemplate.Text.spaces`), a tag begins as it is spelled (`MiniTemplate.Markup.opening`), and
an element is inline if the texts in it are all there is (`MiniTemplate.Node.texts?`).
`MiniTemplate.Markup.nodeLines_element` says the same in the words of the writer.
-/

namespace MiniTemplate

/-! ### Parts of a line -/

/-- So many spaces; none for a negative number. -/
def Text.spaces (n : Int) : String := String.ofList (List.replicate n.toNat ' ')

theorem Sheet.put_eq (s : Sheet) (indent : Int) (content : String) :
    s.put indent content =
      ⟨(Text.spaces (s.level * indent) ++ content) :: s.written, s.level⟩ := rfl

/-- The contents of nodes that are all texts. -/
def Node.texts? : List Node → Option (List String)
  | [] => some []
  | .text content _ :: ns => (texts? ns).map (content :: ·)
  | .element .. :: _ | .comment .. :: _ => none

theorem Node.exists_texts?_of_all {ns : List Node} (h : ns.all Node.isText) :
    ∃ contents, texts? ns = some contents ∧
      contents.map Text.trim = ns.map Node.trimmedText := by
  induction ns with
  | nil => exact ⟨[], rfl, rfl⟩
  | cons n ns ih =>
    rw [List.all_cons, Bool.and_eq_true] at h
    obtain ⟨hn, hns⟩ := h
    obtain ⟨contents, hcontents, htrim⟩ := ih hns
    cases n with
    | text content span =>
      refine ⟨content :: contents, by rw [texts?, hcontents]; rfl, ?_⟩
      rw [List.map_cons, List.map_cons, htrim, Node.trimmedText]
    | element _ _ _ _ _ => exact absurd hn (by simp [Node.isText])
    | comment _ _ => exact absurd hn (by simp [Node.isText])

theorem Node.texts?_eq_none {ns : List Node} (h : ns.all Node.isText = false) :
    texts? ns = none := by
  induction ns with
  | nil => exact absurd h (by simp)
  | cons n ns ih =>
    cases n with
    | text content span =>
      rw [texts?, ih (by simpa [Node.isText] using h), Option.map_none]
    | element _ _ _ _ _ => rfl
    | comment _ _ => rfl

namespace Markup

variable {indent : Int}

/-- How a tag begins: with its name and, behind a space, its attributes, if they have a text. -/
def opening (name : String) (attributes : List String) : String :=
  let text := " ".intercalate attributes
  "<" ++ name ++ (if text = "" then "" else " " ++ text)

theorem tagHead_eq (name : String) (attributes : List String) :
    tagHead name attributes = opening name attributes := by
  rw [tagHead, opening]
  by_cases h : " ".intercalate attributes = ""
  · simp [h]
  · simp [h, String.append_assoc]

/-! ### Lines by recursion -/

mutual

/-- The lines of one tree. -/
def nodeLines (indent level : Int) : Node → List String
  | .text content _ =>
    if Text.trim content = "" then [] else [Text.spaces (level * indent) ++ Text.trim content]
  | .comment content _ => [Text.spaces (level * indent) ++ ("<!--" ++ content ++ "-->")]
  | .element name attributes children selfClosing _ =>
    let margin := Text.spaces (level * indent)
    let head := opening name (attributes.map attributeText)
    if children.isEmpty then
      [margin ++ (if selfClosing then head ++ " />" else head ++ "></" ++ name ++ ">")]
    else
      match Node.texts? children with
      | some contents =>
        [margin ++ (head ++ ">" ++ String.join (contents.map Text.trim) ++ "</" ++ name ++ ">")]
      | none =>
        (margin ++ (head ++ ">")) ::
          (lines indent (level + 1) children ++ [margin ++ ("</" ++ name ++ ">")])

/-- **The lines of a forest** at a level. -/
def lines (indent level : Int) : List Node → List String
  | [] => []
  | n :: ns => nodeLines indent level n ++ lines indent level ns

end

@[simp] theorem lines_nil (indent level : Int) : lines indent level [] = [] := rfl

@[simp] theorem lines_cons (indent level : Int) (n : Node) (ns : List Node) :
    lines indent level (n :: ns) = nodeLines indent level n ++ lines indent level ns := rfl

/-- The lines of an element, in the words of the writer. -/
theorem nodeLines_element (indent level : Int) (name : String) (as : List Attribute)
    (children : List Node) (selfClosing : Bool) (span : Option Span) :
    nodeLines indent level (.element name as children selfClosing span) =
      let margin := Text.spaces (level * indent)
      let head := tagHead name (as.map attributeText)
      if children.isEmpty then
        [margin ++ (if selfClosing then head ++ " />" else head ++ "></" ++ name ++ ">")]
      else if (Node.element name as children selfClosing span).isInline then
        [margin ++ (head ++ ">" ++ String.join (children.map Node.trimmedText) ++
          "</" ++ name ++ ">")]
      else
        (margin ++ (head ++ ">")) ::
          (lines indent (level + 1) children ++ [margin ++ ("</" ++ name ++ ">")]) := by
  simp only [nodeLines, tagHead_eq]
  by_cases hempty : children.isEmpty
  · rw [if_pos hempty, if_pos hempty]
  rw [if_neg hempty, if_neg hempty]
  by_cases htexts : children.all Node.isText
  · obtain ⟨contents, hcontents, htrim⟩ := Node.exists_texts?_of_all htexts
    rw [hcontents, if_pos (by simp [Node.isInline, hempty, htexts]), ← htrim]
  · rw [Node.texts?_eq_none (by simpa using htexts), if_neg (by simp [Node.isInline, htexts])]

/-! ### What a traversal leaves on the sheet -/

theorem visit_leave (s : Sheet) (n : Node) (parent : Option Node) :
    visit indent s ⟨.leave, n, parent⟩ = leave indent s n := rfl

theorem visit_enter {parent : Option Node} (hp : parent.any Node.isInline = false) (s : Sheet)
    (n : Node) : visit indent s ⟨.enter, n, parent⟩ = enter indent s n := by
  simp [visit, hp]

theorem visit_enter_inline {parent : Option Node} (hp : parent.any Node.isInline = true)
    (s : Sheet) (n : Node) : visit indent s ⟨.enter, n, parent⟩ = s := by
  simp [visit, hp]

/-- The texts of an inline element leave the sheet alone. -/
theorem foldl_visits_inline {parent : Option Node} (hp : parent.any Node.isInline = true)
    (f : List Node) (hf : f.all Node.isText) (s : Sheet) :
    (Forest.visits parent f).foldl (visit indent) s = s := by
  induction f with
  | nil => rfl
  | cons n ns ih =>
    rw [List.all_cons, Bool.and_eq_true] at hf
    obtain ⟨hn, hns⟩ := hf
    cases n with
    | text content span =>
      rw [Forest.visits_cons, List.foldl_append, Forest.nodeVisits, List.foldl_cons,
        List.foldl_cons, visit_enter_inline hp, visit_leave, leave]
      exact ih hns
    | element _ _ _ _ _ => exact absurd hn (by simp [Node.isText])
    | comment _ _ => exact absurd hn (by simp [Node.isText])

/-- **A traversal writes the lines of its forest**, at the level it finds and leaves. -/
theorem foldl_visits (f : List Node) {parent : Option Node}
    (hp : parent.any Node.isInline = false) (s : Sheet) :
    (Forest.visits parent f).foldl (visit indent) s =
      ⟨(lines indent s.level f).reverse ++ s.written, s.level⟩ := by
  induction f using Node.forest_induction generalizing parent s with
  | nil => rfl
  | text content span ns ih =>
    rw [Forest.visits_cons, List.foldl_append, Forest.nodeVisits, List.foldl_cons,
      List.foldl_cons, visit_enter hp, visit_leave, leave, List.foldl_nil, enter, ih hp]
    simp only [lines_cons, nodeLines, String.isEmpty_iff]
    split <;> simp [Sheet.put_eq]
  | comment content span ns ih =>
    rw [Forest.visits_cons, List.foldl_append, Forest.nodeVisits, List.foldl_cons,
      List.foldl_cons, visit_enter hp, visit_leave, leave, List.foldl_nil, enter, ih hp]
    simp [nodeLines, Sheet.put_eq]
  | element name as children selfClosing span ns ihc ihn =>
    rw [Forest.visits_cons, List.foldl_append, Forest.nodeVisits, List.foldl_cons,
      List.foldl_append, visit_enter hp, List.foldl_cons, List.foldl_nil, visit_leave, ihn hp]
    simp only [lines_cons, nodeLines_element, enter, leave]
    -- without children, inline, and as a block, where the level comes back to what it was
    by_cases hempty : children.isEmpty
    · rw [List.isEmpty_iff] at hempty
      subst hempty
      simp [Sheet.put_eq]
    by_cases hinline : (Node.element name as children selfClosing span).isInline
    · have htexts : children.all Node.isText := by
        rw [Node.isInline, Bool.and_eq_true] at hinline
        exact hinline.2
      have hparent : (some (Node.element name as children selfClosing span)).any Node.isInline :=
        hinline
      rw [foldl_visits_inline hparent children htexts]
      simp [hempty, hinline, Sheet.put_eq]
    · have hparent : (some (Node.element name as children selfClosing span)).any Node.isInline =
          false := by simpa using hinline
      rw [ihc hparent]
      simp [hempty, hinline, Sheet.put_eq, Sheet.deeper, Sheet.shallower]

/-- **What is written** is the lines of the forest, from the first level on. -/
theorem write_eq (indent : Int) (f : Forest) :
    write indent f = "\n".intercalate (lines indent 0 f) := by
  rw [write, Forest.traverse_eq, foldl_visits f (by rfl)]
  simp [Sheet.text, Sheet.lines, Sheet.empty]

end Markup

end MiniTemplate
