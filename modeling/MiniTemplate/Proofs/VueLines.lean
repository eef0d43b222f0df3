import MiniTemplate.Proofs.Lines
import MiniTemplate.Vue.Convert

/-!
# The lines of a conversion

A conversion writes along a traversal, with a level that goes down and up again. As for
markup, what it writes is said by recursion on the forest: `MiniTemplate.Vue.layout` gives the
lines of a forest at a level, and these are the lines of the conversion
(`MiniTemplate.Vue.lines_eq`). There is no inline layout here, so a visit never depends on the
parent.

The spaces, the tags and the names of tags are spelled out here, too, and
`MiniTemplate.Vue.nodeLayout_element` has the words of the conversion for them.
-/

namespace MiniTemplate.Vue

variable {t : Target}

/-! ### Lines by recursion -/

mutual

/-- The lines of one tree. -/
def nodeLayout (t : Target) (level : Int) : Node → List String
  | .text content _ =>
    if Text.trim content = "" then [] else [Text.spaces (level * t.indent) ++ Text.trim content]
  | .comment content _ => [Text.spaces (level * t.indent) ++ ("<!--" ++ content ++ "-->")]
  | .element name attributes children _ _ =>
    let margin := Text.spaces (level * t.indent)
    let tag := (t.tags.get? name).getD name
    let head := Markup.opening tag ((bindings t attributes).map Binding.text)
    if children.isEmpty then
      [margin ++ (if tag ∈ t.voidTags then head ++ " />" else head ++ "></" ++ tag ++ ">")]
    else
      (margin ++ (head ++ ">")) ::
        (layout t (level + 1) children ++ [margin ++ ("</" ++ tag ++ ">")])

/-- **The lines of a forest** at a level. -/
def layout (t : Target) (level : Int) : List Node → List String
  | [] => []
  | n :: ns => nodeLayout t level n ++ layout t level ns

end

@[simp] theorem layout_nil (t : Target) (level : Int) : layout t level [] = [] := rfl

@[simp] theorem layout_cons (t : Target) (level : Int) (n : Node) (ns : List Node) :
    layout t level (n :: ns) = nodeLayout t level n ++ layout t level ns := rfl

theorem Target.tagName_eq (t : Target) (name : String) :
    t.tagName name = (t.tags.get? name).getD name := rfl

theorem Target.isVoid_iff {tag : String} : t.isVoid tag ↔ tag ∈ t.voidTags := List.contains_iff_mem

/-- The lines of an element, in the words of the conversion. -/
theorem nodeLayout_element (t : Target) (level : Int) (name : String) (as : List Attribute)
    (children : List Node) (selfClosing : Bool) (span : Option Span) :
    nodeLayout t level (.element name as children selfClosing span) =
      if children.isEmpty then
        [Text.spaces (level * t.indent) ++
          (if t.isVoid (t.tagName name) then head t name as ++ " />"
            else head t name as ++ "></" ++ t.tagName name ++ ">")]
      else
        (Text.spaces (level * t.indent) ++ (head t name as ++ ">")) ::
          (layout t (level + 1) children ++
            [Text.spaces (level * t.indent) ++ ("</" ++ t.tagName name ++ ">")]) := by
  simp only [nodeLayout, head, Markup.tagHead_eq, Target.tagName_eq,
    Target.isVoid_iff]

/-! ### What a traversal leaves on the sheet -/

theorem visit_enter (s : Sheet) (n : Node) (parent : Option Node) :
    visit t s ⟨.enter, n, parent⟩ = enter t s n := rfl

theorem visit_leave (s : Sheet) (n : Node) (parent : Option Node) :
    visit t s ⟨.leave, n, parent⟩ = leave t s n := rfl

/-- **A traversal writes the lines of its forest**, at the level it finds and leaves. -/
theorem foldl_visits (f : List Node) (parent : Option Node) (s : Sheet) :
    (Forest.visits parent f).foldl (visit t) s =
      ⟨(layout t s.level f).reverse ++ s.written, s.level⟩ := by
  induction f using Node.forest_induction generalizing parent s with
  | nil => rfl
  | text content span ns ih =>
    rw [Forest.visits_cons, List.foldl_append, Forest.nodeVisits, List.foldl_cons,
      List.foldl_cons, visit_enter, visit_leave, leave, List.foldl_nil, enter, ih]
    simp only [layout_cons, nodeLayout, String.isEmpty_iff]
    split <;> simp [Sheet.put_eq]
  | comment content span ns ih =>
    rw [Forest.visits_cons, List.foldl_append, Forest.nodeVisits, List.foldl_cons,
      List.foldl_cons, visit_enter, visit_leave, leave, List.foldl_nil, enter, ih]
    simp [nodeLayout, Sheet.put_eq]
  | element name as children selfClosing span ns ihc ihn =>
    rw [Forest.visits_cons, List.foldl_append, Forest.nodeVisits, List.foldl_cons,
      List.foldl_append, visit_enter, List.foldl_cons, List.foldl_nil, visit_leave, ihn, ihc]
    simp only [layout_cons, nodeLayout_element, enter, leave]
    -- a block comes back to the level it began at
    by_cases hempty : children.isEmpty
    · rw [List.isEmpty_iff] at hempty
      subst hempty
      by_cases hvoid : t.isVoid (t.tagName name) <;> simp [Sheet.put_eq, hvoid]
    · simp [hempty, Sheet.put_eq, Sheet.deeper, Sheet.shallower]

/-- **The lines of a conversion** are those of the forest, from the first level on. -/
theorem lines_eq (t : Target) (f : Forest) : lines t f = layout t 0 f := by
  rw [lines, Forest.traverse_eq, foldl_visits]
  simp [Sheet.lines, Sheet.empty]

end MiniTemplate.Vue
