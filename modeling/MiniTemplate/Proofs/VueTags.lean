import MiniTemplate.Proofs.VueLines
import MiniTemplate.Reading.Template

/-!
# How an element is written in the target

A conversion writes while it goes through a forest. What it writes for an element is what it puts
down from entering the element to leaving it; a `MiniTemplate.Forest.Passing` is one place of the
traversal where this happens. What was written before stays, and so does what is written there, so
these lines are a part of the conversion that begins where the sheet ended on the way in.

An element without children is one line, and it depends on the target whether it ends in ` />` or
in an end tag. An element with children is a block, and here the target is not asked: a void tag
gets an end tag as well.

## Main statements

* `MiniTemplate.Vue.lines_of_passing`: every element of a forest is written in one of three forms,
  and as `<tag />` exactly if it has no children and its tag is void.
* `MiniTemplate.Vue.not_forall_void_closed`: it is not enough that its tag is void.
-/

namespace MiniTemplate

open Node

namespace Forest

/-- **A place of a traversal where a node is passed**, from entering it to leaving it. -/
structure Passing (f : Forest) (n : Node) where
  parent : Option Node
  earlier : List Visit
  later : List Visit
  eq_traverse : earlier ++ nodeVisits parent n ++ later = f.traverse

theorem infix_visits_of_mem {n : Node} {f : List Node} (h : n ∈ f) (parent : Option Node) :
    nodeVisits parent n <:+: visits parent f := by
  induction f with
  | nil => exact absurd h List.not_mem_nil
  | cons m f ih =>
    rw [visits_cons]
    rcases List.mem_cons.mp h with rfl | h
    · exact (List.prefix_append _ _).isInfix
    · exact (ih h).trans (List.suffix_append _ _).isInfix

/-- A node that occurs is passed on the way through the forest. -/
theorem exists_infix_visits {n : Node} {f : List Node} (h : Occurs n f)
    (parent : Option Node) : ∃ p, nodeVisits p n <:+: visits parent f := by
  induction h generalizing parent with
  | here hmem => exact ⟨parent, infix_visits_of_mem hmem parent⟩
  | @within m ns hmem _ ih =>
    obtain ⟨p, hp⟩ := ih (some m)
    have hchildren : visits (some m) m.children <:+: nodeVisits parent m := by
      rw [nodeVisits_eq]
      exact ((List.prefix_append _ _).isInfix).trans (List.suffix_cons _ _).isInfix
    exact ⟨p, (hp.trans hchildren).trans (infix_visits_of_mem hmem parent)⟩

/-- **Every node of a forest is passed.** -/
theorem nonempty_passing {n : Node} {f : Forest} (h : Occurs n f) : Nonempty (Passing f n) := by
  obtain ⟨p, earlier, later, heq⟩ := exists_infix_visits h none
  exact ⟨⟨p, earlier, later, heq.trans (traverse_eq f).symm⟩⟩

end Forest

namespace Vue

open Forest

variable {t : Target} {f : Forest} {n : Node}

/-- **What is written stays**: a visit puts down lines behind those that are there. -/
theorem prefix_lines_visit (t : Target) (s : Sheet) (v : Visit) :
    s.lines <+: (visit t s v).lines := by
  obtain ⟨passage, n, parent⟩ := v
  rw [Sheet.lines, Sheet.lines, List.reverse_prefix]
  cases passage with
  | enter =>
    rw [visit_enter]
    cases n with
    | text content span =>
      rw [enter]
      split
      · exact List.suffix_rfl
      · exact List.suffix_cons _ _
    | comment content span => exact List.suffix_cons _ _
    | element name as children selfClosing span =>
      rw [enter]
      split_ifs
      all_goals exact List.suffix_cons _ _
  | leave =>
    rw [visit_leave]
    cases n with
    | text content span => exact List.suffix_rfl
    | comment content span => exact List.suffix_rfl
    | element name as children selfClosing span =>
      rw [leave]
      split
      · exact List.suffix_rfl
      · exact List.suffix_cons _ _

theorem prefix_lines_foldl (t : Target) (s : Sheet) (vs : List Visit) :
    s.lines <+: (vs.foldl (visit t) s).lines := by
  induction vs generalizing s with
  | nil => exact List.prefix_rfl
  | cons v vs ih => exact (prefix_lines_visit t s v).trans (ih _)

/-- **A node is passed by writing its lines**, at the level of the sheet. -/
theorem lines_foldl_nodeVisits (t : Target) (s : Sheet) (parent : Option Node) (n : Node) :
    ((nodeVisits parent n).foldl (visit t) s).lines = s.lines ++ nodeLayout t s.level n := by
  have h := foldl_visits (t := t) [n] parent s
  rw [visits_cons, visits_nil, List.append_nil] at h
  simp [h, Sheet.lines]

/-- The sheet on which a node is entered. -/
def sheet (t : Target) (p : Passing f n) : Sheet := p.earlier.foldl (visit t) .empty

/-- The lines of a node stand in the conversion where the sheet ended on the way in. -/
theorem prefix_lines_passing (t : Target) (p : Passing f n) :
    (sheet t p).lines ++ nodeLayout t (sheet t p).level n <+: lines t f := by
  rw [lines, ← p.eq_traverse, List.foldl_append, List.foldl_append, ← lines_foldl_nodeVisits]
  exact prefix_lines_foldl t _ _

/-! ### The three forms -/

/-- An element is one line that ends in ` />` exactly if it has no children and a void tag. -/
theorem nodeLayout_element_eq_iff (t : Target) (level : Int) (name : String)
    (as : List Attribute) (children : List Node) (selfClosing : Bool) (span : Option Span) :
    nodeLayout t level (.element name as children selfClosing span) =
        [Text.spaces (level * t.indent) ++ (head t name as ++ " />")] ↔
      children = [] ∧ t.isVoid (t.tagName name) := by
  rw [nodeLayout_element]
  by_cases hempty : children = []
  · by_cases hvoid : t.isVoid (t.tagName name)
    · simp [hempty, hvoid]
    · rw [if_pos (List.isEmpty_iff.mpr hempty), if_neg hvoid]
      refine iff_of_false (fun h => ?_) fun h => hvoid h.2
      -- behind the same opening, one goes on with a bracket and the other with a blank
      have htail := congrArg String.toList (List.singleton_inj.mp h)
      simp [List.append_assoc] at htail
  · rw [if_neg (by simpa using hempty)]
    refine iff_of_false (fun h => ?_) fun h => hempty h.1
    have hlength := congrArg List.length h
    simp at hlength

/-- **How the elements of a forest are written.** Every node of a forest is passed in the traversal.
Wherever an element is passed, what the conversion puts down from entering it to leaving it is a
part of the lines of the conversion. This part is the one line `<tag … />` exactly if the element
has no children and its tag is void in the target. Without children and with another tag it is the
one line `<tag …></tag>`; with children it is a block, whatever the tag: the line `<tag …>`, the
lines of the children one level deeper, and the line `</tag>`. -/
theorem lines_of_passing (t : Target) (f : Forest) :
    (∀ n, Occurs n f → Nonempty (Passing f n)) ∧
      ∀ (name : String) (as : List Attribute) (children : List Node) (selfClosing : Bool)
        (span : Option Span) (p : Passing f (.element name as children selfClosing span)),
        let s := sheet t p
        let tag := (t.tags.get? name).getD name
        let margin := Text.spaces (s.level * t.indent)
        ∃ part after,
          ((nodeVisits p.parent (.element name as children selfClosing span)).foldl
              (visit t) s).lines = s.lines ++ part ∧
            lines t f = s.lines ++ part ++ after ∧
            (part = [margin ++ (head t name as ++ " />")] ↔
              children = [] ∧ tag ∈ t.voidTags) ∧
            (children = [] → tag ∉ t.voidTags →
              part = [margin ++ (head t name as ++ "></" ++ tag ++ ">")]) ∧
            (children ≠ [] → part = (margin ++ (head t name as ++ ">")) ::
              (layout t (s.level + 1) children ++ [margin ++ ("</" ++ tag ++ ">")])) := by
  refine ⟨fun n => nonempty_passing, fun name as children selfClosing span p => ?_⟩
  intro s tag margin
  obtain ⟨after, hafter⟩ := prefix_lines_passing t p
  refine ⟨_, after, lines_foldl_nodeVisits t s p.parent _, hafter.symm,
    ?_, ?_, ?_⟩
  · rw [nodeLayout_element_eq_iff, Target.isVoid_iff, Target.tagName_eq]
  · rintro rfl hvoid
    have hnot : ¬t.isVoid (t.tagName name) := mt Target.isVoid_iff.mp hvoid
    rw [nodeLayout_element, if_pos List.isEmpty_nil, if_neg hnot, Target.tagName_eq]
  · intro hchildren
    rw [nodeLayout_element, if_neg (by simpa using hchildren), Target.tagName_eq]

/-- Two images, the first of them without children. The conversion puts it down as the second
line. -/
theorem lines_of_passing_image :
    let image := Node.element "image" [.plain "src" "a"] [] false none
    let view := Node.element "view" [] [image, .element "image" [] [.text "b" none] false none]
      false none
    Occurs image [view] ∧ "img" ∈ Vue.Target.standard.voidTags ∧
      ∃ after, lines .standard [view] = "<div>" :: "  <img src=\"a\" />" :: after := by
  intro image view
  let p : Passing [view] image := ⟨some view, [⟨.enter, view, none⟩], _, by
    rw [Forest.traverse_eq]
    rfl⟩
  obtain ⟨part, after, -, hlines, hpart, -⟩ :=
    (lines_of_passing .standard [view]).2 "image" [.plain "src" "a"] [] false none p
  rw [hpart.mpr ⟨rfl, by decide⟩] at hlines
  refine ⟨.within List.mem_cons_self (.here List.mem_cons_self), by decide, after, ?_⟩
  rw [hlines]
  rfl

/-- **A void tag may have an end tag**: an image with a text in it is written as a block. -/
theorem not_forall_void_closed :
    convert .standard (Template.read 256 "<image>a</image>").forest = "<img>\n  a\n</img>" ∧
      ¬∀ (t : Target) (f : Forest) (name : String) (as : List Attribute) (children : List Node)
        (selfClosing : Bool) (span : Option Span)
        (p : Passing f (.element name as children selfClosing span)),
        (t.tags.get? name).getD name ∈ t.voidTags → ∃ after, lines t f = (sheet t p).lines ++
          [Text.spaces ((sheet t p).level * t.indent) ++ (head t name as ++ " />")] ++ after := by
  constructor
  · rw [convert, lines_eq]
    decide +kernel
  · intro h
    let image := Node.element "image" [] [.text "a" none] false none
    let p : Passing [image] image := ⟨none, [], [], by
      rw [Forest.traverse_eq]
      rfl⟩
    obtain ⟨after, hlines⟩ := h .standard [image] _ _ _ _ _ p (by decide)
    have hblock : layout .standard 0 [image] = ["<img>", "  a", "</img>"] := by decide +kernel
    have hline : head .standard "image" [] ++ " />" = "<img />" := by decide +kernel
    rw [lines_eq, hblock, hline] at hlines
    exact absurd (List.cons.inj hlines).1 (by decide)

end Vue

end MiniTemplate
