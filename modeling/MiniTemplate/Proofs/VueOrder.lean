import MiniTemplate.Proofs.AttributeViews
import MiniTemplate.Proofs.VueLines

/-!
# The order of the attributes in a conversion

An element may have its plain attributes, its directives and the two directives that name the
variables of a loop in any order. The plain attributes are converted among themselves, and so are
the directives. A variable of a loop is named by the last directive that does so, wherever it
stands, before the loop or behind it; such a directive shares a table with the others, but becomes
nothing. So what matters is each of the parts, and not how they are mixed
(`MiniTemplate.Attribute.SameParts`).

For a directive this is a fact on tables: a name keeps the place where it came first, and what other
names are given in between does not show (`MiniTemplate.Table.filter_ofList`).

## Main statements

* `MiniTemplate.Vue.convert_remixed`: forests whose elements have the same parts, mixed in any way,
  have the same conversion.
-/

namespace MiniTemplate

namespace Attribute

/-- The directives that name the variables of a loop. -/
def aliases : List String := ["wx:for-item", "wx:for-index"]

/-- **The parts of an element's attributes are the same**: the plain attributes, the directives
apart from those that name the variables of a loop, each in their order, and for either variable the
last directive that names it. -/
structure SameParts (as bs : List Attribute) : Prop where
  plain : (as.filter fun a => !a.isDirective) = bs.filter fun a => !a.isDirective
  directives : (as.filterMap directive?).filter (fun d => d.name ∉ aliases) =
    (bs.filterMap directive?).filter fun d => d.name ∉ aliases
  last : ∀ k ∈ aliases, ((as.filterMap directive?).filter (·.name == k)).getLast? =
    ((bs.filterMap directive?).filter (·.name == k)).getLast?

theorem SameParts.refl (as : List Attribute) : SameParts as as :=
  ⟨rfl, rfl, fun _ _ => rfl⟩

end Attribute

namespace Node

/-- **Forests that are the same but for the mixing**: they have the same texts and comments and the
same names of elements, and each element has the same parts of attributes in both. -/
inductive Remixed : List Node → List Node → Prop
  | nil : Remixed [] []
  | text {content : String} {span span' : Option Span} {f g : List Node} (rest : Remixed f g) :
    Remixed (.text content span :: f) (.text content span' :: g)
  | comment {content : String} {span span' : Option Span} {f g : List Node}
    (rest : Remixed f g) : Remixed (.comment content span :: f) (.comment content span' :: g)
  | element {name : String} {as bs : List Attribute} {children children' : List Node}
    {selfClosing selfClosing' : Bool} {span span' : Option Span} {f g : List Node}
    (parts : Attribute.SameParts as bs) (inner : Remixed children children')
    (rest : Remixed f g) :
    Remixed (.element name as children selfClosing span :: f)
      (.element name bs children' selfClosing' span' :: g)

theorem Remixed.refl (f : List Node) : Remixed f f := by
  induction f using forest_induction with
  | nil => exact .nil
  | text content span ns ih => exact .text ih
  | comment content span ns ih => exact .comment ih
  | element name as children selfClosing span ns ihc ihn => exact .element (.refl as) ihc ihn

theorem Remixed.isEmpty_eq {f g : List Node} (h : Remixed f g) : f.isEmpty = g.isEmpty := by
  cases h <;> rfl

end Node

namespace Vue

open Attribute Node

variable {as bs : List Attribute}

/-- A directive that names a variable of a loop becomes nothing. -/
theorem convertDirective_of_mem_aliases {k : String} (h : k ∈ aliases) (d : Directive)
    (loop : Loop) : convertDirective k d loop = none := by
  rcases List.mem_cons.mp h with rfl | h
  · rfl
  · obtain rfl := List.mem_singleton.mp h
    rfl

/-- The directives that name variables can be left out of a conversion. -/
theorem filterMap_convertDirective (as : List Attribute) (loop : Loop) :
    ((directives as).entries.filterMap fun e => convertDirective e.1 e.2 loop) =
      ((directives as).entries.filter fun e => e.1 ∉ aliases).filterMap
        fun e => convertDirective e.1 e.2 loop := by
  rw [List.filterMap_filter]
  refine List.filterMap_congr fun e _ => ?_
  split
  · rfl
  · rename_i halias
    exact convertDirective_of_mem_aliases (by simpa using halias) e.2 loop

theorem loop_eq (h : SameParts as bs) :
    Loop.ofDirectives (directives as) = Loop.ofDirectives (directives bs) := by
  have hget : ∀ k ∈ aliases, (directives as).get? k = (directives bs).get? k := by
    intro k hk
    rw [get?_directives_eq_getLast?, get?_directives_eq_getLast?, h.last k hk]
  rw [Loop.ofDirectives, Loop.ofDirectives, hget "wx:for-item" (by simp [aliases]),
    hget "wx:for-index" (by simp [aliases])]

/-- **What the attributes become depends on their parts.** -/
theorem candidates_congr (t : Target) (h : SameParts as bs) :
    candidates t as = candidates t bs := by
  have hprops : props as = props bs := by rw [props, props, h.plain]
  have hentries : ((directives as).entries.filter fun e => e.1 ∉ aliases) =
      (directives bs).entries.filter fun e => e.1 ∉ aliases := by
    rw [filter_directives fun k => k ∉ aliases, filter_directives fun k => k ∉ aliases,
      h.directives]
  simp only [candidates]
  rw [hprops, filterMap_convertDirective as, filterMap_convertDirective bs, hentries, loop_eq h]

theorem head_congr (t : Target) (name : String) (h : SameParts as bs) :
    head t name as = head t name bs := by
  rw [head, head, bindings, bindings, candidates_congr t h]

/-- **The lines of a forest** do not depend on the mixing, at any level. -/
theorem layout_congr (t : Target) {f g : List Node} (h : Remixed f g) (level : Int) :
    layout t level f = layout t level g := by
  induction h generalizing level with
  | nil => rfl
  | text rest ih => rw [layout_cons, layout_cons, ih, nodeLayout, nodeLayout]
  | comment rest ih => rw [layout_cons, layout_cons, ih, nodeLayout, nodeLayout]
  | @element name as bs children children' _ _ _ _ f g parts inner rest ihc ihn =>
    rw [layout_cons, layout_cons, ihn, nodeLayout_element, nodeLayout_element, inner.isEmpty_eq,
      ihc, head_congr t name parts]

/-- **A conversion does not depend on how the attributes are mixed.** Two forests whose elements
have the same names and the same parts of attributes have the same conversion to every target; the
children of an element may be the same, or mixed otherwise as well. -/
theorem convert_remixed (t : Target) {f g : Forest} (h : Remixed f g) :
    convert t f = convert t g := by
  rw [convert, convert, lines_eq, lines_eq, layout_congr t h]

/-- Two elements with the same name and the same child. In one of them the variables of the loop are
named before the loop and behind it, one of them twice, and a plain attribute stands in between. -/
theorem convert_remixed_loop :
    let child := Node.text "\x7b\x7by\x7d\x7d" none
    let as := [Attribute.ofWritten "wx:for-index" "i", .ofWritten "wx:for-item" "x",
      .ofWritten "wx:for" "\x7b\x7bxs\x7d\x7d", .ofWritten "id" "a", .ofWritten "wx:for-item" "y",
      .ofWritten "wx:key" "*this", .ofWritten "class" "b"]
    let bs := [Attribute.ofWritten "id" "a", .ofWritten "class" "b",
      .ofWritten "wx:for" "\x7b\x7bxs\x7d\x7d", .ofWritten "wx:key" "*this",
      .ofWritten "wx:for-item" "y", .ofWritten "wx:for-index" "i"]
    let f := [Node.element "view" as [child] false none]
    let g := [Node.element "view" bs [child] false none]
    SameParts as bs ∧ Remixed f g ∧ convert .standard f = convert .standard g ∧
      lines .standard g = ["<div id=\"a\" class=\"b\" v-for=\"(y, i) in xs\" :key=\"y\">",
        "  \x7b\x7by\x7d\x7d", "</div>"] := by
  intro child as bs f g
  have hparts : SameParts as bs := ⟨by decide +kernel, by decide +kernel, by decide +kernel⟩
  have hremixed : Remixed f g := .element hparts (.refl [child]) .nil
  refine ⟨hparts, hremixed, convert_remixed .standard hremixed, ?_⟩
  rw [lines_eq]
  decide +kernel

end Vue

end MiniTemplate
