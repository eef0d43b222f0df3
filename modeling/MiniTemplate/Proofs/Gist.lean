import MiniTemplate.Proofs.Duplicates
import MiniTemplate.Proofs.Relocation
import MiniTemplate.Proofs.VueOrder

/-!
# Readings that differ in places and in spellings

Two texts may be read to trees that differ only in where their nodes stand and in how the names of
directives are written. What is left if both are forgotten is called the *gist* here: of an
attribute, of a node, of a remark, of a state of a reading. This file shows that a reading goes on
in the same way from two states of the same gist that have the same characters ahead
(`MiniTemplate.Progress.Alike.run`): neither places nor spellings are ever looked at.

A remark on a repeated attribute is the one remark that repeats a spelling, and its gist leaves it
out.

That places do not matter to a reader is known: a cursor in the middle of a text is a cursor at its
beginning, moved behind what it has passed (`MiniTemplate.Cursor.Placed.eq_moved`), and every reader
commutes with this move.
-/

namespace MiniTemplate

open Text Cursor

/-! ### What is left of nodes and remarks -/

/-- **The gist of an attribute**: if it counts as a directive, the written name is left out. -/
def Attribute.gist (a : Attribute) : Attribute :=
  if a.isDirective then { a with name := "" } else a

/-- **The gist of a node**: no spans, and the gist of every attribute. -/
def Node.gist (n : Node) : Node := n.recast id Attribute.gist

/-- The gist of the nodes of a forest. -/
def Node.gists (f : List Node) : List Node := f.map gist

/-- **The gist of a caution**: how a repeated attribute is written is left out. -/
def Caution.gist : Caution → Caution
  | duplicateAttribute _ tag => duplicateAttribute "" tag
  | unclosed name => unclosed name

/-- The gist of a piece: no places, and the gist of its nodes and attributes. -/
def Piece.gist : Piece → Piece
  | leaf n => leaf n.gist
  | opening name as _ => opening name (as.map Attribute.gist) .start
  | closing name _ => closing name .start

/-- The gist of an open element. -/
def Frame.gist (f : Frame) : Frame :=
  ⟨f.name, f.attributes.map Attribute.gist, .start, Node.gists f.children⟩

namespace Node

@[simp] theorem gists_cons (n : Node) (f : List Node) : gists (n :: f) = n.gist :: gists f := rfl

theorem gists_reverse (f : List Node) : gists f.reverse = (gists f).reverse := List.map_reverse

theorem gist_element (name : String) (as : List Attribute) (children : List Node)
    (selfClosing : Bool) (span : Option Span) :
    (element name as children selfClosing span).gist =
      element name (as.map Attribute.gist) (gists children) selfClosing none := by
  rw [gist, recast_element, recastAll_eq_map]
  rfl

/-- Changed spans are forgotten as well. -/
theorem recastAll_respanAll (g : String → String) (h : Attribute → Attribute) (k : Span → Span)
    (f : List Node) : recastAll g h (respanAll k f) = recastAll g h f := by
  induction f using forest_induction with
  | nil => rfl
  | text content span ns ih => rw [respanAll, recastAll_cons, ih, respan]; rfl
  | comment content span ns ih => rw [respanAll, recastAll_cons, ih, respan]; rfl
  | element name as children selfClosing span ns ihc ihn =>
    rw [respanAll, recastAll_cons, ihn, respan, recast_element, ihc]
    rfl

theorem gist_moved (cs : List Char) (n : Node) : (n.moved cs).gist = n.gist := by
  have h := recastAll_respanAll id Attribute.gist (Span.moved cs) [n]
  exact (List.cons.inj h).1

end Node

theorem Piece.gist_moved (cs : List Char) (x : Piece) : (x.moved cs).gist = x.gist := by
  cases x with
  | leaf n => exact congrArg leaf (n.gist_moved cs)
  | opening name as start => rfl
  | closing name start => rfl

theorem Frame.gist_toNode {f g : Frame} (h : f.gist = g.gist) (stop stop' : Nat) :
    (f.toNode stop).gist = (g.toNode stop').gist := by
  obtain ⟨hname, has, -, hchildren⟩ := Frame.mk.inj h
  rw [toNode, toNode, Node.gist_element, Node.gist_element, Node.gists_reverse, Node.gists_reverse,
    hname, has, hchildren]

/-! ### What the gist keeps -/

namespace Attribute

variable {as bs : List Attribute}

@[simp] theorem isDirective_gist (a : Attribute) : a.gist.isDirective = a.isDirective := by
  rw [gist]
  split <;> rfl

@[simp] theorem directive?_gist (a : Attribute) : a.gist.directive? = a.directive? := by
  rw [gist]
  split <;> rfl

theorem filter_map_gist (as : List Attribute) :
    ((as.map gist).filter fun a => !a.isDirective) = as.filter fun a => !a.isDirective := by
  have hplain : ∀ a ∈ as.filter fun a => !a.isDirective, a.gist = a := by
    intro a ha
    exact if_neg (by simpa using List.of_mem_filter ha)
  rw [List.filter_map]
  simp only [Function.comp_def, isDirective_gist]
  exact (List.map_congr_left hplain).trans (List.map_id _)

theorem filterMap_map_gist (as : List Attribute) :
    (as.map gist).filterMap directive? = as.filterMap directive? := by
  rw [List.filterMap_map]
  exact List.filterMap_congr fun a _ => directive?_gist a

theorem filterMap_directive?_of_gist (h : as.map gist = bs.map gist) :
    as.filterMap directive? = bs.filterMap directive? := by
  rw [← filterMap_map_gist as, h, filterMap_map_gist]

theorem sameParts_of_gist (h : as.map gist = bs.map gist) : SameParts as bs := by
  have hdirectives := filterMap_directive?_of_gist h
  refine ⟨?_, by rw [hdirectives], fun k _ => by rw [hdirectives]⟩
  rw [← filter_map_gist as, h, filter_map_gist]

/-- **The views** are kept: the props, and the directives in their order. -/
theorem views_of_gist (h : as.map gist = bs.map gist) :
    props as = props bs ∧ directives as = directives bs := by
  rw [props, props, directives, directives, (sameParts_of_gist h).plain,
    filterMap_directive?_of_gist h]
  exact ⟨rfl, rfl⟩

theorem lost_of_gist (h : as.map gist = bs.map gist) : lost as = lost bs := by
  have hlength : as.length = bs.length := by simpa using congrArg List.length h
  rw [lost, lost, (views_of_gist h).1, (views_of_gist h).2, hlength]

end Attribute

/-- The number of remarks on repeated attributes is kept. -/
theorem duplicates_of_gist {ws ws' : List (Located Caution)}
    (h : (ws.map fun w => w.what.gist) = ws'.map fun w => w.what.gist) :
    duplicates ws = duplicates ws' := by
  have hcount : ∀ vs : List (Located Caution),
      duplicates vs = (vs.map fun w => w.what.gist).countP Caution.isDuplicate := by
    intro vs
    rw [duplicates, List.countP_map]
    refine List.countP_congr fun w _ => ?_
    cases hw : w.what <;> simp [hw, Caution.gist, Caution.isDuplicate]
  rw [hcount, hcount, h]

namespace Node

/-- **Induction on two forests of the same gist**: they have the same shape, and differ in the spans
and the spellings of their attributes. -/
theorem gists_induction {motive : List Node → List Node → Prop} (nil : motive [] [])
    (text : ∀ content span span' f g, motive f g →
      motive (.text content span :: f) (.text content span' :: g))
    (comment : ∀ content span span' f g, motive f g →
      motive (.comment content span :: f) (.comment content span' :: g))
    (element : ∀ name as bs children children' selfClosing span span' f g,
      as.map Attribute.gist = bs.map Attribute.gist → motive children children' → motive f g →
      motive (.element name as children selfClosing span :: f)
        (.element name bs children' selfClosing span' :: g))
    {f g : List Node} (h : gists f = gists g) : motive f g := by
  induction f using forest_induction generalizing g with
  | nil =>
    obtain rfl : g = [] := List.map_eq_nil_iff.mp h.symm
    exact nil
  | text content span ns ih =>
    obtain ⟨m, ms, rfl, hm, hms⟩ := List.map_eq_cons_iff.mp h.symm
    cases m with
    | text content' span' =>
      obtain ⟨rfl, -⟩ := Node.text.inj hm
      exact text _ span span' ns ms (ih hms.symm)
    | comment | element => exact absurd hm (by simp [gist])
  | comment content span ns ih =>
    obtain ⟨m, ms, rfl, hm, hms⟩ := List.map_eq_cons_iff.mp h.symm
    cases m with
    | comment content' span' =>
      obtain ⟨rfl, -⟩ := Node.comment.inj hm
      exact comment _ span span' ns ms (ih hms.symm)
    | text | element => exact absurd hm (by simp [gist])
  | element name as children selfClosing span ns ihc ihn =>
    obtain ⟨m, ms, rfl, hm, hms⟩ := List.map_eq_cons_iff.mp h.symm
    cases m with
    | element name' bs children' selfClosing' span' =>
      rw [gist_element, gist_element] at hm
      obtain ⟨rfl, has, hchildren, rfl, -⟩ := Node.element.inj hm
      exact element _ as bs children children' _ span span' ns ms has.symm (ihc hchildren.symm)
        (ihn hms.symm)
    | text | comment => exact absurd hm (by simp [gist])

/-- **Forests with the same views**: they have the same texts and comments and the same names of
elements, and the props of an element and its directives, in their order, are the same in both. -/
inductive SameViews : List Node → List Node → Prop
  | nil : SameViews [] []
  | text {content : String} {span span' : Option Span} {f g : List Node} (rest : SameViews f g) :
    SameViews (.text content span :: f) (.text content span' :: g)
  | comment {content : String} {span span' : Option Span} {f g : List Node}
    (rest : SameViews f g) : SameViews (.comment content span :: f) (.comment content span' :: g)
  | element {name : String} {as bs : List Attribute} {children children' : List Node}
    {selfClosing : Bool} {span span' : Option Span} {f g : List Node}
    (props : Attribute.props as = Attribute.props bs)
    (directives : Attribute.directives as = Attribute.directives bs)
    (inner : SameViews children children') (rest : SameViews f g) :
    SameViews (.element name as children selfClosing span :: f)
      (.element name bs children' selfClosing span' :: g)

theorem sameViews_of_gists {f g : List Node} (h : gists f = gists g) : SameViews f g := by
  refine gists_induction (motive := SameViews) .nil ?_ ?_ ?_ h
  · intro content span span' f g hfg
    exact .text hfg
  · intro content span span' f g hfg
    exact .comment hfg
  · intro name as bs children children' selfClosing span span' f g has hinner hfg
    exact .element (Attribute.views_of_gist has).1 (Attribute.views_of_gist has).2 hinner hfg

theorem remixed_of_gists {f g : List Node} (h : gists f = gists g) : Remixed f g := by
  refine gists_induction (motive := Remixed) .nil ?_ ?_ ?_ h
  · intro content span span' f g hfg
    exact .text hfg
  · intro content span span' f g hfg
    exact .comment hfg
  · intro name as bs children children' selfClosing span span' f g has hinner hfg
    exact .element (Attribute.sameParts_of_gist has) hinner hfg

end Node

/-- **The conversion** is kept. -/
theorem Vue.convert_of_gists (t : Target) {f g : Forest} (h : Node.gists f = Node.gists g) :
    convert t f = convert t g := by
  rw [convert, convert, lines_eq, lines_eq, layout_congr t (Node.remixed_of_gists h)]

/-! ### Readers -/

/-- **Readers that come to the same**: the gists of the pieces and of the remarks are the same, and
the same characters are left. -/
structure Scan.Alike (s s' : Scan (Option Piece)) : Prop where
  value : s.value.map Piece.gist = s'.value.map Piece.gist
  rest : s.cursor.rest = s'.cursor.rest
  faults : s.faults.map Located.what = s'.faults.map Located.what
  cautions : (s.cautions.map fun w => w.what.gist) = s'.cautions.map fun w => w.what.gist

/-- **A cursor in a text**, which it has come into by passing characters. -/
def Cursor.Placed (c : Cursor) : Prop := ∃ cs, Leads (ofList cs) c

theorem Cursor.Placed.leads {c d : Cursor} (hc : c.Placed) (h : Leads c d) : d.Placed := by
  obtain ⟨cs, hcs⟩ := hc
  exact ⟨cs, hcs.trans h⟩

/-- A cursor in a text is a cursor at the beginning of what is ahead, moved. -/
theorem Cursor.Placed.eq_moved {c : Cursor} (hc : c.Placed) :
    ∃ w, c = (ofList c.rest).moved w := by
  obtain ⟨cs, w, hw⟩ := hc
  refine ⟨w, ?_⟩
  have hcs : cs = w ++ c.rest := hw.rest
  have hc : c = (ofList (w ++ c.rest)).skip w.length := by
    rw [← hcs]
    exact hw.skip
  rw [hc]
  simp [ofList, skip, Cursor.moved, Position.moved_start]

theorem readPiece_alike_ofList {c : Cursor} (hc : c.Placed) :
    (readPiece c).Alike (readPiece (ofList c.rest)) := by
  obtain ⟨w, hw⟩ := hc.eq_moved
  have hread := readPiece_moved (c := ofList c.rest) w Nat.one_pos
  rw [← hw] at hread
  rw [hread]
  refine ⟨?_, rfl, ?_, ?_⟩
  · simp only [Scan.moved, Option.map_map]
    exact congrArg (Option.map · _) (funext fun x => x.gist_moved w)
  · simp [Scan.moved, Located.moved, Function.comp_def]
  · simp [Scan.moved, Located.moved, Function.comp_def]

/-- **Places do not matter to a reader.** -/
theorem readPiece_alike {c d : Cursor} (hc : c.Placed) (hd : d.Placed) (h : c.rest = d.rest) :
    (readPiece c).Alike (readPiece d) := by
  have hc' := readPiece_alike_ofList hc
  have hd' := readPiece_alike_ofList hd
  rw [h] at hc'
  exact ⟨hc'.value.trans hd'.value.symm, hc'.rest.trans hd'.rest.symm,
    hc'.faults.trans hd'.faults.symm, hc'.cautions.trans hd'.cautions.symm⟩

/-! ### States -/

namespace Progress

variable {limit : Int} {p q : Progress}

/-- **States of the same gist**, whatever is ahead. -/
structure SameGist (p q : Progress) : Prop where
  placed : p.cursor.Placed ∧ q.cursor.Placed
  frames : p.frames.map Frame.gist = q.frames.map Frame.gist
  roots : Node.gists p.roots = Node.gists q.roots
  faults : p.faults.map Located.what = q.faults.map Located.what
  cautions : (p.cautions.map fun w => w.what.gist) = q.cautions.map fun w => w.what.gist
  truncated : p.truncated = q.truncated

/-- **States of the same gist with the same characters ahead.** -/
structure Alike (p q : Progress) : Prop extends SameGist p q where
  rest : p.cursor.rest = q.cursor.rest

theorem Alike.frames_nil (h : p.Alike q) (hp : p.frames = []) : q.frames = [] := by
  have hframes := h.frames
  rw [hp] at hframes
  exact List.map_eq_nil_iff.mp hframes.symm

theorem Alike.frames_cons (h : p.Alike q) {f : Frame} {fs : List Frame} (hp : p.frames = f :: fs) :
    ∃ g gs, q.frames = g :: gs ∧ f.gist = g.gist ∧ fs.map Frame.gist = gs.map Frame.gist := by
  have hframes := h.frames
  rw [hp, List.map_cons] at hframes
  obtain ⟨g, gs, hq, hg, hgs⟩ := List.map_eq_cons_iff.mp hframes.symm
  exact ⟨g, gs, hq, hg.symm, hgs.symm⟩

theorem Alike.add (h : p.Alike q) {n m : Node} (hn : n.gist = m.gist) :
    (p.add n).Alike (q.add m) := by
  cases hp : p.frames with
  | nil =>
    rw [Progress.add, Progress.add, hp, h.frames_nil hp]
    refine ⟨⟨h.placed, rfl, ?_, h.faults, h.cautions, h.truncated⟩, h.rest⟩
    rw [Node.gists_cons, Node.gists_cons, hn, h.roots]
  | cons f fs =>
    obtain ⟨g, gs, hq, hg, hgs⟩ := h.frames_cons hp
    obtain ⟨hname, has, -, hchildren⟩ := Frame.mk.inj hg
    rw [Progress.add, Progress.add, hp, hq]
    refine ⟨⟨h.placed, ?_, h.roots, h.faults, h.cautions, h.truncated⟩, h.rest⟩
    simp only [List.map_cons, Frame.gist, Node.gists_cons, hname, has, hchildren, hn]
    rw [hgs]

theorem Alike.fault (h : p.Alike q) (place place' : Position) (what : Fault) :
    (p.fault place what).Alike (q.fault place' what) := by
  refine ⟨⟨h.placed, h.frames, h.roots, ?_, h.cautions, h.truncated⟩, h.rest⟩
  simp only [Progress.fault, List.map_append, List.map_cons, List.map_nil, h.faults]

theorem Alike.caution (h : p.Alike q) (place place' : Position) (what : Caution) :
    (p.caution place what).Alike (q.caution place' what) := by
  refine ⟨⟨h.placed, h.frames, h.roots, h.faults, ?_, h.truncated⟩, h.rest⟩
  simp only [Progress.caution, List.map_append, List.map_cons, List.map_nil, h.cautions]

theorem SameGist.follow (h : p.SameGist q) {s s' : Scan (Option Piece)} (hs : s.Alike s')
    (hp : Leads p.cursor s.cursor) (hq : Leads q.cursor s'.cursor) :
    (p.follow s).Alike (q.follow s') := by
  refine ⟨⟨⟨h.placed.1.leads hp, h.placed.2.leads hq⟩, h.frames, h.roots, ?_, ?_, h.truncated⟩,
    hs.rest⟩
  · simp only [Progress.follow, List.map_append, h.faults, hs.faults]
  · simp only [Progress.follow, List.map_append, h.cautions, hs.cautions]

theorem Alike.openElement (h : p.Alike q) (name : String) {as bs : List Attribute}
    (has : as.map Attribute.gist = bs.map Attribute.gist) (start start' : Position) :
    (p.openElement limit name as start).Alike (q.openElement limit name bs start') := by
  have hlength : p.frames.length = q.frames.length := by
    simpa using congrArg List.length h.frames
  rw [Progress.openElement, Progress.openElement, hlength]
  split
  · have hfault := h.fault p.cursor.position q.cursor.position (.tooDeep limit)
    refine ⟨⟨⟨h.placed.1.leads (leads_skip _ _), h.placed.2.leads (leads_skip _ _)⟩,
      hfault.frames, hfault.roots, hfault.faults, hfault.cautions, rfl⟩, ?_⟩
    rw [rest_skipAll, rest_skipAll]
  · refine ⟨⟨h.placed, ?_, h.roots, h.faults, h.cautions, h.truncated⟩, h.rest⟩
    simp only [List.map_cons, Frame.gist, has, h.frames]

/-- The innermost elements of two such states end alike. -/
theorem Alike.ending (h : p.Alike q) {f g : Frame} {fs gs : List Frame} (hf : f.gist = g.gist)
    (hfs : fs.map Frame.gist = gs.map Frame.gist) (stop stop' : Nat) :
    ({ p with frames := fs }.add (f.toNode stop)).Alike
      ({ q with frames := gs }.add (g.toNode stop')) := by
  have hrest : { p with frames := fs }.Alike { q with frames := gs } :=
    ⟨⟨h.placed, hfs, h.roots, h.faults, h.cautions, h.truncated⟩, h.rest⟩
  exact hrest.add (Frame.gist_toNode hf stop stop')

theorem Alike.closeElement (h : p.Alike q) (name : String) (start start' : Position) :
    (p.closeElement name start).Alike (q.closeElement name start') := by
  cases hp : p.frames with
  | nil =>
    rw [closeElement_of_nil hp, closeElement_of_nil (h.frames_nil hp)]
    exact h.fault start start' _
  | cons f fs =>
    obtain ⟨g, gs, hq, hg, hgs⟩ := h.frames_cons hp
    have hname : f.name = g.name := (Frame.mk.inj hg).1
    rw [closeElement_of_cons hp, closeElement_of_cons hq, hname]
    split
    · exact h.ending hg hgs _ _
    · exact (h.fault start start' _).ending hg hgs _ _

theorem Alike.endElement (h : p.Alike q) {f g : Frame} {fs gs : List Frame} (hf : f.gist = g.gist)
    (hfs : fs.map Frame.gist = gs.map Frame.gist) :
    (p.endElement f fs).Alike (q.endElement g gs) := by
  have hname : f.name = g.name := (Frame.mk.inj hf).1
  rw [Progress.endElement, Progress.endElement, h.truncated, hname]
  split
  · exact h.ending hf hfs _ _
  · exact (h.caution p.cursor.position q.cursor.position _).ending hf hfs _ _

/-- **A step from states of the same gist**, if their readers come to the same. -/
theorem SameGist.step (h : p.SameGist q) (hs : (readPiece p.cursor).Alike (readPiece q.cursor)) :
    (p.step limit).Alike (q.step limit) := by
  have hfollow := h.follow hs (leads_readPiece _) (leads_readPiece _)
  have hvalue := hs.value
  cases hp : (readPiece p.cursor).value with
  | none =>
    rw [hp, Option.map_none] at hvalue
    rw [step_none hp, step_none (Option.map_eq_none_iff.mp hvalue.symm)]
    exact hfollow
  | some x =>
    rw [hp, Option.map_some] at hvalue
    obtain ⟨y, hq, hxy⟩ := Option.map_eq_some_iff.mp hvalue.symm
    cases x with
    | leaf n =>
      cases y with
      | leaf m =>
        rw [step_leaf hp, step_leaf hq]
        exact hfollow.add (Piece.leaf.inj hxy).symm
      | opening | closing => exact absurd hxy (by simp [Piece.gist])
    | opening name as start =>
      cases y with
      | opening name' bs start' =>
        obtain ⟨rfl, has, -⟩ := Piece.opening.inj hxy
        rw [step_opening hp, step_opening hq]
        exact hfollow.openElement name' has.symm start start'
      | leaf | closing => exact absurd hxy (by simp [Piece.gist])
    | closing name start =>
      cases y with
      | closing name' start' =>
        obtain ⟨rfl, -⟩ := Piece.closing.inj hxy
        rw [step_closing hp, step_closing hq]
        exact hfollow.closeElement name' start start'
      | leaf | opening => exact absurd hxy (by simp [Piece.gist])

theorem Alike.step (h : p.Alike q) : (p.step limit).Alike (q.step limit) :=
  h.toSameGist.step (readPiece_alike h.placed.1 h.placed.2 h.rest)

theorem Alike.skipBlanks (h : p.Alike q) : p.skipBlanks.Alike q.skipBlanks := by
  refine ⟨⟨⟨h.placed.1.leads (leads_skipBlanks _), h.placed.2.leads (leads_skipBlanks _)⟩,
    h.frames, h.roots, h.faults, h.cautions, h.truncated⟩, ?_⟩
  rw [cursor_skipBlanks, cursor_skipBlanks, rest_skipBlanks, rest_skipBlanks, h.rest]

/-- **A run from states of the same gist** leads to states of the same gist. -/
theorem Alike.run (h : p.Alike q) : (p.run limit).Alike (q.run limit) := by
  fun_induction Progress.run limit p generalizing q with
  | case1 p hend =>
    rw [run_of_end (h.skipBlanks.rest ▸ hend)]
    exact h.skipBlanks
  | case2 p hrest hlt ih =>
    have hrest' : q.skipBlanks.cursor.rest ≠ [] := h.skipBlanks.rest ▸ hrest
    rw [run_of_rest hrest']
    exact ih h.skipBlanks.step

theorem Alike.finish (h : p.Alike q) : p.finish.Alike q.finish := by
  fun_induction Progress.finish p generalizing q with
  | case1 p hnil =>
    rw [finish_of_nil (h.frames_nil hnil)]
    exact h
  | case2 p f fs hfs hlt ih =>
    obtain ⟨g, gs, hq, hg, hgs⟩ := h.frames_cons hfs
    rw [finish_of_cons hq]
    exact ih (h.endElement hg hgs)

end Progress

end MiniTemplate
