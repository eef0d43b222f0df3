import MiniTemplate.Proofs.Acceptance
import MiniTemplate.Proofs.Lines
import MiniTemplate.Proofs.Tag
import MiniTemplate.Proofs.Trim

/-!
# What is written is read back

A well-formed forest without backslashes in its values is written as a text that reads without
a fault, and as the same forest: texts up to the blanks around them, and values with both kinds
of quotes as they were masked. This is `MiniTemplate.Template.read_write`.

The argument goes through the grammar and never looks at the reader. Each line is taken with
the line break in front of it (`MiniTemplate.Markup.spread`), so that what separates two lines
are blanks that the next node skips, and a forest can be derived node by node, in front of
whatever follows it (`MiniTemplate.Markup.exists_nodes_spread`). One thing is not local: a
text goes on to the next `<`, and takes the line break and the margin behind it with it. So
what follows a text must begin with `<` behind its blanks (`MiniTemplate.Markup.Opens`), which
is why two texts must not meet.
-/

namespace MiniTemplate

open Text Grammar

namespace Markup

variable {indent level : Int} {b t t' r : List Char} {ns : List Node} {name : String}

/-! ### Lines behind their line breaks -/

/-- Lines, each behind a line break. -/
def spread (l : List String) : List Char := l.flatMap fun x => '\n' :: x.toList

@[simp] theorem spread_nil : spread [] = [] := rfl

@[simp] theorem spread_append (l l' : List String) : spread (l ++ l') = spread l ++ spread l' :=
  List.flatMap_append

/-- What stands in front of a line: the line break and the indentation. -/
def margin (indent level : Int) : List Char := '\n' :: (Text.spaces (level * indent)).toList

theorem spread_cons (indent level : Int) (content : String) (l : List String) :
    spread ((Text.spaces (level * indent) ++ content) :: l) =
      margin indent level ++ (content.toList ++ spread l) := by
  simp [spread, margin]

theorem isBlank_margin (indent level : Int) : ∀ c ∈ margin indent level, isBlank c := by
  intro c h
  rw [margin, Text.spaces, String.toList_ofList, List.mem_cons] at h
  rcases h with rfl | h
  · decide
  · rw [List.eq_of_mem_replicate h]
    decide

/-! ### Texts -/

/-- **What may follow a text**: behind its blanks, the end or `<`. -/
def Opens (t : List Char) : Prop := ∀ c ∈ (t.dropWhile isBlank).head?, c = '<'

theorem opens_cons (t : List Char) : Opens ('<' :: t) := by
  have hstop : isBlank '<' = false := by decide
  simp [Opens, hstop]

theorem Opens.behind (hb : ∀ c ∈ b, isBlank c) (h : Opens t) : Opens (b ++ t) := by
  rwa [Opens, List.dropWhile_append_of_pos hb]

/-- A trimmed text is derived as a text node, together with the blanks behind it. -/
theorem nodes_text {w : List Char} (hne : w ≠ []) (hw : Trimmed w) (hlt : '<' ∉ w) (ht : Opens t)
    (h : Nodes t ns r) :
    ∃ b, (∀ c ∈ b, isBlank c) ∧ Nodes (w ++ t) (.text (String.ofList (w ++ b)) none :: ns) r := by
  obtain ⟨x, w, rfl⟩ := List.exists_cons_of_ne_nil hne
  have hrun := run_takeWhile isBlank t
  have hfree : ∀ c ∈ t.takeWhile isBlank, c != '<' := by
    intro c hc
    rw [bne_iff_ne]
    rintro rfl
    exact absurd (hrun.all _ hc) (by decide)
  -- the run of a text does not stop at the blanks behind it, only at the `<` behind those
  have htext : Run (· != '<') (x :: w ++ t) (x :: w ++ t.takeWhile isBlank)
      (t.dropWhile isBlank) := by
    refine ⟨?_, ?_, ?_⟩
    · rw [List.append_assoc, ← hrun.split]
    · intro c hc
      rcases List.mem_append.mp hc with hc | hc
      · exact bne_iff_ne.mpr fun hx => hlt (hx ▸ hc)
      · exact hfree c hc
    · intro c hc
      simp [ht c hc]
  refine ⟨t.takeWhile isBlank, hrun.all, ?_⟩
  exact .leaf (blanks_refl (hw.1 x rfl) _) (.text (by simp) (stops_cons (hw.1 x rfl) _) htext)
    (h.of_blanks (dropWhile_dropWhile isBlank t).symm)

/-! ### Tags -/

theorem tagHead_eq_cons (name : String) (l : List String) :
    ∃ s, (tagHead name l).toList = '<' :: s := by
  rw [tagHead]
  split <;> simp

/-- A closing tag, as written. -/
def closingText (name : String) : List Char := '<' :: '/' :: (name.toList ++ ['>'])

theorem closing_closingText (hname : ∀ c ∈ name.toList, isTagChar c) (r : List Char) :
    Closing (closingText name ++ r) name r := by
  have hrun : Run isTagChar (name.toList ++ '>' :: r) name.toList ('>' :: r) :=
    run_append hname (stops_cons (by decide) r)
  have h := Closing.mk hrun (blanks_refl (by decide) r)
  rw [String.ofList_toList] at h
  simpa [closingText] using h

/-- What is written between the two tags of an element. -/
def inner (indent level : Int) (children : List Node) : List Char :=
  if children.all Node.isText then (String.join (children.map Node.trimmedText)).toList
  else spread (lines indent (level + 1) children) ++ margin indent level

/-- **An element with two tags**, as written: the three layouts differ in what stands between the
tags. -/
theorem spread_element (as : List Attribute) (children : List Node) (span : Option Span) :
    spread (nodeLines indent level (.element name as children false span)) =
      margin indent level ++ ((tagHead name (as.map attributeText)).toList ++
        '>' :: (inner indent level children ++ closingText name)) := by
  by_cases hempty : children = []
  · subst hempty
    rw [nodeLines_element, if_pos List.isEmpty_nil, spread_cons]
    simp [inner, closingText]
  have hnot : children.isEmpty = false := by simpa using hempty
  by_cases htexts : children.all Node.isText
  · have hinline : (Node.element name as children false span).isInline := by
      rw [Node.isInline, hnot, htexts]
      rfl
    rw [nodeLines_element, if_neg (by simp [hnot]), if_pos hinline, spread_cons, inner,
      if_pos htexts]
    simp [closingText]
  · have hinline : (Node.element name as children false span).isInline = false := by
      rw [Node.isInline, hnot]
      simpa using htexts
    rw [nodeLines_element, if_neg (by simp [hnot]), if_neg (by simp [hinline]), spread_cons,
      spread_append, spread_cons, inner, if_neg htexts]
    simp [closingText]

theorem spread_selfClosing (as : List Attribute) (span : Option Span) :
    spread (nodeLines indent level (.element name as [] true span)) =
      margin indent level ++ (tagHead name (as.map attributeText) ++ " />").toList := by
  rw [nodeLines_element, if_pos List.isEmpty_nil, spread_cons, if_pos rfl, spread_nil,
    List.append_nil]

/-- Every node but a text is written with `<` in front. -/
theorem exists_spread_nodeLines (indent level : Int) {n : Node} (hn : n.isText = false) :
    ∃ s, spread (nodeLines indent level n) = margin indent level ++ '<' :: s := by
  cases n with
  | text _ _ => exact absurd hn (by simp [Node.isText])
  | comment content span =>
    rw [nodeLines, spread_cons]
    simp
  | element name as children selfClosing span =>
    obtain ⟨s, hs⟩ := tagHead_eq_cons name (as.map attributeText)
    simp only [nodeLines_element]
    split_ifs <;> simp [spread_cons, hs]

theorem opens_spread {f : List Node} (hf : ∀ n ∈ f.head?, n.isText = false) (ht : Opens t) :
    Opens (spread (lines indent level f) ++ t) := by
  cases f with
  | nil => exact ht
  | cons n ns =>
    obtain ⟨s, hs⟩ := exists_spread_nodeLines indent level (hf n rfl)
    rw [lines_cons, spread_append, hs, List.append_assoc, List.append_assoc]
    exact (opens_cons _).behind (isBlank_margin indent level)

/-! ### Forests -/

/-- The forest that a written forest is read as, up to the blanks around texts. -/
def readable (f : List Node) : List Node := Node.recastAll trim Attribute.masked f

theorem eq_text_of_all_isText {f : List Node} (hf : Node.AllWellFormed f)
    (h : f.all Node.isText) : f = [] ∨ ∃ content span, f = [.text content span] := by
  rcases f with _ | ⟨n, _ | ⟨m, ns⟩⟩
  · exact Or.inl rfl
  · cases n <;> simp_all [Node.isText]
  · obtain ⟨-, hmeet, -⟩ := hf
    simp only [List.all_cons, Bool.and_eq_true] at h
    exact absurd (hmeet h.1 m rfl) (by simp [h.2.1])

theorem trim_ne_empty {content : String} (h : ∃ c ∈ content.toList, isBlank c = false) :
    trim content ≠ "" := by
  rw [Ne, ← String.toList_inj, toList_trim]
  exact trimChars_ne_nil h

/-- A text alone between two tags is read back, up to the blanks around it. -/
theorem exists_nodes_text {content : String} {span : Option Span}
    (hwf : (Node.text content span).Proper) (ht : Opens t) (h : Nodes t ns r) :
    ∃ n, Node.recast trim id n = Node.recast trim Attribute.masked (.text content span) ∧
      Nodes (trimChars content.toList ++ t) (n :: ns) r := by
  obtain ⟨hlt, hblank⟩ := hwf
  obtain ⟨b, hb, hnodes⟩ := nodes_text (trimChars_ne_nil hblank) (trimmed_trimChars _)
    (fun hmem => hlt (mem_of_mem_trimChars hmem)) ht h
  refine ⟨_, ?_, hnodes⟩
  rw [Node.recast_text, Node.recast_text, trim_ofList_append hb]

theorem nodes_comment {content : String} (hend : ¬"-->".toList <:+: content.toList)
    (h : Nodes t ns r) :
    Nodes (("<!--" ++ content ++ "-->").toList ++ t) (.comment content none :: ns) r := by
  have hleaf := Leaf.comment t hend
  rw [String.ofList_toList] at hleaf
  have hblanks : Blanks (("<!--" ++ content ++ "-->").toList ++ t)
      ("<!--".toList ++ content.toList ++ "-->".toList ++ t) := by
    rw [String.toList_append, String.toList_append]
    exact blanks_refl (by decide) _
  exact .leaf hblanks hleaf h

section Element

variable {x : String} {as : List Attribute} {children : List Node} {span : Option Span}

/-- A proper element is written with a head of the grammar. -/
theorem headText_of_proper {selfClosing : Bool}
    (hwf : (Node.element name as children selfClosing span).Proper)
    (hb : ∀ a ∈ as, '\\' ∉ a.value.toList) :
    HeadText (tagHead name (as.map attributeText)) name (as.map Attribute.masked) :=
  headText_tagHead hwf.1 hwf.2.1 (forall₂_spells hwf.2.2.1 hb)

theorem HeadText.leaf (hx : HeadText x name as) (t : List Char) :
    Leaf ((x ++ " />").toList ++ t) (.element name as [] true none) t := by
  have hslash : Blanks (' ' :: '/' :: '>' :: t) ('/' :: '>' :: t) :=
    (blanks_refl (by decide) _).cons (by decide)
  rw [String.toList_append, List.append_assoc]
  exact .selfClosing (hx _ _ (stops_cons (by decide) _) hslash)

theorem leaf_selfClosing (hwf : (Node.element name as children true span).Proper)
    (hb : ∀ a ∈ as, '\\' ∉ a.value.toList) (t : List Char) :
    Leaf ((tagHead name (as.map attributeText) ++ " />").toList ++ t)
      (.element name (as.map Attribute.masked) [] true none) t :=
  (headText_of_proper hwf hb).leaf t

theorem HeadText.nodes_selfClosing (hx : HeadText x name as) (h : Nodes t ns r) :
    Nodes ((x ++ " />").toList ++ t) (.element name as [] true none :: ns) r := by
  have hleaf := hx.leaf t
  obtain ⟨a, s, hs, ha⟩ := hleaf.exists_cons
  refine .leaf ?_ hleaf h
  rw [hs]
  exact blanks_refl ha s

theorem HeadText.nodes_element {s : List Char} {ms : List Node} (hx : HeadText x name as)
    (hname : ∀ c ∈ name.toList, isTagChar c)
    (hms : Nodes (s ++ (closingText name ++ t)) ms (closingText name ++ t)) (h : Nodes t ns r) :
    Nodes (x.toList ++ '>' :: (s ++ (closingText name ++ t)))
      (.element name as ms false none :: ns) r := by
  have hgt : Blanks ('>' :: (s ++ (closingText name ++ t)))
      ('>' :: (s ++ (closingText name ++ t))) := blanks_refl (by decide) _
  have hhead := hx _ _ (stops_cons (by decide) _) hgt
  obtain ⟨s', hs'⟩ := hhead.exists_cons
  refine .element ?_ hhead hms (closing_closingText hname t) h
  rw [hs']
  exact blanks_refl (by decide) _

end Element

/-- What is written between two tags is derived, if it is when written on lines of its own. -/
theorem exists_nodes_inner {children : List Node} (hf : Node.AllWellFormed children)
    (hlines : ∀ t, Opens t → Nodes t [] t' → ∃ f', Node.recastAll trim id f' = readable children ∧
      Nodes (spread (lines indent (level + 1) children) ++ t) f' t')
    (ht : t' = '<' :: t) :
    ∃ f', Node.recastAll trim id f' = readable children ∧
      Nodes (inner indent level children ++ t') f' t' := by
  have hopens : Opens t' := ht ▸ opens_cons t
  have hend : Nodes t' [] t' := .nil (ht ▸ blanks_refl (by decide) t)
  rw [inner]
  split
  · -- on one line: no two texts meet, so there is one text or none
    rename_i htexts
    rcases eq_text_of_all_isText hf htexts with rfl | ⟨content, span, rfl⟩
    · exact ⟨[], rfl, hend⟩
    · obtain ⟨n, hn, hnodes⟩ := exists_nodes_text hf.1 hopens hend
      exact ⟨[n], by rw [Node.recastAll_cons, hn]; rfl, by simpa [Node.trimmedText] using hnodes⟩
  · -- a block: the margin of the closing tag is blank, and the tag opens
    have hmargin := isBlank_margin indent level
    rw [List.append_assoc]
    exact hlines _ (hopens.behind hmargin) (hend.behind hmargin)

variable (indent) in
/-- **Every written forest is derived**, in front of whatever is derived behind it. -/
theorem exists_nodes_spread {f : List Node} (hf : Node.AllWellFormed f)
    (hb : Node.AllValues (fun v => '\\' ∉ v.toList) f) (level : Int) (ht : Opens t)
    (h : Nodes t ns r) :
    ∃ f', Node.recastAll trim id f' = readable f ∧
      Nodes (spread (lines indent level f) ++ t) (f' ++ ns) r := by
  induction f using Node.forest_induction generalizing level t ns r with
  | nil => exact ⟨[], rfl, h⟩
  | text content span ms ih =>
    obtain ⟨hn, hmeet, hms⟩ := hf
    obtain ⟨f', hf', hmore⟩ := ih hms hb.2 level ht h
    -- what follows is no text, so it opens, and the text takes only the blanks in between
    obtain ⟨n, hn', hnodes⟩ := exists_nodes_text hn (opens_spread (hmeet rfl) ht) hmore
    refine ⟨n :: f', by rw [Node.recastAll_cons, hn', hf']; rfl, ?_⟩
    rw [lines_cons, nodeLines, if_neg (trim_ne_empty hn.2), spread_append, spread_cons]
    simpa using hnodes.behind (isBlank_margin indent level)
  | comment content span ms ih =>
    obtain ⟨hn, -, hms⟩ := hf
    obtain ⟨f', hf', hmore⟩ := ih hms hb.2 level ht h
    refine ⟨.comment content none :: f', by rw [Node.recastAll_cons, hf']; rfl, ?_⟩
    rw [lines_cons, nodeLines, spread_append, spread_cons]
    simpa using (nodes_comment hn hmore).behind (isBlank_margin indent level)
  | element name as children selfClosing span ms ihc ihn =>
    obtain ⟨hn, -, hms⟩ := hf
    obtain ⟨f', hf', hmore⟩ := ihn hms hb.2 level ht h
    rw [lines_cons, spread_append]
    cases selfClosing with
    | true =>
      obtain rfl : children = [] := hn.1.2.2.2 rfl
      refine ⟨.element name (as.map Attribute.masked) [] true none :: f', ?_, ?_⟩
      · simp [hf', readable]
      · rw [spread_selfClosing, List.append_assoc]
        have hnodes := (headText_of_proper hn.1 hb.1.1).nodes_selfClosing hmore
        simpa using hnodes.behind (isBlank_margin indent level)
    | false =>
      -- the children are derived in front of the closing tag, with nothing behind them
      obtain ⟨ms', hms', hinner⟩ := exists_nodes_inner hn.2
        (fun t ht h => by simpa using ihc hn.2 hb.1.2 (level + 1) ht h)
        (t := '/' :: (name.toList ++ ['>'] ++ (spread (lines indent level ms) ++ t))) rfl
      have hnodes := (headText_of_proper hn.1 hb.1.1).nodes_element hn.1.2.1 hinner hmore
      refine ⟨.element name (as.map Attribute.masked) ms' false none :: f', ?_, ?_⟩
      · simp [hf', hms', readable]
      · rw [spread_element]
        simpa using hnodes.behind (isBlank_margin indent level)

/-- The first line has no line break in front, but blanks there do not matter. -/
theorem dropWhile_intercalate (l : List String) :
    ("\n".intercalate l).toList.dropWhile isBlank = (spread l).dropWhile isBlank := by
  by_cases hl : l = []
  · rw [hl]
    rfl
  · rw [spread, ← cons_toList_intercalate (s := "\n") (c := '\n') rfl hl,
      List.dropWhile_cons_of_pos (by decide)]

theorem dropWhile_write (indent : Int) (f : List Node) :
    (write indent f).toList.dropWhile isBlank = (spread (lines indent 0 f)).dropWhile isBlank := by
  rw [write_eq]
  exact dropWhile_intercalate _

/-- What is written is a template of the grammar, nested as deep as the forest. -/
theorem exists_nodes_write (indent : Int) {f : List Node} (hf : Node.AllWellFormed f)
    (hb : Node.AllValues (fun v => '\\' ∉ v.toList) f) :
    ∃ f', Node.recastAll trim id f' = readable f ∧ Node.nestings f' = Node.nestings f ∧
      Nodes (write indent f).toList f' [] := by
  have hend : Nodes [] [] [] := .nil (blanks_iff.mpr rfl)
  obtain ⟨f', hf', hnodes⟩ := exists_nodes_spread indent hf hb 0 (by simp [Opens]) hend
  have hnest := congrArg Node.nestings hf'
  rw [readable, Node.nestings_recastAll, Node.nestings_recastAll] at hnest
  refine ⟨f', hf', hnest, ?_⟩
  rw [List.append_nil, List.append_nil] at hnodes
  exact hnodes.of_blanks (dropWhile_write indent f).symm

end Markup

open Markup

/-- **What is written is read back.** A well-formed forest whose values have no backslash is
written, at any indentation, as a text that is read without a fault and without an element left
open, and as the forest that was written: the same but for spans, for the blanks around
texts, and for values with both kinds of quotes, whose double quotes were masked. -/
theorem Template.read_write (limit indent : Int) (f : List Node) (hf : Node.AllWellFormed f)
    (hb : Node.AllValues (fun v => '\\' ∉ v.toList) f) (hlimit : (Node.nestings f : Int) ≤ limit) :
    (read limit (write indent f)).Clean ∧
      Node.recastAll trim id (read limit (write indent f)).forest =
        Node.recastAll trim Attribute.masked f := by
  obtain ⟨f', hf', hnest, hnodes⟩ := exists_nodes_write indent hf hb
  have hroom : Node.nestings f' ≤ limit.toNat := by omega
  obtain ⟨hclean, hforest⟩ := readChars_of_nodes hnodes hroom
  refine ⟨hclean, ?_⟩
  rw [← Node.recastAll_unplacedAll, read, hforest]
  exact hf'

/-- A block, an inline element and an empty one, a comment, a tag that closes itself, and a value
with both kinds of quotes; read with no room to spare, and not indented at all. -/
theorem Template.read_write_card :
    let f : List Node :=
      [.element "view" [.ofWritten "wx:if" "a > 'b'", .ofWritten "title" "\"it's\"",
          .ofWritten "hidden" ""]
        [.comment " - -- -" none, .element "text" [] [.text "  one\n two " none] false none,
          .element "image" [.ofWritten "src" ""] [] true none, .text "three" none,
          .element "slot" [] [] false none] false none,
        .text " four" none]
    (read 2 (write (-1) f)).Clean ∧
      Node.recastAll trim id (read 2 (write (-1) f)).forest =
        Node.recastAll trim Attribute.masked f :=
  read_write 2 (-1) _ (by decide) (by decide) (by decide)

end MiniTemplate
