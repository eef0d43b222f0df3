import MiniTemplate.Proofs.Faultless
import MiniTemplate.Proofs.RoundTrip
import MiniTemplate.Proofs.VueAttributes
import MiniTemplate.Proofs.VueLines
import MiniTemplate.Settings

/-!
# What a conversion writes is read back

A template that is read without a fault is converted to a text that is read without complaint
again, and as the forest that was meant (`MiniTemplate.Template.read_convert`). Which forest that
is, `MiniTemplate.Vue.translatedAll` says by recursion: the nodes stay where they are, tags take
their names in the target, attributes are those of `MiniTemplate.Vue.bindings` in their order, and
an element is self-closing exactly if it is empty and its tag is void.

As for markup, the argument goes through the grammar, line by line. An attribute of Vue is
spelled by its text (`MiniTemplate.Vue.spells_text`), a head by its parts, and a forest is derived
in front of whatever follows it (`MiniTemplate.Vue.exists_nodes_layout`). Of the forest it is used
that it is well-formed, and of the values that they have no backslash.

The conversion may nest one level deeper than its template: an element that closes itself opens
nothing, and becomes a pair of tags unless it is void. This happens only where nothing stands
inside, so one level is enough (`MiniTemplate.Vue.nestings_translatedAll_le`).
-/

namespace MiniTemplate

open Text Grammar Node Markup

namespace Vue

/-! ### The forest that is meant -/

/-- What an attribute of Vue is read as: without a value, it has the empty one. -/
def Binding.attribute (b : Binding) : Attribute := .ofWritten b.name (masked (b.value.getD ""))

mutual

/-- A tree in the target. -/
def translated (t : Target) : Node → Node
  | element name attributes children _ _ =>
    let tag := (t.tags.get? name).getD name
    element tag ((bindings t attributes).map Binding.attribute) (translatedAll t children)
      (children.isEmpty && decide (tag ∈ t.voidTags)) none
  | text content _ => text (trim content) none
  | comment content _ => comment content none

/-- **A forest in the target.** -/
def translatedAll (t : Target) : List Node → List Node
  | [] => []
  | n :: ns => translated t n :: translatedAll t ns

end

@[simp] theorem translatedAll_nil (t : Target) : translatedAll t [] = [] := rfl

@[simp] theorem translatedAll_cons (t : Target) (n : Node) (ns : List Node) :
    translatedAll t (n :: ns) = translated t n :: translatedAll t ns := rfl

/-- An element in the target, in the words of the conversion. -/
theorem translated_element (t : Target) (name : String) (as : List Attribute)
    (children : List Node) (selfClosing : Bool) (span : Option Span) :
    translated t (element name as children selfClosing span) =
      element (t.tagName name) ((bindings t as).map Binding.attribute) (translatedAll t children)
        (children.isEmpty && t.isVoid (t.tagName name)) none := by
  rw [translated, Target.isVoid, List.contains_eq_mem, Target.tagName_eq]

/-- **A conversion nests at most one level deeper.** -/
theorem nestings_translatedAll_le (t : Target) {f : List Node} (hf : AllWellFormed f) :
    nestings (translatedAll t f) ≤ nestings f + 1 := by
  induction f using forest_induction with
  | nil => simp
  | text content span ns ih =>
    have hns := ih hf.2.2
    simp only [translatedAll_cons, translated, nestings_cons, nesting_text]
    omega
  | comment content span ns ih =>
    have hns := ih hf.2.2
    simp only [translatedAll_cons, translated, nestings_cons, nesting_comment]
    omega
  | element name as children selfClosing span ns ihc ihn =>
    obtain ⟨⟨hproper, hchildren⟩, -, hns⟩ := hf
    have hrest := ihn hns
    have hinner := ihc hchildren
    rw [translatedAll_cons, nestings_cons, nestings_cons, translated_element, nesting_element,
      nesting_element]
    cases children with
    | nil =>
      -- an empty element opens at most itself
      rw [translatedAll_nil, nestings_nil]
      split <;> omega
    | cons c cs =>
      have hopen : selfClosing = false := by
        rw [Bool.eq_false_iff]
        intro hself
        exact absurd (hproper.2.2.2 hself) (by simp)
      rw [hopen, List.isEmpty_cons, Bool.false_and, if_neg (by simp)]
      omega

/-! ### Tags -/

variable {t : Target} {level : Int} {name : String} {as : List Attribute} {b : Binding}
  {s r : List Char} {ns : List Node}

theorem spells_text (hb : b.Writable) : Spells b.text b.attribute := by
  obtain ⟨name, value⟩ := b
  cases value with
  | none => exact spells_name hb.name.1 hb.name.2
  | some value => exact spells_assign hb.name.1 hb.name.2 (hb.value value rfl)

/-- **The head of a converted tag** is a head of the grammar, with the name and the attributes
that were meant. -/
theorem headText_head (ht : t.Writable) (hname : IsTagName name) (has : ∀ a ∈ as, a.WellFormed)
    (hb : ∀ a ∈ as, '\\' ∉ a.value.toList) :
    HeadText (head t name as) (t.tagName name) ((bindings t as).map Binding.attribute) := by
  obtain ⟨hne, hchars⟩ := isTagName_tagName ht hname
  refine headText_tagHead hne hchars ?_
  rw [List.forall₂_map_left_iff, List.forall₂_map_right_iff, List.forall₂_same]
  intro b hmem
  exact spells_text (writable_bindings ht has hb b hmem)

/-! ### Layout -/

/-- What is written between the two tags of an element. -/
def inner (t : Target) (level : Int) (children : List Node) : List Char :=
  if children.isEmpty then []
  else spread (layout t (level + 1) children) ++ margin t.indent level

theorem spread_void (hvoid : t.isVoid (t.tagName name)) (selfClosing : Bool)
    (span : Option Span) :
    spread (nodeLayout t level (.element name as [] selfClosing span)) =
      margin t.indent level ++ (head t name as ++ " />").toList := by
  rw [nodeLayout_element, if_pos List.isEmpty_nil, if_pos hvoid, spread_cons, spread_nil,
    List.append_nil]

/-- **An element with two tags**, as written, on one line or as a block. -/
theorem spread_pair {children : List Node}
    (h : (children.isEmpty && t.isVoid (t.tagName name)) = false) (selfClosing : Bool)
    (span : Option Span) :
    spread (nodeLayout t level (.element name as children selfClosing span)) =
      margin t.indent level ++ ((head t name as).toList ++
        '>' :: (inner t level children ++ closingText (t.tagName name))) := by
  by_cases hempty : children.isEmpty
  · rw [hempty, Bool.true_and] at h
    rw [nodeLayout_element, if_pos hempty, if_neg (by simp [h]), spread_cons, inner, if_pos hempty]
    simp [closingText]
  · rw [nodeLayout_element, if_neg hempty, spread_cons, spread_append, spread_cons, inner,
      if_neg hempty]
    simp [closingText]

theorem exists_spread_nodeLayout (t : Target) (level : Int) {n : Node} (hn : n.isText = false) :
    ∃ x, spread (nodeLayout t level n) = margin t.indent level ++ '<' :: x := by
  cases n with
  | text _ _ => exact absurd hn (by simp [isText])
  | comment content span =>
    rw [nodeLayout, spread_cons]
    simp
  | element name as children selfClosing span =>
    obtain ⟨x, hx⟩ := tagHead_eq_cons (t.tagName name) ((bindings t as).map Binding.text)
    have hhead : (head t name as).toList = '<' :: x := hx
    simp only [nodeLayout_element]
    split_ifs <;> simp [spread_cons, hhead]

theorem opens_layout {f : List Node} (hf : ∀ n ∈ f.head?, n.isText = false) (hs : Opens s) :
    Opens (spread (layout t level f) ++ s) := by
  cases f with
  | nil => exact hs
  | cons n ns =>
    obtain ⟨x, hx⟩ := exists_spread_nodeLayout t level (hf n rfl)
    rw [layout_cons, spread_append, hx, List.append_assoc, List.append_assoc]
    exact (opens_cons _).behind (isBlank_margin t.indent level)

/-! ### Forests -/

/-- What is written between two tags is derived, if it is when written on lines of its own. -/
theorem exists_nodes_inner (level : Int) {children : List Node}
    (hlines : ∀ x, Opens x → Nodes x [] ('<' :: s) →
      ∃ f', recastAll trim id f' = translatedAll t children ∧
        Nodes (spread (layout t (level + 1) children) ++ x) f' ('<' :: s)) :
    ∃ f', recastAll trim id f' = translatedAll t children ∧
      Nodes (inner t level children ++ '<' :: s) f' ('<' :: s) := by
  have hend : Nodes ('<' :: s) [] ('<' :: s) := .nil (blanks_refl (by decide) s)
  rw [inner]
  split
  · rename_i hempty
    obtain rfl := List.isEmpty_iff.mp hempty
    exact ⟨[], rfl, hend⟩
  · -- the margin of the closing tag is blank, and the tag opens
    have hmargin := isBlank_margin t.indent level
    rw [List.append_assoc]
    exact hlines _ ((opens_cons s).behind hmargin) (hend.behind hmargin)

/-- **Every converted forest is derived**, in front of whatever is derived behind it. -/
theorem exists_nodes_layout (ht : t.Writable) {f : List Node} (hf : AllWellFormed f)
    (hb : AllValues (fun v => '\\' ∉ v.toList) f) (level : Int) (hs : Opens s)
    (h : Nodes s ns r) :
    ∃ f', recastAll trim id f' = translatedAll t f ∧
      Nodes (spread (layout t level f) ++ s) (f' ++ ns) r := by
  induction f using forest_induction generalizing level s ns r with
  | nil => exact ⟨[], rfl, h⟩
  | text content span ms ih =>
    obtain ⟨hn, hmeet, hms⟩ := hf
    obtain ⟨f', hf', hmore⟩ := ih hms hb.2 level hs h
    have hproper : (Node.text content span).Proper := hn
    obtain ⟨n, hn', hnodes⟩ := exists_nodes_text hproper (opens_layout (hmeet rfl) hs) hmore
    refine ⟨n :: f', by rw [recastAll_cons, hn', hf']; rfl, ?_⟩
    rw [layout_cons, nodeLayout, if_neg (trim_ne_empty hproper.2), spread_append, spread_cons]
    simpa using hnodes.behind (isBlank_margin t.indent level)
  | comment content span ms ih =>
    obtain ⟨hn, -, hms⟩ := hf
    obtain ⟨f', hf', hmore⟩ := ih hms hb.2 level hs h
    refine ⟨.comment content none :: f', by rw [recastAll_cons, hf']; rfl, ?_⟩
    rw [layout_cons, nodeLayout, spread_append, spread_cons]
    simpa using (nodes_comment hn hmore).behind (isBlank_margin t.indent level)
  | element name as children selfClosing span ms ihc ihn =>
    obtain ⟨⟨⟨hne, hname, has, -⟩, hchildren⟩, -, hms⟩ := hf
    obtain ⟨f', hf', hmore⟩ := ihn hms hb.2 level hs h
    have hhead := headText_head ht ⟨hne, hname⟩ has hb.1.1
    rw [layout_cons, spread_append]
    cases hvoid : children.isEmpty && t.isVoid (t.tagName name) with
    | true =>
      obtain ⟨hempty, htag⟩ := Bool.and_eq_true_iff.mp hvoid
      obtain rfl := List.isEmpty_iff.mp hempty
      refine ⟨.element (t.tagName name) ((bindings t as).map Binding.attribute) [] true none :: f',
        ?_, ?_⟩
      · simp [hf', translated_element, htag]
      · rw [spread_void htag, List.append_assoc]
        simpa using (hhead.nodes_selfClosing hmore).behind (isBlank_margin t.indent level)
    | false =>
      -- the children are derived in front of the closing tag, with nothing behind them
      obtain ⟨ms', hms', hinner⟩ := exists_nodes_inner level
        (s := '/' :: ((t.tagName name).toList ++ ['>'] ++ (spread (layout t level ms) ++ s)))
        fun x hx h => by simpa using ihc hchildren hb.1.2 (level + 1) hx h
      have htag := isTagName_tagName ht ⟨hne, hname⟩
      have hnodes := hhead.nodes_element htag.2 hinner hmore
      refine ⟨.element (t.tagName name) ((bindings t as).map Binding.attribute) ms' false none ::
        f', ?_, ?_⟩
      · simp [hf', hms', translated_element, hvoid]
      · rw [spread_pair hvoid]
        simpa using hnodes.behind (isBlank_margin t.indent level)

/-- What is converted is a template of the grammar. -/
theorem exists_nodes_convert (ht : t.Writable) {f : List Node} (hf : AllWellFormed f)
    (hb : AllValues (fun v => '\\' ∉ v.toList) f) :
    ∃ f', recastAll trim id f' = translatedAll t f ∧ Nodes (convert t f).toList f' [] := by
  have hend : Nodes [] [] [] := .nil (blanks_iff.mpr rfl)
  obtain ⟨f', hf', hnodes⟩ := exists_nodes_layout ht hf hb 0 (by simp [Opens]) hend
  refine ⟨f', hf', ?_⟩
  rw [List.append_nil, List.append_nil] at hnodes
  rw [convert, lines_eq]
  exact hnodes.of_blanks (dropWhile_intercalate _).symm

end Vue

/-- The names of the settings can be written if their own entries can: the built-in ones can. -/
theorem Settings.writable_target {s : Settings} (htags : ∀ e ∈ s.tags.entries, IsTagName e.2)
    (hattributes : ∀ e ∈ s.attributes.entries, e.2 = "" ∨ IsAttributeName e.2) :
    s.target.Writable := by
  have hbuiltinTags : ∀ e ∈ Vue.tagTable.entries, IsTagName e.2 := by decide
  have hbuiltinAttributes : ∀ e ∈ Vue.attributeTable.entries, e.2 = "" ∨ IsAttributeName e.2 := by
    decide
  constructor
  · intro e he
    rcases Table.mem_insertAll he with he | he
    · exact hbuiltinTags e he
    · exact htags e he
  · intro e he
    rcases Table.mem_insertAll he with he | he
    · exact hbuiltinAttributes e he
    · exact hattributes e he

/-- **What a conversion writes is read back.** A template that is read without a fault, and whose
values have no backslash, is converted, by any settings whose names can be written, to a text that
is read without complaint with one level more, and as the forest in the target: the same but for
spans and for the blanks around texts. -/
theorem Template.read_convert (limit : Int) (text : String) (s : Settings)
    (hfaults : (read limit text).faults = [])
    (hb : AllValues (fun v => '\\' ∉ v.toList) (read limit text).forest)
    (htags : ∀ e ∈ s.tags.entries, IsTagName e.2)
    (hattributes : ∀ e ∈ s.attributes.entries, e.2 = "" ∨ IsAttributeName e.2) :
    (read (max limit 0 + 1) (Vue.convert s.target (read limit text).forest)).Clean ∧
      recastAll trim id
          (read (max limit 0 + 1) (Vue.convert s.target (read limit text).forest)).forest =
        Vue.translatedAll s.target (read limit text).forest := by
  obtain ⟨hwf, hnest⟩ := wellFormed_read hfaults
  obtain ⟨f', hf', hnodes⟩ :=
    Vue.exists_nodes_convert (Settings.writable_target htags hattributes) hwf hb
  have hroom : nestings f' ≤ (max limit 0 + 1).toNat := by
    have hdeep := Vue.nestings_translatedAll_le s.target hwf
    rw [← hf', nestings_recastAll] at hdeep
    omega
  obtain ⟨hclean, hforest⟩ := readChars_of_nodes hnodes hroom
  refine ⟨hclean, ?_⟩
  rw [← recastAll_unplacedAll, read, hforest]
  exact hf'

/-- A loop, a handler with both kinds of quotes in it, an attribute that is dropped, a void tag,
and an element that closes itself and becomes a pair of tags, so that the level more is needed; the
first element is not closed at all. -/
theorem Template.read_convert_unclosed :
    let text := "<view wx:for=x wx:key='*this' catchtap.once='say(\"it\\'s\")' hidden>" ++
      "<image src=a /><slot/>b"
    let s : Settings :=
      { Settings.standard with tags := ⟨[("slot", "my-slot")]⟩, attributes := ⟨[("hidden", "")]⟩ }
    (read 1 text).faults = [] ∧ AllValues (fun v => '\\' ∉ v.toList) (read 1 text).forest ∧
      (read (max 1 0 + 1) (Vue.convert s.target (read 1 text).forest)).Clean ∧
      recastAll trim id (read (max 1 0 + 1) (Vue.convert s.target (read 1 text).forest)).forest =
        Vue.translatedAll s.target (read 1 text).forest := by
  intro text s
  have hfaults : (read 1 text).faults = [] := by decide +kernel
  have hb : AllValues (fun v => '\\' ∉ v.toList) (read 1 text).forest := by decide +kernel
  exact ⟨hfaults, hb, read_convert 1 text s hfaults hb (by decide) (by decide)⟩

end MiniTemplate
