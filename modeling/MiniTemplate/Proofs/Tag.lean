import Mathlib.Data.List.Forall2
import MiniTemplate.Markup.Write
import MiniTemplate.Proofs.Grammar
import MiniTemplate.Proofs.WellFormed

/-!
# Written tags are tags of the grammar

The writer puts a value between quotes that do not occur in it, and where both kinds occur it
writes the double ones in another way first. So what stands between the quotes is
`MiniTemplate.Markup.masked` of the value, free of the quote around it
(`MiniTemplate.Markup.toList_quoteValue`). The writer does not care for backslashes, which the
grammar gives a meaning to; where a value has none, the two agree, and an attribute, a list
of attributes and the head of a tag are derived as they were meant.

What follows a written tag must not go on with the last name in it. It never does: a tag
goes on with a space or with `>`. So a text can be said to spell an attribute, whatever follows
it that is no such character (`MiniTemplate.Markup.Spells`), and texts that spell attributes make
the head of a tag (`MiniTemplate.Markup.headText_tagHead`). The writer of this dialect is one that
spells its attributes (`MiniTemplate.Markup.forall₂_spells`).
-/

namespace MiniTemplate

open Text Grammar

namespace Markup

/-! ### Values -/

/-- Characters with `&quot;` in the place of each double quote. -/
def quotesReplaced : List Char → List Char
  | [] => []
  | c :: cs => (if c = '"' then ['&', 'q', 'u', 'o', 't', ';'] else [c]) ++ quotesReplaced cs

/-- What stands between the quotes of a written value: the value itself, or, if it has both kinds
of quotes in it, the value with `&quot;` for its double ones. -/
def masked (value : String) : String :=
  if '"' ∈ value.toList ∧ '\'' ∈ value.toList then String.ofList (quotesReplaced value.toList)
  else value

theorem maskQuotes_eq (value : String) :
    maskQuotes value = String.ofList (quotesReplaced value.toList) := by
  rw [maskQuotes]
  congr 1
  induction value.toList with
  | nil => rfl
  | cons c cs ih =>
    rw [List.flatMap_cons, ih]
    rfl

theorem masked_eq (value : String) :
    masked value =
      if '"' ∈ value.toList ∧ '\'' ∈ value.toList then maskQuotes value else value := by
  rw [masked, maskQuotes_eq]

/-- **A value that needs no masking**: it has at most one kind of quotes. -/
def Quotable (value : String) : Prop := ¬('"' ∈ value.toList ∧ '\'' ∈ value.toList)

instance : DecidablePred Quotable := fun _ => inferInstanceAs (Decidable (¬_))

theorem masked_eq_self {value : String} (h : Quotable value) : masked value = value := if_neg h

theorem mem_maskQuotes {value : String} {c : Char} (h : c ∈ (maskQuotes value).toList) :
    c ∈ "&quot;".toList ∨ c ≠ '"' ∧ c ∈ value.toList := by
  rw [maskQuotes, String.toList_ofList, List.mem_flatMap] at h
  obtain ⟨d, hd, hc⟩ := h
  split at hc
  · exact Or.inl hc
  · rename_i hne
    obtain rfl := List.mem_singleton.mp hc
    exact Or.inr ⟨hne, hd⟩

theorem quote_maskQuotes (value : String) : '"' ∉ (maskQuotes value).toList := by
  intro h
  rcases mem_maskQuotes h with hq | ⟨hne, -⟩
  · exact absurd hq (by decide)
  · exact hne rfl

theorem backslash_masked {value : String} (h : '\\' ∉ value.toList) :
    '\\' ∉ (masked value).toList := by
  rw [masked_eq]
  split
  · intro hmem
    rcases mem_maskQuotes hmem with hq | ⟨-, hv⟩
    · exact absurd hq (by decide)
    · exact h hv
  · exact h

/-- **A value is written between quotes that do not occur in it.** -/
theorem toList_quoteValue (value : String) :
    ∃ q, isQuote q ∧ q ∉ (masked value).toList ∧
      (quoteValue value).toList = q :: ((masked value).toList ++ [q]) := by
  by_cases hd : '"' ∈ value.toList
  · by_cases hs : '\'' ∈ value.toList
    · refine ⟨'"', by decide, ?_, ?_⟩
      · rw [masked_eq, if_pos ⟨hd, hs⟩]
        exact quote_maskQuotes value
      · rw [quoteValue, if_pos hd, if_pos hs, masked_eq, if_pos ⟨hd, hs⟩]
        simp
    · have hm : masked value = value := masked_eq_self fun h => hs h.2
      refine ⟨'\'', by decide, by rwa [hm], ?_⟩
      rw [quoteValue, if_pos hd, if_neg hs, hm]
      simp
  · have hm : masked value = value := masked_eq_self fun h => hd h.1
    refine ⟨'"', by decide, by rwa [hm], ?_⟩
    rw [quoteValue, if_neg hd, hm]
    simp

theorem blanks_quoteValue (value : String) (r : List Char) :
    Blanks ((quoteValue value).toList ++ r) ((quoteValue value).toList ++ r) := by
  obtain ⟨q, hq, -, htext⟩ := toList_quoteValue value
  have hblank : isBlank q = false := by
    simp only [isQuote, Bool.or_eq_true, beq_iff_eq] at hq
    rcases hq with rfl | rfl <;> decide
  rw [htext]
  exact blanks_refl hblank _

theorem quoted_append {q : Char} {v : List Char} (hq : q ∉ v) (hb : '\\' ∉ v) (r : List Char) :
    Quoted q (v ++ q :: r) v r := by
  induction v with
  | nil => exact .close r
  | cons c v ih =>
    rw [List.mem_cons, not_or] at hq hb
    exact .plain (Ne.symm hq.1) (Ne.symm hb.1) (ih hq.2 hb.2)

/-- A written value without backslashes is read as what stands between its quotes. -/
theorem value_quoteValue {value : String} (hb : '\\' ∉ value.toList) (r : List Char) :
    Value ((quoteValue value).toList ++ r) (masked value).toList r := by
  obtain ⟨q, hq, hnot, htext⟩ := toList_quoteValue value
  rw [htext, List.cons_append, List.append_assoc]
  exact .quoted hq (quoted_append hnot (backslash_masked hb) r)

end Markup

/-! ### Attributes -/

/-- An attribute with its value as it can be read back. -/
def Attribute.masked (a : Attribute) : Attribute := .ofWritten a.name (Markup.masked a.value)

theorem Attribute.masked_eq_self {a : Attribute} (ha : a.WellFormed)
    (hq : Markup.Quotable a.value) : a.masked = a := by
  rw [Attribute.masked, Markup.masked_eq_self hq]
  exact ha.2.2.symm

namespace Markup

variable {a : Attribute} {x name : String} {xs : List String} {as : List Attribute}
  {r r' : List Char}

/-- **A text spells an attribute** if it is read as that attribute in front of everything that
does not go on with a name. -/
def Spells (x : String) (a : Attribute) : Prop :=
  ∀ r : List Char, (∀ c ∈ r.head?, isAttributeChar c = false) → Attr (x.toList ++ r) a r

theorem Spells.exists_cons (h : Spells x a) : ∃ c s, x.toList = c :: s ∧ isAttributeChar c := by
  have hattr := h [] (by simp)
  rw [List.append_nil] at hattr
  exact hattr.head

theorem spells_name (hne : name.toList ≠ []) (hname : ∀ c ∈ name.toList, isAttributeChar c) :
    Spells name (.ofWritten name "") := by
  intro r hr
  have h := Attr.alone hne (run_append hname hr)
  rwa [String.ofList_toList] at h

/-- A name with a value in quotes spells the two. -/
theorem spells_assign (hne : name.toList ≠ []) (hname : ∀ c ∈ name.toList, isAttributeChar c)
    {value : String} (hb : '\\' ∉ value.toList) :
    Spells (assign name value) (.ofWritten name (masked value)) := by
  intro r hr
  rw [assign, String.toList_append, String.toList_append, List.append_assoc, List.append_assoc]
  have hrun : Run isAttributeChar (name.toList ++ '=' :: ((quoteValue value).toList ++ r))
      name.toList ('=' :: ((quoteValue value).toList ++ r)) :=
    run_append hname (stops_cons (by decide) _)
  have h := Attr.valued hne hrun (blanks_refl (by decide) _) (blanks_quoteValue value r)
    (value_quoteValue hb r)
  rwa [String.ofList_toList, String.ofList_toList] at h

theorem spells_attributeText (ha : a.WellFormed) (hb : '\\' ∉ a.value.toList) :
    Spells (attributeText a) a.masked := by
  obtain ⟨hne, hname, -⟩ := ha
  rw [attributeText]
  split
  · rename_i hempty
    rw [Attribute.masked, String.isEmpty_iff.mp hempty]
    exact spells_name hne hname
  · exact spells_assign hne hname hb

/-- An attribute is written with its name in front. -/
theorem exists_attributeText (ha : a.WellFormed) :
    ∃ x s, (attributeText a).toList = x :: s ∧ isAttributeChar x := by
  obtain ⟨x, n, hn⟩ := List.exists_cons_of_ne_nil ha.1
  have hx : isAttributeChar x := ha.2.1 x (by simp [hn])
  rw [attributeText]
  split
  · exact ⟨x, n, hn, hx⟩
  · rw [assign, String.toList_append, String.toList_append, hn]
    exact ⟨x, _, rfl, hx⟩

theorem blanks_attributeText (ha : a.WellFormed) (t : List Char) :
    Blanks (' ' :: ((attributeText a).toList ++ t)) ((attributeText a).toList ++ t) := by
  obtain ⟨x, s, hs, hx⟩ := exists_attributeText ha
  rw [hs]
  exact (blanks_refl (isBlank_of_isAttributeChar hx) _).cons (by decide)

/-! ### Tags -/

/-- Joining by one character, and putting it in front of each part, differ by the first. -/
theorem cons_toList_intercalate {s : String} {c : Char} (hs : s.toList = [c]) {l : List String}
    (hl : l ≠ []) : c :: (s.intercalate l).toList = l.flatMap fun x => c :: x.toList := by
  induction l with
  | nil => exact absurd rfl hl
  | cons x l ih =>
    cases l with
    | nil => simp
    | cons y l =>
      rw [String.intercalate_cons_cons, List.flatMap_cons, ← ih (by simp)]
      simp [hs]

/-- The parts of a tag behind its name, each behind a space. -/
def partsText (xs : List String) : List Char := xs.flatMap fun x => ' ' :: x.toList

theorem partsText_cons (x : String) (xs : List String) (t : List Char) :
    partsText (x :: xs) ++ t = ' ' :: (x.toList ++ (partsText xs ++ t)) := by
  simp [partsText]

/-- What follows the name begins with a space, or with what follows the tag. -/
theorem stops_partsText {p : Char → Bool} (hp : p ' ' = false) (xs : List String)
    (hr : ∀ c ∈ r.head?, p c = false) : ∀ c ∈ (partsText xs ++ r).head?, p c = false := by
  cases xs with
  | nil => exact hr
  | cons x xs => exact stops_cons hp _

/-- The head of a tag: its name, and its parts. -/
theorem toList_tagHead_parts (name : String) (hxs : ∀ x ∈ xs, x.toList ≠ []) :
    (tagHead name xs).toList = '<' :: (name.toList ++ partsText xs) := by
  cases xs with
  | nil => simp [tagHead, partsText]
  | cons x xs =>
    have hjoin := cons_toList_intercalate (s := " ") (c := ' ') rfl (l := x :: xs) (by simp)
    -- the writer looks whether the joined text is empty, not whether there are parts
    have hne : (" ".intercalate (x :: xs)).isEmpty = false := by
      rw [Bool.eq_false_iff]
      intro hempty
      rw [String.isEmpty_iff.mp hempty] at hjoin
      obtain ⟨c, s, hs⟩ := List.exists_cons_of_ne_nil (hxs x (by simp))
      simp [hs] at hjoin
    rw [tagHead, hne, partsText, ← hjoin]
    simp

theorem attrs_partsText (h : List.Forall₂ Spells xs as)
    (hr : ∀ c ∈ r.head?, isAttributeChar c = false) (hr' : Blanks r r') :
    Attrs (partsText xs ++ r) as r' := by
  induction h with
  | nil => exact .nil hr'
  | @cons x a xs as hx _ ih =>
    obtain ⟨c, s, hs, hc⟩ := hx.exists_cons
    have hblanks : Blanks (' ' :: (x.toList ++ (partsText xs ++ r)))
        (x.toList ++ (partsText xs ++ r)) := by
      rw [hs]
      exact (blanks_refl (isBlank_of_isAttributeChar hc) _).cons (by decide)
    rw [partsText_cons]
    exact .cons hblanks (hx _ (stops_partsText (by decide) xs hr)) ih

/-- **A text is the head of a tag**, in front of everything that does not go on with a name. -/
def HeadText (x name : String) (as : List Attribute) : Prop :=
  ∀ r r' : List Char, (∀ c ∈ r.head?, isAttributeChar c = false) → Blanks r r' →
    Head (x.toList ++ r) name as r'

/-- **A written tag begins with a head of the grammar.** -/
theorem headText_tagHead (hne : name.toList ≠ []) (hname : ∀ c ∈ name.toList, isTagChar c)
    (h : List.Forall₂ Spells xs as) : HeadText (tagHead name xs) name as := by
  intro r r' hr hr'
  have hstop : ∀ c ∈ r.head?, isTagChar c = false := by
    intro c hc
    have hattr : isAttributeChar c = false := hr c hc
    rw [isAttributeChar, Bool.or_eq_false_iff, Bool.or_eq_false_iff, Bool.or_eq_false_iff] at hattr
    exact hattr.1.1.1
  have hxs : ∀ x ∈ xs, x.toList ≠ [] := by
    refine ((List.forall₂_and_left xs as).mp (h.imp fun x a hx => ⟨?_, hx⟩)).1
    obtain ⟨c, s, hs, -⟩ := hx.exists_cons
    simp [hs]
  have hrun := run_append hname (stops_partsText (by decide) xs hstop)
  have hhead := Head.mk hne hrun (attrs_partsText h hr hr')
  rw [String.ofList_toList] at hhead
  rw [toList_tagHead_parts name hxs, List.cons_append, List.append_assoc]
  exact hhead

/-! ### Attributes as they were -/

/-- Attributes as they stand in a tag, each behind a space. -/
def attributesText (as : List Attribute) : List Char :=
  as.flatMap fun a => ' ' :: (attributeText a).toList

theorem attributesText_eq (as : List Attribute) :
    attributesText as = partsText (as.map attributeText) := by
  rw [partsText, List.flatMap_map, attributesText]

theorem attributesText_cons (a : Attribute) (as : List Attribute) (t : List Char) :
    attributesText (a :: as) ++ t =
      ' ' :: ((attributeText a).toList ++ (attributesText as ++ t)) := by
  simp [attributesText]

theorem stops_attributesText {p : Char → Bool} (hp : p ' ' = false) (as : List Attribute)
    (hr : ∀ c ∈ r.head?, p c = false) : ∀ c ∈ (attributesText as ++ r).head?, p c = false := by
  rw [attributesText_eq]
  exact stops_partsText hp _ hr

theorem toList_tagHead (has : ∀ a ∈ as, a.WellFormed) :
    (tagHead name (as.map attributeText)).toList = '<' :: (name.toList ++ attributesText as) := by
  rw [attributesText_eq]
  refine toList_tagHead_parts name ?_
  intro x hx
  obtain ⟨a, ha, rfl⟩ := List.mem_map.mp hx
  obtain ⟨c, s, hs, -⟩ := exists_attributeText (has a ha)
  simp [hs]

/-- **Well-formed attributes are spelled** as they can be read back. -/
theorem forall₂_spells (has : ∀ a ∈ as, a.WellFormed) (hb : ∀ a ∈ as, '\\' ∉ a.value.toList) :
    List.Forall₂ Spells (as.map attributeText) (as.map Attribute.masked) := by
  rw [List.forall₂_map_left_iff, List.forall₂_map_right_iff, List.forall₂_same]
  exact fun a ha => spells_attributeText (has a ha) (hb a ha)

end Markup

end MiniTemplate
