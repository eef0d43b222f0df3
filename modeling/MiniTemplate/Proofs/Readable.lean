import MiniTemplate.Proofs.Proper
import MiniTemplate.Proofs.RoundTrip

/-!
# What the writer looks at

A written forest is read back in its readable form (`MiniTemplate.Markup.readable`): without
spans, with the blanks around its texts trimmed off, and with the values masked that have both
kinds of quotes. The writer does all this on the way and does not see whether it has been done
before. So a forest and its readable form are written alike
(`MiniTemplate.Markup.write_readable`), and taking the readable form twice is taking it once
(`MiniTemplate.Markup.readable_readable`).

Nor does the writer look at the directives of attributes, which the readable form makes anew
from the written names. So for the readable form to be well-formed, an attribute needs no more
than a name that can be written.
-/

namespace MiniTemplate

open Text

namespace Markup

/-! ### Values -/

theorem quotable_masked (value : String) : Quotable (masked value) := by
  rw [masked_eq]
  split
  · exact fun h => quote_maskQuotes value h.1
  · assumption

theorem masked_masked (value : String) : masked (masked value) = masked value :=
  masked_eq_self (quotable_masked value)

theorem quoteValue_masked (value : String) : quoteValue (masked value) = quoteValue value := by
  by_cases h : Quotable value
  · rw [masked_eq_self h]
  · obtain ⟨hd, hs⟩ := Decidable.not_not.mp h
    rw [masked_eq, if_pos ⟨hd, hs⟩, quoteValue, if_neg (quote_maskQuotes value), quoteValue,
      if_pos hd, if_pos hs]

theorem masked_eq_empty_iff {value : String} : masked value = "" ↔ value = "" := by
  rw [masked_eq]
  split
  · rename_i h
    -- the single quote is there before and after
    have hs : '\'' ∈ (maskQuotes value).toList := by
      rw [maskQuotes, String.toList_ofList, List.mem_flatMap]
      exact ⟨'\'', h.2, by simp⟩
    constructor
    · intro hempty
      exact absurd hs (by simp [hempty])
    · intro hempty
      exact absurd h.2 (by simp [hempty])
  · exact Iff.rfl

end Markup

/-! ### Attributes -/

namespace Attribute

@[simp] theorem name_masked (a : Attribute) : a.masked.name = a.name := name_ofWritten _ _

@[simp] theorem value_masked (a : Attribute) : a.masked.value = Markup.masked a.value :=
  value_ofWritten _ _

theorem masked_masked (a : Attribute) : a.masked.masked = a.masked := by
  rw [masked, name_masked, value_masked, Markup.masked_masked]
  rfl

theorem wellFormed_masked {a : Attribute} (hne : a.name.toList ≠ [])
    (hname : ∀ c ∈ a.name.toList, isAttributeChar c) : a.masked.WellFormed := by
  rw [WellFormed, name_masked, value_masked]
  exact ⟨hne, hname, rfl⟩

end Attribute

theorem Markup.attributeText_masked (a : Attribute) :
    attributeText a.masked = attributeText a := by
  simp only [attributeText, String.isEmpty_iff, Attribute.name_masked, Attribute.value_masked,
    masked_eq_empty_iff, assign, quoteValue_masked]

/-! ### Nodes -/

namespace Node

variable (g : String → String) (h : Attribute → Attribute)

@[simp] theorem isText_recast (n : Node) : (n.recast g h).isText = n.isText := by
  cases n <;> rfl

theorem all_isText_recastAll (f : List Node) :
    (recastAll g h f).all isText = f.all isText := by
  simp [recastAll_eq_map, Function.comp_def]

theorem trimmedText_recast (n : Node) : (n.recast trim h).trimmedText = n.trimmedText := by
  cases n with
  | element _ _ _ _ _ => rfl
  | comment _ _ => rfl
  | text content span => exact trim_trim content

theorem Proper.trimmed {content : String} {span : Option Span} (hp : (text content span).Proper) :
    (text (trim content) none).Proper := by
  obtain ⟨hlt, hblank⟩ := hp
  obtain ⟨c, w, hw⟩ := List.exists_cons_of_ne_nil (trimChars_ne_nil hblank)
  rw [Proper, toList_trim]
  refine ⟨fun hmem => hlt (mem_of_mem_trimChars hmem), c, by simp [hw], ?_⟩
  exact (trimmed_trimChars content.toList).1 c (by simp [hw])

end Node

/-! ### Forests -/

/-- What masking keeps of values holds of them in the readable form. -/
theorem Node.AllValues.readable {P : String → Prop} {f : List Node} (h : AllValues P f)
    (hP : ∀ v, P v → P (Markup.masked v)) : AllValues P (Markup.readable f) := by
  induction f using forest_induction with
  | nil => trivial
  | text content span ns ih => exact ⟨trivial, ih h.2⟩
  | comment content span ns ih => exact ⟨trivial, ih h.2⟩
  | element name as children selfClosing span ns ihc ihn =>
    obtain ⟨⟨has, hc⟩, hns⟩ := h
    refine ⟨⟨?_, ihc hc⟩, ihn hns⟩
    intro a ha
    obtain ⟨b, hb, rfl⟩ := List.mem_map.mp ha
    rw [Attribute.value_masked]
    exact hP _ (has b hb)

namespace Markup

theorem readable_readable (f : List Node) : readable (readable f) = readable f := by
  have htrim : trim ∘ trim = trim := funext trim_trim
  have hmasked : Attribute.masked ∘ Attribute.masked = Attribute.masked :=
    funext Attribute.masked_masked
  rw [readable, readable, Node.recastAll_recastAll, htrim, hmasked]

/-- What was trimmed already is readable in the same way. -/
theorem readable_trimmed (f : List Node) : readable (Node.recastAll trim id f) = readable f := by
  have htrim : trim ∘ trim = trim := funext trim_trim
  rw [readable, Node.recastAll_recastAll, htrim]
  rfl

/-- **The lines of a forest are those of its readable form.** -/
theorem lines_readable (indent level : Int) (f : List Node) :
    lines indent level (readable f) = lines indent level f := by
  induction f using Node.forest_induction generalizing level with
  | nil => rfl
  | text content span ns ih =>
    change nodeLines indent level (.text (trim content) none) ++
      lines indent level (readable ns) = _
    rw [ih, lines_cons, nodeLines, nodeLines, trim_trim]
  | comment content span ns ih =>
    change nodeLines indent level (.comment content none) ++ lines indent level (readable ns) = _
    rw [ih]
    rfl
  | element name as children selfClosing span ns ihc ihn =>
    change nodeLines indent level
      (.element name (as.map Attribute.masked) (readable children) selfClosing none) ++
        lines indent level (readable ns) = _
    have htags : (as.map Attribute.masked).map attributeText = as.map attributeText := by
      rw [List.map_map]
      exact List.map_congr_left fun a _ => attributeText_masked a
    have hempty : (readable children).isEmpty = children.isEmpty := by
      simp [readable, Node.recastAll_eq_map]
    have htexts : (readable children).map Node.trimmedText = children.map Node.trimmedText := by
      rw [readable, Node.recastAll_eq_map, List.map_map]
      exact List.map_congr_left fun n _ => Node.trimmedText_recast _ n
    have hinline : (Node.element name (as.map Attribute.masked) (readable children) selfClosing
        none).isInline = (Node.element name as children selfClosing span).isInline := by
      rw [Node.isInline, Node.isInline, hempty, readable, Node.all_isText_recastAll]
    rw [ihn, lines_cons]
    simp only [nodeLines_element, htags, hempty, hinline, htexts, ihc]

/-- **A forest is written as its readable form is.** -/
theorem write_readable (indent : Int) (f : List Node) :
    write indent (readable f) = write indent f := by
  rw [write_eq, write_eq, lines_readable]

end Markup

end MiniTemplate
