import MiniTemplate.Proofs.Faultless
import MiniTemplate.Proofs.Readable

/-!
# Indenting a template anew

A template that is written at one indentation and read again can be written at any other, and
nothing of the first indentation shows (`MiniTemplate.Template.write_read_write`). The margins and
the line breaks of the first text do come back: they stand at the end of a text, which goes on to
the next `<`. But they are blanks around that text, and those the writer trims off. Everything else
that was written comes back as it was, or masked, and a masked value is not masked again.

So the forest that is read back and the one that was written have the same readable form
(`MiniTemplate.Template.readable_read_write`), and this is all that the writer looks at. Whether an
element takes one line or several is part of it.
-/

namespace MiniTemplate.Template

open Text Node Markup

variable {limit : Int} {f : Forest}

/-- **What is written is read back** in its readable form, but for blanks around texts. -/
theorem trimmed_read_write (hf : AllWellFormed f) (hb : AllValues (fun v => '\\' ∉ v.toList) f)
    (hlimit : nestings f ≤ limit.toNat) (indent : Int) :
    (read limit (write indent f)).Clean ∧
      recastAll trim id (read limit (write indent f)).forest = readable f := by
  obtain ⟨f', hf', hnest, hnodes⟩ := exists_nodes_write indent hf hb
  obtain ⟨hclean, hread⟩ := readChars_of_nodes hnodes (hnest.le.trans hlimit)
  refine ⟨hclean, ?_⟩
  calc recastAll trim id (read limit (write indent f)).forest
      = recastAll trim id f' := by rw [← hread]; exact (recastAll_unplacedAll _ _ _).symm
    _ = readable f := hf'

/-- The two forests are the same up to what the readable form leaves out. -/
theorem readable_read_write (hf : AllWellFormed f) (hb : AllValues (fun v => '\\' ∉ v.toList) f)
    (hlimit : nestings f ≤ limit.toNat) (indent : Int) :
    readable (read limit (write indent f)).forest = readable f := by
  obtain ⟨-, htrimmed⟩ := trimmed_read_write hf hb hlimit indent
  rw [← readable_trimmed, htrimmed, readable_readable]

/-- **Nothing is lost by indenting anew.** If a text is read without a fault and no value has a
backslash, then its forest, written at any indentation and read again with the same limit, is read
without a fault and without an element left open, and is written at every indentation as the forest
that was read first. At the same indentation, what is written is a fixed point. -/
theorem write_read_write (limit indent : Int) (text : String)
    (hfaults : (read limit text).faults = [])
    (hb : AllValues (fun v => '\\' ∉ v.toList) (read limit text).forest) :
    let back := read limit (write indent (read limit text).forest)
    back.Clean ∧
      ∀ indent' : Int, write indent' back.forest = write indent' (read limit text).forest := by
  intro back
  obtain ⟨hf, hlimit⟩ := wellFormed_read hfaults
  refine ⟨(trimmed_read_write hf hb hlimit indent).1, ?_⟩
  intro indent'
  calc write indent' back.forest
      = write indent' (readable back.forest) := (write_readable indent' _).symm
    _ = write indent' (readable (read limit text).forest) := by
        rw [readable_read_write hf hb hlimit indent]
    _ = write indent' (read limit text).forest := write_readable indent' _

/-- A text of two lines between tags, which takes the margin of the next line with it, a value with
both kinds of quotes, and a comment and an element that the text ends in. -/
theorem write_read_write_margins :
    let text := "<a x=\"it's \\\"b\\\"\" y>  one\n   two <i> three\n</i><!-- four"
    let f := (read 2 text).forest
    let back := read 2 (write 4 f)
    (read 2 text).faults = [] ∧ AllValues (fun v => '\\' ∉ v.toList) f ∧ back.Clean ∧
      write 4 back.forest = write 4 f ∧
      write (-1) back.forest =
        "<a x=\"it's &quot;b&quot;\" y>\none\n   two\n<i>three</i>\n<!-- four-->\n</a>" := by
  intro text f back
  have hfaults : (read 2 text).faults = [] := by decide +kernel
  have hb : AllValues (fun v => '\\' ∉ v.toList) f := by decide +kernel
  obtain ⟨hclean, hwrite⟩ := write_read_write 2 4 text hfaults hb
  refine ⟨hfaults, hb, hclean, hwrite 4, ?_⟩
  rw [hwrite, write_eq]
  decide +kernel

end MiniTemplate.Template
