/-!
# Blank characters

A template treats a good many characters as blank: the ASCII controls from tab
to carriage return, the four separators below the space, and the spaces of
Unicode. Zero-width characters and the byte order mark are *not* blank: they are
content like any other.

This file fixes the class, `MiniTemplate.Text.isBlank`, and what it means to trim
a text, `MiniTemplate.Text.trim`. Trimming is defined on lists of characters, and
the version on strings only wraps it.
-/

namespace MiniTemplate.Text

/-- The blank characters. -/
def isBlank (c : Char) : Bool :=
  let n := c.toNat
  (0x09 ≤ n && n ≤ 0x0D) || (0x1C ≤ n && n ≤ 0x20) || n == 0x85 || n == 0xA0 || n == 0x1680 ||
    (0x2000 ≤ n && n ≤ 0x200A) || n == 0x2028 || n == 0x2029 || n == 0x202F || n == 0x205F ||
    n == 0x3000

/-- The list without the blanks at its end. -/
def trimEndChars (cs : List Char) : List Char :=
  (cs.reverse.dropWhile isBlank).reverse

/-- The list without the blanks at either end. -/
def trimChars (cs : List Char) : List Char :=
  trimEndChars (cs.dropWhile isBlank)

/-- The text without the blanks at either end. -/
def trim (s : String) : String :=
  String.ofList (trimChars s.toList)

/-- The text without the blanks at its end. -/
def trimEnd (s : String) : String :=
  String.ofList (trimEndChars s.toList)

@[simp] theorem toList_trim (s : String) : (trim s).toList = trimChars s.toList := by
  simp [trim]

@[simp] theorem toList_trimEnd (s : String) : (trimEnd s).toList = trimEndChars s.toList := by
  simp [trimEnd]

end MiniTemplate.Text
