import MiniTemplate.Text.Split

/-!
# Directives

An attribute is a directive if its written name begins in one of four ways: with
`wx:`, with `@`, with `bind` or with `catch`. The written name carries more than the
directive's own name: what follows a dot is a modifier, and an event may be bound
with or without a colon, `bind:tap` and `bindtap` being the same directive.
-/

namespace MiniTemplate

/-- A directive: its name, without modifiers and in the spelling without a colon,
its value as written, and its modifiers. -/
structure Directive where
  name : String
  value : String
  modifiers : List String
  deriving DecidableEq, Repr

namespace Directive

/-- The beginnings that make a name the name of a directive. -/
def marks : List String := ["wx:", "@", "bind", "catch"]

/-- Is an attribute of this name a directive? -/
def isName (name : String) : Bool :=
  marks.any fun mark => mark.toList.isPrefixOf name.toList

/-- Drop the colon behind a leading word. -/
def dropColon (word : List Char) (cs : List Char) : List Char :=
  if (word ++ [':']).isPrefixOf cs then word ++ cs.drop (word.length + 1) else cs

/-- The spelling of an event's directive without a colon. -/
def plainSpelling (cs : List Char) : List Char :=
  dropColon "catch".toList (dropColon "bind".toList cs)

/-- **The directive of a written name** and its value. -/
def ofWritten (name value : String) : Directive :=
  let (base, modifiers) := Text.split '.' name.toList
  ⟨String.ofList (plainSpelling base), value, modifiers.map String.ofList⟩

/-! ### A spelling is made of the characters of the name -/

theorem mem_of_mem_dropColon {word cs : List Char} {x : Char} (h : x ∈ dropColon word cs) :
    x ∈ cs := by
  rw [dropColon] at h
  split at h
  · rename_i hprefix
    rcases List.mem_append.mp h with h | h
    · exact (List.isPrefixOf_iff_prefix.mp hprefix).subset (List.mem_append_left _ h)
    · exact List.mem_of_mem_drop h
  · exact h

theorem dropColon_ne_nil {word cs : List Char} (hword : word ≠ []) (hcs : cs ≠ []) :
    dropColon word cs ≠ [] := by
  rw [dropColon]
  split
  · simp [hword]
  · exact hcs

end Directive

end MiniTemplate
