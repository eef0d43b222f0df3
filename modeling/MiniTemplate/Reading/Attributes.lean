import MiniTemplate.Reading.Scan

/-!
# Reading the attributes of a tag

An attribute is a name, and perhaps `=` and a value, with blanks allowed around the
equals sign. The list of attributes goes on as long as a name follows; whatever else
comes ends it, and is for the tag to judge. A name that the tag already has is
remarked on, at the place behind its value.
-/

namespace MiniTemplate

/-- The value of an attribute: quoted, or a run of characters up to a blank, `>` or
`/`. A missing closing quote is remarked on at the opening one. -/
def readValue (c : Cursor) : Scan String :=
  let bare := c.rest.takeWhile isBareChar
  match c.rest with
  | q :: r =>
    if isQuote q then
      let t := quotedRun q r
      ⟨String.ofList t.value, c.skip (t.width + 1),
        if t.closed then [] else [⟨c.position, .unterminatedValue q⟩], []⟩
    else ⟨String.ofList bare, c.skip bare.length, [], []⟩
  | [] => ⟨"", c, [], []⟩

/-- One attribute, if a name follows. -/
def readAttribute (c : Cursor) : Option (Scan Attribute) :=
  let name := c.rest.takeWhile isAttributeChar
  if name.isEmpty then none
  else
    let behind := (c.skip name.length).skipBlanks
    match behind.rest with
    | '=' :: _ =>
      let v := readValue behind.advance.skipBlanks
      some ⟨.ofWritten (String.ofList name) v.value, v.cursor, v.faults, v.cautions⟩
    | _ => some ⟨.ofWritten (String.ofList name) "", behind, [], []⟩

/-! ### The list gets shorter -/

theorem length_rest_readValue_le (c : Cursor) :
    (readValue c).cursor.rest.length ≤ c.rest.length := by
  unfold readValue
  split
  · split <;> simp
  · exact Nat.le_refl _

theorem length_rest_readAttribute_lt {c : Cursor} {s : Scan Attribute}
    (h : readAttribute c = some s) : s.cursor.rest.length < c.rest.length := by
  unfold readAttribute at h
  generalize hn : c.rest.takeWhile isAttributeChar = name at h
  cases name with
  | nil => simp at h
  | cons a as =>
    have hc : c.rest ≠ [] := by
      intro hnil
      simp [hnil] at hn
    have hskip : (c.skip (a :: as).length).skipBlanks.rest.length < c.rest.length :=
      Nat.lt_of_le_of_lt (Cursor.length_rest_skipWhile_le _ _)
        (Cursor.length_rest_skip_lt (by simp) hc)
    simp only [List.isEmpty_cons, Bool.false_eq_true, if_false] at h
    split at h
    · cases h
      refine Nat.lt_of_le_of_lt (length_rest_readValue_le _) ?_
      refine Nat.lt_of_le_of_lt (Cursor.length_rest_skipWhile_le _ _) ?_
      exact Nat.lt_of_le_of_lt (Cursor.length_rest_skip_le _ _) hskip
    · cases h
      exact hskip

/-! ### The list of attributes -/

/-- The remark on an attribute whose name is among those seen before. -/
def duplicateCaution (tag : String) (seen : List String) (s : Scan Attribute) :
    List (Located Caution) :=
  if s.value.key ∈ seen then [⟨s.cursor.position, .duplicateAttribute s.value.name tag⟩] else []

/-- **The attributes of a tag**, as many as follow; `seen` holds the names that the tag
already has. -/
def readAttributes (tag : String) (seen : List String) (c : Cursor) : Scan (List Attribute) :=
  match h : readAttribute c.skipBlanks with
  | none => ⟨[], c.skipBlanks, [], []⟩
  | some s =>
    have : s.cursor.rest.length < c.rest.length :=
      Nat.lt_of_lt_of_le (length_rest_readAttribute_lt h) (Cursor.length_rest_skipWhile_le _ _)
    let more := readAttributes tag (s.value.key :: seen) s.cursor
    ⟨s.value :: more.value, more.cursor, s.faults ++ more.faults,
      duplicateCaution tag seen s ++ more.cautions⟩
termination_by c.rest.length

theorem length_rest_readAttributes_le (tag : String) (seen : List String) (c : Cursor) :
    (readAttributes tag seen c).cursor.rest.length ≤ c.rest.length := by
  fun_induction readAttributes tag seen c with
  | case1 seen c h => exact Cursor.length_rest_skipWhile_le _ _
  | case2 seen c s h hlt more ih => exact Nat.le_trans ih (Nat.le_of_lt hlt)

end MiniTemplate
