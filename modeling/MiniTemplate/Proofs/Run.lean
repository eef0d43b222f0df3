import Mathlib.Data.List.TakeWhile
import MiniTemplate.Cursor

/-!
# Maximal runs, and what a cursor passes

Two relations that the rest of the theory is stated with.

`MiniTemplate.Text.Run` says that a text begins with a run of characters of one class and that
the run is *maximal*: what follows does not begin with another character of the class. A
text begins with exactly one such run (`MiniTemplate.Text.Run.unique`), the one that `takeWhile`
takes, so a rule that asks for a maximal run leaves nothing to choose.
`MiniTemplate.Text.Blanks` is the case that is needed most: the blanks between two things.

`MiniTemplate.Cursor.Passes` says that passing some characters leads from one cursor to
another. Every reader moves its cursor in this way, and the relation composes, so where a
reader has come to is known from the characters it has passed.
-/

namespace MiniTemplate

namespace Text

variable {p : Char → Bool} {t w r : List Char}

/-! ### Maximal runs -/

/-- **A maximal run**: the text `t` begins with the characters `w`, all of the class `p`, and
goes on with `r`, which does not begin with another one. -/
structure Run (p : Char → Bool) (t w r : List Char) : Prop where
  /-- The text is the run and what follows it. -/
  split : t = w ++ r
  /-- The run is of the class. -/
  all : ∀ c ∈ w, p c
  /-- The run does not go on. -/
  stops : ∀ c ∈ r.head?, p c = false

theorem dropWhile_of_stops (h : ∀ c ∈ r.head?, p c = false) : r.dropWhile p = r := by
  cases r with
  | nil => rfl
  | cons c r => exact List.dropWhile_cons_of_neg (by simp [h c rfl])

theorem takeWhile_of_stops (h : ∀ c ∈ r.head?, p c = false) : r.takeWhile p = [] := by
  cases r with
  | nil => rfl
  | cons c r => exact List.takeWhile_cons_of_neg (by simp [h c rfl])

theorem stops_cons {c : Char} (hc : p c = false) (r : List Char) :
    ∀ x ∈ (c :: r).head?, p x = false := by
  intro x hx
  obtain rfl : c = x := by simpa using hx
  exact hc

theorem stops_dropWhile (p : Char → Bool) (t : List Char) :
    ∀ c ∈ (t.dropWhile p).head?, p c = false := by
  intro c hc
  have h := List.head?_dropWhile_not p t
  rw [Option.mem_def.mp hc] at h
  exact h

@[simp] theorem dropWhile_dropWhile (p : Char → Bool) (t : List Char) :
    (t.dropWhile p).dropWhile p = t.dropWhile p :=
  dropWhile_of_stops (stops_dropWhile p t)

theorem Run.takeWhile_eq (h : Run p t w r) : t.takeWhile p = w := by
  rw [h.split, List.takeWhile_append_of_pos h.all, takeWhile_of_stops h.stops, List.append_nil]

theorem Run.dropWhile_eq (h : Run p t w r) : t.dropWhile p = r := by
  rw [h.split, List.dropWhile_append_of_pos h.all, dropWhile_of_stops h.stops]

theorem Run.drop_eq (h : Run p t w r) : t.drop w.length = r := by
  rw [h.split, List.drop_left]

theorem run_takeWhile (p : Char → Bool) (t : List Char) :
    Run p t (t.takeWhile p) (t.dropWhile p) where
  split := List.takeWhile_append_dropWhile.symm
  all _ hc := List.mem_takeWhile_imp hc
  stops := stops_dropWhile p t

theorem run_append (hw : ∀ c ∈ w, p c) (hr : ∀ c ∈ r.head?, p c = false) : Run p (w ++ r) w r :=
  ⟨rfl, hw, hr⟩

/-- **A text begins with one maximal run.** -/
theorem Run.unique {w' r' : List Char} (h : Run p t w r) (h' : Run p t w' r') :
    w = w' ∧ r = r' :=
  ⟨h.takeWhile_eq.symm.trans h'.takeWhile_eq, h.dropWhile_eq.symm.trans h'.dropWhile_eq⟩

/-! ### Blanks -/

/-- The text `t` is `r` behind all the blanks that it begins with. -/
def Blanks (t r : List Char) : Prop := ∃ w, Run isBlank t w r

theorem blanks_iff : Blanks t r ↔ t.dropWhile isBlank = r := by
  constructor
  · rintro ⟨w, h⟩
    exact h.dropWhile_eq
  · rintro rfl
    exact ⟨_, run_takeWhile _ _⟩

theorem blanks_dropWhile (t : List Char) : Blanks t (t.dropWhile isBlank) :=
  blanks_iff.mpr rfl

theorem blanks_refl {c : Char} (hc : isBlank c = false) (r : List Char) :
    Blanks (c :: r) (c :: r) :=
  blanks_iff.mpr (List.dropWhile_cons_of_neg (by simp [hc]))

theorem Blanks.unique {r' : List Char} (h : Blanks t r) (h' : Blanks t r') : r = r' :=
  (blanks_iff.mp h).symm.trans (blanks_iff.mp h')

theorem Blanks.cons {c : Char} (hc : isBlank c) (h : Blanks t r) : Blanks (c :: t) r := by
  rw [blanks_iff] at h ⊢
  rw [List.dropWhile_cons_of_pos hc, h]

theorem Blanks.append {b : List Char} (hb : ∀ c ∈ b, isBlank c) (h : Blanks t r) :
    Blanks (b ++ t) r := by
  rw [blanks_iff] at h ⊢
  rw [List.dropWhile_append_of_pos hb, h]

end Text

/-! ### What a cursor passes -/

namespace Cursor

variable {c d e : Cursor} {w w' : List Char}

/-- **Passing** the characters `w` leads from the cursor `c` to the cursor `d`. -/
structure Passes (c : Cursor) (w : List Char) (d : Cursor) : Prop where
  /-- The characters were ahead. -/
  rest : c.rest = w ++ d.rest
  /-- So many characters are passed. -/
  skip : d = c.skip w.length

@[simp] theorem skip_zero (c : Cursor) : c.skip 0 = c := by
  simp [Cursor.skip]

theorem skip_skip (c : Cursor) (m n : Nat) : (c.skip m).skip n = c.skip (m + n) := by
  simp only [Cursor.skip, Cursor.mk.injEq, List.drop_drop, true_and]
  constructor
  · rw [List.take_add, List.reverse_append, List.append_assoc]
  · rw [← Position.past_append, List.take_add]

theorem skip_min (c : Cursor) (n : Nat) : c.skip (min n c.rest.length) = c.skip n := by
  rcases Nat.le_total n c.rest.length with h | h
  · rw [Nat.min_eq_left h]
  · rw [Nat.min_eq_right h]
    simp [Cursor.skip, List.take_of_length_le h, List.drop_of_length_le h]

theorem Passes.refl (c : Cursor) : Passes c [] c := ⟨rfl, (skip_zero c).symm⟩

theorem Passes.trans (h : Passes c w d) (h' : Passes d w' e) : Passes c (w ++ w') e where
  rest := by rw [h.rest, h'.rest, List.append_assoc]
  skip := by rw [h'.skip, h.skip, skip_skip, List.length_append]

theorem passes_skip (c : Cursor) (n : Nat) : Passes c (c.rest.take n) (c.skip n) where
  rest := (List.take_append_drop n c.rest).symm
  skip := by rw [List.length_take, skip_min]

theorem passes_skip_length {r : List Char} (h : c.rest = w ++ r) :
    Passes c w (c.skip w.length) where
  rest := by rw [rest_skip, h, List.drop_left]
  skip := rfl

theorem Passes.position (h : Passes c w d) : d.position = c.position.past w := by
  rw [h.skip, position_skip, h.rest, List.take_left]

theorem Passes.offset (h : Passes c w d) :
    d.position.offset = c.position.offset + w.length := by
  rw [h.position, Position.offset_past]

@[simp] theorem skipBlanks_skipBlanks (c : Cursor) : c.skipBlanks.skipBlanks = c.skipBlanks := by
  have h : c.skipBlanks.rest.takeWhile Text.isBlank = [] := by
    rw [rest_skipBlanks]
    exact Text.takeWhile_of_stops (Text.stops_dropWhile _ _)
  rw [skipBlanks, skipWhile, h, List.length_nil, skip_zero]

theorem skipBlanks_of_rest {a : Char} {r : List Char} (h : c.rest = a :: r)
    (ha : Text.isBlank a = false) : c.skipBlanks = c := by
  rw [skipBlanks, skipWhile, h, List.takeWhile_cons_of_neg (by simp [ha]), List.length_nil,
    skip_zero]

end Cursor

end MiniTemplate
