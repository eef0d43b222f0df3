import MiniTemplate.Json.Read
import MiniTemplate.Json.Write
import MiniTemplate.Proofs.ReportShape
import MiniTemplate.Proofs.Run

/-!
# Reading JSON that was written

A JSON text is read back as the value that was written, in every layout, as long as all numbers of
the value are integers (`MiniTemplate.Json.read?_write`). The layouts differ only in the blanks in
front of an item, and the reader passes these wherever they stand.

A value stands inside another one, so the statement is about its characters with something behind
them (`MiniTemplate.Json.Restored`). Only a number does not end by itself: what follows must not go
on with it (`MiniTemplate.Json.Ends`), and in every layout it is a comma, a bracket or a blank. The
reader of values counts its calls; as many as the text has characters are enough, since two of
them go into an array or an object for its two brackets, and one into each further item for its
comma.

Reports have no other numbers, and no object in them has a key twice
(`MiniTemplate.Json.Distinct`), so nothing is lost on a reader that keeps one member for each key.

## Main statements

* `MiniTemplate.Report.restored_ofTemplate`: the report on any text is read back from what is
  written of it, at every indentation.
-/

namespace MiniTemplate

namespace Json

open Text Decimal

variable {l : Layout} {r : List Char}

/-! ### Texts -/

theorem hexValue?_hexDigit : ∀ n < 16, hexValue? (Text.hexDigit n) = some n := by decide

/-- **How a character is written**: by a letter behind a backslash, by its number, or as itself. -/
theorem escape_cases (c : Char) :
    (∃ e, escape c = ['\\', e] ∧ e ≠ 'u' ∧ unescape? e = some c) ∨
      (c.toNat < 0x20 ∧ escape c =
        ['\\', 'u', '0', '0', Text.hexDigit (c.toNat / 16), Text.hexDigit (c.toNat % 16)]) ∨
      (escape c = [c] ∧ c ≠ '"' ∧ c ≠ '\\' ∧ ¬c.toNat < 0x20) := by
  unfold escape
  split_ifs with hquote hslash hn hr ht hb hf hcontrol
  · exact .inl ⟨'"', rfl, by decide, by rw [hquote]; rfl⟩
  · exact .inl ⟨'\\', rfl, by decide, by rw [hslash]; rfl⟩
  · exact .inl ⟨'n', rfl, by decide, by rw [hn]; rfl⟩
  · exact .inl ⟨'r', rfl, by decide, by rw [hr]; rfl⟩
  · exact .inl ⟨'t', rfl, by decide, by rw [ht]; rfl⟩
  · exact .inl ⟨'b', rfl, by decide, by rw [hb]; rfl⟩
  · exact .inl ⟨'f', rfl, by decide, by rw [hf]; rfl⟩
  · exact .inr (.inl ⟨hcontrol, rfl⟩)
  · exact .inr (.inr ⟨rfl, hquote, hslash, hcontrol⟩)

theorem hexValue4?_control {n : Nat} (h : n < 0x20) :
    hexValue4? '0' '0' (Text.hexDigit (n / 16)) (Text.hexDigit (n % 16)) = some n := by
  have hzero : hexValue? '0' = some 0 := by decide
  rw [hexValue4?, hzero, hexValue?_hexDigit (n / 16) (by omega),
    hexValue?_hexDigit (n % 16) (by omega)]
  simp [Nat.div_add_mod']

/-- **A character that was written is read.** -/
theorem readChars_escape (c : Char) (acc r : List Char) :
    readChars acc (escape c ++ r) = readChars (c :: acc) r := by
  rcases escape_cases c with ⟨e, hescape, hu, he⟩ | ⟨hcontrol, hescape⟩ | ⟨hescape, hq, hs, hc⟩
  · rw [hescape, List.cons_append, List.singleton_append, readChars, he]
    intro _ _ _ _ _ h
    exact absurd h hu
  · -- the number is below those of the halves of pairs
    rw [hescape]
    simp only [List.cons_append, List.nil_append, readChars, hexValue4?_control hcontrol]
    rw [if_neg (by omega), if_neg (by omega), Char.ofNat_toNat]
  · rw [hescape, List.singleton_append, readChars, if_neg (by simp [hc, hs])]
    · exact hq
    · intro _ _ _ _ _ h
      exact absurd h hs
    · intro _ _ h
      exact absurd h hs

theorem readChars_flatMap (cs acc r : List Char) :
    readChars acc (cs.flatMap escape ++ '"' :: r) =
      some (String.ofList (acc.reverse ++ cs), r) := by
  induction cs generalizing acc with
  | nil => rw [List.flatMap_nil, List.nil_append, readChars, List.append_nil]
  | cons c cs ih =>
    rw [List.flatMap_cons, List.append_assoc, readChars_escape, ih, List.reverse_cons,
      List.append_assoc, List.singleton_append]

/-- **A quoted text is read back**, whatever characters it has. -/
theorem exists_quoted (s : String) :
    ∃ t, quoted s = '"' :: t ∧ ∀ r, readChars [] (t ++ r) = some (s, r) := by
  refine ⟨s.toList.flatMap escape ++ ['"'], rfl, fun r => ?_⟩
  rw [List.append_assoc, List.singleton_append, readChars_flatMap, List.reverse_nil,
    List.nil_append, String.ofList_toList]

/-! ### Numbers -/

/-- Can a number go on with this character? -/
def isNumberChar (c : Char) : Bool := c.isDigit || c == '.' || c == 'e' || c == 'E'

/-- **The end of a number**: what is ahead does not go on with one. -/
def Ends (r : List Char) : Prop := ∀ c ∈ r.head?, isNumberChar c = false

theorem digitChars_ne_nil (n : Nat) : digitChars n ≠ [] := Nat.toDigits_ne_nil

theorem isDigit_of_mem_digitChars {n : Nat} {c : Char} (h : c ∈ digitChars n) : c.isDigit :=
  Nat.isDigit_of_mem_toDigits (by omega) (by omega) h

theorem run_digitChars (n : Nat) (hr : Ends r) :
    Run Char.isDigit (digitChars n ++ r) (digitChars n) r := by
  refine run_append (fun c hc => isDigit_of_mem_digitChars hc) fun c hc => ?_
  have h := hr c hc
  simp only [isNumberChar, Bool.or_eq_false_iff] at h
  exact h.1.1.1

theorem head?_digitChars_ne_zero {n : Nat} (h : n ≠ 0) : (digitChars n).head? ≠ some '0' := by
  induction n using Nat.strongRecOn with
  | ind n ih =>
    rw [digitChars, Nat.toDigits_eq_if (by omega)]
    split
    · simpa [Nat.digitChar_eq_zero] using h
    · -- the first digit is that of the number without its last one
      rw [List.head?_append_of_ne_nil _ Nat.toDigits_ne_nil]
      exact ih (n / 10) (by omega) (by omega)

/-- Digits are written without a needless zero in front. -/
theorem not_needless_zero (n : Nat) :
    ¬((digitChars n).head? = some '0' ∧ 1 < (digitChars n).length) := by
  rintro ⟨hzero, hlength⟩
  by_cases hn : n = 0
  · subst hn
    exact absurd hlength (by decide)
  · exact head?_digitChars_ne_zero hn hzero

theorem readFraction_of_ends (hr : Ends r) : readFraction r = some (none, r) := by
  unfold readFraction
  split
  · exact absurd (hr '.' rfl) (by decide)
  · rfl

theorem readExponent_of_ends (hr : Ends r) : readExponent r = some (none, r) := by
  unfold readExponent
  split
  · rw [if_neg]
    rintro (rfl | rfl)
    · exact absurd (hr 'e' rfl) (by decide)
    · exact absurd (hr 'E' rfl) (by decide)
  · rfl

/-- A number behind its sign. -/
def readUnsigned (negative : Bool) (cs : List Char) : Option (Json × List Char) :=
  let whole := cs.takeWhile Char.isDigit
  if whole.isEmpty ∨ (whole.head? = some '0' ∧ 1 < whole.length) then none
  else
    match readFraction (cs.dropWhile Char.isDigit) with
    | none => none
    | some (fraction, r) =>
      match readExponent r with
      | none => none
      | some (exponent, r) => some (number negative whole fraction exponent, r)

theorem readNumber_minus (cs : List Char) : readNumber ('-' :: cs) = readUnsigned true cs := rfl

theorem readNumber_of_head {cs : List Char} (h : cs.head? ≠ some '-') :
    readNumber cs = readUnsigned false cs := by
  unfold readNumber
  split
  rename_i heq
  split at heq
  · exact absurd rfl h
  · cases heq
    rfl

theorem readUnsigned_digitChars (negative : Bool) (n : Nat) (hr : Ends r) :
    readUnsigned negative (digitChars n ++ r) =
      some (.int (if negative then -n else n), r) := by
  have hrun := run_digitChars n hr
  have hwhole : ¬((digitChars n).isEmpty ∨
      ((digitChars n).head? = some '0' ∧ 1 < (digitChars n).length)) := by
    rintro (hempty | hzero)
    · exact digitChars_ne_nil n (List.isEmpty_iff.mp hempty)
    · exact not_needless_zero n hzero
  have hvalue : ofDigitChars (digitChars n) = n := Nat.ofDigitChars_ten_toDigits
  rw [readUnsigned, hrun.takeWhile_eq, hrun.dropWhile_eq, if_neg hwhole, readFraction_of_ends hr]
  dsimp only
  rw [readExponent_of_ends hr]
  dsimp only [number]
  rw [hvalue]

/-- **An integer is read back.** -/
theorem readNumber_intChars (n : Int) (hr : Ends r) :
    readNumber (intChars n ++ r) = some (.int n, r) := by
  cases n with
  | ofNat n =>
    have hhead : (digitChars n ++ r).head? ≠ some '-' := by
      rw [List.head?_append_of_ne_nil _ (digitChars_ne_nil n)]
      intro h
      exact absurd (isDigit_of_mem_digitChars (List.mem_of_mem_head? h)) (by decide)
    rw [intChars, readNumber_of_head hhead, readUnsigned_digitChars false n hr]
    rfl
  | negSucc n =>
    rw [intChars, List.cons_append, readNumber_minus, readUnsigned_digitChars true _ hr]
    rfl

theorem exists_intChars (n : Int) : ∃ c t, intChars n = c :: t ∧ (c = '-' ∨ c.isDigit) := by
  cases n with
  | ofNat n =>
    obtain ⟨c, t, h⟩ := List.exists_cons_of_ne_nil (digitChars_ne_nil n)
    exact ⟨c, t, h, .inr (isDigit_of_mem_digitChars (h ▸ List.mem_cons_self))⟩
  | negSucc n => exact ⟨'-', _, rfl, .inl rfl⟩

/-! ### Blanks -/

theorem skipSpace_append {s : List Char} (hs : ∀ c ∈ s, isSpace c) (r : List Char) :
    skipSpace (s ++ r) = skipSpace r :=
  List.dropWhile_append_of_pos hs

theorem skipSpace_cons {c : Char} (h : isSpace c = false) (r : List Char) :
    skipSpace (c :: r) = c :: r :=
  dropWhile_of_stops (stops_cons h r)

/-- Blanks in front of a character that is none. -/
theorem skipSpace_append_cons {s : List Char} (hs : ∀ c ∈ s, isSpace c) {c : Char}
    (hc : isSpace c = false) (r : List Char) : skipSpace (s ++ c :: r) = c :: r := by
  rw [skipSpace_append hs, skipSpace_cons hc]

theorem isSpace_of_mem_lead (l : Layout) (level : Nat) : ∀ c ∈ l.lead level, isSpace c := by
  cases l with
  | line => exact List.forall_mem_nil _
  | lines indent =>
    refine List.forall_mem_cons.mpr ⟨by decide, fun c hc => ?_⟩
    obtain rfl := List.eq_of_mem_replicate hc
    decide

/-- **What separates two items** is a comma and blanks, in every layout. -/
theorem exists_separator (l : Layout) (level : Nat) :
    ∃ s, l.separator level = ',' :: s ∧ ∀ c ∈ s, isSpace c := by
  cases l with
  | line => exact ⟨[' '], rfl, by simp [isSpace]⟩
  | lines indent => exact ⟨_, rfl, isSpace_of_mem_lead (.lines indent) level⟩

theorem ends_cons {c : Char} (hc : isNumberChar c = false) (r : List Char) : Ends (c :: r) :=
  stops_cons hc r

/-- A number ends at blanks, and at a character behind them that no number goes on with. -/
theorem ends_append_cons {s : List Char} (hs : ∀ c ∈ s, isSpace c) {c : Char}
    (hc : isNumberChar c = false) (r : List Char) : Ends (s ++ c :: r) := by
  cases s with
  | nil => exact ends_cons hc r
  | cons b s =>
    refine ends_cons ?_ (s ++ c :: r)
    have hb := hs b List.mem_cons_self
    simp only [isSpace, Bool.or_eq_true, beq_iff_eq] at hb
    rcases hb with ((rfl | rfl) | rfl) | rfl <;> decide

/-! ### Values -/

/-- The characters that begin values of other kinds, and the blanks, begin no number. -/
theorem ne_of_number {c : Char} (hc : c = '-' ∨ c.isDigit) :
    c ≠ 'n' ∧ c ≠ 't' ∧ c ≠ 'f' ∧ c ≠ '"' ∧ c ≠ '[' ∧ c ≠ '\x7b' ∧ c ≠ ' ' ∧ c ≠ '\n' ∧ c ≠ '\r' ∧
      c ≠ '\t' ∧ c ≠ ']' := by
  refine ⟨?_, ?_, ?_, ?_, ?_, ?_, ?_, ?_, ?_, ?_, ?_⟩ <;>
  · rintro rfl
    exact absurd hc (by decide)

theorem readValue_append {s : List Char} (hs : ∀ c ∈ s, isSpace c) (fuel : Nat)
    (cs : List Char) : readValue fuel (s ++ cs) = readValue fuel cs := by
  cases fuel with
  | zero => rfl
  | succ fuel => rw [readValue, readValue, skipSpace_append hs]

theorem readValue_number {c : Char} (hc : c = '-' ∨ c.isDigit) (t : List Char) (fuel : Nat) :
    readValue (fuel + 1) (c :: t) = readNumber (c :: t) := by
  have hother := ne_of_number hc
  rw [readValue, skipSpace_cons (by simp [isSpace, hother])]
  split <;> simp_all

theorem readValue_quoted (s : String) (fuel : Nat) (r : List Char) :
    readValue (fuel + 1) (quoted s ++ r) = some (.str s, r) := by
  obtain ⟨t, hquoted, hread⟩ := exists_quoted s
  have hvalue : readValue (fuel + 1) ('"' :: (t ++ r)) =
      (readChars [] (t ++ r)).map fun x => (.str x.1, x.2) := by
    rw [readValue, skipSpace_cons (by decide)]
    rfl
  rw [hquoted, List.cons_append, hvalue, hread, Option.map_some]

/-- An array that does not end at once. -/
theorem readValue_items {t t' : List Char} {c : Char} (ht : skipSpace t = c :: t') (hc : c ≠ ']')
    (fuel : Nat) :
    readValue (fuel + 1) ('[' :: t) =
      (readItems fuel (c :: t')).map fun x => (.arr x.1, x.2) := by
  have hopen : skipSpace ('[' :: t) = '[' :: t := skipSpace_cons (by decide) t
  simp only [readValue, hopen, ht]
  split
  · -- the array is not over, since no item begins with its bracket
    rename_i heq
    exact absurd (List.cons.inj heq).1 hc
  · rfl

/-- An object that goes on with a key. -/
theorem readValue_members {t t' : List Char} (ht : skipSpace t = '"' :: t') (fuel : Nat) :
    readValue (fuel + 1) ('\x7b' :: t) =
      (readMembers fuel ('"' :: t')).map fun x => (.obj x.1, x.2) := by
  have hopen : skipSpace ('\x7b' :: t) = '\x7b' :: t := skipSpace_cons (by decide) t
  simp only [readValue, hopen, ht]
  rfl

section Items

variable {fuel : Nat} {cs t : List Char} {v : Json}

theorem readItems_last (hv : readValue fuel cs = some (v, r)) (hr : skipSpace r = ']' :: t) :
    readItems (fuel + 1) cs = some ([v], t) := by
  rw [readItems, hv]
  dsimp only
  rw [hr]
  rfl

theorem readItems_more (hv : readValue fuel cs = some (v, r)) (hr : skipSpace r = ',' :: t) :
    readItems (fuel + 1) cs = (readItems fuel t).map fun x => (v :: x.1, x.2) := by
  rw [readItems, hv]
  dsimp only
  rw [hr]
  rfl

end Items

/-! ### Values in a layout -/

/-- **A value is restored** from its characters in a layout, at any level and whatever follows. -/
def Restored (l : Layout) (v : Json) : Prop :=
  ∀ (level fuel : Nat) (r : List Char), (v.chars l level).length ≤ fuel → Ends r →
    readValue fuel (v.chars l level ++ r) = some (v, r)

theorem ends_itemChars {e : List Char} (he : ∀ c ∈ e, isSpace c) (l : Layout) (level : Nat)
    (vs : List Json) (r : List Char) : Ends (itemChars l level vs ++ (e ++ ']' :: r)) := by
  cases vs with
  | nil => exact ends_append_cons he (by decide) r
  | cons v vs =>
    obtain ⟨s, hs, -⟩ := exists_separator l level
    rw [itemChars, hs, List.append_assoc, List.cons_append]
    exact ends_cons (by decide) _

/-- **The items of an array are restored** if each of them is. -/
theorem readItems_chars {v : Json} {vs : List Json} (hv : Restored l v)
    (hvs : ∀ w ∈ vs, Restored l w) {s e : List Char} (hs : ∀ c ∈ s, isSpace c)
    (he : ∀ c ∈ e, isSpace c) (level : Nat) {fuel : Nat}
    (hfuel : (v.chars l level).length + (itemChars l level vs).length < fuel) (r : List Char) :
    readItems fuel (s ++ (v.chars l level ++ (itemChars l level vs ++ (e ++ ']' :: r)))) =
      some (v :: vs, r) := by
  -- the separator leaves its blanks in front of the next item, so they are part of the statement
  induction vs generalizing v s fuel with
  | nil =>
    obtain ⟨n, rfl⟩ := Nat.exists_eq_add_one_of_ne_zero (Nat.ne_zero_of_lt hfuel)
    have hvalue := hv level n (e ++ ']' :: r) (by omega) (ends_append_cons he (by decide) r)
    rw [← readValue_append hs] at hvalue
    exact readItems_last hvalue (skipSpace_append_cons he (by decide) r)
  | cons w ws ih =>
    obtain ⟨n, rfl⟩ := Nat.exists_eq_add_one_of_ne_zero (Nat.ne_zero_of_lt hfuel)
    obtain ⟨hw, hws⟩ := List.forall_mem_cons.mp hvs
    have hvalue := hv level n _ (by omega) (ends_itemChars he l level (w :: ws) r)
    rw [← readValue_append hs] at hvalue
    obtain ⟨s', hs', hblank⟩ := exists_separator l level
    have hlength : (itemChars l level (w :: ws)).length =
        s'.length + 1 + ((w.chars l level).length + (itemChars l level ws).length) := by
      rw [itemChars, hs', List.length_append, List.length_append, List.length_cons]
    have hmore : skipSpace (itemChars l level (w :: ws) ++ (e ++ ']' :: r)) =
        ',' :: (s' ++ (w.chars l level ++ (itemChars l level ws ++ (e ++ ']' :: r)))) := by
      rw [itemChars, hs', List.cons_append, List.cons_append, skipSpace_cons (by decide)]
      simp only [List.append_assoc]
    rw [readItems_more hvalue hmore, ih hw hws hblank (by omega), Option.map_some]

theorem ends_memberChars {e : List Char} (he : ∀ c ∈ e, isSpace c) (l : Layout) (level : Nat)
    (ms : List (String × Json)) (r : List Char) :
    Ends (memberChars l level ms ++ (e ++ '\x7d' :: r)) := by
  cases ms with
  | nil => exact ends_append_cons he (by decide) r
  | cons m ms =>
    obtain ⟨s, hs, -⟩ := exists_separator l level
    rw [memberChars, hs, List.append_assoc, List.cons_append]
    exact ends_cons (by decide) _

/-- A member, with the end of the object or with more members behind it. -/
theorem readMembers_member {s : List Char} (hs : ∀ c ∈ s, isSpace c) (k : String) {v : Json}
    (hv : Restored l v) (level : Nat) {fuel : Nat} (hfuel : (v.chars l level).length ≤ fuel)
    (hr : Ends r) :
    (∀ t, skipSpace r = '\x7d' :: t →
      readMembers (fuel + 1) (s ++ (quoted k ++ (':' :: ' ' :: (v.chars l level ++ r)))) =
        some ([(k, v)], t)) ∧
    ∀ t, skipSpace r = ',' :: t →
      readMembers (fuel + 1) (s ++ (quoted k ++ (':' :: ' ' :: (v.chars l level ++ r)))) =
        (readMembers fuel t).map fun x => ((k, v) :: x.1, x.2) := by
  obtain ⟨t, hquoted, hread⟩ := exists_quoted k
  have hvalue : readValue fuel (' ' :: (v.chars l level ++ r)) = some (v, r) := by
    rw [← List.singleton_append, readValue_append (by simp [isSpace]), hv level fuel r hfuel hr]
  have hcolon : skipSpace (':' :: ' ' :: (v.chars l level ++ r)) =
      ':' :: ' ' :: (v.chars l level ++ r) := skipSpace_cons (by decide) _
  rw [readMembers, hquoted, List.cons_append, skipSpace_append_cons hs (by decide)]
  simp only [hread, hcolon, hvalue]
  constructor
  · intro t ht
    simp only [ht]
  · intro t ht
    simp only [ht]

/-- **The members of an object are restored** if each of their values is. -/
theorem readMembers_chars {k : String} {v : Json} {ms : List (String × Json)}
    (hv : Restored l v) (hms : ∀ m ∈ ms, Restored l m.2) {s e : List Char}
    (hs : ∀ c ∈ s, isSpace c) (he : ∀ c ∈ e, isSpace c) (level : Nat) {fuel : Nat}
    (hfuel : (v.chars l level).length + (memberChars l level ms).length < fuel) (r : List Char) :
    readMembers fuel (s ++ (quoted k ++ (':' :: ' ' :: (v.chars l level ++
      (memberChars l level ms ++ (e ++ '\x7d' :: r)))))) = some ((k, v) :: ms, r) := by
  induction ms generalizing k v s fuel with
  | nil =>
    obtain ⟨n, rfl⟩ := Nat.exists_eq_add_one_of_ne_zero (Nat.ne_zero_of_lt hfuel)
    have hn : (v.chars l level).length ≤ n := by omega
    have hmember := readMembers_member hs k hv level hn (ends_memberChars he l level [] r)
    exact hmember.1 r (skipSpace_append_cons he (by decide) r)
  | cons m ms ih =>
    obtain ⟨n, rfl⟩ := Nat.exists_eq_add_one_of_ne_zero (Nat.ne_zero_of_lt hfuel)
    obtain ⟨hm, hms⟩ := List.forall_mem_cons.mp hms
    obtain ⟨s', hs', hblank⟩ := exists_separator l level
    have hlength : (m.2.chars l level).length + (memberChars l level ms).length <
        (memberChars l level (m :: ms)).length := by
      simp only [memberChars, hs', List.length_append, List.length_cons]
      omega
    have hmore : skipSpace (memberChars l level (m :: ms) ++ (e ++ '\x7d' :: r)) =
        ',' :: (s' ++ (quoted m.1 ++ (':' :: ' ' :: (m.2.chars l level ++
          (memberChars l level ms ++ (e ++ '\x7d' :: r)))))) := by
      rw [memberChars, hs', List.cons_append, List.cons_append, skipSpace_cons (by decide)]
      simp only [List.append_assoc, List.cons_append]
    have hn : (v.chars l level).length ≤ n := by omega
    have hmember := readMembers_member hs k hv level hn (ends_memberChars he l level (m :: ms) r)
    rw [hmember.2 _ hmore, ih hm hms hblank (by omega), Option.map_some]

/-- **A value whose numbers are integers.** -/
inductive Integral : Json → Prop
  | null : Integral .null
  | bool (b : Bool) : Integral (.bool b)
  | int (n : Int) : Integral (.int n)
  | str (s : String) : Integral (.str s)
  | arr {vs : List Json} (h : ∀ v ∈ vs, Integral v) : Integral (.arr vs)
  | obj {ms : List (String × Json)} (h : ∀ m ∈ ms, Integral m.2) : Integral (.obj ms)

/-- The characters of a value begin with none that the reader could take for a blank or for the end
of an array. -/
theorem Integral.exists_chars {v : Json} (h : v.Integral) (l : Layout) (level : Nat) :
    ∃ c t, v.chars l level = c :: t ∧ isSpace c = false ∧ c ≠ ']' := by
  cases h with
  | null => exact ⟨_, _, rfl, by decide, by decide⟩
  | bool b => cases b <;> exact ⟨_, _, rfl, by decide, by decide⟩
  | int n =>
    obtain ⟨c, t, hn, hc⟩ := exists_intChars n
    have hother := ne_of_number hc
    exact ⟨c, t, hn, by simp [isSpace, hother], by simp [hother]⟩
  | str s => exact ⟨_, _, rfl, by decide, by decide⟩
  | @arr vs h => cases vs <;> exact ⟨_, _, rfl, by decide, by decide⟩
  | @obj ms h => cases ms <;> exact ⟨_, _, rfl, by decide, by decide⟩

theorem readValue_arr {v : Json} {vs : List Json} (hint : v.Integral) (hv : Restored l v)
    (hvs : ∀ w ∈ vs, Restored l w) {level n : Nat}
    (hfuel : ((Json.arr (v :: vs)).chars l level).length ≤ n + 1) (r : List Char) :
    readValue (n + 1) ((Json.arr (v :: vs)).chars l level ++ r) = some (.arr (v :: vs), r) := by
  obtain ⟨c, t, hchars, hspace, hc⟩ := hint.exists_chars l (level + 1)
  have hn : (v.chars l (level + 1)).length + (itemChars l (level + 1) vs).length < n := by
    simp only [chars, List.length_cons, List.length_append, List.length_nil] at hfuel
    omega
  have hitems := readItems_chars hv hvs (List.forall_mem_nil _) (isSpace_of_mem_lead l level)
    (level + 1) hn r
  have htext : (Json.arr (v :: vs)).chars l level ++ r = '[' :: (l.lead (level + 1) ++
      c :: (t ++ (itemChars l (level + 1) vs ++ (l.lead level ++ ']' :: r)))) := by
    simp [chars, hchars]
  rw [List.nil_append, hchars, List.cons_append] at hitems
  rw [htext, readValue_items (skipSpace_append_cons (isSpace_of_mem_lead l _) hspace _) hc, hitems,
    Option.map_some]

theorem readValue_obj {k : String} {v : Json} {ms : List (String × Json)} (hv : Restored l v)
    (hms : ∀ m ∈ ms, Restored l m.2) {level n : Nat}
    (hfuel : ((Json.obj ((k, v) :: ms)).chars l level).length ≤ n + 1) (r : List Char) :
    readValue (n + 1) ((Json.obj ((k, v) :: ms)).chars l level ++ r) =
      some (.obj ((k, v) :: ms), r) := by
  obtain ⟨t, hquoted, -⟩ := exists_quoted k
  have hn : (v.chars l (level + 1)).length + (memberChars l (level + 1) ms).length < n := by
    simp only [chars, List.length_cons, List.length_append, List.length_nil] at hfuel
    omega
  have hmembers := readMembers_chars (k := k) hv hms (List.forall_mem_nil _)
    (isSpace_of_mem_lead l level) (level + 1) hn r
  have htext : (Json.obj ((k, v) :: ms)).chars l level ++ r = '\x7b' :: (l.lead (level + 1) ++
      '"' :: (t ++ ':' :: ' ' :: (v.chars l (level + 1) ++ (memberChars l (level + 1) ms ++
        (l.lead level ++ '\x7d' :: r))))) := by
    simp [chars, hquoted]
  rw [List.nil_append, hquoted, List.cons_append] at hmembers
  rw [htext, readValue_members (skipSpace_append_cons (isSpace_of_mem_lead l _) (by decide) _),
    hmembers, Option.map_some]

/-- Since a value has characters, the reader may be called once. -/
theorem Integral.restored_of {v : Json} (h : v.Integral)
    (hread : ∀ (level n : Nat) (r : List Char), (v.chars l level).length ≤ n + 1 → Ends r →
      readValue (n + 1) (v.chars l level ++ r) = some (v, r)) : Restored l v := by
  intro level fuel r hfuel hr
  obtain ⟨c, t, hchars, -⟩ := h.exists_chars l level
  have hpos : (v.chars l level).length ≠ 0 := by simp [hchars]
  obtain ⟨n, rfl⟩ : ∃ n, fuel = n + 1 := Nat.exists_eq_add_one_of_ne_zero (by omega)
  exact hread level n r hfuel hr

/-- **A value whose numbers are integers is restored**, in every layout. -/
theorem Integral.restored {v : Json} (h : v.Integral) (l : Layout) : Restored l v := by
  induction h with
  | null =>
    refine Integral.null.restored_of fun level n r _ _ => ?_
    rw [readValue, chars, List.cons_append, skipSpace_cons (by decide)]
    rfl
  | bool b =>
    refine (Integral.bool b).restored_of fun level n r _ _ => ?_
    cases b <;> rw [readValue, chars, List.cons_append, skipSpace_cons (by decide)] <;> rfl
  | int m =>
    refine (Integral.int m).restored_of fun level n r _ hr => ?_
    obtain ⟨c, t, hm, hc⟩ := exists_intChars m
    have hnumber := readNumber_intChars m hr
    rw [hm, List.cons_append] at hnumber
    rw [chars, hm, List.cons_append, readValue_number hc, hnumber]
  | str s =>
    refine (Integral.str s).restored_of fun level n r _ _ => ?_
    exact readValue_quoted s n r
  | @arr vs h ih =>
    refine (Integral.arr h).restored_of fun level n r hfuel _ => ?_
    cases vs with
    | nil =>
      rw [readValue, chars, List.cons_append, skipSpace_cons (by decide)]
      rfl
    | cons v vs =>
      obtain ⟨hv, hvs⟩ := List.forall_mem_cons.mp ih
      exact readValue_arr (h v List.mem_cons_self) hv hvs hfuel r
  | @obj ms h ih =>
    refine (Integral.obj h).restored_of fun level n r hfuel _ => ?_
    cases ms with
    | nil =>
      rw [readValue, chars, List.cons_append, skipSpace_cons (by decide)]
      rfl
    | cons m ms =>
      obtain ⟨hm, hms⟩ := List.forall_mem_cons.mp ih
      exact readValue_obj hm hms hfuel r

/-- **Writing can be undone**: what is written of a value, in any layout, is read as that value. -/
theorem read?_write {v : Json} (h : v.Integral) (indent : Option Int) :
    read? (v.write indent) = some v := by
  have hlength : (v.write indent).length = (v.chars (Layout.ofIndent indent) 0).length := by
    rw [write, String.length_ofList]
  have hread := h.restored (Layout.ofIndent indent) 0
    (2 * (v.write indent).length + 2) [] (by omega) (by simp [Ends])
  rw [List.append_nil] at hread
  rw [read?, write, String.toList_ofList, ← write, hread]
  rfl

/-! ### Keys -/

/-- **No object has a key twice**, at any depth. -/
inductive Distinct : Json → Prop
  | null : Distinct .null
  | bool (b : Bool) : Distinct (.bool b)
  | int (n : Int) : Distinct (.int n)
  | real (d : Decimal) : Distinct (.real d)
  | str (s : String) : Distinct (.str s)
  | arr {vs : List Json} (h : ∀ v ∈ vs, Distinct v) : Distinct (.arr vs)
  | obj {ms : List (String × Json)} (hkeys : (ms.map Prod.fst).Nodup)
    (h : ∀ m ∈ ms, Distinct m.2) : Distinct (.obj ms)

attribute [simp] Distinct.bool Distinct.int Distinct.str

@[simp] theorem distinct_strings (ss : List String) : (strings ss).Distinct := by
  refine .arr fun v hv => ?_
  obtain ⟨s, -, rfl⟩ := List.mem_map.mp hv
  exact .str s

/-- A table is written with each of its names once. -/
theorem distinct_entries {α : Type} (es : List (String × α)) {value : α → Json}
    (h : ∀ x, (value x).Distinct) :
    (Json.obj ((Table.ofList es).entries.map fun e => (e.1, value e.2))).Distinct := by
  refine .obj ?_ fun m hm => ?_
  · have hkeys := Table.nodup_keys_ofList es
    rwa [List.map_map]
  · obtain ⟨e, -, rfl⟩ := List.mem_map.mp hm
    exact h e.2

end Json

/-! ### Reports -/

open Json

theorem Record.Listed.sublist {fs : List Field} {keys : List String} (h : Listed fs keys) :
    keys.Sublist (fs.map Field.key) := by
  induction h with
  | nil => exact .slnil
  | given _ ih => exact ih.cons_cons _
  | left _ _ ih => exact ih.cons _

/-- A record in normal form has each of its keys once. -/
theorem Shape.Normal.distinct {r : Record} {ms : List (String × Json)}
    (h : (Shape.record r).Normal (.obj ms)) (hms : ∀ m ∈ ms, m.2.Distinct) :
    (Json.obj ms).Distinct := by
  cases h with
  | record hkeys _ => exact .obj (hkeys.sublist.nodup r.nodup_keys) hms

/-- **A value in normal form has only integers for numbers.** -/
theorem Shape.Normal.integral {s : Shape} {v : Json} (h : s.Normal v) : v.Integral := by
  induction h with
  | text s => exact .str s
  | whole n => exact .int n
  | truth b => exact .bool b
  | word _ => exact .str _
  | list _ ih => exact .arr ih
  | table _ ih => exact .obj ih
  | @record r ms hkeys _ ih =>
    refine .obj fun m hm => ?_
    obtain ⟨f, hf, hkey⟩ := List.mem_map.mp (hkeys.subset (List.mem_map_of_mem hm))
    exact ih m hm f hf hkey

theorem Span.distinct_toJson (s : Span) : s.toJson.Distinct :=
  s.normal_toJson.distinct (by simp)

namespace Attribute

theorem distinct_toJson (a : Attribute) : a.toJson.Distinct := by
  refine a.normal_toJson.distinct (List.forall_mem_append.mpr ⟨by simp, fun m hm => ?_⟩)
  obtain ⟨d, -, rfl⟩ := List.mem_map.mp hm
  exact d.normal_toJson.distinct (by simp)

theorem distinct_listJson (as : List Attribute) : (listJson as).Distinct := by
  have hprops := distinct_entries ((as.filter fun a => !a.isDirective).map fun a =>
    (a.name, a.value)) Distinct.str
  have hdirectives := distinct_entries ((as.filterMap directive?).map fun d => (d.name, d))
    fun d => d.normal_valueJson.distinct (by simp)
  have hall : (Json.arr (as.map toJson)).Distinct := by
    refine .arr fun v hv => ?_
    obtain ⟨a, -, rfl⟩ := List.mem_map.mp hv
    exact a.distinct_toJson
  refine (normal_listJson as).distinct ?_
  simp only [List.forall_mem_cons]
  exact ⟨hprops, hdirectives, hall, List.forall_mem_nil _⟩

end Attribute

namespace Node

theorem distinct_positionMember (span : Option Span) :
    ∀ m ∈ positionMember span, m.2.Distinct := by
  intro m hm
  obtain ⟨s, -, rfl⟩ := List.mem_map.mp hm
  exact s.distinct_toJson

theorem distinct_toJson (f : List Node) : ∀ v ∈ listJson f, v.Distinct := by
  induction f using forest_induction with
  | nil => simp [listJson]
  | text content span ns ih =>
    refine List.forall_mem_cons.mpr ⟨?_, ih⟩
    refine (normal_toJson [.text content span] _ List.mem_cons_self).distinct ?_
    exact List.forall_mem_append.mpr ⟨by simp, distinct_positionMember span⟩
  | comment content span ns ih =>
    refine List.forall_mem_cons.mpr ⟨?_, ih⟩
    refine (normal_toJson [.comment content span] _ List.mem_cons_self).distinct ?_
    exact List.forall_mem_append.mpr ⟨by simp, distinct_positionMember span⟩
  | element name as children selfClosing span ns ihc ihn =>
    refine List.forall_mem_cons.mpr ⟨?_, ihn⟩
    refine (normal_toJson [.element name as children selfClosing span] _
      List.mem_cons_self).distinct ?_
    refine List.forall_mem_append.mpr ⟨?_, distinct_positionMember span⟩
    simp [Attribute.distinct_listJson as, Distinct.arr ihc]

end Node

namespace Report

theorem distinct_draft (version : String) (f : Forest) (errors warnings : List String) :
    (draft version f errors warnings).Distinct :=
  (normal_draft version f errors warnings).distinct
    (by simp [Distinct.arr (Node.distinct_toJson f)])

/-- **A report is read back from its text.** On every text, whatever its faults and with whatever
limit it is read, and whatever the version of the tool, there is a report, in which no object has a
key twice; and at every indentation, or on one line, what is written of the report is JSON and is
read as that report. So it does not matter to a reader how a report is laid out. -/
theorem restored_ofTemplate (version : String) (limit : Int) (text : String) :
    ∃ report, ofTemplate version (Template.read limit text) = .ok report ∧ report.Distinct ∧
      ∀ indent : Option Int, Json.read? (report.write indent) = some report := by
  let t := Template.read limit text
  refine ⟨draft version t.forest t.errors t.warnings, ofTemplate_eq_draft version t,
    distinct_draft _ _ _ _, fun indent => ?_⟩
  exact Json.read?_write (normal_draft _ _ _ _).integral indent

end Report

end MiniTemplate
