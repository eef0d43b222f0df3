import Mathlib.Tactic.SplitIfs
import MiniTemplate.Text.Utf8

/-!
# Decoding is the inverse of encoding

Bytes are decoded exactly if they are the encoding of a text, and then as that text
(`MiniTemplate.Utf8.decode_eq_ok_iff`). What the encoding of a character is, the library says:
one byte for the characters up to `0x7F`, and otherwise a first byte that tells how many others
follow, with six bits in each of these.

The decoder looks at one byte at a time and keeps a character pending in between. What takes it
back between two characters is said by `MiniTemplate.Utf8.Pending.Completes`: the bytes that are
owed, each in its range, and the character that they make. It is left to compare this with the
encoding of that character, for each of the three numbers of bytes. There the ranges of the second
byte are just what excludes a shorter encoding, the surrogates and the numbers beyond the last
character.
-/

namespace MiniTemplate.Utf8

open String (utf8EncodeChar)

variable {b x y z : UInt8} {t : List UInt8} {c : Char} {p : Pending} {i : Nat}

/-! ### Completing a character -/

namespace Pending

/-- A pending character with one more byte. -/
def push (p : Pending) (b : UInt8) : Pending :=
  { p with owed := p.owed - 1, low := 0x80, high := 0xBF, bits := p.bits * 64 + (b.toNat - 0x80) }

/-- May a byte come next? -/
def Takes (p : Pending) (b : UInt8) : Prop := p.low ≤ b.toNat ∧ b.toNat ≤ p.high

/-- **The bytes that complete a character.** -/
inductive Completes : Pending → List UInt8 → Char → Prop
  | last {p : Pending} {b : UInt8} (hb : p.Takes b) (howed : p.owed ≤ 1) :
    Completes p [b] (Char.ofNat (p.push b).bits)
  | more {p : Pending} {b : UInt8} {t : List UInt8} {c : Char} (hb : p.Takes b)
    (howed : 1 < p.owed) (h : Completes (p.push b) t c) : Completes p (b :: t) c

end Pending

theorem decodeFrom_completes (h : p.Completes t c) (acc : List Char) (i : Nat) (r : List UInt8) :
    decodeFrom acc i (some p) (t ++ r) = decodeFrom (c :: acc) (i + t.length) none r := by
  induction h generalizing i with
  | last hb howed =>
    rw [List.singleton_append, decodeFrom]
    exact (if_pos hb).trans (if_pos howed)
  | @more p b t c hb howed h ih =>
    have hnext := ih (i + 1)
    rw [List.length_cons, ← Nat.add_assoc, Nat.add_right_comm, ← hnext, List.cons_append,
      decodeFrom]
    exact (if_pos hb).trans (if_neg (Nat.not_le.mpr howed))

/-- A decoding that succeeds completes what is pending. -/
theorem exists_completes {acc cs : List Char} {bs : List UInt8}
    (h : decodeFrom acc i (some p) bs = .ok cs) :
    ∃ t c r, bs = t ++ r ∧ p.Completes t c := by
  induction bs generalizing p i with
  | nil => exact absurd h (by simp [decodeFrom])
  | cons b bs ih =>
    rw [decodeFrom] at h
    by_cases hb : p.low ≤ b.toNat ∧ b.toNat ≤ p.high
    · rw [if_pos hb] at h
      by_cases howed : p.owed ≤ 1
      · exact ⟨[b], _, bs, rfl, .last hb howed⟩
      · dsimp only at h
        rw [if_neg howed] at h
        obtain ⟨t, c, r, rfl, hc⟩ := ih (p := p.push b) h
        exact ⟨b :: t, c, r, rfl, .more hb (Nat.not_le.mp howed) hc⟩
    · rw [if_neg hb] at h
      exact absurd h (by simp)

/-! ### Beginning a character -/

theorem begin?_two (hb : 0xC2 ≤ b.toNat ∧ b.toNat ≤ 0xDF) :
    begin? b i = some ⟨b, i, 1, 0x80, 0xBF, b.toNat - 0xC0⟩ := if_pos hb

theorem begin?_three (hb : 0xE0 ≤ b.toNat ∧ b.toNat ≤ 0xEF) :
    begin? b i = some ⟨b, i, 2, if b.toNat = 0xE0 then 0xA0 else 0x80,
      if b.toNat = 0xED then 0x9F else 0xBF, b.toNat - 0xE0⟩ := by
  by_cases hshort : b.toNat = 0xE0
  · simp [begin?, hshort]
  by_cases hsurrogate : b.toNat = 0xED
  · simp [begin?, hsurrogate]
  have hrange : 0xE1 ≤ b.toNat ∧ b.toNat ≤ 0xEF := by omega
  have hnot : ¬(0xC2 ≤ b.toNat ∧ b.toNat ≤ 0xDF) := by omega
  simp only [begin?, hshort, hsurrogate, hrange, hnot, if_true, if_false, and_self]

theorem begin?_four (hb : 0xF0 ≤ b.toNat ∧ b.toNat ≤ 0xF4) :
    begin? b i = some ⟨b, i, 3, if b.toNat = 0xF0 then 0x90 else 0x80,
      if b.toNat = 0xF4 then 0x8F else 0xBF, b.toNat - 0xF0⟩ := by
  by_cases hshort : b.toNat = 0xF0
  · simp [begin?, hshort]
  by_cases hbeyond : b.toNat = 0xF4
  · simp [begin?, hbeyond]
  have hrange : 0xF1 ≤ b.toNat ∧ b.toNat ≤ 0xF3 := by omega
  have hnot : ¬(0xC2 ≤ b.toNat ∧ b.toNat ≤ 0xDF) ∧ b.toNat ≠ 0xE0 ∧ b.toNat ≠ 0xED ∧
      ¬(0xE1 ≤ b.toNat ∧ b.toNat ≤ 0xEF) := by omega
  simp only [begin?, hshort, hbeyond, hrange, hnot, if_true, if_false, and_self]

/-- The range of a second byte: that of every other, and narrower behind two first bytes. -/
theorem second_iff {P Q : Prop} [Decidable P] [Decidable Q] {low high n : Nat}
    (hlow : 0x80 ≤ low) (hhigh : high ≤ 0xBF) :
    ((if P then low else 0x80) ≤ n ∧ n ≤ if Q then high else 0xBF) ↔
      (0x80 ≤ n ∧ n ≤ 0xBF) ∧ (P → low ≤ n) ∧ (Q → n ≤ high) := by
  by_cases hP : P <;> by_cases hQ : Q <;> simp only [hP, hQ, if_true, if_false, true_implies,
    false_implies, and_true, true_and] <;> omega

theorem begin?_cases (h : begin? b i = some p) :
    (0xC2 ≤ b.toNat ∧ b.toNat ≤ 0xDF) ∨ (0xE0 ≤ b.toNat ∧ b.toNat ≤ 0xEF) ∨
      (0xF0 ≤ b.toNat ∧ b.toNat ≤ 0xF4) := by
  unfold begin? at h
  dsimp only at h
  split_ifs at h <;> omega

/-! ### The encoding of a character -/

theorem toNat_ofNat {n : Nat} (h : n.isValidChar) : (Char.ofNat n).val.toNat = n := by
  rw [Char.ofNat, dif_pos h]
  rfl

/-- A character is encoded by one byte exactly if it is that byte. -/
theorem utf8EncodeChar_one (hb : b.toNat < 0x80) : utf8EncodeChar (Char.ofNat b.toNat) = [b] := by
  have hvalue := toNat_ofNat (n := b.toNat) (Or.inl (by omega))
  rw [utf8EncodeChar, hvalue, if_pos (by omega), UInt8.ofNat_toNat]

theorem utf8EncodeChar_two (hb : 0xC2 ≤ b.toNat ∧ b.toNat ≤ 0xDF)
    (hx : 0x80 ≤ x.toNat ∧ x.toNat ≤ 0xBF) :
    utf8EncodeChar (Char.ofNat ((b.toNat - 0xC0) * 64 + (x.toNat - 0x80))) = [b, x] := by
  generalize hn : (b.toNat - 0xC0) * 64 + (x.toNat - 0x80) = n
  have hvalue := toNat_ofNat (n := n) (Or.inl (by omega))
  rw [utf8EncodeChar, hvalue, if_neg (by omega), if_pos (by omega)]
  have hfirst : n / 64 % 0x20 + 0xC0 = b.toNat := by omega
  have hsecond : n % 0x40 + 0x80 = x.toNat := by omega
  rw [hfirst, hsecond, UInt8.ofNat_toNat, UInt8.ofNat_toNat]

theorem utf8EncodeChar_three (hb : 0xE0 ≤ b.toNat ∧ b.toNat ≤ 0xEF)
    (hx : 0x80 ≤ x.toNat ∧ x.toNat ≤ 0xBF) (hy : 0x80 ≤ y.toNat ∧ y.toNat ≤ 0xBF)
    (hshort : b.toNat = 0xE0 → 0xA0 ≤ x.toNat) (hsurrogate : b.toNat = 0xED → x.toNat ≤ 0x9F) :
    utf8EncodeChar (Char.ofNat
      (((b.toNat - 0xE0) * 64 + (x.toNat - 0x80)) * 64 + (y.toNat - 0x80))) = [b, x, y] := by
  generalize hn : ((b.toNat - 0xE0) * 64 + (x.toNat - 0x80)) * 64 + (y.toNat - 0x80) = n
  have hvalid : n < 0xD800 ∨ (0xDFFF < n ∧ n < 0x110000) := by omega
  rw [utf8EncodeChar, toNat_ofNat hvalid, if_neg (by omega), if_neg (by omega), if_pos (by omega)]
  have hfirst : n / 4096 % 0x10 + 0xE0 = b.toNat := by omega
  have hsecond : n / 64 % 0x40 + 0x80 = x.toNat := by omega
  have hthird : n % 0x40 + 0x80 = y.toNat := by omega
  rw [hfirst, hsecond, hthird, UInt8.ofNat_toNat, UInt8.ofNat_toNat, UInt8.ofNat_toNat]

theorem utf8EncodeChar_four (hb : 0xF0 ≤ b.toNat ∧ b.toNat ≤ 0xF4)
    (hx : 0x80 ≤ x.toNat ∧ x.toNat ≤ 0xBF) (hy : 0x80 ≤ y.toNat ∧ y.toNat ≤ 0xBF)
    (hz : 0x80 ≤ z.toNat ∧ z.toNat ≤ 0xBF) (hshort : b.toNat = 0xF0 → 0x90 ≤ x.toNat)
    (hbeyond : b.toNat = 0xF4 → x.toNat ≤ 0x8F) :
    utf8EncodeChar (Char.ofNat ((((b.toNat - 0xF0) * 64 + (x.toNat - 0x80)) * 64 +
      (y.toNat - 0x80)) * 64 + (z.toNat - 0x80))) = [b, x, y, z] := by
  generalize hn : (((b.toNat - 0xF0) * 64 + (x.toNat - 0x80)) * 64 + (y.toNat - 0x80)) * 64 +
    (z.toNat - 0x80) = n
  have hvalid : n < 0xD800 ∨ (0xDFFF < n ∧ n < 0x110000) := by omega
  rw [utf8EncodeChar, toNat_ofNat hvalid, if_neg (by omega), if_neg (by omega),
    if_neg (by omega)]
  have hfirst : n / 262144 % 0x08 + 0xF0 = b.toNat := by omega
  have hsecond : n / 4096 % 0x40 + 0x80 = x.toNat := by omega
  have hthird : n / 64 % 0x40 + 0x80 = y.toNat := by omega
  have hfourth : n % 0x40 + 0x80 = z.toNat := by omega
  rw [hfirst, hsecond, hthird, hfourth, UInt8.ofNat_toNat, UInt8.ofNat_toNat, UInt8.ofNat_toNat,
    UInt8.ofNat_toNat]

/-- **A character that is begun and completed** is encoded by its bytes. -/
theorem utf8EncodeChar_of_completes (hp : begin? b i = some p) (hc : p.Completes t c) :
    utf8EncodeChar c = b :: t := by
  rcases begin?_cases hp with hb | hb | hb
  · rw [begin?_two hb] at hp
    obtain rfl := Option.some.inj hp
    cases hc with
    | last hx _ => exact utf8EncodeChar_two hb hx
    | more _ howed _ => exact absurd howed (by simp)
  · rw [begin?_three hb] at hp
    obtain rfl := Option.some.inj hp
    cases hc with
    | last _ howed => exact absurd howed (by simp)
    | more hx _ hc =>
      cases hc with
      | last hy _ =>
        obtain ⟨hx, hshort, hsurrogate⟩ := (second_iff (by decide) (by decide)).mp hx
        exact utf8EncodeChar_three hb hx hy hshort hsurrogate
      | more _ howed _ => exact absurd howed (by simp [Pending.push])
  · rw [begin?_four hb] at hp
    obtain rfl := Option.some.inj hp
    cases hc with
    | last _ howed => exact absurd howed (by simp)
    | more hx _ hc =>
      cases hc with
      | last _ howed => exact absurd howed (by simp [Pending.push])
      | more hy _ hc =>
        cases hc with
        | last hz _ =>
          obtain ⟨hx, hshort, hbeyond⟩ := (second_iff (by decide) (by decide)).mp hx
          exact utf8EncodeChar_four hb hx hy hz hshort hbeyond
        | more _ howed _ => exact absurd howed (by simp [Pending.push])

/-- A number below that of a byte is the number of a byte. -/
theorem exists_toNat_eq {n : Nat} (h : n < 0x100) : ∃ b : UInt8, b.toNat = n :=
  ⟨UInt8.ofNat n, UInt8.toNat_ofNat_of_lt' h⟩

/-! In the other direction, the bytes of a character are the digits of its number to the base 64,
the first of them being what is left. -/

theorem exists_completes_two {n : Nat} (h : 0x80 ≤ n ∧ n < 0x800) (i : Nat) :
    ∃ b t p, utf8EncodeChar (Char.ofNat n) = b :: t ∧ begin? b i = some p ∧
      p.Completes t (Char.ofNat n) := by
  obtain ⟨b, hb⟩ := exists_toNat_eq (n := n / 64 + 0xC0) (by omega)
  obtain ⟨x, hx⟩ := exists_toNat_eq (n := n % 64 + 0x80) (by omega)
  have hn : (b.toNat - 0xC0) * 64 + (x.toNat - 0x80) = n := by omega
  have hfirst : 0xC2 ≤ b.toNat ∧ b.toNat ≤ 0xDF := by omega
  have hlast : 0x80 ≤ x.toNat ∧ x.toNat ≤ 0xBF := by omega
  subst hn
  exact ⟨b, [x], _, utf8EncodeChar_two hfirst hlast, begin?_two hfirst,
    .last hlast (Nat.le_refl 1)⟩

theorem exists_completes_three {n : Nat} (h : 0x800 ≤ n ∧ n < 0x10000) (hvalid : n.isValidChar)
    (i : Nat) :
    ∃ b t p, utf8EncodeChar (Char.ofNat n) = b :: t ∧ begin? b i = some p ∧
      p.Completes t (Char.ofNat n) := by
  obtain ⟨b, hb⟩ := exists_toNat_eq (n := n / 4096 + 0xE0) (by omega)
  obtain ⟨x, hx⟩ := exists_toNat_eq (n := n / 64 % 64 + 0x80) (by omega)
  obtain ⟨y, hy⟩ := exists_toNat_eq (n := n % 64 + 0x80) (by omega)
  have hn : ((b.toNat - 0xE0) * 64 + (x.toNat - 0x80)) * 64 + (y.toNat - 0x80) = n := by omega
  have hfirst : 0xE0 ≤ b.toNat ∧ b.toNat ≤ 0xEF := by omega
  have hrange : 0x80 ≤ x.toNat ∧ x.toNat ≤ 0xBF := by omega
  have hlast : 0x80 ≤ y.toNat ∧ y.toNat ≤ 0xBF := by omega
  have hshort : b.toNat = 0xE0 → 0xA0 ≤ x.toNat := by omega
  have hsurrogate : b.toNat = 0xED → x.toNat ≤ 0x9F := by
    rw [Nat.isValidChar] at hvalid
    omega
  have hsecond := (second_iff (by decide) (by decide)).mpr ⟨hrange, hshort, hsurrogate⟩
  subst hn
  exact ⟨b, [x, y], _, utf8EncodeChar_three hfirst hrange hlast hshort hsurrogate,
    begin?_three hfirst, .more hsecond (Nat.lt_succ_self 1) (.last hlast (Nat.le_refl 1))⟩

theorem exists_completes_four {n : Nat} (h : 0x10000 ≤ n) (hvalid : n.isValidChar) (i : Nat) :
    ∃ b t p, utf8EncodeChar (Char.ofNat n) = b :: t ∧ begin? b i = some p ∧
      p.Completes t (Char.ofNat n) := by
  rw [Nat.isValidChar] at hvalid
  obtain ⟨b, hb⟩ := exists_toNat_eq (n := n / 262144 + 0xF0) (by omega)
  obtain ⟨x, hx⟩ := exists_toNat_eq (n := n / 4096 % 64 + 0x80) (by omega)
  obtain ⟨y, hy⟩ := exists_toNat_eq (n := n / 64 % 64 + 0x80) (by omega)
  obtain ⟨z, hz⟩ := exists_toNat_eq (n := n % 64 + 0x80) (by omega)
  have hn : (((b.toNat - 0xF0) * 64 + (x.toNat - 0x80)) * 64 + (y.toNat - 0x80)) * 64 +
      (z.toNat - 0x80) = n := by omega
  have hfirst : 0xF0 ≤ b.toNat ∧ b.toNat ≤ 0xF4 := by omega
  have hrange : 0x80 ≤ x.toNat ∧ x.toNat ≤ 0xBF := by omega
  have hthird : 0x80 ≤ y.toNat ∧ y.toNat ≤ 0xBF := by omega
  have hlast : 0x80 ≤ z.toNat ∧ z.toNat ≤ 0xBF := by omega
  have hshort : b.toNat = 0xF0 → 0x90 ≤ x.toNat := by omega
  have hbeyond : b.toNat = 0xF4 → x.toNat ≤ 0x8F := by omega
  have hsecond := (second_iff (by decide) (by decide)).mpr ⟨hrange, hshort, hbeyond⟩
  subst hn
  exact ⟨b, [x, y, z], _, utf8EncodeChar_four hfirst hrange hthird hlast hshort hbeyond,
    begin?_four hfirst, .more hsecond (by simp)
      (.more hthird (by simp [Pending.push]) (.last hlast (Nat.le_refl 1)))⟩

/-- **The bytes of a character**: a single one, or one that begins it and those that complete
it. -/
theorem utf8EncodeChar_cases (c : Char) (i : Nat) :
    (∃ b : UInt8, b.toNat < 0x80 ∧ c = Char.ofNat b.toNat ∧ utf8EncodeChar c = [b]) ∨
      ∃ b t p, utf8EncodeChar c = b :: t ∧ begin? b i = some p ∧ p.Completes t c := by
  have hvalid : c.val.toNat.isValidChar := c.valid
  have hc : Char.ofNat c.val.toNat = c := Char.ofNat_toNat c
  rw [← hc]
  generalize c.val.toNat = n at hvalid
  by_cases hone : n < 0x80
  · obtain ⟨b, rfl⟩ := exists_toNat_eq (n := n) (by omega)
    exact Or.inl ⟨b, hone, rfl, utf8EncodeChar_one hone⟩
  refine Or.inr ?_
  by_cases htwo : n < 0x800
  · exact exists_completes_two ⟨by omega, htwo⟩ i
  by_cases hthree : n < 0x10000
  · exact exists_completes_three ⟨by omega, hthree⟩ hvalid i
  · exact exists_completes_four (by omega) hvalid i

/-! ### The encoding of a text -/

theorem not_lt_of_begin? (h : begin? b i = some p) : ¬b.toNat < 0x80 := by
  rcases begin?_cases h with hb | hb | hb <;> omega

/-- **One step of a decoding** from between two characters to the next such place. -/
theorem decodeFrom_utf8EncodeChar (c : Char) (acc : List Char) (i : Nat) (r : List UInt8) :
    decodeFrom acc i none (utf8EncodeChar c ++ r) =
      decodeFrom (c :: acc) (i + (utf8EncodeChar c).length) none r := by
  rcases utf8EncodeChar_cases c i with ⟨b, hb, hc, h⟩ | ⟨b, t, p, h, hp, hcompletes⟩
  · rw [h, hc, List.singleton_append, decodeFrom]
    exact if_pos hb
  · rw [h, List.cons_append, decodeFrom, List.length_cons, ← Nat.add_assoc, Nat.add_right_comm,
      ← decodeFrom_completes hcompletes]
    rw [if_neg (not_lt_of_begin? hp), hp]

theorem decodeFrom_flatMap (ds acc : List Char) (i : Nat) :
    decodeFrom acc i none (ds.flatMap utf8EncodeChar) = .ok (acc.reverse ++ ds) := by
  induction ds generalizing acc i with
  | nil => simp [decodeFrom]
  | cons d ds ih =>
    rw [List.flatMap_cons, decodeFrom_utf8EncodeChar, ih]
    simp

/-- What is decoded from between two characters is the encoding of what is read there. -/
theorem exists_of_decodeFrom {acc cs : List Char} {bs : List UInt8}
    (h : decodeFrom acc i none bs = .ok cs) :
    ∃ ds, bs = ds.flatMap utf8EncodeChar ∧ cs = acc.reverse ++ ds := by
  -- from one such place to the next, so the induction is on the number of bytes
  induction hlen : bs.length using Nat.strongRecOn generalizing acc i bs with
  | _ n ih =>
    subst hlen
    cases bs with
    | nil => exact ⟨[], rfl, by simpa [decodeFrom, eq_comm] using h⟩
    | cons b bs =>
      rw [decodeFrom] at h
      by_cases hb : b.toNat < 0x80
      · rw [if_pos hb] at h
        obtain ⟨ds, rfl, rfl⟩ := ih _ (Nat.lt_succ_self _) h rfl
        exact ⟨Char.ofNat b.toNat :: ds, by simp [utf8EncodeChar_one hb], by simp⟩
      · rw [if_neg hb] at h
        cases hp : begin? b i with
        | none => simp [hp] at h
        | some p =>
          simp only [hp] at h
          obtain ⟨t, c, r, rfl, hc⟩ := exists_completes h
          rw [decodeFrom_completes hc] at h
          have hlt : r.length < (b :: (t ++ r)).length := by
            rw [List.length_cons, List.length_append]
            omega
          obtain ⟨ds, rfl, rfl⟩ := ih _ hlt h rfl
          exact ⟨c :: ds, by simp [utf8EncodeChar_of_completes hp hc], by simp⟩

/-- **Bytes are decoded exactly if they are the encoding of a text**, and as that text. -/
theorem decode_eq_ok_iff {bytes : List UInt8} {cs : List Char} :
    decode bytes = .ok cs ↔ bytes = cs.flatMap utf8EncodeChar := by
  constructor
  · intro h
    obtain ⟨ds, rfl, rfl⟩ := exists_of_decodeFrom h
    rfl
  · rintro rfl
    exact decodeFrom_flatMap cs [] 0

end MiniTemplate.Utf8
