import MiniTemplate.Proofs.Run
import MiniTemplate.Proofs.Tree
import MiniTemplate.Reading.Scan

/-!
# The grammar of templates

The language of templates, said without a reader. A rule relates a text to what it begins
with and to what is left behind it: `Attrs t as r` says that `t` begins with the attributes
`as` and goes on with `r`. Since the rules see what is left, they can ask that a run of
characters be taken as far as it goes.

* A **forest** is a sequence of nodes, with blanks before, between and behind them.
* A **text** is everything up to the next `<`; it does not begin with a blank.
* A **comment** stands between `<!--` and the first `-->`. At the very end of the input the
  closing mark may be missing.
* An **element** is `<`, a name and attributes, and then either `/>`, or `>`, a forest and a
  closing tag of the same name.
* An **attribute** is a name, and perhaps an equals sign and a value, with blanks around the
  sign. A **value** is quoted, and then a backslash takes the character after it as it is, or
  it is a run of characters up to a blank, `>` or `/`.

The nodes of a derivation have no spans: the grammar knows nothing of places. Only
`MiniTemplate.Grammar.Nodes` is recursive; every other rule is a sequence of parts.
-/

namespace MiniTemplate.Grammar

open Text

/-! ### Attributes -/

/-- **The rest of a quoted value**, behind its opening quote `q`, with the closing quote. -/
inductive Quoted (q : Char) : List Char → List Char → List Char → Prop
  /-- The closing quote ends the value. -/
  | close (r : List Char) : Quoted q (q :: r) [] r
  /-- A backslash takes the next character as it is. -/
  | escape (c : Char) {t v r : List Char} : Quoted q t v r → Quoted q ('\\' :: c :: t) (c :: v) r
  /-- Any other character stands for itself. -/
  | plain {c : Char} {t v r : List Char} : c ≠ q → c ≠ '\\' → Quoted q t v r →
      Quoted q (c :: t) (c :: v) r

/-- **The value of an attribute.** -/
inductive Value : List Char → List Char → List Char → Prop
  /-- A value between quotes of one kind. -/
  | quoted {q : Char} {t v r : List Char} : isQuote q → Quoted q t v r → Value (q :: t) v r
  /-- A value without quotes, which may be empty. -/
  | bare {t v r : List Char} : Run isBareChar t v r → (∀ c ∈ v.head?, isQuote c = false) →
      Value t v r

/-- **An attribute.** -/
inductive Attr : List Char → Attribute → List Char → Prop
  /-- A name by itself. -/
  | alone {t n r : List Char} : n ≠ [] → Run isAttributeChar t n r →
      Attr t (.ofWritten (String.ofList n) "") r
  /-- A name, an equals sign and a value. -/
  | valued {t n t₁ t₂ t₃ v r : List Char} : n ≠ [] → Run isAttributeChar t n t₁ →
      Blanks t₁ ('=' :: t₂) → Blanks t₂ t₃ → Value t₃ v r →
      Attr t (.ofWritten (String.ofList n) (String.ofList v)) r

/-- **A list of attributes**, with blanks before, between and behind them. -/
inductive Attrs : List Char → List Attribute → List Char → Prop
  | nil {t r : List Char} : Blanks t r → Attrs t [] r
  | cons {t t₁ t₂ r : List Char} {a : Attribute} {as : List Attribute} : Blanks t t₁ →
      Attr t₁ a t₂ → Attrs t₂ as r → Attrs t (a :: as) r

/-! ### Tags and nodes -/

/-- **The head of a tag**: `<`, a name and attributes. -/
inductive Head : List Char → String → List Attribute → List Char → Prop
  | mk {t n t₁ r : List Char} {as : List Attribute} : n ≠ [] → Run isTagChar t n t₁ →
      Attrs t₁ as r → Head ('<' :: t) (String.ofList n) as r

/-- **A closing tag**: `</`, a name, blanks and `>`. -/
inductive Closing : List Char → String → List Char → Prop
  | mk {t n t₁ r : List Char} : Run isTagChar t n t₁ → Blanks t₁ ('>' :: r) →
      Closing ('<' :: '/' :: t) (String.ofList n) r

/-- **A node that has no closing tag.** -/
inductive Leaf : List Char → Node → List Char → Prop
  | text {t w r : List Char} : w ≠ [] → (∀ c ∈ w.head?, isBlank c = false) →
      Run (· != '<') t w r → Leaf t (.text (String.ofList w) none) r
  | comment {w : List Char} (r : List Char) : ¬"-->".toList <:+: w →
      Leaf ("<!--".toList ++ w ++ "-->".toList ++ r) (.comment (String.ofList w) none) r
  /-- Only at the end of the input may a comment be left open. -/
  | lastComment {w : List Char} : ¬"-->".toList <:+: w →
      Leaf ("<!--".toList ++ w) (.comment (String.ofList w) none) []
  | selfClosing {t r : List Char} {name : String} {as : List Attribute} :
      Head t name as ('/' :: '>' :: r) → Leaf t (.element name as [] true none) r

/-- **A forest.** -/
inductive Nodes : List Char → List Node → List Char → Prop
  | nil {t r : List Char} : Blanks t r → Nodes t [] r
  | leaf {t t₁ t₂ r : List Char} {n : Node} {ns : List Node} : Blanks t t₁ → Leaf t₁ n t₂ →
      Nodes t₂ ns r → Nodes t (n :: ns) r
  | element {t t₁ t₂ t₃ t₄ r : List Char} {name : String} {as : List Attribute}
      {children ns : List Node} : Blanks t t₁ → Head t₁ name as ('>' :: t₂) →
      Nodes t₂ children t₃ → Closing t₃ name t₄ → Nodes t₄ ns r →
      Nodes t (.element name as children false none :: ns) r

/-! ### How an attribute begins -/

theorem isBlank_of_isAttributeChar {c : Char} (h : isAttributeChar c) : isBlank c = false := by
  have hc : (65 ≤ c.toNat ∧ c.toNat ≤ 90) ∨ (97 ≤ c.toNat ∧ c.toNat ≤ 122) ∨
      (45 ≤ c.toNat ∧ c.toNat ≤ 64) ∨ c.toNat = 95 := by
    have hclass : isAttributeChar c =
        (((decide (c.val ≥ 65 ∧ c.val ≤ 90) || (c.val ≥ 97 && c.val ≤ 122) ||
          (c.val ≥ 48 && c.val ≤ 57)) || c == '-' || c == '_') || c == ':' || c == '@' ||
          c == '.') := rfl
    simp only [hclass, Bool.or_eq_true, Bool.and_eq_true, decide_eq_true_eq, beq_iff_eq,
      UInt32.le_iff_toNat_le, ge_iff_le] at h
    rcases h with (((((((h | h) | h) | rfl) | rfl) | rfl) | rfl) | rfl)
    · exact Or.inl h
    · exact Or.inr (Or.inl h)
    · have hdigit : 48 ≤ c.toNat ∧ c.toNat ≤ 57 := h
      omega
    all_goals decide
  simp only [isBlank, Bool.or_eq_false_iff, Bool.and_eq_false_iff, decide_eq_false_iff_not,
    beq_eq_false_iff_ne]
  omega

theorem Attr.head {t r : List Char} {a : Attribute} (h : Attr t a r) :
    ∃ x t', t = x :: t' ∧ isAttributeChar x := by
  have key : ∀ {n r : List Char}, n ≠ [] → Run isAttributeChar t n r →
      ∃ x t', t = x :: t' ∧ isAttributeChar x := by
    intro n r hn hrun
    obtain ⟨x, n', rfl⟩ := List.exists_cons_of_ne_nil hn
    exact ⟨x, n' ++ r, hrun.split, hrun.all x (by simp)⟩
  cases h with
  | alone hn hrun => exact key hn hrun
  | valued hn hrun _ _ _ => exact key hn hrun

/-! ### Blanks in front do not matter -/

variable {t t' r : List Char}

theorem blanks_of_blanks (h : t.dropWhile isBlank = t'.dropWhile isBlank) (hb : Blanks t r) :
    Blanks t' r := by
  rw [blanks_iff] at hb ⊢
  rw [← h, hb]

theorem Attrs.of_blanks {as : List Attribute} (h : t.dropWhile isBlank = t'.dropWhile isBlank)
    (has : Attrs t as r) : Attrs t' as r := by
  cases has with
  | nil hb => exact .nil (blanks_of_blanks h hb)
  | cons hb ha has => exact .cons (blanks_of_blanks h hb) ha has

theorem Nodes.of_blanks {ns : List Node} (h : t.dropWhile isBlank = t'.dropWhile isBlank)
    (hns : Nodes t ns r) : Nodes t' ns r := by
  cases hns with
  | nil hb => exact .nil (blanks_of_blanks h hb)
  | leaf hb hn hns => exact .leaf (blanks_of_blanks h hb) hn hns
  | element hb hh hc hcl hns => exact .element (blanks_of_blanks h hb) hh hc hcl hns

theorem Nodes.behind {ns : List Node} {b : List Char} (hb : ∀ c ∈ b, isBlank c)
    (hns : Nodes t ns r) : Nodes (b ++ t) ns r :=
  hns.of_blanks (List.dropWhile_append_of_pos hb).symm

end MiniTemplate.Grammar
