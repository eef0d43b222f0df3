import MiniTemplate.Proofs.Attributes
import MiniTemplate.Proofs.Mark
import MiniTemplate.Reading.Piece

/-!
# Reading a piece by the grammar

What `MiniTemplate.readPiece` does is settled by the first characters ahead, and for each
kind of piece by a few conditions on what follows. The first half of this file says once
what each reader can do, guards and results together; everything that is proved about
pieces later, on their places as well as on their grammar, starts from these statements.

The second half compares with the grammar. A piece is a node by itself or one of the two
tags of an element, and `MiniTemplate.Grammar.Stands` says that a text begins with a piece. A
piece that is read without a fault stands there (`MiniTemplate.readPiece_sound`), and a piece
that stands there is read (`MiniTemplate.readPiece_leaf`, `MiniTemplate.readPiece_opening`,
`MiniTemplate.readPiece_closing`).
-/

namespace MiniTemplate

open Text Grammar

variable {c : Cursor}

/-! ### Which reader it is -/

theorem readPiece_of_closing {t : List Char} (hc : c.rest = '<' :: '/' :: t) :
    readPiece c = readClosing c := by
  simp only [readPiece, hc]

theorem readPiece_of_comment {t : List Char} (hc : c.rest = '<' :: '!' :: '-' :: '-' :: t) :
    readPiece c = readComment c := by
  simp only [readPiece, hc]

theorem readPiece_of_tag {t : List Char} (hc : c.rest = '<' :: t) (hslash : ∀ t', t ≠ '/' :: t')
    (hbang : ∀ t', t ≠ '!' :: '-' :: '-' :: t') : readPiece c = readTag c := by
  rw [readPiece, hc]
  split
  · rename_i t' h
    exact absurd (List.cons.inj h).2 (hslash t')
  · rename_i t' h
    exact absurd (List.cons.inj h).2 (hbang t')
  · rfl
  · rename_i h
    exact absurd rfl (h t)

theorem readPiece_of_text (hc : ∀ t, c.rest ≠ '<' :: t) : readPiece c = readText c := by
  rw [readPiece]
  split
  · rename_i h
    exact absurd h (hc _)
  · rename_i h
    exact absurd h (hc _)
  · rename_i h
    exact absurd h (hc _)
  · rfl

/-- **What is read** is settled by the characters ahead. -/
theorem readPiece_cases (c : Cursor) :
    ((∃ t, c.rest = '<' :: '/' :: t) ∧ readPiece c = readClosing c) ∨
    ((∃ t, c.rest = '<' :: '!' :: '-' :: '-' :: t) ∧ readPiece c = readComment c) ∨
    ((∃ t, c.rest = '<' :: t) ∧ readPiece c = readTag c) ∨
    ((∀ t, c.rest ≠ '<' :: t) ∧ readPiece c = readText c) := by
  by_cases hlt : ∃ t, c.rest = '<' :: t
  · obtain ⟨t, ht⟩ := hlt
    by_cases hslash : ∃ t', t = '/' :: t'
    · obtain ⟨t', rfl⟩ := hslash
      exact Or.inl ⟨⟨t', ht⟩, readPiece_of_closing ht⟩
    by_cases hbang : ∃ t', t = '!' :: '-' :: '-' :: t'
    · obtain ⟨t', rfl⟩ := hbang
      exact Or.inr (Or.inl ⟨⟨t', ht⟩, readPiece_of_comment ht⟩)
    push Not at hslash hbang
    exact Or.inr (Or.inr (Or.inl ⟨⟨t, ht⟩, readPiece_of_tag ht hslash hbang⟩))
  · push Not at hlt
    exact Or.inr (Or.inr (Or.inr ⟨hlt, readPiece_of_text hlt⟩))

/-! ### What the readers can do -/

/-- The characters of the name of a tag, with the cursor on its `<`. -/
def tagName (c : Cursor) : List Char := (c.rest.drop 1).takeWhile isTagChar

/-- The attributes of a tag, with the cursor on its `<`. -/
def tagAttributes (c : Cursor) : Scan (List Attribute) :=
  readAttributes (String.ofList (tagName c)) [] (c.skip (1 + (tagName c).length))

/-- **What reading a tag can do**: there is no name; or the tag ends by itself; or it opens
an element; or its end is missing. -/
theorem readTag_cases (c : Cursor) :
    (tagName c = [] ∧
      readTag c = ⟨none, c.advance, [⟨c.advance.position, .missingTagName⟩], []⟩) ∨
    (tagName c ≠ [] ∧ ∃ r, (tagAttributes c).cursor.rest = '/' :: '>' :: r ∧
      readTag c = ⟨some (.leaf (.element (String.ofList (tagName c)) (tagAttributes c).value [] true
          (some (c.position.spanTo ((tagAttributes c).cursor.skip 2).position.offset)))),
        (tagAttributes c).cursor.skip 2, (tagAttributes c).faults, (tagAttributes c).cautions⟩) ∨
    (tagName c ≠ [] ∧ ∃ r, (tagAttributes c).cursor.rest = '>' :: r ∧
      readTag c = ⟨some (.opening (String.ofList (tagName c)) (tagAttributes c).value c.position),
        (tagAttributes c).cursor.advance, (tagAttributes c).faults, (tagAttributes c).cautions⟩) ∨
    (tagName c ≠ [] ∧ (∀ r, (tagAttributes c).cursor.rest ≠ '/' :: '>' :: r) ∧
      (∀ r, (tagAttributes c).cursor.rest ≠ '>' :: r) ∧
      readTag c = ⟨none, (tagAttributes c).cursor,
        (tagAttributes c).faults ++ [⟨(tagAttributes c).cursor.position, .missingTagEnd⟩],
        (tagAttributes c).cautions⟩) := by
  by_cases hn : tagName c = []
  · refine Or.inl ⟨hn, ?_⟩
    rw [tagName] at hn
    simp only [readTag, hn, List.isEmpty_nil, if_true]
  · have hne : ((c.rest.drop 1).takeWhile isTagChar).isEmpty = false := by
      simpa [tagName] using hn
    refine Or.inr ?_
    simp only [readTag, hne, Bool.false_eq_true, if_false]
    split
    · rename_i r hr
      exact Or.inl ⟨hn, r, hr, rfl⟩
    · rename_i r hr
      exact Or.inr (Or.inl ⟨hn, r, hr, rfl⟩)
    · rename_i hslash hgt
      exact Or.inr (Or.inr ⟨hn, hslash, hgt, rfl⟩)

/-- The cursor behind the name and the blanks of a closing tag. -/
def closingEnd (c : Cursor) : Cursor :=
  (c.skip (2 + ((c.rest.drop 2).takeWhile isTagChar).length)).skipBlanks

/-- **What reading a closing tag can do**: it ends, or its end is missing. -/
theorem readClosing_cases (c : Cursor) :
    (∃ r, (closingEnd c).rest = '>' :: r ∧
      readClosing c = ⟨some (.closing (String.ofList ((c.rest.drop 2).takeWhile isTagChar))
        c.position), (closingEnd c).advance, [], []⟩) ∨
    ((∀ r, (closingEnd c).rest ≠ '>' :: r) ∧
      readClosing c = ⟨some (.closing (String.ofList ((c.rest.drop 2).takeWhile isTagChar))
        c.position), closingEnd c, [⟨(closingEnd c).position, .missingClosingTagEnd⟩], []⟩) := by
  simp only [readClosing]
  split
  · rename_i r hr
    exact Or.inl ⟨r, hr, rfl⟩
  · rename_i hgt
    exact Or.inr ⟨hgt, rfl⟩

/-- **What reading a comment can do**: the mark that ends it is found, or the text ends. -/
theorem readComment_cases {t : List Char} (hc : c.rest = '<' :: '!' :: '-' :: '-' :: t) :
    ∃ w, ¬"-->".toList <:+: w ∧
      ((∃ r, t = w ++ "-->".toList ++ r ∧
        readComment c = ⟨some (.leaf (.comment (String.ofList w)
          (some (c.position.spanTo (c.skip (4 + w.length + 3)).position.offset)))),
          c.skip (4 + w.length + 3), [], []⟩) ∨
      (t = w ∧
        readComment c = ⟨some (.leaf (.comment (String.ofList w)
          (some (c.position.spanTo (c.skip (4 + w.length)).position.offset)))),
          c.skip (4 + w.length), [], []⟩)) := by
  have hdrop : c.rest.drop 4 = t := by rw [hc]; rfl
  refine ⟨(before "-->".toList t).1, not_infix_before (by simp) t, ?_⟩
  simp only [readComment, hdrop]
  cases hf : (before "-->".toList t).2 with
  | true =>
    obtain ⟨r, hr⟩ := before_found hf
    exact Or.inl ⟨r, hr, rfl⟩
  | false => exact Or.inr ⟨(before_missed hf).symm, rfl⟩

/-- **Only a tag opens an element**, and with its own name, attributes and place. -/
theorem opening_of_readPiece {name : String} {as : List Attribute} {start : Position}
    (h : (readPiece c).value = some (.opening name as start)) :
    (∃ t, c.rest = '<' :: t) ∧ tagName c ≠ [] ∧ name = String.ofList (tagName c) ∧
      as = (tagAttributes c).value ∧ start = c.position := by
  rcases readPiece_cases c with ⟨-, hp⟩ | ⟨⟨t, ht⟩, hp⟩ | ⟨ht, hp⟩ | ⟨-, hp⟩
  · rcases readClosing_cases c with ⟨r, -, hcl⟩ | ⟨-, hcl⟩ <;> simp [hp, hcl] at h
  · obtain ⟨w, -, ⟨r, -, hcm⟩ | ⟨-, hcm⟩⟩ := readComment_cases ht <;> simp [hp, hcm] at h
  · rw [hp] at h
    rcases readTag_cases c with ⟨-, htag⟩ | ⟨-, r, -, htag⟩ | ⟨hn, r, -, htag⟩ | ⟨-, -, -, htag⟩
    · simp [htag] at h
    · simp [htag] at h
    · rw [htag] at h
      obtain ⟨rfl, rfl, rfl⟩ := Piece.opening.inj (Option.some.inj h)
      exact ⟨ht, hn, rfl, rfl, rfl⟩
    · simp [htag] at h
  · simp [hp, readText] at h

/-! ### Remarks of the readers -/

/-- **Quiet cautions**: none of them says that the text ends inside an element. -/
def Quiet (cs : List (Located Caution)) : Prop := ∀ x ∈ cs, ∀ name, x.what ≠ .unclosed name

theorem quiet_nil : Quiet [] := by
  simp [Quiet]

theorem Quiet.append {cs ds : List (Located Caution)} (hc : Quiet cs) (hd : Quiet ds) :
    Quiet (cs ++ ds) := by
  intro x hx
  rcases List.mem_append.mp hx with hx | hx
  · exact hc x hx
  · exact hd x hx

/-- The readers of pieces never find an element unclosed: that is found at the end of the
text only. -/
theorem quiet_readAttributes (tag : String) (seen : List String) (c : Cursor) :
    Quiet (readAttributes tag seen c).cautions := by
  fun_induction readAttributes tag seen c with
  | case1 => exact quiet_nil
  | case2 seen c s hsome hlt more ih =>
    refine Quiet.append ?_ ih
    intro x hx name
    rw [duplicateCaution] at hx
    split at hx
    · obtain rfl := List.mem_singleton.mp hx
      simp
    · exact absurd hx (by simp)

theorem quiet_readPiece (c : Cursor) : Quiet (readPiece c).cautions := by
  rcases readPiece_cases c with ⟨-, h⟩ | ⟨⟨t, ht⟩, h⟩ | ⟨-, h⟩ | ⟨-, h⟩
  · rcases readClosing_cases c with ⟨r, -, hc⟩ | ⟨-, hc⟩ <;> simp [h, hc, quiet_nil]
  · obtain ⟨w, -, ⟨r, -, hc⟩ | ⟨-, hc⟩⟩ := readComment_cases ht <;> simp [h, hc, quiet_nil]
  · rw [h]
    rcases readTag_cases c with ⟨-, hc⟩ | ⟨-, r, -, hc⟩ | ⟨-, r, -, hc⟩ | ⟨-, -, -, hc⟩
    · rw [hc]
      exact quiet_nil
    all_goals
      rw [hc]
      exact quiet_readAttributes _ _ _
  · simp [h, readText, quiet_nil]

/-! ### Pieces of the grammar -/

/-- **A piece stands** at the beginning of a text, its places left out. -/
inductive Grammar.Stands : List Char → Piece → List Char → Prop
  | leaf {t r : List Char} {n : Node} : Leaf t n.unplaced r → Stands t (.leaf n) r
  | opening {t r : List Char} {name : String} {as : List Attribute} (start : Position) :
      Head t name as ('>' :: r) → Stands t (.opening name as start) r
  | closing {t r : List Char} {name : String} (start : Position) : Closing t name r →
      Stands t (.closing name start) r

theorem run_tagName {t : List Char} (hc : c.rest = '<' :: t) :
    Run isTagChar t (tagName c) (c.skip (1 + (tagName c).length)).rest := by
  have hname : tagName c = t.takeWhile isTagChar := by rw [tagName, hc]; rfl
  have hrun := run_takeWhile isTagChar t
  have hrest : (c.skip (1 + (tagName c).length)).rest = t.dropWhile isTagChar := by
    rw [Cursor.rest_skip, hc, Nat.add_comm, List.drop_succ_cons, hname, hrun.drop_eq]
  rwa [hrest, hname]

/-- A tag whose attributes are read without a fault has a head of the grammar. -/
theorem head_of_tagAttributes {t : List Char} (hc : c.rest = '<' :: t) (hn : tagName c ≠ [])
    (h : (tagAttributes c).faults = []) :
    Head c.rest (String.ofList (tagName c)) (tagAttributes c).value
      (tagAttributes c).cursor.rest := by
  have has := readAttributes_sound h
  rw [hc]
  exact .mk hn (run_tagName hc) has

theorem readClosing_sound {t : List Char} (hc : c.rest = '<' :: '/' :: t)
    (h : (readClosing c).faults = []) :
    ∃ x, (readClosing c).value = some x ∧ Stands c.rest x (readClosing c).cursor.rest := by
  rcases readClosing_cases c with ⟨r, hr, hcl⟩ | ⟨-, hcl⟩
  · refine ⟨_, by rw [hcl], ?_⟩
    have hrun := run_takeWhile isTagChar t
    have hdrop : c.rest.drop 2 = t := by rw [hc]; rfl
    have hblanks : Blanks (t.dropWhile isTagChar) ('>' :: r) := by
      rw [blanks_iff, ← hr, closingEnd, Cursor.rest_skipBlanks, Cursor.rest_skip,
        ← List.drop_drop, hdrop, hrun.drop_eq]
    rw [hcl, Cursor.rest_advance, hr, hdrop, hc]
    exact .closing _ (.mk hrun hblanks)
  · rw [hcl] at h
    exact absurd h (by simp)

theorem drop_comment (w r : List Char) :
    ("<!--".toList ++ w ++ "-->".toList ++ r).drop (4 + w.length + 3) = r := by
  rw [Nat.add_comm 4, Nat.add_assoc]
  simp [← List.drop_drop]

theorem drop_lastComment (w : List Char) : ("<!--".toList ++ w).drop (4 + w.length) = [] := by
  rw [Nat.add_comm]
  simp

theorem readComment_sound {t : List Char} (hc : c.rest = '<' :: '!' :: '-' :: '-' :: t) :
    ∃ x, (readComment c).value = some x ∧ Stands c.rest x (readComment c).cursor.rest := by
  obtain ⟨w, hw, ⟨r, rfl, hcm⟩ | ⟨rfl, hcm⟩⟩ := readComment_cases hc
  · refine ⟨_, by rw [hcm], ?_⟩
    have hrest : (c.skip (4 + w.length + 3)).rest = r := by
      rw [Cursor.rest_skip, hc]
      exact drop_comment w r
    rw [hcm, hrest, hc]
    exact .leaf (.comment r hw)
  · refine ⟨_, by rw [hcm], ?_⟩
    have hrest : (c.skip (4 + t.length)).rest = [] := by
      rw [Cursor.rest_skip, hc]
      exact drop_lastComment t
    rw [hcm, hrest, hc]
    exact .leaf (.lastComment hw)

theorem readTag_sound {t : List Char} (hc : c.rest = '<' :: t) (h : (readTag c).faults = []) :
    ∃ x, (readTag c).value = some x ∧ Stands c.rest x (readTag c).cursor.rest := by
  rcases readTag_cases c with ⟨-, htag⟩ | ⟨hn, r, hr, htag⟩ | ⟨hn, r, hr, htag⟩ | ⟨-, -, -, htag⟩
  · rw [htag] at h
    exact absurd h (by simp)
  · rw [htag] at h ⊢
    have hhead := head_of_tagAttributes hc hn h
    rw [hr] at hhead
    refine ⟨_, rfl, ?_⟩
    rw [Cursor.rest_skip, hr]
    refine .leaf ?_
    rw [Node.unplaced_element]
    exact .selfClosing hhead
  · rw [htag] at h ⊢
    have hhead := head_of_tagAttributes hc hn h
    rw [hr] at hhead
    refine ⟨_, rfl, ?_⟩
    rw [Cursor.rest_advance, hr]
    exact .opening _ hhead
  · rw [htag] at h
    exact absurd h (by simp)

theorem readText_sound {a : Char} {t : List Char} (hc : c.rest = a :: t) (ha : isBlank a = false)
    (hlt : a ≠ '<') :
    ∃ x, (readText c).value = some x ∧ Stands c.rest x (readText c).cursor.rest := by
  have hrun := run_takeWhile (· != '<') c.rest
  refine ⟨_, rfl, .leaf (.text ?_ ?_ ?_)⟩
  · rw [hc, List.takeWhile_cons_of_pos (by simpa using hlt)]
    simp
  · rw [hc, List.takeWhile_cons_of_pos (by simpa using hlt)]
    simpa using ha
  · rw [readText, Cursor.rest_skip, hrun.drop_eq]
    exact hrun

/-- **A piece that is read without a fault** stands there. -/
theorem readPiece_sound {a : Char} {t : List Char} (hc : c.rest = a :: t)
    (ha : isBlank a = false) (h : (readPiece c).faults = []) :
    ∃ x, (readPiece c).value = some x ∧ Stands c.rest x (readPiece c).cursor.rest := by
  rcases readPiece_cases c with ⟨⟨t, ht⟩, hp⟩ | ⟨⟨t, ht⟩, hp⟩ | ⟨⟨t, ht⟩, hp⟩ | ⟨hlt, hp⟩
  · rw [hp] at h ⊢
    exact readClosing_sound ht h
  · rw [hp]
    exact readComment_sound ht
  · rw [hp] at h ⊢
    exact readTag_sound ht h
  · rw [hp]
    refine readText_sound hc ha ?_
    rintro rfl
    exact hlt t hc

theorem Grammar.Head.exists_cons {t r : List Char} {name : String} {as : List Attribute}
    (h : Head t name as r) : ∃ t', t = '<' :: t' := by
  cases h with
  | @mk t n t₁ r as hn hrun has => exact ⟨t, rfl⟩

theorem Grammar.Closing.exists_cons {t r : List Char} {name : String} (h : Closing t name r) :
    ∃ t', t = '<' :: t' := by
  cases h with
  | @mk t n t₁ r hrun hb => exact ⟨'/' :: t, rfl⟩

/-- A leaf begins with a character that is not blank. -/
theorem Grammar.Leaf.exists_cons {t r : List Char} {n : Node} (h : Leaf t n r) :
    ∃ a t', t = a :: t' ∧ isBlank a = false := by
  cases h with
  | @text t w r hw hblank hrun =>
    obtain ⟨a, w, rfl⟩ := List.exists_cons_of_ne_nil hw
    exact ⟨a, w ++ r, hrun.split, hblank a rfl⟩
  | comment r hw => exact ⟨_, _, rfl, by decide⟩
  | lastComment hw => exact ⟨_, _, rfl, by decide⟩
  | selfClosing hhead =>
    obtain ⟨t', ht'⟩ := hhead.exists_cons
    exact ⟨_, t', ht', by decide⟩

/-- A leaf opens nothing. -/
theorem Grammar.Leaf.nesting {t r : List Char} {n : Node} (h : Leaf t n r) : n.nesting = 0 := by
  cases h <;> rfl

/-! ### Pieces of the grammar are read -/

/-- A tag with a head of the grammar is no comment and no closing tag. -/
theorem readPiece_of_head {name : String} {as : List Attribute} {r : List Char}
    (h : Head c.rest name as r) : readPiece c = readTag c := by
  generalize ht : c.rest = t at h
  cases h with
  | mk hn hrun _ =>
    obtain ⟨a, n, rfl⟩ := List.exists_cons_of_ne_nil hn
    have ha : isTagChar a := hrun.all a (by simp)
    refine readPiece_of_tag ht ?_ ?_
    · rintro t' rfl
      obtain rfl : '/' = a := (List.cons.inj hrun.split).1
      exact absurd ha (by decide)
    · rintro t' rfl
      obtain rfl : '!' = a := (List.cons.inj hrun.split).1
      exact absurd ha (by decide)

theorem tagName_of_head {name : String} {as : List Attribute} {r : List Char}
    (h : Head c.rest name as r) (hr : EndsAttrs r) :
    tagName c ≠ [] ∧ String.ofList (tagName c) = name ∧ (tagAttributes c).value = as ∧
      (tagAttributes c).cursor.rest = r ∧ (tagAttributes c).faults = [] := by
  generalize ht : c.rest = t at h
  cases h with
  | @mk t n t₁ r as hn hrun has =>
    have hname : tagName c = n := by
      rw [tagName, ht, List.drop_one, List.tail_cons, hrun.takeWhile_eq]
    have hrest : (c.skip (1 + (tagName c).length)).rest = t₁ := by
      rw [Cursor.rest_skip, ht, Nat.add_comm, List.drop_succ_cons, hname, hrun.drop_eq]
    have hattrs := readAttributes_complete has hr (String.ofList (tagName c)) []
      (c.skip (1 + (tagName c).length)) (by rw [hrest])
    exact ⟨hname ▸ hn, by rw [hname], hattrs⟩

/-- **An opening tag of the grammar is read.** -/
theorem readPiece_opening {name : String} {as : List Attribute} {r : List Char}
    (h : Head c.rest name as ('>' :: r)) :
    (readPiece c).value = some (.opening name as c.position) ∧ (readPiece c).cursor.rest = r ∧
      (readPiece c).faults = [] := by
  obtain ⟨hn, hname, has, hrest, hfaults⟩ := tagName_of_head h (endsAttrs_close r)
  rw [readPiece_of_head h]
  rcases readTag_cases c with ⟨hnil, -⟩ | ⟨-, r', hr, -⟩ | ⟨-, r', hr, htag⟩ | ⟨-, -, hgt, -⟩
  · exact absurd hnil hn
  · exact absurd (hrest.symm.trans hr) (by simp)
  · rw [htag, hname, has]
    exact ⟨rfl, by rw [Cursor.rest_advance, hrest]; rfl, hfaults⟩
  · exact absurd hrest (hgt r)

theorem readPiece_selfClosing {name : String} {as : List Attribute} {r : List Char}
    (h : Head c.rest name as ('/' :: '>' :: r)) :
    ∃ span, (readPiece c).value = some (.leaf (.element name as [] true span)) ∧
      (readPiece c).cursor.rest = r ∧ (readPiece c).faults = [] := by
  obtain ⟨hn, hname, has, hrest, hfaults⟩ := tagName_of_head h (endsAttrs_slash ('>' :: r))
  rw [readPiece_of_head h]
  rcases readTag_cases c with ⟨hnil, -⟩ | ⟨-, r', hr, htag⟩ | ⟨-, r', hr, -⟩ | ⟨-, hslash, -, -⟩
  · exact absurd hnil hn
  · rw [htag, hname, has]
    exact ⟨_, rfl, by rw [Cursor.rest_skip, hrest]; rfl, hfaults⟩
  · exact absurd (hrest.symm.trans hr) (by simp)
  · exact absurd hrest (hslash r)

/-- **A closing tag of the grammar is read.** -/
theorem readPiece_closing {name : String} {r : List Char} (h : Closing c.rest name r) :
    (readPiece c).value = some (.closing name c.position) ∧ (readPiece c).cursor.rest = r ∧
      (readPiece c).faults = [] := by
  generalize ht : c.rest = t at h
  cases h with
  | @mk t n t₁ r hrun hb =>
    have hdrop : c.rest.drop 2 = t := by rw [ht]; rfl
    have hend : (closingEnd c).rest = '>' :: r := by
      rw [closingEnd, Cursor.rest_skipBlanks, Cursor.rest_skip, ← List.drop_drop, hdrop,
        hrun.takeWhile_eq, hrun.drop_eq, blanks_iff.mp hb]
    rw [readPiece_of_closing ht]
    rcases readClosing_cases c with ⟨r', hr, hcl⟩ | ⟨hgt, -⟩
    · rw [hcl, hdrop, hrun.takeWhile_eq]
      exact ⟨rfl, by rw [Cursor.rest_advance, hend]; rfl, rfl⟩
    · exact absurd hend (hgt r)

/-- **A node without a closing tag is read**, and gets a span. -/
theorem readPiece_leaf {n : Node} {r : List Char} (h : Leaf c.rest n r) :
    ∃ n', (readPiece c).value = some (.leaf n') ∧ n'.unplaced = n ∧
      (readPiece c).cursor.rest = r ∧ (readPiece c).faults = [] := by
  generalize ht : c.rest = t at h
  cases h with
  | @text t w r hw hblank hrun =>
    have hlt : ∀ t', c.rest ≠ '<' :: t' := by
      intro t' ht'
      obtain ⟨a, w, rfl⟩ := List.exists_cons_of_ne_nil hw
      have ha := hrun.all a (by simp)
      obtain rfl : '<' = a := (List.cons.inj (ht'.symm.trans (ht.trans hrun.split))).1
      exact absurd ha (by simp)
    rw [readPiece_of_text hlt]
    refine ⟨_, rfl, ?_, ?_, rfl⟩
    · rw [Node.unplaced_text, ht, hrun.takeWhile_eq]
    · simp only [readText]
      rw [Cursor.rest_skip, ht, hrun.takeWhile_eq, hrun.drop_eq]
  | @comment w r hw =>
    have hcut : before "-->".toList (c.rest.drop 4) = (w, true) := by
      rw [ht]
      exact before_append_commentEnd hw r
    rw [readPiece_of_comment ht]
    refine ⟨_, rfl, ?_, ?_, rfl⟩
    · rw [Node.unplaced_comment, hcut]
    · simp only [readComment, hcut, if_true, Cursor.rest_skip]
      rw [ht]
      exact drop_comment w r
  | @lastComment w hw =>
    have hcut : before "-->".toList (c.rest.drop 4) = (w, false) := by
      rw [ht]
      exact before_of_not_infix hw
    rw [readPiece_of_comment ht]
    refine ⟨_, rfl, ?_, ?_, rfl⟩
    · rw [Node.unplaced_comment, hcut]
    · simp only [readComment, hcut, Bool.false_eq_true, if_false, Cursor.rest_skip, Nat.add_zero]
      rw [ht]
      exact drop_lastComment w
  | selfClosing hhead =>
    subst ht
    obtain ⟨span, hval, hrest, hfaults⟩ := readPiece_selfClosing hhead
    exact ⟨_, hval, Node.unplaced_element .., hrest, hfaults⟩

end MiniTemplate
