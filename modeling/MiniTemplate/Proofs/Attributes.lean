import MiniTemplate.Proofs.Grammar
import MiniTemplate.Reading.Attributes

/-!
# Reading attributes by the grammar

The readers of values and attributes against the rules of `MiniTemplate.Grammar`, in both
directions. *Sound*: what a reader reads without a fault is derived by the rule. *Complete*:
what the rule derives is read, without a fault, and as the rule says.

The two sides place the blanks behind an attribute differently. The rule leaves them to
the list; the reader, which has to look for an equals sign, has passed them already. So
the statements about attributes compare what is left *behind the blanks*, and
`MiniTemplate.Grammar.Attrs.of_blanks` closes the gap.
-/

namespace MiniTemplate

open Text Grammar

/-! ### Quoted values -/

section Quotes

variable {q : Char}

theorem quotedRun_close (hq : q ≠ '\\') (r : List Char) :
    quotedRun q (q :: r) = ⟨[], 1, true⟩ := by
  rw [quotedRun.eq_def]
  split <;> simp_all

theorem quotedRun_escape (q c : Char) (t : List Char) :
    quotedRun q ('\\' :: c :: t) =
      ⟨c :: (quotedRun q t).value, (quotedRun q t).width + 2, (quotedRun q t).closed⟩ := by
  rw [quotedRun]

theorem quotedRun_plain {c : Char} (hc : c ≠ q) (hb : c ≠ '\\') (t : List Char) :
    quotedRun q (c :: t) =
      ⟨c :: (quotedRun q t).value, (quotedRun q t).width + 1, (quotedRun q t).closed⟩ := by
  rw [quotedRun.eq_def]
  split <;> simp_all

theorem ne_backslash_of_isQuote (hq : isQuote q) : q ≠ '\\' := by
  rintro rfl
  exact absurd hq (by decide)

/-- A quoted value that is closed is one of the grammar. -/
theorem quoted_of_closed (t : List Char) (h : (quotedRun q t).closed) :
    Quoted q t (quotedRun q t).value (t.drop (quotedRun q t).width) := by
  fun_induction quotedRun q t with
  | case1 => exact absurd h (by simp)
  | case2 => exact absurd h (by simp)
  | case3 c cs r ih => exact .escape c (ih h)
  | case4 cs => exact .close cs
  | case5 c cs hlast hesc hc r ih =>
    -- both cases of a backslash come before this one
    have hb : c ≠ '\\' := by
      rintro rfl
      cases cs with
      | nil => exact hlast rfl rfl
      | cons d ds => exact hesc d ds rfl rfl
    exact .plain hc hb (ih h)

/-- A quoted value of the grammar is read as the grammar says. -/
theorem quotedRun_of_quoted (hq : q ≠ '\\') {t v r : List Char} (h : Quoted q t v r) :
    (quotedRun q t).value = v ∧ t.drop (quotedRun q t).width = r ∧ (quotedRun q t).closed := by
  induction h with
  | close r =>
    rw [quotedRun_close hq]
    exact ⟨rfl, rfl, rfl⟩
  | escape c _ ih =>
    rw [quotedRun_escape]
    exact ⟨by rw [ih.1], ih.2.1, ih.2.2⟩
  | plain hc hb _ ih =>
    rw [quotedRun_plain hc hb]
    exact ⟨by rw [ih.1], ih.2.1, ih.2.2⟩

end Quotes

/-! ### Values -/

variable {c : Cursor}

theorem readValue_quoted {q : Char} {t : List Char} (hc : c.rest = q :: t) (hq : isQuote q) :
    readValue c = ⟨String.ofList (quotedRun q t).value, c.skip ((quotedRun q t).width + 1),
      if (quotedRun q t).closed then [] else [⟨c.position, .unterminatedValue q⟩], []⟩ := by
  rw [readValue, hc]
  simp only [hq, if_true]

theorem readValue_bare (hc : ∀ q ∈ c.rest.head?, isQuote q = false) :
    readValue c = ⟨String.ofList (c.rest.takeWhile isBareChar),
      c.skip (c.rest.takeWhile isBareChar).length, [], []⟩ := by
  rw [readValue]
  cases hr : c.rest with
  | nil => simp [String.ofList_nil]
  | cons q t =>
    have hq : isQuote q = false := hc q (by rw [hr]; rfl)
    simp [hq]

theorem bare_of_isQuote {q : Char} (hq : isQuote q) : isBareChar q := by
  simp only [isQuote, Bool.or_eq_true, beq_iff_eq] at hq
  rcases hq with rfl | rfl <;> decide

/-- A value without quotes in front of `r` does not begin with a quote, also where it is
empty: what ends it is no quote either. -/
theorem isQuote_head_of_bare {t v r : List Char} (hv : Run isBareChar t v r)
    (hq : ∀ a ∈ v.head?, isQuote a = false) : ∀ a ∈ t.head?, isQuote a = false := by
  intro a ha
  rw [hv.split] at ha
  cases v with
  | nil =>
    have hstop : isBareChar a = false := hv.stops a ha
    by_contra hqa
    rw [bare_of_isQuote (by simpa using hqa)] at hstop
    exact absurd hstop (by decide)
  | cons b v => exact hq a ha

theorem readValue_sound (h : (readValue c).faults = []) :
    Value c.rest (readValue c).value.toList (readValue c).cursor.rest := by
  by_cases hq : ∀ q ∈ c.rest.head?, isQuote q = false
  · rw [readValue_bare hq]
    simp only [String.toList_ofList, Cursor.rest_skip]
    have hrun := run_takeWhile isBareChar c.rest
    rw [hrun.drop_eq]
    refine .bare hrun fun a ha => hq a ?_
    rw [List.head?_takeWhile] at ha
    exact (Option.mem_filter_iff.mp ha).1
  · push Not at hq
    obtain ⟨q, hmem, hq⟩ := hq
    obtain ⟨t, ht⟩ := List.head?_eq_some_iff.mp hmem
    have hq : isQuote q := by simpa using hq
    rw [readValue_quoted ht hq] at h ⊢
    have hclosed : (quotedRun q t).closed := by
      by_contra hcl
      simp [hcl] at h
    have hval := quoted_of_closed t hclosed
    simp only [String.toList_ofList, Cursor.rest_skip, ht, List.drop_succ_cons]
    exact .quoted hq hval

theorem readValue_complete {v r : List Char} (h : Value c.rest v r) :
    (readValue c).value = String.ofList v ∧ (readValue c).cursor.rest = r ∧
      (readValue c).faults = [] := by
  generalize ht : c.rest = t at h
  cases h with
  | quoted hq hv =>
    obtain ⟨hval, hrest, hclosed⟩ := quotedRun_of_quoted (ne_backslash_of_isQuote hq) hv
    rw [readValue_quoted ht hq]
    refine ⟨by rw [hval], ?_, by rw [if_pos hclosed]⟩
    simpa [ht] using hrest
  | bare hv hq =>
    have hhead := isQuote_head_of_bare hv hq
    rw [readValue_bare (by rw [ht]; exact hhead), ht, hv.takeWhile_eq]
    refine ⟨rfl, ?_, rfl⟩
    rw [Cursor.rest_skip, ht, hv.drop_eq]

@[simp] theorem cautions_readValue (c : Cursor) : (readValue c).cautions = [] := by
  unfold readValue
  split
  · split <;> rfl
  · rfl

/-! ### One attribute -/

theorem readAttribute_eq_none (h : ∀ a ∈ c.rest.head?, isAttributeChar a = false) :
    readAttribute c = none := by
  rw [readAttribute, takeWhile_of_stops h]
  rfl

/-- A name that no equals sign follows, behind blanks, is an attribute by itself. -/
theorem readAttribute_alone {n r : List Char} (hn : n ≠ [])
    (hrun : Run isAttributeChar c.rest n r) (hr : ∀ a ∈ (r.dropWhile isBlank).head?, a ≠ '=') :
    readAttribute c =
      some ⟨.ofWritten (String.ofList n) "", (c.skip n.length).skipBlanks, [], []⟩ := by
  have hbehind : (c.skip n.length).skipBlanks.rest = r.dropWhile isBlank := by
    rw [Cursor.rest_skipBlanks, Cursor.rest_skip, hrun.drop_eq]
  have hne : n.isEmpty = false := by simpa using hn
  simp only [readAttribute, hrun.takeWhile_eq, hne, Bool.false_eq_true, if_false]
  split
  · rename_i t ht
    rw [hbehind] at ht
    exact absurd rfl (hr '=' (by rw [ht]; rfl))
  · rfl

/-- A name that an equals sign follows has a value. -/
theorem readAttribute_valued {n t₁ t₂ : List Char} (hn : n ≠ [])
    (hrun : Run isAttributeChar c.rest n t₁) (hb : Blanks t₁ ('=' :: t₂)) :
    ∃ d : Cursor, d.rest = t₂.dropWhile isBlank ∧
      readAttribute c = some ⟨.ofWritten (String.ofList n) (readValue d).value,
        (readValue d).cursor, (readValue d).faults, []⟩ := by
  have hbehind : (c.skip n.length).skipBlanks.rest = '=' :: t₂ := by
    rw [Cursor.rest_skipBlanks, Cursor.rest_skip, hrun.drop_eq, blanks_iff.mp hb]
  have hne : n.isEmpty = false := by simpa using hn
  refine ⟨(c.skip n.length).skipBlanks.advance.skipBlanks, ?_, ?_⟩
  · rw [Cursor.rest_skipBlanks, Cursor.rest_advance, hbehind, List.drop_one, List.tail_cons]
  · simp only [readAttribute, hrun.takeWhile_eq, hne, Bool.false_eq_true, if_false, hbehind,
      cautions_readValue]

theorem readAttribute_sound {s : Scan Attribute} (h : readAttribute c = some s)
    (hs : s.faults = []) :
    ∃ r, Attr c.rest s.value r ∧ r.dropWhile isBlank = s.cursor.rest.dropWhile isBlank := by
  have hrun := run_takeWhile isAttributeChar c.rest
  have hn : c.rest.takeWhile isAttributeChar ≠ [] := by
    intro hnil
    rw [readAttribute, hnil] at h
    exact absurd h (by simp)
  -- whether there is a value is settled by what follows the name and its blanks
  by_cases heq : ∃ t₂, Blanks (c.rest.dropWhile isAttributeChar) ('=' :: t₂)
  · obtain ⟨t₂, hb⟩ := heq
    obtain ⟨d, hd, hread⟩ := readAttribute_valued hn hrun hb
    rw [h, Option.some.injEq] at hread
    subst hread
    have hval := readValue_sound hs
    rw [hd] at hval
    refine ⟨(readValue d).cursor.rest, ?_, rfl⟩
    have ha := Attr.valued hn hrun hb (blanks_dropWhile t₂) hval
    rwa [String.ofList_toList] at ha
  · have hr : ∀ a ∈ ((c.rest.dropWhile isAttributeChar).dropWhile isBlank).head?, a ≠ '=' := by
      rintro a ha rfl
      obtain ⟨t₂, ht₂⟩ := List.head?_eq_some_iff.mp ha
      exact heq ⟨t₂, blanks_iff.mpr ht₂⟩
    have hread := readAttribute_alone hn hrun hr
    rw [h, Option.some.injEq] at hread
    subst hread
    refine ⟨_, .alone hn hrun, ?_⟩
    rw [Cursor.rest_skipBlanks, Cursor.rest_skip, hrun.drop_eq, dropWhile_dropWhile]

theorem readAttribute_complete {a : Attribute} {r : List Char} (h : Attr c.rest a r)
    (hr : ∀ x ∈ (r.dropWhile isBlank).head?, x ≠ '=') :
    ∃ s, readAttribute c = some s ∧ s.value = a ∧ s.faults = [] ∧
      s.cursor.rest.dropWhile isBlank = r.dropWhile isBlank := by
  generalize ht : c.rest = t at h
  cases h with
  | alone hn hrun =>
    subst ht
    refine ⟨_, readAttribute_alone hn hrun hr, rfl, rfl, ?_⟩
    rw [Cursor.rest_skipBlanks, Cursor.rest_skip, hrun.drop_eq, dropWhile_dropWhile]
  | valued hn hrun hb hb' hv =>
    subst ht
    obtain ⟨d, hd, hread⟩ := readAttribute_valued hn hrun hb
    rw [← blanks_iff.mp hb', ← hd] at hv
    obtain ⟨hval, hrest, hfaults⟩ := readValue_complete hv
    exact ⟨_, hread, by rw [hval], hfaults, by rw [hrest]⟩

/-! ### The list of attributes -/

theorem readAttributes_none {tag : String} {seen : List String}
    (h : readAttribute c.skipBlanks = none) :
    readAttributes tag seen c = ⟨[], c.skipBlanks, [], []⟩ := by
  rw [readAttributes]
  split
  · rfl
  · rename_i s hs
    rw [h] at hs
    exact absurd hs (by simp)

theorem readAttributes_some {tag : String} {seen : List String} {s : Scan Attribute}
    (h : readAttribute c.skipBlanks = some s) :
    readAttributes tag seen c =
      ⟨s.value :: (readAttributes tag (s.value.key :: seen) s.cursor).value,
        (readAttributes tag (s.value.key :: seen) s.cursor).cursor,
        s.faults ++ (readAttributes tag (s.value.key :: seen) s.cursor).faults,
        duplicateCaution tag seen s ++
          (readAttributes tag (s.value.key :: seen) s.cursor).cautions⟩ := by
  rw [readAttributes]
  split
  · rename_i hs
    rw [h] at hs
    exact absurd hs (by simp)
  · rename_i s' hs
    rw [h, Option.some.injEq] at hs
    subst hs
    rfl

/-- **Attributes that are read without a fault are attributes of the grammar.** -/
theorem readAttributes_sound {tag : String} {seen : List String}
    (h : (readAttributes tag seen c).faults = []) :
    Attrs c.rest (readAttributes tag seen c).value (readAttributes tag seen c).cursor.rest := by
  fun_induction readAttributes tag seen c with
  | case1 seen c hnone =>
    refine .nil ?_
    rw [Cursor.rest_skipBlanks]
    exact blanks_dropWhile _
  | case2 seen c s hsome hlt more ih =>
    obtain ⟨hs, hmore⟩ := List.append_eq_nil_iff.mp h
    obtain ⟨r, ha, hr⟩ := readAttribute_sound hsome hs
    rw [Cursor.rest_skipBlanks] at ha
    exact .cons (blanks_dropWhile _) ha ((ih hmore).of_blanks hr.symm)

/-- What may follow the attributes: the end of the text, or a character that belongs to
none of them. -/
def EndsAttrs (r : List Char) : Prop :=
  ∀ a ∈ r.head?, isAttributeChar a = false ∧ a ≠ '='

theorem endsAttrs_close (r : List Char) : EndsAttrs ('>' :: r) := by
  intro a ha
  obtain rfl : '>' = a := by simpa using ha
  decide

theorem endsAttrs_slash (r : List Char) : EndsAttrs ('/' :: r) := by
  intro a ha
  obtain rfl : '/' = a := by simpa using ha
  decide

/-- No list of attributes begins with an equals sign. -/
theorem Grammar.Attrs.head_ne {t r : List Char} {as : List Attribute} (h : Attrs t as r)
    (hr : EndsAttrs r) : ∀ x ∈ (t.dropWhile isBlank).head?, x ≠ '=' := by
  intro x hx
  cases h with
  | nil hb =>
    rw [blanks_iff.mp hb] at hx
    exact (hr x hx).2
  | cons hb ha _ =>
    rw [blanks_iff.mp hb] at hx
    obtain ⟨y, t', rfl, hy⟩ := ha.head
    obtain rfl : y = x := by simpa using hx
    rintro rfl
    exact absurd hy (by decide)

/-- **Attributes of the grammar are read**, up to where they end. -/
theorem readAttributes_complete {t r : List Char} {as : List Attribute} (h : Attrs t as r)
    (hr : EndsAttrs r) (tag : String) (seen : List String) (c : Cursor)
    (hc : c.rest.dropWhile isBlank = t.dropWhile isBlank) :
    (readAttributes tag seen c).value = as ∧ (readAttributes tag seen c).cursor.rest = r ∧
      (readAttributes tag seen c).faults = [] := by
  induction h generalizing seen c with
  | @nil t r hb =>
    have hrest : c.skipBlanks.rest = r := by
      rw [Cursor.rest_skipBlanks, hc, blanks_iff.mp hb]
    rw [readAttributes_none (readAttribute_eq_none fun a ha => (hr a (hrest ▸ ha)).1)]
    exact ⟨rfl, hrest, rfl⟩
  | @cons t t₁ t₂ r a as hb ha has ih =>
    have hrest : c.skipBlanks.rest = t₁ := by
      rw [Cursor.rest_skipBlanks, hc, blanks_iff.mp hb]
    rw [← hrest] at ha
    -- the reader would take an equals sign behind the blanks for its own, so there must be none
    obtain ⟨s, hsome, rfl, hfaults, hcursor⟩ := readAttribute_complete ha (has.head_ne hr)
    obtain ⟨hval, hrest', hfaults'⟩ := ih hr (s.value.key :: seen) s.cursor hcursor
    rw [readAttributes_some hsome]
    exact ⟨by rw [hval], hrest', by rw [hfaults, hfaults', List.append_nil]⟩

end MiniTemplate
