import MiniTemplate.Proofs.Completion

/-!
# What stands before a tag

Where a reading has come to the beginning of a tag, it has seen nothing of the tag but its `<`. So
what it has read up to there is the same if another tag stands in the place of this one, or another
text that begins with `<`, and it is what would have been read if the text had ended there
(`MiniTemplate.readPiece_extended_of_stops`).

This is not so for every `<`: it may stand in a value or in a comment, which go on behind it. What
is asked is that the reading stops there, and it is enough to ask it of one text that begins with
`<`. Every reader that is called on the way has then stopped there or before. A quoted value that
has stopped has its closing quote, so the only faults on the way are those of tags.
-/

namespace MiniTemplate

open Text Cursor

/-! ### Runs that stop -/

/-- **A cursor that has stopped** at a `<` with `t` behind it, or before: the `<` is still ahead. -/
def Cursor.Stops (t : List Char) (c : Cursor) : Prop := t.length < c.rest.length

theorem Cursor.Leads.stops {t : List Char} {c d : Cursor} (h : Leads c d) (hd : d.Stops t) :
    c.Stops t := by
  obtain ⟨w, hw⟩ := h
  rw [Stops, hw.rest, List.length_append]
  exact Nat.lt_add_left _ hd

theorem Cursor.stops_extended (t : List Char) (c : Cursor) : (c.extended ('<' :: t)).Stops t := by
  rw [Stops, rest_extended, List.length_append, List.length_cons]
  omega

/-- A run that stops before a `<` is a run of what stands before it. -/
theorem takeWhile_append_of_stops {p : Char → Bool} {u t : List Char}
    (h : t.length < ((u ++ '<' :: t).dropWhile p).length) (t' : List Char) :
    (u ++ '<' :: t').takeWhile p = u.takeWhile p := by
  rw [List.takeWhile_append]
  split
  · rename_i hlen
    have hall : u.takeWhile p = u := (List.takeWhile_prefix p).eq_of_length hlen
    -- the whole of `u` is in the class, so the run has been stopped by the `<`
    have hlt : p '<' = false := by
      by_contra hp
      rw [List.dropWhile_append_of_pos (List.takeWhile_eq_self_iff.mp hall),
        List.dropWhile_cons_of_pos (by simpa using hp)] at h
      exact absurd (List.dropWhile_suffix p).length_le (Nat.not_le.mpr h)
    rw [List.takeWhile_cons_of_neg (by simp [hlt]), List.append_nil, hall]
  · rfl

theorem width_quotedRun_pos (q x : Char) (t : List Char) : 0 < (quotedRun q (x :: t)).width := by
  rw [quotedRun.eq_def]
  split
  · simp_all
  · exact Nat.one_pos
  · exact Nat.succ_pos _
  · split
    · exact Nat.one_pos
    · exact Nat.succ_pos _

/-- A quoted value that stops before the end of `cs` is closed there. -/
theorem quotedRun_append_of_le {q : Char} (hq : q ≠ '\\') {x : Char} {cs t : List Char}
    (h : (quotedRun q (cs ++ x :: t)).width ≤ cs.length) (t' : List Char) :
    quotedRun q (cs ++ t') = quotedRun q cs := by
  fun_induction quotedRun q cs with
  | case1 => exact absurd h (Nat.not_le.mpr (width_quotedRun_pos q x t))
  | case2 => exact absurd h (by simp [quotedRun_escape])
  | case3 c cs r ih =>
    rw [List.cons_append, List.cons_append, quotedRun_escape] at h ⊢
    rw [ih (by simpa using h)]
  | case4 cs => exact quotedRun_close hq (cs ++ t')
  | case5 c cs hlast hesc hc r ih =>
    have hb : c ≠ '\\' := by
      rintro rfl
      cases cs with
      | nil => exact hlast rfl rfl
      | cons d ds => exact hesc d ds rfl rfl
    rw [List.cons_append, quotedRun_plain hc hb] at h ⊢
    rw [ih (by simpa using h)]

/-! ### Cursors -/

section Readers

variable {c : Cursor} {t : List Char}

theorem skipWhile_extended_of_stops {p : Char → Bool}
    (h : ((c.extended ('<' :: t)).skipWhile p).Stops t) (t' : List Char) :
    (c.extended ('<' :: t')).skipWhile p = (c.skipWhile p).extended ('<' :: t') := by
  rw [Stops, rest_skipWhile, rest_extended] at h
  have hle := (List.takeWhile_prefix (l := c.rest) p).length_le
  rw [skipWhile, rest_extended, takeWhile_append_of_stops h, skip_extended hle]
  rfl

theorem skipBlanks_extended_of_stops (h : (c.extended ('<' :: t)).skipBlanks.Stops t)
    (t' : List Char) :
    (c.extended ('<' :: t')).skipBlanks = c.skipBlanks.extended ('<' :: t') :=
  skipWhile_extended_of_stops h t'

/-! ### Readers of attributes -/

theorem readValue_extended_of_stops (h : (readValue (c.extended ('<' :: t))).cursor.Stops t)
    (t' : List Char) :
    readValue (c.extended ('<' :: t')) = (readValue c).extended ('<' :: t') := by
  by_cases hq : ∀ q ∈ c.rest.head?, isQuote q = false
  · have hbare : ∀ t' q, q ∈ (c.extended ('<' :: t')).rest.head? → isQuote q = false := by
      intro t' q hmem
      cases hr : c.rest with
      | nil =>
        rw [rest_extended, hr] at hmem
        obtain rfl : '<' = q := by simpa using hmem
        decide
      | cons a r =>
        rw [rest_extended, hr] at hmem
        exact hq q (by rw [hr]; exact hmem)
    rw [readValue_bare (hbare t)] at h
    have hrun : t.length < ((c.rest ++ '<' :: t).dropWhile isBareChar).length := by
      rw [← (run_takeWhile isBareChar _).drop_eq]
      exact h
    have hle := (List.takeWhile_prefix (l := c.rest) isBareChar).length_le
    rw [readValue_bare (hbare t'), readValue_bare hq, rest_extended,
      takeWhile_append_of_stops hrun, skip_extended hle]
    rfl
  · push Not at hq
    obtain ⟨q, hmem, hq⟩ := hq
    obtain ⟨r, hr⟩ := List.head?_eq_some_iff.mp hmem
    have hq : isQuote q := by simpa using hq
    have hr' : ∀ s, (c.extended s).rest = q :: (r ++ s) := by
      intro s
      rw [rest_extended, hr, List.cons_append]
    rw [readValue_quoted (hr' _) hq, Stops, rest_skip, hr', List.drop_succ_cons, List.length_drop,
      List.length_append, List.length_cons] at h
    have hwidth : (quotedRun q (r ++ '<' :: t)).width ≤ r.length := by omega
    have hrun := quotedRun_append_of_le (ne_backslash_of_isQuote hq) hwidth
    have hle : (quotedRun q r).width + 1 ≤ c.rest.length := by
      rw [hr, List.length_cons, ← hrun ('<' :: t)]
      omega
    rw [readValue_quoted (hr' _) hq, readValue_quoted hr hq, hrun, skip_extended hle]
    rfl

theorem attributeEnd_extended_of_stops (h : (attributeEnd (c.extended ('<' :: t))).Stops t)
    (t' : List Char) :
    attributeEnd (c.extended ('<' :: t')) = (attributeEnd c).extended ('<' :: t') := by
  have hname := skipWhile_extended_of_stops ((leads_skipBlanks _).stops h)
  rw [attributeEnd, hname] at h
  rw [attributeEnd, hname, skipBlanks_extended_of_stops h]
  rfl

/-- The value behind the name of an attribute, if an equals sign follows. -/
def attributeValue (d : Cursor) : Scan String :=
  match d.rest with
  | '=' :: _ => readValue d.advance.skipBlanks
  | _ => ⟨"", d, [], []⟩

theorem attributeValue_of_equals {d : Cursor} {r : List Char} (h : d.rest = '=' :: r) :
    attributeValue d = readValue d.advance.skipBlanks := by
  simp only [attributeValue, h]

theorem attributeValue_of_none {d : Cursor} (h : ∀ r, d.rest ≠ '=' :: r) :
    attributeValue d = ⟨"", d, [], []⟩ := by
  rw [attributeValue]
  split
  · rename_i r hr
    exact absurd hr (h r)
  · rfl

theorem leads_attributeValue (d : Cursor) : Leads d (attributeValue d).cursor := by
  unfold attributeValue
  split
  · exact (leads_skip d 1).trans ((leads_skipBlanks _).trans (leads_readValue _))
  · exact .refl d

/-- An attribute is a name and what stands behind it. -/
theorem readAttribute_of_name (h : c.rest.takeWhile isAttributeChar ≠ []) :
    readAttribute c = some ⟨.ofWritten (String.ofList (c.rest.takeWhile isAttributeChar))
      (attributeValue (attributeEnd c)).value, (attributeValue (attributeEnd c)).cursor,
      (attributeValue (attributeEnd c)).faults, []⟩ := by
  rcases readAttribute_cases c with ⟨hn, -⟩ | ⟨-, r, hr, hc⟩ | ⟨-, hr, hc⟩
  · exact absurd hn h
  · rw [hc, attributeValue_of_equals hr]
  · rw [hc, attributeValue_of_none hr]

theorem readAttribute_of_nil (h : c.rest.takeWhile isAttributeChar = []) :
    readAttribute c = none := by
  rcases readAttribute_cases c with ⟨-, hc⟩ | ⟨hn, -⟩ | ⟨hn, -⟩
  · exact hc
  · exact absurd h hn
  · exact absurd h hn

/-- Any other character than the `<` that comes first stands before it. -/
theorem exists_cons_of_append {x : Char} (hx : x ≠ '<') {u t r : List Char}
    (h : u ++ '<' :: t = x :: r) : ∃ v, u = x :: v ∧ v ++ '<' :: t = r := by
  cases u with
  | nil => exact absurd (List.cons.inj h).1.symm hx
  | cons a v =>
    obtain ⟨rfl, hr⟩ := List.cons.inj h
    exact ⟨v, rfl, hr⟩

theorem attributeValue_extended_of_stops
    (h : (attributeValue (c.extended ('<' :: t))).cursor.Stops t) (t' : List Char) :
    attributeValue (c.extended ('<' :: t')) = (attributeValue c).extended ('<' :: t') := by
  by_cases heq : ∃ r, c.rest = '=' :: r
  · obtain ⟨r, hr⟩ := heq
    have hr' : ∀ s, (c.extended s).rest = '=' :: (r ++ s) := by
      intro s
      rw [rest_extended, hr, List.cons_append]
    have hadvance : ∀ s, (c.extended s).advance = c.advance.extended s := fun s =>
      skip_extended (by simp [hr]) s
    rw [attributeValue_of_equals (hr' _), hadvance] at h
    have hblanks := skipBlanks_extended_of_stops ((leads_readValue _).stops h)
    rw [hblanks] at h
    rw [attributeValue_of_equals (hr' _), attributeValue_of_equals hr, hadvance, hblanks,
      readValue_extended_of_stops h]
  · push Not at heq
    have heq' : ∀ r, (c.extended ('<' :: t')).rest ≠ '=' :: r := by
      intro r hr
      obtain ⟨v, hv, -⟩ := exists_cons_of_append (by decide) hr
      exact heq v hv
    rw [attributeValue_of_none heq, attributeValue_of_none heq']
    rfl

theorem readAttribute_extended_of_stops
    (h : ∀ s ∈ readAttribute (c.extended ('<' :: t)), s.cursor.Stops t) (t' : List Char) :
    readAttribute (c.extended ('<' :: t')) =
      (readAttribute c).map (Scan.extended ('<' :: t')) := by
  by_cases hn : (c.extended ('<' :: t)).rest.takeWhile isAttributeChar = []
  · have hstop : ((c.extended ('<' :: t)).skipWhile isAttributeChar).Stops t := by
      rw [skipWhile, hn, List.length_nil, skip_zero]
      exact stops_extended t c
    rw [Stops, rest_skipWhile, rest_extended] at hstop
    have hname := takeWhile_append_of_stops hstop
    rw [rest_extended, hname] at hn
    rw [readAttribute_of_nil hn, readAttribute_of_nil (by rw [rest_extended, hname, hn])]
    rfl
  · have hvalue := h _ (readAttribute_of_name hn)
    have hend := (leads_attributeValue _).stops hvalue
    have hcursor := attributeEnd_extended_of_stops hend
    have hstop := (leads_skipBlanks _).stops hend
    rw [Stops, rest_skipWhile, rest_extended] at hstop
    have hname := takeWhile_append_of_stops hstop
    rw [rest_extended, hname] at hn
    rw [hcursor] at hvalue
    rw [readAttribute_of_name hn, readAttribute_of_name (by rw [rest_extended, hname]; exact hn),
      rest_extended, hname, hcursor, attributeValue_extended_of_stops hvalue]
    rfl

theorem leads_skipBlanks_readAttributes (tag : String) (seen : List String) (c : Cursor) :
    Leads c.skipBlanks (readAttributes tag seen c).cursor := by
  cases h : readAttribute c.skipBlanks with
  | none =>
    rw [readAttributes_none h]
    exact .refl _
  | some s =>
    rw [readAttributes_some h]
    exact (leads_readAttribute h).trans (leads_readAttributes _ _ _)

/-- The first of some attributes that stop before a `<`. -/
theorem readAttribute_skipBlanks_of_stops {tag : String} {seen : List String}
    (h : (readAttributes tag seen (c.extended ('<' :: t))).cursor.Stops t) (t' : List Char) :
    (c.extended ('<' :: t')).skipBlanks = c.skipBlanks.extended ('<' :: t') ∧
      readAttribute (c.extended ('<' :: t')).skipBlanks =
        (readAttribute c.skipBlanks).map (Scan.extended ('<' :: t')) := by
  have hblanks :=
    skipBlanks_extended_of_stops ((leads_skipBlanks_readAttributes tag seen _).stops h)
  refine ⟨hblanks t', ?_⟩
  rw [hblanks t']
  refine readAttribute_extended_of_stops (t := t) (fun s hs => ?_) t'
  rw [← hblanks t] at hs
  rw [readAttributes_some hs] at h
  exact (leads_readAttributes _ _ _).stops h

theorem readAttributes_extended_of_stops {tag : String} {seen : List String}
    (h : (readAttributes tag seen (c.extended ('<' :: t))).cursor.Stops t) (t' : List Char) :
    readAttributes tag seen (c.extended ('<' :: t')) =
      (readAttributes tag seen c).extended ('<' :: t') := by
  have hfirst := fun t' => readAttribute_skipBlanks_of_stops h t'
  fun_induction readAttributes tag seen c with
  | case1 seen c hnone =>
    obtain ⟨hblanks, hread⟩ := hfirst t'
    rw [hnone] at hread
    rw [readAttributes_none (by exact hread), hblanks]
    rfl
  | case2 seen c s hsome hlt more ih =>
    have hread : ∀ t', readAttribute (c.extended ('<' :: t')).skipBlanks =
        some (s.extended ('<' :: t')) := by
      intro t'
      rw [(hfirst t').2, hsome]
      rfl
    rw [readAttributes_some (hread t)] at h
    have hmore := ih h fun t' => readAttribute_skipBlanks_of_stops h t'
    rw [readAttributes_some (hread t')]
    simp only [Scan.extended] at hmore ⊢
    rw [hmore]
    rfl

/-! ### Readers of pieces -/

theorem rest_extended_of_cons {x : Char} {r : List Char} (hc : c.rest = x :: r) (s : List Char) :
    (c.extended s).rest = x :: (r ++ s) := by
  rw [rest_extended, hc, List.cons_append]

/-- The name of a tag that stops before a `<`. -/
theorem tagName_extended_of_stops {r : List Char} (hc : c.rest = '<' :: r)
    (h : ((c.extended ('<' :: t)).skip (1 + (tagName (c.extended ('<' :: t))).length)).Stops t)
    (t' : List Char) : tagName (c.extended ('<' :: t')) = tagName c := by
  have hrun := run_tagName (rest_extended_of_cons hc ('<' :: t))
  rw [Stops, ← hrun.dropWhile_eq] at h
  rw [tagName, rest_extended_of_cons hc, List.drop_succ_cons, List.drop_zero,
    takeWhile_append_of_stops h, tagName, hc, List.drop_succ_cons, List.drop_zero]

theorem tagAttributes_extended_of_stops {r : List Char} (hc : c.rest = '<' :: r)
    (h : (tagAttributes (c.extended ('<' :: t))).cursor.Stops t) (t' : List Char) :
    tagName (c.extended ('<' :: t')) = tagName c ∧
      tagAttributes (c.extended ('<' :: t')) = (tagAttributes c).extended ('<' :: t') := by
  have hname := tagName_extended_of_stops hc ((leads_readAttributes _ _ _).stops h)
  have hle : 1 + (tagName c).length ≤ c.rest.length := by
    have hrun := congrArg List.length (run_tagName hc).split
    rw [List.length_append] at hrun
    rw [hc, List.length_cons]
    omega
  rw [tagAttributes, hname, skip_extended hle] at h
  refine ⟨hname t', ?_⟩
  rw [tagAttributes, hname, skip_extended hle, readAttributes_extended_of_stops h]
  rfl

theorem readTag_of_nil (hn : tagName c = []) :
    readTag c = ⟨none, c.advance, [⟨c.advance.position, .missingTagName⟩], []⟩ := by
  rcases readTag_cases c with ⟨-, h⟩ | ⟨hne, -⟩ | ⟨hne, -⟩ | ⟨hne, -⟩
  · exact h
  all_goals exact absurd hn hne

theorem readTag_of_missing (hn : tagName c ≠ [])
    (hslash : ∀ r, (tagAttributes c).cursor.rest ≠ '/' :: '>' :: r)
    (hgt : ∀ r, (tagAttributes c).cursor.rest ≠ '>' :: r) :
    readTag c = ⟨none, (tagAttributes c).cursor,
      (tagAttributes c).faults ++ [⟨(tagAttributes c).cursor.position, .missingTagEnd⟩],
      (tagAttributes c).cautions⟩ := by
  rcases readTag_cases c with ⟨hnil, -⟩ | ⟨-, r, hr, -⟩ | ⟨-, r, hr, -⟩ | ⟨-, -, -, h⟩
  · exact absurd hnil hn
  · exact absurd hr (hslash r)
  · exact absurd hr (hgt r)
  · exact h

/-- The attributes of a tag are not behind the tag. -/
theorem leads_tagAttributes_readTag (hn : tagName c ≠ []) :
    Leads (tagAttributes c).cursor (readTag c).cursor := by
  rcases readTag_cases c with ⟨hnil, -⟩ | ⟨-, r, -, h⟩ | ⟨-, r, -, h⟩ | ⟨-, -, -, h⟩
  · exact absurd hnil hn
  · rw [h]
    exact leads_skip _ 2
  · rw [h]
    exact leads_skip _ 1
  · rw [h]
    exact .refl _

theorem readTag_extended_of_stops {r : List Char} (hc : c.rest = '<' :: r)
    (h : (readTag (c.extended ('<' :: t))).cursor.Stops t) (t' : List Char) :
    readTag (c.extended ('<' :: t')) = (readTag c).extended ('<' :: t') := by
  have hpos : 1 ≤ c.rest.length := by simp [hc]
  by_cases hn : tagName (c.extended ('<' :: t)) = []
  · rw [readTag_of_nil hn] at h
    have hname := tagName_extended_of_stops hc (t := t) (by rw [hn]; exact h)
    rw [hname] at hn
    rw [readTag_of_nil hn, readTag_of_nil ((hname t').trans hn), advance, skip_extended hpos]
    rfl
  · have hstop := (leads_tagAttributes_readTag hn).stops h
    have hattrs := fun t' => tagAttributes_extended_of_stops hc hstop t'
    rw [(hattrs t).1] at hn
    have hn' : tagName (c.extended ('<' :: t')) ≠ [] := by rwa [(hattrs t').1]
    have hrest : (tagAttributes (c.extended ('<' :: t'))).cursor.rest =
        (tagAttributes c).cursor.rest ++ '<' :: t' := by
      rw [(hattrs t').2]
      rfl
    rcases readTag_cases c with ⟨hnil, -⟩ | ⟨-, r, hr, htag⟩ | ⟨-, r, hr, htag⟩ |
      ⟨-, hslash, hgt, htag⟩
    · exact absurd hnil hn
    · rw [hr] at hrest
      rw [readTag_of_selfClosing hn' hrest, htag, (hattrs t').1, (hattrs t').2]
      simp only [Scan.extended]
      rw [skip_extended (by simp [hr])]
      rfl
    · rw [hr] at hrest
      rw [readTag_of_opening hn' hrest, htag, (hattrs t').1, (hattrs t').2]
      simp only [Scan.extended]
      rw [advance, skip_extended (by simp [hr])]
      rfl
    · -- a slash at the very end is followed by the `<`, which does not end the tag
      have hslash' : ∀ r,
          (tagAttributes (c.extended ('<' :: t'))).cursor.rest ≠ '/' :: '>' :: r := by
        intro r hr
        obtain ⟨v, hv, hr⟩ := exists_cons_of_append (by decide) (hrest.symm.trans hr)
        obtain ⟨w, rfl, -⟩ := exists_cons_of_append (by decide) hr
        exact hslash w hv
      have hgt' : ∀ r, (tagAttributes (c.extended ('<' :: t'))).cursor.rest ≠ '>' :: r := by
        intro r hr
        obtain ⟨v, hv, -⟩ := exists_cons_of_append (by decide) (hrest.symm.trans hr)
        exact hgt v hv
      rw [readTag_of_missing hn' hslash' hgt', htag, (hattrs t').2]
      rfl

theorem leads_closingEnd_readClosing (c : Cursor) :
    Leads (closingEnd c) (readClosing c).cursor := by
  rcases readClosing_cases c with ⟨r, -, h⟩ | ⟨-, h⟩
  · rw [h]
    exact leads_skip _ 1
  · rw [h]
    exact .refl _

/-- The name of a closing tag that stops before a `<`, and what follows it. -/
theorem closingEnd_extended_of_stops {r : List Char} (hc : c.rest = '<' :: '/' :: r)
    (h : (closingEnd (c.extended ('<' :: t))).Stops t) (t' : List Char) :
    ((c.extended ('<' :: t')).rest.drop 2).takeWhile isTagChar =
        (c.rest.drop 2).takeWhile isTagChar ∧
      closingEnd (c.extended ('<' :: t')) = (closingEnd c).extended ('<' :: t') := by
  have hdrop : ∀ s, (c.extended s).rest.drop 2 = r ++ s := by
    intro s
    rw [rest_extended, hc]
    rfl
  have hstop := (leads_skipBlanks _).stops h
  rw [Stops, rest_skip, ← List.drop_drop, hdrop, (run_takeWhile isTagChar _).drop_eq] at hstop
  have hname : ∀ t', ((c.extended ('<' :: t')).rest.drop 2).takeWhile isTagChar =
      (c.rest.drop 2).takeWhile isTagChar := by
    intro t'
    rw [hdrop, takeWhile_append_of_stops hstop, hc]
    rfl
  have hle : 2 + ((c.rest.drop 2).takeWhile isTagChar).length ≤ c.rest.length := by
    have hrun := (List.takeWhile_prefix (l := r) isTagChar).length_le
    rw [hc, List.length_cons, List.length_cons, List.drop_succ_cons, List.drop_succ_cons,
      List.drop_zero]
    omega
  rw [closingEnd, hname, skip_extended hle] at h
  refine ⟨hname t', ?_⟩
  rw [closingEnd, hname, skip_extended hle, skipBlanks_extended_of_stops h]
  rfl

theorem readClosing_extended_of_stops {r : List Char} (hc : c.rest = '<' :: '/' :: r)
    (h : (readClosing (c.extended ('<' :: t))).cursor.Stops t) (t' : List Char) :
    readClosing (c.extended ('<' :: t')) = (readClosing c).extended ('<' :: t') := by
  obtain ⟨hname, hend⟩ :=
    closingEnd_extended_of_stops hc ((leads_closingEnd_readClosing _).stops h) t'
  rcases readClosing_cases c with ⟨r, hr, hcl⟩ | ⟨hgt, hcl⟩
  · rcases readClosing_cases (c.extended ('<' :: t')) with ⟨r', -, hcl'⟩ | ⟨hgt', -⟩
    · rw [hcl', hcl, hname, hend, advance, skip_extended (by simp [hr])]
      rfl
    · rw [hend] at hgt'
      exact absurd (rest_extended_of_cons hr _) (hgt' _)
  · rcases readClosing_cases (c.extended ('<' :: t')) with ⟨r', hr', -⟩ | ⟨-, hcl'⟩
    · rw [hend] at hr'
      obtain ⟨v, hv, -⟩ := exists_cons_of_append (by decide) hr'
      exact absurd hv (hgt v)
    · rw [hcl', hcl, hname, hend]
      rfl

/-- A comment that stops before a `<` has its closing mark. -/
theorem readComment_extended_of_stops {r : List Char}
    (hc : c.rest = '<' :: '!' :: '-' :: '-' :: r)
    (h : (readComment (c.extended ('<' :: t))).cursor.Stops t) (t' : List Char) :
    readComment (c.extended ('<' :: t')) = (readComment c).extended ('<' :: t') := by
  have hc' : (c.extended ('<' :: t)).rest = '<' :: '!' :: '-' :: '-' :: (r ++ '<' :: t) := by
    rw [rest_extended, hc]
    rfl
  refine readComment_extended_of_mark hc ?_ _
  obtain ⟨w, -, ⟨x, hx, hcm⟩ | ⟨rfl, hcm⟩⟩ := readComment_cases hc'
  · have hmark : w ++ "-->".toList <+: r := by
      refine List.prefix_of_prefix_length_le ⟨x, hx.symm⟩ (List.prefix_append r _) ?_
      have hlen := congrArg List.length hx
      have hthree : "-->".toList.length = 3 := rfl
      rw [hcm, Stops, rest_skip, List.length_drop, hc'] at h
      simp only [List.length_append, List.length_cons] at h hlen ⊢
      omega
    exact (List.suffix_append w _).isInfix.trans hmark.isInfix
  · -- without a mark it goes on to the end
    rw [hcm, Stops, rest_skip, List.length_drop, hc'] at h
    simp only [List.length_append, List.length_cons] at h
    omega

/-- **A piece that stops before a `<`** is the same whatever follows the `<`, and also where the
text ends there. -/
theorem readPiece_extended_of_stops (h : (readPiece (c.extended ('<' :: t))).cursor.Stops t)
    (t' : List Char) :
    readPiece (c.extended ('<' :: t')) = (readPiece c).extended ('<' :: t') := by
  obtain ⟨a, r, hc⟩ : ∃ a r, c.rest = a :: r := by
    refine List.exists_cons_of_ne_nil fun hnil => ?_
    -- every reader passes a character, and here it would be the `<`
    have hlt := length_rest_readPiece_lt (c := c.extended ('<' :: t)) (by simp)
    rw [rest_extended, hnil, List.nil_append, List.length_cons] at hlt
    exact absurd h (Nat.not_lt.mpr (Nat.lt_succ_iff.mp hlt))
  have hc' := rest_extended_of_cons hc
  by_cases ha : a = '<'
  · subst ha
    by_cases hslash : ∃ r', r = '/' :: r'
    · obtain ⟨r', rfl⟩ := hslash
      rw [readPiece_of_closing (hc' _)] at h
      rw [readPiece_of_closing hc, readPiece_of_closing (hc' _),
        readClosing_extended_of_stops hc h]
    by_cases hbang : ∃ r', r = '!' :: '-' :: '-' :: r'
    · obtain ⟨r', rfl⟩ := hbang
      rw [readPiece_of_comment (hc' _)] at h
      rw [readPiece_of_comment hc, readPiece_of_comment (hc' _),
        readComment_extended_of_stops hc h]
    push Not at hslash hbang
    have hslash' : ∀ t r', r ++ '<' :: t ≠ '/' :: r' := by
      intro t r' hr
      obtain ⟨v, hv, -⟩ := exists_cons_of_append (by decide) hr
      exact hslash v hv
    have hbang' : ∀ t r', r ++ '<' :: t ≠ '!' :: '-' :: '-' :: r' := by
      intro t r' hr
      obtain ⟨v, hv, hv'⟩ := exists_cons_of_append (by decide) hr
      obtain ⟨w, hw, hw'⟩ := exists_cons_of_append (by decide) hv'
      obtain ⟨x, hx, -⟩ := exists_cons_of_append (by decide) hw'
      exact hbang x (by rw [hv, hw, hx])
    rw [readPiece_of_tag (hc' _) (hslash' t) (hbang' t)] at h
    rw [readPiece_of_tag hc hslash hbang, readPiece_of_tag (hc' _) (hslash' t') (hbang' t'),
      readTag_extended_of_stops hc h]
  · have htext : ∀ d : Cursor, ∀ r, d.rest = a :: r → ∀ s, d.rest ≠ '<' :: s := by
      intro d r hd s hs
      exact ha (List.cons.inj (hd.symm.trans hs)).1
    rw [readPiece_of_text (htext c _ hc), readPiece_of_text (htext _ _ (hc' _)),
      readText_extended_of_opens (by simp)]

end Readers

/-! ### States -/

namespace Progress

variable {limit : Int} {p : Progress} {t : List Char}

/-- A step that stops before the end of the text has not found an element nested too deep. -/
theorem length_lt_of_stops {q : Progress} (h : (q.step limit).cursor.Stops t) {name : String}
    {as : List Attribute} {start : Position}
    (hv : (readPiece q.cursor).value = some (.opening name as start)) :
    (q.frames.length : Int) < limit := by
  by_contra hlt
  rw [step_opening hv, openElement, if_pos (by exact Int.not_lt.mp hlt), Stops] at h
  exact absurd h (by simp)

/-- **A step that stops before a `<`** is the same whatever follows the `<`. -/
theorem step_extended_of_stops (h : ((p.extended ('<' :: t)).step limit).cursor.Stops t)
    (t' : List Char) :
    (p.extended ('<' :: t')).step limit = (p.step limit).extended ('<' :: t') := by
  have hread := readPiece_extended_of_stops ((leads_readPiece_step limit _).stops h)
  refine step_extended_of_room (fun name as start hv => ?_) (hread t')
  have hv' : (readPiece (p.extended ('<' :: t)).cursor).value = some (.opening name as start) :=
    (congrArg Scan.value (hread t)).trans hv
  exact length_lt_of_stops (q := p.extended ('<' :: t)) h hv'

theorem skipBlanks_extended_of_stops (h : (p.extended ('<' :: t)).skipBlanks.cursor.Stops t)
    (t' : List Char) :
    (p.extended ('<' :: t')).skipBlanks = p.skipBlanks.extended ('<' :: t') := by
  unfold skipBlanks extended
  rw [MiniTemplate.skipBlanks_extended_of_stops h]

/-- **A reading that has come to a `<`** comes there whatever follows the `<`, and in the same
state. -/
theorem Reaches.extended_of_stops {q : Progress}
    (h : Reaches limit (p.extended ('<' :: t)) q) (hq : q.cursor.Stops t) :
    ∃ q' : Progress, q = q'.extended ('<' :: t) ∧
      ∀ t', Reaches limit (p.extended ('<' :: t')) (q'.extended ('<' :: t')) := by
  generalize hp : p.extended ('<' :: t) = p₁ at h
  induction h generalizing p with
  | refl => exact ⟨p, hp.symm, fun t' => .refl _⟩
  | step hrest hreach ih =>
    subst hp
    have hstop := hreach.leads.stops hq
    have hblanks := skipBlanks_extended_of_stops ((leads_step limit _).stops hstop)
    rw [hblanks] at hstop
    have hstep := step_extended_of_stops hstop
    obtain ⟨q', hq', hreaches⟩ := ih hq (by rw [hblanks, hstep])
    refine ⟨q', hq', fun t' => .step ?_ ?_⟩
    · rw [hblanks]
      exact List.append_ne_nil_of_right_ne_nil _ (by simp)
    · rw [hblanks, hstep]
      exact hreaches t'

end Progress

end MiniTemplate
