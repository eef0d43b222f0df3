import MiniTemplate.Proofs.Reading

/-!
# What is read before the end does not depend on what follows

A reader stops at a character that it does not take, or at one that ends what it reads. If it
has stopped in front of some character, it has seen all that made it stop, and it does the same
when the text goes on behind that (`MiniTemplate.readAttributes_extended`). If it has come to the
end of the text, it may be that only the end made it stop: a text or a comment at the end would
have gone on. A tag that was read without a fault would not, since its `>` was there
(`MiniTemplate.readPiece_extended`), and a text would not if a `<` comes next. A step of a reading
only puts such a piece in its place, so what holds of all pieces of a reading holds of the
reading (`MiniTemplate.Progress.run_extended_of`).
-/

namespace MiniTemplate

open Text

/-! ### Runs -/

theorem Text.Run.extended {p : Char → Bool} {s w r : List Char} (h : Run p s w r) (hr : r ≠ [])
    (t : List Char) : Run p (s ++ t) w (r ++ t) where
  split := by rw [h.split, List.append_assoc]
  all := h.all
  stops := by
    obtain ⟨c, r, rfl⟩ := List.exists_cons_of_ne_nil hr
    exact h.stops

/-- A quoted value that ends before the end of the text. -/
theorem quotedRun_append {q : Char} (hq : q ≠ '\\') {cs : List Char}
    (h : (quotedRun q cs).width < cs.length) (t : List Char) :
    quotedRun q (cs ++ t) = quotedRun q cs := by
  fun_induction quotedRun q cs with
  | case1 => exact absurd h (by simp)
  | case2 => exact absurd h (by simp)
  | case3 c cs r ih =>
    have hlt : r.width < cs.length := by simpa using h
    rw [List.cons_append, List.cons_append, quotedRun_escape, ih hlt]
  | case4 cs => exact quotedRun_close hq (cs ++ t)
  | case5 c cs hlast hesc hc r ih =>
    have hlt : r.width < cs.length := by simpa using h
    -- a backslash is one of the cases before this one, alone or with a character behind it
    have hb : c ≠ '\\' := by
      rintro rfl
      cases cs with
      | nil => exact hlast rfl rfl
      | cons d ds => exact hesc d ds rfl rfl
    rw [List.cons_append, quotedRun_plain hc hb, ih hlt]

/-! ### Cursors -/

namespace Cursor

variable {c d : Cursor}

/-- The cursor when the text goes on with `t`. -/
def extended (t : List Char) (c : Cursor) : Cursor := ⟨c.passed, c.rest ++ t, c.position⟩

@[simp] theorem rest_extended (t : List Char) (c : Cursor) :
    (c.extended t).rest = c.rest ++ t := rfl

theorem skip_extended {n : Nat} (h : n ≤ c.rest.length) (t : List Char) :
    (c.extended t).skip n = (c.skip n).extended t := by
  simp only [skip, extended, List.take_append_of_le_length h, List.drop_append_of_le_length h]

/-- Passing the characters of a class, where it stops before the end. -/
theorem skipWhile_extended {p : Char → Bool} (h : (c.skipWhile p).rest ≠ []) (t : List Char) :
    (c.extended t).skipWhile p = (c.skipWhile p).extended t := by
  rw [rest_skipWhile] at h
  have hrun := (run_takeWhile p c.rest).extended h t
  have hle := (List.takeWhile_prefix (l := c.rest) p).length_le
  rw [skipWhile, rest_extended, hrun.takeWhile_eq, skip_extended hle]
  rfl

theorem skipBlanks_extended (h : c.skipBlanks.rest ≠ []) (t : List Char) :
    (c.extended t).skipBlanks = c.skipBlanks.extended t :=
  skipWhile_extended h t

/-- Blanks at the end of a text and at the beginning of the next are passed together. -/
theorem skipBlanks_extended_skipBlanks (t : List Char) (c : Cursor) :
    (c.skipBlanks.extended t).skipBlanks = (c.extended t).skipBlanks := by
  have hrun := run_takeWhile isBlank c.rest
  have hle := (List.takeWhile_prefix (l := c.rest) isBlank).length_le
  have hskip : c.skipBlanks.extended t = (c.extended t).skip (c.rest.takeWhile isBlank).length :=
    (skip_extended hle t).symm
  have htake : (c.rest ++ t).takeWhile isBlank =
      c.rest.takeWhile isBlank ++ (c.rest.dropWhile isBlank ++ t).takeWhile isBlank := by
    conv_lhs => rw [hrun.split, List.append_assoc, List.takeWhile_append_of_pos hrun.all]
  have hrest : ((c.extended t).skip (c.rest.takeWhile isBlank).length).rest =
      c.rest.dropWhile isBlank ++ t := by
    rw [rest_skip, rest_extended, List.drop_append_of_le_length hle, hrun.drop_eq]
  rw [hskip, skipBlanks, skipWhile, hrest, skip_skip, skipBlanks, skipWhile, rest_extended, htake,
    List.length_append]

theorem Leads.rest_ne_nil (h : Leads c d) (hd : d.rest ≠ []) : c.rest ≠ [] := by
  obtain ⟨w, hw⟩ := h
  rw [hw.rest]
  exact fun hnil => hd (List.append_eq_nil_iff.mp hnil).2

end Cursor

/-! ### Readers of attributes -/

/-- What a reader gives when the text goes on with `t`. -/
def Scan.extended {α : Type} (t : List Char) (s : Scan α) : Scan α :=
  { s with cursor := s.cursor.extended t }

section Attributes

open Cursor

variable {c : Cursor}

theorem readValue_extended (h : (readValue c).cursor.rest ≠ []) (t : List Char) :
    readValue (c.extended t) = (readValue c).extended t := by
  have hne : c.rest ≠ [] := (leads_readValue c).rest_ne_nil h
  obtain ⟨q, r, hqr⟩ := List.exists_cons_of_ne_nil hne
  have hqr' : (c.extended t).rest = q :: (r ++ t) := by rw [rest_extended, hqr, List.cons_append]
  by_cases hq : isQuote q
  · rw [readValue_quoted hqr hq] at h ⊢
    have hlt : (quotedRun q r).width < r.length := by
      rw [rest_skip, hqr, List.drop_succ_cons] at h
      exact Nat.lt_of_not_le fun hle => h (List.drop_eq_nil_of_le hle)
    have hle : (quotedRun q r).width + 1 ≤ c.rest.length := by
      rw [hqr, List.length_cons]
      omega
    rw [readValue_quoted hqr' hq, quotedRun_append (ne_backslash_of_isQuote hq) hlt,
      skip_extended hle]
    rfl
  · have hq' : isQuote q = false := by simpa using hq
    have hbare : ∀ x ∈ c.rest.head?, isQuote x = false := by
      rw [hqr]
      exact stops_cons hq' r
    have hbare' : ∀ x ∈ (c.extended t).rest.head?, isQuote x = false := by
      rw [hqr']
      exact stops_cons hq' (r ++ t)
    rw [readValue_bare hbare] at h ⊢
    have hskip : (c.extended t).skipWhile isBareChar = (c.skipWhile isBareChar).extended t :=
      skipWhile_extended h t
    rw [rest_skip, (run_takeWhile isBareChar c.rest).drop_eq] at h
    have hrun := (run_takeWhile isBareChar c.rest).extended h t
    rw [readValue_bare hbare', rest_extended, hrun.takeWhile_eq]
    rw [skipWhile, rest_extended, hrun.takeWhile_eq] at hskip
    rw [hskip]
    rfl

/-- The cursor behind the name of an attribute and the blanks there. -/
def attributeEnd (c : Cursor) : Cursor := (c.skipWhile isAttributeChar).skipBlanks

/-- **What reading an attribute can do**: there is no name; or an equals sign and a value follow
it; or they do not. -/
theorem readAttribute_cases (c : Cursor) :
    (c.rest.takeWhile isAttributeChar = [] ∧ readAttribute c = none) ∨
    (c.rest.takeWhile isAttributeChar ≠ [] ∧ ∃ r, (attributeEnd c).rest = '=' :: r ∧
      readAttribute c = some ⟨.ofWritten (String.ofList (c.rest.takeWhile isAttributeChar))
        (readValue (attributeEnd c).advance.skipBlanks).value,
        (readValue (attributeEnd c).advance.skipBlanks).cursor,
        (readValue (attributeEnd c).advance.skipBlanks).faults, []⟩) ∨
    (c.rest.takeWhile isAttributeChar ≠ [] ∧ (∀ r, (attributeEnd c).rest ≠ '=' :: r) ∧
      readAttribute c = some ⟨.ofWritten (String.ofList (c.rest.takeWhile isAttributeChar)) "",
        attributeEnd c, [], []⟩) := by
  by_cases hn : c.rest.takeWhile isAttributeChar = []
  · refine Or.inl ⟨hn, ?_⟩
    simp only [readAttribute, hn, List.isEmpty_nil, if_true]
  · have hne : (c.rest.takeWhile isAttributeChar).isEmpty = false := by simpa using hn
    refine Or.inr ?_
    simp only [readAttribute, hne, Bool.false_eq_true, if_false]
    split
    · rename_i r hr
      refine Or.inl ⟨hn, r, hr, ?_⟩
      rw [cautions_readValue]
      rfl
    · rename_i hr
      exact Or.inr ⟨hn, hr, rfl⟩

theorem attributeEnd_extended (h : (attributeEnd c).rest ≠ []) (t : List Char) :
    attributeEnd (c.extended t) = (attributeEnd c).extended t := by
  have hname : (c.skipWhile isAttributeChar).rest ≠ [] := (leads_skipBlanks _).rest_ne_nil h
  rw [attributeEnd, skipWhile_extended hname, skipBlanks_extended h]
  rfl

theorem readAttribute_extended {s : Scan Attribute} (hs : readAttribute c = some s)
    (h : s.cursor.rest ≠ []) (t : List Char) :
    readAttribute (c.extended t) = some (s.extended t) := by
  -- the end of the name comes before the end of the value, so it is not the end of the text
  have hend : (attributeEnd c).rest ≠ [] := by
    rcases readAttribute_cases c with ⟨-, hc⟩ | ⟨-, r, hr, -⟩ | ⟨-, -, hc⟩
    · exact absurd (hs.symm.trans hc) (by simp)
    · simp [hr]
    · obtain rfl := Option.some.inj (hs.symm.trans hc)
      exact h
  have hname : (c.rest ++ t).takeWhile isAttributeChar = c.rest.takeWhile isAttributeChar := by
    have hstop : (c.skipWhile isAttributeChar).rest ≠ [] := (leads_skipBlanks _).rest_ne_nil hend
    rw [rest_skipWhile] at hstop
    exact ((run_takeWhile isAttributeChar c.rest).extended hstop t).takeWhile_eq
  have hend' := attributeEnd_extended hend t
  have hadvance : (attributeEnd (c.extended t)).advance = (attributeEnd c).advance.extended t := by
    rw [hend', advance, skip_extended (List.length_pos_iff.mpr hend)]
    rfl
  rcases readAttribute_cases c with ⟨-, hc⟩ | ⟨hn, r, hr, hc⟩ | ⟨hn, hr, hc⟩
  · exact absurd (hs.symm.trans hc) (by simp)
  · obtain rfl := Option.some.inj (hs.symm.trans hc)
    have hblanks : (attributeEnd c).advance.skipBlanks.rest ≠ [] :=
      (leads_readValue _).rest_ne_nil h
    rcases readAttribute_cases (c.extended t) with ⟨hn', -⟩ | ⟨-, r', -, hc'⟩ | ⟨-, hr', -⟩
    · exact absurd (hname.symm.trans hn') hn
    · rw [hc', rest_extended, hname, hadvance, skipBlanks_extended hblanks, readValue_extended h]
      rfl
    · refine absurd ?_ (hr' (r ++ t))
      rw [hend', rest_extended, hr, List.cons_append]
  · obtain rfl := Option.some.inj (hs.symm.trans hc)
    rcases readAttribute_cases (c.extended t) with ⟨hn', -⟩ | ⟨-, r', hr', -⟩ | ⟨-, -, hc'⟩
    · exact absurd (hname.symm.trans hn') hn
    · obtain ⟨x, r, hx⟩ := List.exists_cons_of_ne_nil h
      rw [hend', rest_extended, hx, List.cons_append] at hr'
      obtain ⟨rfl, -⟩ := List.cons.inj hr'
      exact absurd hx (hr r)
    · rw [hc', rest_extended, hname, hend']
      rfl

/-- **The attributes of a tag**, where they end before the end of the text. -/
theorem readAttributes_extended (tag : String) (seen : List String)
    (h : (readAttributes tag seen c).cursor.rest ≠ []) (t : List Char) :
    readAttributes tag seen (c.extended t) = (readAttributes tag seen c).extended t := by
  fun_induction readAttributes tag seen c with
  | case1 seen c hnone =>
    have hblanks := skipBlanks_extended h t
    have hread : readAttribute (c.extended t).skipBlanks = none := by
      rw [hblanks]
      refine readAttribute_eq_none fun a ha => ?_
      obtain ⟨x, r, hx⟩ := List.exists_cons_of_ne_nil h
      rw [rest_extended, hx] at ha
      obtain rfl : x = a := by simpa using ha
      -- a name character here would have been the beginning of a name
      by_contra hattr
      rcases readAttribute_cases c.skipBlanks with ⟨hn, -⟩ | ⟨-, r, -, hc⟩ | ⟨-, -, hc⟩
      · rw [hx, List.takeWhile_cons_of_pos (by simpa using hattr)] at hn
        exact absurd hn (by simp)
      · exact absurd (hnone.symm.trans hc) (by simp)
      · exact absurd (hnone.symm.trans hc) (by simp)
    rw [readAttributes_none hread, hblanks]
    rfl
  | case2 seen c s hsome hlt more ih =>
    have hcursor : s.cursor.rest ≠ [] := (leads_readAttributes tag _ _).rest_ne_nil h
    have hblanks : c.skipBlanks.rest ≠ [] := (leads_readAttribute hsome).rest_ne_nil hcursor
    have hread : readAttribute (c.extended t).skipBlanks = some (s.extended t) := by
      rw [skipBlanks_extended hblanks]
      exact readAttribute_extended hsome hcursor t
    have hmore := ih h
    rw [readAttributes_some hread]
    simp only [Scan.extended] at hmore ⊢
    rw [hmore]
    rfl

end Attributes

/-! ### Readers of pieces -/

section Pieces

open Cursor

variable {c : Cursor}

theorem readTag_of_selfClosing {r : List Char} (hn : tagName c ≠ [])
    (hr : (tagAttributes c).cursor.rest = '/' :: '>' :: r) :
    readTag c = ⟨some (.leaf (.element (String.ofList (tagName c)) (tagAttributes c).value [] true
        (some (c.position.spanTo ((tagAttributes c).cursor.skip 2).position.offset)))),
      (tagAttributes c).cursor.skip 2, (tagAttributes c).faults, (tagAttributes c).cautions⟩ := by
  rcases readTag_cases c with ⟨hnil, -⟩ | ⟨-, -, -, htag⟩ | ⟨-, r', hr', -⟩ | ⟨-, hslash, -⟩
  · exact absurd hnil hn
  · exact htag
  · exact absurd (hr.symm.trans hr') (by simp)
  · exact absurd hr (hslash r)

theorem readTag_of_opening {r : List Char} (hn : tagName c ≠ [])
    (hr : (tagAttributes c).cursor.rest = '>' :: r) :
    readTag c = ⟨some (.opening (String.ofList (tagName c)) (tagAttributes c).value c.position),
      (tagAttributes c).cursor.advance, (tagAttributes c).faults, (tagAttributes c).cautions⟩ := by
  rcases readTag_cases c with ⟨hnil, -⟩ | ⟨-, r', hr', -⟩ | ⟨-, -, -, htag⟩ | ⟨-, -, hgt, -⟩
  · exact absurd hnil hn
  · exact absurd (hr.symm.trans hr') (by simp)
  · exact htag
  · exact absurd hr (hgt r)

/-- A name behind `k` characters, where it ends before the end of the text. -/
theorem takeWhile_drop_extended {p : Char → Bool} {k : Nat}
    (h : (c.skip (k + ((c.rest.drop k).takeWhile p).length)).rest ≠ []) (t : List Char) :
    ((c.extended t).rest.drop k).takeWhile p = (c.rest.drop k).takeWhile p ∧
      (c.extended t).skip (k + ((c.rest.drop k).takeWhile p).length) =
        (c.skip (k + ((c.rest.drop k).takeWhile p).length)).extended t := by
  have hrun := run_takeWhile p (c.rest.drop k)
  rw [rest_skip] at h
  have hlt : k + ((c.rest.drop k).takeWhile p).length < c.rest.length :=
    Nat.lt_of_not_le fun hle => h (List.drop_eq_nil_of_le hle)
  rw [← List.drop_drop, hrun.drop_eq] at h
  refine ⟨?_, skip_extended hlt.le t⟩
  rw [rest_extended, List.drop_append_of_le_length (by omega), (hrun.extended h t).takeWhile_eq]

theorem tagAttributes_extended (h : (tagAttributes c).cursor.rest ≠ []) (t : List Char) :
    tagName (c.extended t) = tagName c ∧
      tagAttributes (c.extended t) = (tagAttributes c).extended t := by
  obtain ⟨hname, hskip⟩ := takeWhile_drop_extended (p := isTagChar) (k := 1) (c := c)
    ((leads_readAttributes _ _ _).rest_ne_nil h) t
  refine ⟨hname, ?_⟩
  rw [tagAttributes, show tagName (c.extended t) = tagName c from hname]
  exact (congrArg _ hskip).trans (readAttributes_extended _ _ h t)

/-- A tag without a fault has a name, and is not at its end behind its attributes. -/
theorem tag_of_readTag (h : (readTag c).faults = []) :
    tagName c ≠ [] ∧ (tagAttributes c).cursor.rest ≠ [] := by
  rcases readTag_cases c with ⟨-, htag⟩ | ⟨hn, r, hr, -⟩ | ⟨hn, r, hr, -⟩ | ⟨-, -, -, htag⟩
  · rw [htag] at h
    exact absurd h (by simp)
  · exact ⟨hn, by simp [hr]⟩
  · exact ⟨hn, by simp [hr]⟩
  · rw [htag] at h
    exact absurd h (by simp)

/-- A `<` with a name behind it begins a tag. -/
theorem readPiece_of_tagName {s : List Char} (hc : c.rest = '<' :: s) (hn : tagName c ≠ []) :
    readPiece c = readTag c := by
  have hhead : ∃ a s', s = a :: s' ∧ isTagChar a := by
    rw [tagName, hc, List.drop_one, List.tail_cons] at hn
    cases s with
    | nil => exact absurd rfl hn
    | cons a s' =>
      refine ⟨a, s', rfl, ?_⟩
      by_contra ha
      exact hn (List.takeWhile_cons_of_neg ha)
  obtain ⟨a, s', rfl, ha⟩ := hhead
  refine readPiece_of_tag hc ?_ ?_
  · rintro t' ⟨⟩
    exact absurd ha (by decide)
  · rintro t' ⟨⟩
    exact absurd ha (by decide)

theorem readTag_extended (h : (readTag c).faults = []) (t : List Char) :
    readTag (c.extended t) = (readTag c).extended t := by
  rcases readTag_cases c with ⟨-, htag⟩ | ⟨hn, r, hr, htag⟩ | ⟨hn, r, hr, htag⟩ | ⟨-, -, -, htag⟩
  · rw [htag] at h
    exact absurd h (by simp)
  · obtain ⟨hname, hattrs⟩ := tagAttributes_extended (c := c) (by simp [hr]) t
    have hr' : (tagAttributes (c.extended t)).cursor.rest = '/' :: '>' :: (r ++ t) := by
      rw [hattrs]
      exact congrArg (· ++ t) hr
    have hskip : (tagAttributes (c.extended t)).cursor.skip 2 =
        ((tagAttributes c).cursor.skip 2).extended t := by
      rw [hattrs]
      exact skip_extended (by simp [hr]) t
    rw [readTag_of_selfClosing (by rwa [hname]) hr', htag, hname, hskip, hattrs]
    rfl
  · obtain ⟨hname, hattrs⟩ := tagAttributes_extended (c := c) (by simp [hr]) t
    have hr' : (tagAttributes (c.extended t)).cursor.rest = '>' :: (r ++ t) := by
      rw [hattrs]
      exact congrArg (· ++ t) hr
    have hskip : (tagAttributes (c.extended t)).cursor.advance =
        (tagAttributes c).cursor.advance.extended t := by
      rw [hattrs]
      exact skip_extended (by simp [hr]) t
    rw [readTag_of_opening (by rwa [hname]) hr', htag, hname, hskip, hattrs]
    rfl
  · rw [htag] at h
    exact absurd h (by simp)

theorem readClosing_extended (h : (readClosing c).faults = []) (t : List Char) :
    readClosing (c.extended t) = (readClosing c).extended t := by
  rcases readClosing_cases c with ⟨r, hr, hcl⟩ | ⟨-, hcl⟩
  · have hend : (closingEnd c).rest ≠ [] := by simp [hr]
    obtain ⟨hname, hskip⟩ := takeWhile_drop_extended (p := isTagChar) (k := 2) (c := c)
      ((leads_skipBlanks _).rest_ne_nil hend) t
    have hend' : closingEnd (c.extended t) = (closingEnd c).extended t := by
      rw [closingEnd, hname, hskip, skipBlanks_extended hend]
      rfl
    rcases readClosing_cases (c.extended t) with ⟨r', -, hcl'⟩ | ⟨hgt, -⟩
    · rw [hcl', hcl, hname, hend', advance, skip_extended (by simp [hr])]
      rfl
    · refine absurd ?_ (hgt (r ++ t))
      rw [hend', rest_extended, hr, List.cons_append]
  · rw [hcl] at h
    exact absurd h (by simp)

/-- A comment that has its closing mark. -/
theorem readComment_extended_of_mark {s : List Char} (hc : c.rest = '<' :: '!' :: '-' :: '-' :: s)
    (h : "-->".toList <:+: s) (t : List Char) :
    readComment (c.extended t) = (readComment c).extended t := by
  obtain ⟨w, hw, ⟨r, rfl, hcm⟩ | ⟨rfl, -⟩⟩ := readComment_cases hc
  · -- the mark is found in the same place, whatever follows it
    have hcut : before "-->".toList ((c.extended t).rest.drop 4) = (w, true) := by
      rw [rest_extended, hc]
      simpa using before_append_commentEnd hw (r ++ t)
    have hlen : 4 + w.length + 3 ≤ c.rest.length := by
      rw [hc]
      simp
      omega
    rw [hcm, readComment, hcut]
    dsimp only
    rw [if_pos rfl, skip_extended hlen]
    rfl
  · exact absurd h hw

theorem readComment_extended {s : List Char} (hc : c.rest = '<' :: '!' :: '-' :: '-' :: s)
    (h : (readComment c).cursor.rest ≠ []) (t : List Char) :
    readComment (c.extended t) = (readComment c).extended t := by
  obtain ⟨w, -, ⟨r, rfl, -⟩ | ⟨rfl, hcm⟩⟩ := readComment_cases hc
  · exact readComment_extended_of_mark hc ⟨w, r, rfl⟩ t
  · rw [hcm, rest_skip, hc] at h
    exact absurd (drop_lastComment s) h

/-- A text, where what follows does not belong to it. -/
theorem readText_extended_of_run {w r t : List Char} (h : Run (· != '<') c.rest w r)
    (h' : Run (· != '<') (c.rest ++ t) w (r ++ t)) :
    readText (c.extended t) = (readText c).extended t := by
  have hle : w.length ≤ c.rest.length := by
    rw [h.split, List.length_append]
    omega
  rw [readText, readText, rest_extended, h.takeWhile_eq, h'.takeWhile_eq, skip_extended hle]
  rfl

theorem readText_extended (h : (readText c).cursor.rest ≠ []) (t : List Char) :
    readText (c.extended t) = (readText c).extended t := by
  have hrun := run_takeWhile (· != '<') c.rest
  rw [readText, rest_skip, hrun.drop_eq] at h
  exact readText_extended_of_run hrun (hrun.extended h t)

/-- A text goes on up to a `<`, whether it stands in this text or in what follows it. -/
theorem readText_extended_of_opens {t : List Char} (ht : ∀ x ∈ t.head?, x = '<') :
    readText (c.extended t) = (readText c).extended t := by
  have hrun := run_takeWhile (· != '<') c.rest
  refine readText_extended_of_run hrun ⟨?_, hrun.all, ?_⟩
  · rw [← List.append_assoc, ← hrun.split]
  · intro x hx
    cases hr : c.rest.dropWhile (· != '<') with
    | nil => simp [ht x (by simpa [hr] using hx)]
    | cons y r =>
      rw [hr] at hx
      exact hrun.stops x (by simpa [hr] using hx)

/-- **A piece without a fault** is read in the same way when the text goes on, if a comment and
a text are. -/
theorem readPiece_extended_of (hne : c.rest ≠ []) (hfaults : (readPiece c).faults = [])
    {t : List Char}
    (hcomment : ∀ s, c.rest = '<' :: '!' :: '-' :: '-' :: s →
      readComment (c.extended t) = (readComment c).extended t)
    (htext : (∀ s, c.rest ≠ '<' :: s) → readText (c.extended t) = (readText c).extended t) :
    readPiece (c.extended t) = (readPiece c).extended t := by
  rcases readPiece_cases c with ⟨⟨s, hs⟩, hp⟩ | ⟨⟨s, hs⟩, hp⟩ | ⟨⟨s, hs⟩, hp⟩ | ⟨hlt, hp⟩
  · rw [hp] at hfaults ⊢
    rw [readPiece_of_closing (t := s ++ t) (by rw [rest_extended, hs]; rfl),
      readClosing_extended hfaults]
  · rw [hp, readPiece_of_comment (t := s ++ t) (by rw [rest_extended, hs]; rfl), hcomment s hs]
  · rw [hp] at hfaults ⊢
    obtain ⟨hn, hrest⟩ := tag_of_readTag hfaults
    obtain ⟨hname, -⟩ := tagAttributes_extended hrest t
    rw [readPiece_of_tagName (s := s ++ t) (by rw [rest_extended, hs]; rfl) (by rwa [hname]),
      readTag_extended hfaults]
  · have hlt' : ∀ s, (c.extended t).rest ≠ '<' :: s := by
      intro s hs
      obtain ⟨a, r, har⟩ := List.exists_cons_of_ne_nil hne
      rw [rest_extended, har, List.cons_append] at hs
      obtain ⟨rfl, -⟩ := List.cons.inj hs
      exact hlt r har
    rw [hp, readPiece_of_text hlt', htext hlt]

/-- **A piece without a fault** is read in the same way when the text goes on. Only a text or a
comment at the very end is not. -/
theorem readPiece_extended (hne : c.rest ≠ []) (hfaults : (readPiece c).faults = [])
    (hend : (readPiece c).cursor.rest = [] →
      ∀ n, (readPiece c).value = some (.leaf n) → n.isElement) (t : List Char) :
    readPiece (c.extended t) = (readPiece c).extended t := by
  refine readPiece_extended_of hne hfaults ?_ ?_
  · intro s hs
    rw [readPiece_of_comment hs] at hend
    refine readComment_extended hs (fun hnil => ?_) t
    exact absurd (hend hnil _ rfl) (by simp [Node.isElement])
  · intro hlt
    rw [readPiece_of_text hlt] at hend
    refine readText_extended (fun hnil => ?_) t
    exact absurd (hend hnil _ rfl) (by simp [Node.isElement])

/-- **In front of a `<`** a piece without a fault is read in the same way, unless it is a comment
without its closing mark. -/
theorem readPiece_extended_of_opens (hne : c.rest ≠ []) (hfaults : (readPiece c).faults = [])
    {t : List Char} (ht : ∀ x ∈ t.head?, x = '<')
    (hmark : ∀ s, c.rest = '<' :: '!' :: '-' :: '-' :: s → "-->".toList <:+: s) :
    readPiece (c.extended t) = (readPiece c).extended t := by
  refine readPiece_extended_of hne hfaults ?_ ?_
  · intro s hs
    exact readComment_extended_of_mark hs (hmark s hs) t
  · intro _
    exact readText_extended_of_opens ht

end Pieces

/-! ### States -/

namespace Progress

open Cursor

variable {limit : Int} {p : Progress}

/-- The state of a reading when the text goes on with `t`. -/
def extended (t : List Char) (p : Progress) : Progress :=
  { p with cursor := p.cursor.extended t }

theorem add_extended (t : List Char) (p : Progress) (n : Node) :
    (p.extended t).add n = (p.add n).extended t := by
  obtain ⟨cursor, frames, roots, faults, cautions, truncated⟩ := p
  cases frames <;> rfl

theorem closeElement_extended (t : List Char) (p : Progress) (name : String) (start : Position) :
    (p.extended t).closeElement name start = (p.closeElement name start).extended t := by
  cases hfs : p.frames with
  | nil => rw [closeElement_of_nil hfs, closeElement_of_nil (p := p.extended t) hfs]; rfl
  | cons f fs =>
    rw [closeElement_of_cons hfs, closeElement_of_cons (p := p.extended t) hfs, ← add_extended]
    split <;> rfl

/-- **A step** is the same when the text goes on, if its piece is, and an element that it opens has
room. -/
theorem step_extended_of_room
    (hroom : ∀ name as start, (readPiece p.cursor).value = some (.opening name as start) →
      (p.frames.length : Int) < limit) {t : List Char}
    (hread : readPiece (p.cursor.extended t) = (readPiece p.cursor).extended t) :
    (p.extended t).step limit = (p.step limit).extended t := by
  have hread : readPiece (p.extended t).cursor = (readPiece p.cursor).extended t := hread
  have hvalue : (readPiece (p.extended t).cursor).value = (readPiece p.cursor).value := by
    rw [hread]
    rfl
  have hfollow : (p.extended t).follow (readPiece (p.extended t).cursor) =
      (p.follow (readPiece p.cursor)).extended t := by
    rw [hread]
    rfl
  cases hv : (readPiece p.cursor).value with
  | none => rw [step_none hv, step_none (hvalue.trans hv), hfollow]
  | some x =>
    cases x with
    | leaf n => rw [step_leaf hv, step_leaf (hvalue.trans hv), hfollow, add_extended]
    | opening name as start =>
      have hlt := hroom name as start hv
      rw [step_opening hv, step_opening (hvalue.trans hv), hfollow,
        openElement_of_lt (by exact hlt), openElement_of_lt (by exact hlt)]
      rfl
    | closing name start =>
      rw [step_closing hv, step_closing (hvalue.trans hv), hfollow, closeElement_extended]

/-- **A step without a fault** is the same when the text goes on, if its piece is. -/
theorem step_extended (h : (p.step limit).faults = []) {t : List Char}
    (hread : readPiece (p.cursor.extended t) = (readPiece p.cursor).extended t) :
    (p.extended t).step limit = (p.step limit).extended t := by
  refine step_extended_of_room (fun name as start hv => ?_) hread
  rw [step_opening hv] at h
  exact length_lt_of_openElement (p := p.follow (readPiece p.cursor)) h

theorem skipBlanks_extended (h : p.skipBlanks.cursor.rest ≠ []) (t : List Char) :
    (p.extended t).skipBlanks = p.skipBlanks.extended t := by
  unfold skipBlanks extended
  rw [Cursor.skipBlanks_extended h]

theorem run_extended_skipBlanks (limit : Int) (t : List Char) (p : Progress) :
    (p.skipBlanks.extended t).run limit = (p.extended t).run limit := by
  rw [← run_skipBlanks, ← run_skipBlanks limit (p.extended t)]
  congr 1
  unfold skipBlanks extended
  rw [Cursor.skipBlanks_extended_skipBlanks]

/-- **The states that a run goes through**, each before the blanks in front of its piece. -/
inductive Reaches (limit : Int) : Progress → Progress → Prop
  | refl (p : Progress) : Reaches limit p p
  | step {p q : Progress} : p.skipBlanks.cursor.rest ≠ [] →
      Reaches limit (p.skipBlanks.step limit) q → Reaches limit p q

theorem Reaches.run_eq {q : Progress} (h : Reaches limit p q) : q.run limit = p.run limit := by
  induction h with
  | refl => rfl
  | step hrest _ ih => rw [run_of_rest hrest, ih]

theorem faults_step_of_run (hrest : p.skipBlanks.cursor.rest ≠ [])
    (h : (p.run limit).faults = []) : (p.skipBlanks.step limit).faults = [] := by
  rw [run_of_rest hrest] at h
  exact List.prefix_nil.mp (h ▸ faults_run limit _)

/-- **A reading without a fault looks no further than its text**, if none of its pieces does:
when the text goes on, the reading goes on where it was. -/
theorem run_extended_of {t : List Char} (hfaults : (p.run limit).faults = [])
    (hpiece : ∀ q : Progress, Reaches limit p q → q.skipBlanks.cursor.rest ≠ [] →
      readPiece (q.skipBlanks.cursor.extended t) = (readPiece q.skipBlanks.cursor).extended t) :
    ((p.run limit).extended t).run limit = (p.extended t).run limit := by
  fun_induction run limit p with
  | case1 p hend => exact run_extended_skipBlanks limit t p
  | case2 p hrest hlt ih =>
    have hstep : (p.skipBlanks.step limit).faults = [] :=
      List.prefix_nil.mp (hfaults ▸ faults_run limit _)
    have hskip := skipBlanks_extended hrest t
    have hrest' : (p.extended t).skipBlanks.cursor.rest ≠ [] := by
      rw [hskip]
      exact List.append_ne_nil_of_left_ne_nil hrest t
    rw [ih hfaults fun q hq => hpiece q (.step hrest hq), run_of_rest hrest', hskip,
      step_extended hstep (hpiece p (.refl p) hrest)]

end Progress

end MiniTemplate
