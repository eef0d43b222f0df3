import MiniTemplate.Proofs.BeforeTag
import MiniTemplate.Proofs.Gist

/-!
# The two spellings of an event

`bind:tap` and `bindtap` are one directive, and so are `catch:tap` and `catchtap`. So in any tag of
a template the colon of such a name can be left out, in as many attributes as one likes, and what
the template stands for does not change: the views of the elements, the number of remarks on
repeated attributes, and the conversion. Only a colon that a second one follows has to stay, since
without it the second one would be dropped in its place.

What is read of the tag is the same but for the written names, by the grammar of attributes. The
rest of the template takes two arguments. What stands before the tag is read without looking at
its attributes (`MiniTemplate.Progress.Reaches.extended_of_stops`). What stands behind it is now in
another place, and is read in a state in which some names are written otherwise, and neither makes
a difference (`MiniTemplate.Progress.Alike.run`).

## Main statements

* `MiniTemplate.Template.read_respelled`: the colon of an event can be left out anywhere in a
  template.
-/

namespace MiniTemplate

open Text Cursor

/-! ### Names -/

/-- Characters without the separator in front belong to the first piece. -/
theorem Text.split_append {sep : Char} {w : List Char} (hw : sep ∉ w) (cs : List Char) :
    split sep (w ++ cs) = (w ++ (split sep cs).1, (split sep cs).2) := by
  induction w with
  | nil => rfl
  | cons c w ih =>
    obtain ⟨hc, hw⟩ := not_or.mp (mt List.mem_cons.mpr hw)
    rw [List.cons_append, split, ih hw]
    exact if_neg (Ne.symm hc)

namespace Directive

/-- The words that bind an event. -/
def binders : List String := ["bind", "catch"]

theorem mem_binders {word : String} : word ∈ binders ↔ word = "bind" ∨ word = "catch" := by
  simp [binders]

/-- **A name and its other spelling**: the name itself, or the name of an event without the colon
behind the word that binds it, if no second colon follows. -/
inductive Respelled : List Char → List Char → Prop
  | keep (n : List Char) : Respelled n n
  | drop {word : String} {e : List Char} : word ∈ binders → e.head? ≠ some ':' →
      Respelled (word.toList ++ ':' :: e) (word.toList ++ e)

variable {n n' : List Char}

theorem Respelled.subset (h : Respelled n n') : ∀ x ∈ n', x ∈ n := by
  cases h with
  | keep => exact fun x hx => hx
  | drop _ _ =>
    intro x hx
    rcases List.mem_append.mp hx with hx | hx
    · exact List.mem_append_left _ hx
    · exact List.mem_append_right _ (List.mem_cons_of_mem _ hx)

theorem Respelled.head?_eq (h : Respelled n n') : n'.head? = n.head? := by
  cases h with
  | keep => rfl
  | @drop word e hword _ =>
    have hne : word.toList ≠ [] := by
      rcases mem_binders.mp hword with rfl | rfl <;> decide
    rw [List.head?_append_of_ne_nil _ hne, List.head?_append_of_ne_nil _ hne]

theorem dropColon_append (word b : List Char) : dropColon word (word ++ ':' :: b) = word ++ b := by
  have hprefix : word ++ [':'] <+: word ++ ':' :: b := ⟨b, by simp⟩
  rw [dropColon, if_pos (List.isPrefixOf_iff_prefix.mpr hprefix)]
  simp

/-- A name that begins with one word does not begin with the other, and not with its colon. -/
theorem not_prefix_append {word word' : String} (hword : word ∈ binders) (hword' : word' ∈ binders)
    {b : List Char} (hb : b.head? ≠ some ':') : ¬word'.toList ++ [':'] <+: word.toList ++ b := by
  rintro ⟨t, ht⟩
  rcases mem_binders.mp hword with rfl | rfl <;> rcases mem_binders.mp hword' with rfl | rfl
  · rw [List.append_assoc] at ht
    exact hb (List.append_cancel_left ht ▸ rfl)
  · exact absurd (congrArg List.head? ht) (by simp)
  · exact absurd (congrArg List.head? ht) (by simp)
  · rw [List.append_assoc] at ht
    exact hb (List.append_cancel_left ht ▸ rfl)

/-- What has lost its colon has no other to lose. -/
theorem plainSpelling_append {word : String} (hword : word ∈ binders) {b : List Char}
    (hb : b.head? ≠ some ':') : plainSpelling (word.toList ++ b) = word.toList ++ b := by
  have hbind : ¬"bind".toList ++ [':'] <+: word.toList ++ b :=
    not_prefix_append hword (by decide) hb
  have hcatch : ¬"catch".toList ++ [':'] <+: word.toList ++ b :=
    not_prefix_append hword (by decide) hb
  exact plainSpelling_eq_self_iff.mpr ⟨hbind, hcatch⟩

theorem plainSpelling_append_colon {word : String} (hword : word ∈ binders) {b : List Char}
    (hb : b.head? ≠ some ':') : plainSpelling (word.toList ++ ':' :: b) = word.toList ++ b := by
  rcases mem_binders.mp hword with rfl | rfl
  · rw [plainSpelling, dropColon_append]
    exact dropColon_eq_self_iff.mpr (not_prefix_append hword (by decide) hb)
  · -- the first step finds another word
    have hbind : dropColon "bind".toList ("catch".toList ++ ':' :: b) =
        "catch".toList ++ ':' :: b := by
      refine dropColon_eq_self_iff.mpr ?_
      rintro ⟨t, ht⟩
      exact absurd (congrArg List.head? ht) (by simp)
    rw [plainSpelling, hbind, dropColon_append]

/-- **Both spellings are of one directive.** -/
theorem Respelled.ofWritten_eq (h : Respelled n n') (value : String) :
    ofWritten (String.ofList n) value = ofWritten (String.ofList n') value := by
  cases h with
  | keep => rfl
  | @drop word e hword he =>
    have hdot : '.' ∉ word.toList := by
      rcases mem_binders.mp hword with rfl | rfl <;> decide
    have hdot' : '.' ∉ word.toList ++ [':'] := by simp [hdot]
    -- the modifiers stand behind the colon, and the name before them does not begin with one
    have hb : (split '.' e).1.head? ≠ some ':' := by
      rw [split_fst, List.head?_takeWhile]
      intro hx
      exact he (Option.mem_filter_iff.mp hx).1
    have hcolon : word.toList ++ ':' :: e = word.toList ++ [':'] ++ e := by simp
    simp only [ofWritten, String.toList_ofList]
    rw [split_append hdot e, hcolon, split_append hdot' e, List.append_assoc, List.singleton_append,
      plainSpelling_append hword hb, plainSpelling_append_colon hword hb]

theorem isName_of_binder {word : String} (hword : word ∈ binders) (b : List Char) :
    isName (String.ofList (word.toList ++ b)) := by
  rw [isName_iff, String.toList_ofList]
  refine ⟨word, ?_, List.prefix_append _ _⟩
  rcases mem_binders.mp hword with rfl | rfl <;> simp [marks]

end Directive

/-- **Attributes in both spellings** have the same gist. -/
theorem Directive.Respelled.gist_eq {n n' : List Char} (h : Directive.Respelled n n')
    (value : String) : (Attribute.ofWritten (String.ofList n) value).gist =
      (Attribute.ofWritten (String.ofList n') value).gist := by
  have heq := h.ofWritten_eq value
  cases h with
  | keep => rfl
  | drop hword _ =>
    rw [Attribute.ofWritten, Attribute.ofWritten, if_pos (isName_of_binder hword _),
      if_pos (isName_of_binder hword _), heq]
    rfl

/-! ### Attributes -/

namespace Grammar

/-- A quoted value does not depend on what follows it. -/
theorem Quoted.exists_append {q : Char} {t v r : List Char} (h : Quoted q t v r) :
    ∃ w, t = w ++ r ∧ ∀ r', Quoted q (w ++ r') v r' := by
  induction h with
  | close r => exact ⟨[q], rfl, fun r' => .close r'⟩
  | escape c _ ih =>
    obtain ⟨w, rfl, hw⟩ := ih
    exact ⟨'\\' :: c :: w, rfl, fun r' => .escape c (hw r')⟩
  | @plain c _ _ _ hc hb _ ih =>
    obtain ⟨w, rfl, hw⟩ := ih
    exact ⟨c :: w, rfl, fun r' => .plain hc hb (hw r')⟩

/-- A value depends on no more than the character behind it. -/
theorem Value.exists_append {t v r : List Char} (h : Value t v r) :
    ∃ w, t = w ++ r ∧ ∀ r', r'.head? = r.head? → Value (w ++ r') v r' := by
  cases h with
  | @quoted q t v r hq hv =>
    obtain ⟨w, rfl, hw⟩ := hv.exists_append
    exact ⟨q :: w, rfl, fun r' _ => .quoted hq (hw r')⟩
  | bare hv hq =>
    refine ⟨v, hv.split, fun r' hr => .bare (run_append hv.all ?_) hq⟩
    rw [hr]
    exact hv.stops

theorem head?_append_congr {w r r' : List Char} (h : r'.head? = r.head?) :
    (w ++ r').head? = (w ++ r).head? := by
  cases w with
  | nil => exact h
  | cons x w => rfl

/-- **An attribute in its other spelling**, where what follows begins as before. -/
theorem Attr.respelled {n n' v t t' : List Char} {a : Attribute} (h : Attr (n ++ (v ++ t)) a t)
    (hname : a.name = String.ofList n) (hn : Directive.Respelled n n')
    (ht : t'.head? = t.head?) :
    Attr (n' ++ (v ++ t')) (.ofWritten (String.ofList n') a.value) t' := by
  generalize hs : n ++ (v ++ t) = s at h
  -- the name ends where it did, since what follows begins as before
  have hrun : ∀ {r r' : List Char}, Run isAttributeChar s n r → r'.head? = r.head? →
      Run isAttributeChar (n' ++ r') n' r' := by
    intro r r' hrun hr
    refine run_append (fun x hx => hrun.all x (hn.subset x hx)) ?_
    rw [hr]
    exact hrun.stops
  have hne : n ≠ [] → n' ≠ [] := by
    rintro hne rfl
    exact hne (List.head?_eq_none_iff.mp hn.head?_eq.symm)
  cases h with
  | alone hn₀ hrun₀ =>
    obtain rfl := String.ofList_injective ((Attribute.name_ofWritten _ _).symm.trans hname)
    obtain rfl : v = [] := by
      have hsplit := List.append_cancel_left (hs.trans hrun₀.split)
      exact List.append_cancel_right (hsplit.trans (List.nil_append t).symm)
    rw [Attribute.value_ofWritten]
    exact .alone (hne hn₀) (hrun hrun₀ ht)
  | valued hn₀ hrun₀ hb hb' hv =>
    obtain rfl := String.ofList_injective ((Attribute.name_ofWritten _ _).symm.trans hname)
    obtain rfl := List.append_cancel_left (hs.trans hrun₀.split)
    -- the text of the value and what stands between it and the name is `v`
    obtain ⟨w, rfl, hw⟩ := hv.exists_append
    obtain ⟨b, hb⟩ := hb
    obtain ⟨b', hb'⟩ := hb'
    obtain rfl : v = b ++ '=' :: (b' ++ w) := by
      have hsplit := hb.split
      rw [hb'.split] at hsplit
      exact List.append_cancel_right (hsplit.trans (by simp))
    have hequals : Blanks (b ++ '=' :: (b' ++ w) ++ t') ('=' :: (b' ++ (w ++ t'))) := by
      rw [List.append_assoc, List.cons_append, List.append_assoc]
      exact ⟨b, run_append hb.all (stops_cons (by decide) _)⟩
    have hvalue : Blanks (b' ++ (w ++ t')) (w ++ t') := by
      refine ⟨b', run_append hb'.all ?_⟩
      rw [head?_append_congr ht]
      exact hb'.stops
    rw [Attribute.value_ofWritten]
    exact .valued (hne hn₀) (hrun hrun₀ (head?_append_congr ht)) hequals hvalue (hw t' ht)

/-- **Attributes with some of their names respelled**, up to `r`. An attribute is its name and what
belongs to it behind the name. -/
inductive Respelling (r : List Char) : List Char → List Char → Prop
  | nil {t : List Char} : Blanks t r → Respelling r t t
  | cons {b n n' v t t' : List Char} {a : Attribute} : (∀ x ∈ b, isBlank x) →
      Attr (n ++ (v ++ t)) a t → a.name = String.ofList n → Directive.Respelled n n' →
      Respelling r t t' → Respelling r (b ++ (n ++ (v ++ t))) (b ++ (n' ++ (v ++ t')))

variable {r t t' : List Char}

theorem Attr.name_ne_nil {a : Attribute} (h : Attr t a r) : a.name.toList ≠ [] := by
  cases h with
  | alone hn _ => simpa [Attribute.name_ofWritten] using hn
  | valued hn _ _ _ _ => simpa [Attribute.name_ofWritten] using hn

theorem Attr.eq_ofWritten {a : Attribute} (h : Attr t a r) : a = .ofWritten a.name a.value := by
  cases h <;> rw [Attribute.name_ofWritten, Attribute.value_ofWritten]

theorem Respelling.head?_eq (h : Respelling r t t') : t'.head? = t.head? := by
  cases h with
  | nil => rfl
  | @cons b n n' v t t' a hb ha hname hn ht =>
    have hne : n ≠ [] := by simpa [hname] using ha.name_ne_nil
    obtain ⟨x, hx⟩ := Option.ne_none_iff_exists'.mp (mt List.head?_eq_none_iff.mp hne)
    simp [List.head?_append, hn.head?_eq, hx]

/-- **Both are attributes**, and of the same gist. -/
theorem Respelling.attrs (h : Respelling r t t') : ∃ as bs, Attrs t as r ∧ Attrs t' bs r ∧
    as.map Attribute.gist = bs.map Attribute.gist := by
  induction h with
  | nil hb => exact ⟨[], [], .nil hb, .nil hb, rfl⟩
  | @cons b n n' v t t' a hb ha hname hn ht ih =>
    obtain ⟨as, bs, has, hbs, hgist⟩ := ih
    have ha' := ha.respelled hname hn ht.head?_eq
    have hblanks : ∀ {s s' : List Char} {a : Attribute}, Attr s a s' → Blanks (b ++ s) s := by
      intro s s' a hs
      obtain ⟨x, s, rfl, hx⟩ := hs.head
      exact ⟨b, run_append hb (stops_cons (isBlank_of_isAttributeChar hx) s)⟩
    refine ⟨_, _, .cons (hblanks ha) ha has, .cons (hblanks ha') ha' hbs, ?_⟩
    rw [List.map_cons, List.map_cons, hgist, ← hn.gist_eq, ← hname, ← ha.eq_ofWritten]

/-- **A tag with some of the names of its attributes respelled**, and what stands behind it. -/
inductive TagRespelling : List Char → List Char → Prop
  | opening {n t t' r : List Char} : n ≠ [] → Run isTagChar (n ++ t) n t →
      Respelling ('>' :: r) t t' → TagRespelling ('<' :: (n ++ t)) ('<' :: (n ++ t'))
  | selfClosing {n t t' r : List Char} : n ≠ [] → Run isTagChar (n ++ t) n t →
      Respelling ('/' :: '>' :: r) t t' → TagRespelling ('<' :: (n ++ t)) ('<' :: (n ++ t'))

/-- The two tags have heads with attributes of the same gist. -/
theorem Respelling.heads {n : List Char} (h : Respelling r t t') (hn : n ≠ [])
    (hrun : Run isTagChar (n ++ t) n t) :
    ∃ as bs, Head ('<' :: (n ++ t)) (String.ofList n) as r ∧
      Head ('<' :: (n ++ t')) (String.ofList n) bs r ∧
      as.map Attribute.gist = bs.map Attribute.gist := by
  obtain ⟨as, bs, has, hbs, hgist⟩ := h.attrs
  have hrun' : Run isTagChar (n ++ t') n t' := by
    refine run_append hrun.all ?_
    rw [h.head?_eq]
    exact hrun.stops
  exact ⟨as, bs, .mk hn hrun has, .mk hn hrun' hbs, hgist⟩

end Grammar

/-! ### The tag -/

theorem cautions_readAttributes_gist (tag : String) (seen : List String) (c : Cursor) :
    ((readAttributes tag seen c).cautions.map fun w => w.what.gist) =
      List.replicate (duplicates (readAttributes tag seen c).cautions)
        (.duplicateAttribute "" tag) := by
  fun_induction readAttributes tag seen c with
  | case1 => rfl
  | case2 seen c s hsome hlt more ih =>
    rw [List.map_append, ih, duplicates_append, duplicates_duplicateCaution, duplicateCaution]
    split
    · rw [Nat.add_comm]
      rfl
    · rw [Nat.zero_add]
      rfl

/-- The cautions of a piece are all of one kind, so that their number says it all. -/
theorem cautions_readPiece_gist (c : Cursor) :
    ((readPiece c).cautions.map fun w => w.what.gist) =
      List.replicate (duplicates (readPiece c).cautions)
        (.duplicateAttribute "" (String.ofList (tagName c))) := by
  rcases readPiece_cases c with ⟨-, h⟩ | ⟨-, h⟩ | ⟨-, h⟩ | ⟨-, h⟩
  · rw [h]
    rcases readClosing_cases c with ⟨r, -, hc⟩ | ⟨-, hc⟩ <;> rw [hc] <;> rfl
  · rw [h]
    rfl
  · rw [h]
    rcases readTag_cases c with ⟨-, hc⟩ | ⟨-, r, -, hc⟩ | ⟨-, r, -, hc⟩ | ⟨-, -, -, hc⟩
    · rw [hc]
      rfl
    all_goals
      rw [hc]
      exact cautions_readAttributes_gist _ _ _
  · rw [h]
    rfl

theorem Piece.attributes_gist (x : Piece) :
    x.gist.attributes = x.attributes.map Attribute.gist := by
  cases x with
  | leaf n => cases n <;> rfl
  | opening name as start => rfl
  | closing name start => rfl

/-- **Tags are read alike** if they have the same name, are read without faults to pieces of the same
gist, and the same characters are left: they have as many repeated attributes, too. -/
theorem alike_of_gist {c d : Cursor} {x y : Piece} {r : List Char} (hgist : x.gist = y.gist)
    (hc : (readPiece c).value = some x ∧ (readPiece c).cursor.rest = r ∧ (readPiece c).faults = [])
    (hd : (readPiece d).value = some y ∧ (readPiece d).cursor.rest = r ∧ (readPiece d).faults = [])
    (hname : String.ofList (tagName c) = String.ofList (tagName d)) :
    (readPiece c).Alike (readPiece d) := by
  obtain ⟨hcv, hcr, hcf⟩ := hc
  obtain ⟨hdv, hdr, hdf⟩ := hd
  have hattributes : x.attributes.map Attribute.gist = y.attributes.map Attribute.gist := by
    rw [← Piece.attributes_gist, hgist, Piece.attributes_gist]
  have hcount : duplicates (readPiece c).cautions = duplicates (readPiece d).cautions := by
    have hlost := Attribute.lost_of_gist hattributes
    rw [← duplicates_readPiece hcv, ← duplicates_readPiece hdv] at hlost
    exact Int.natCast_inj.mp hlost
  refine ⟨?_, hcr.trans hdr.symm, by rw [hcf, hdf], ?_⟩
  · rw [hcv, hdv, Option.map_some, Option.map_some, hgist]
  · rw [cautions_readPiece_gist, cautions_readPiece_gist, hcount, hname]

/-- **A respelled tag is read alike.** -/
theorem Grammar.TagRespelling.alike {c d : Cursor} (h : TagRespelling c.rest d.rest) :
    (readPiece c).Alike (readPiece d) := by
  generalize hc : c.rest = s at h
  generalize hd : d.rest = s' at h
  cases h with
  | @opening n t t' r hn hrun ht =>
    obtain ⟨as, bs, has, hbs, hgist⟩ := ht.heads hn hrun
    rw [← hc] at has
    rw [← hd] at hbs
    have hname := (tagName_of_head has (endsAttrs_close r)).2.1.trans
      (tagName_of_head hbs (endsAttrs_close r)).2.1.symm
    refine alike_of_gist ?_ (readPiece_opening has) (readPiece_opening hbs) hname
    rw [Piece.gist, Piece.gist, hgist]
  | @selfClosing n t t' r hn hrun ht =>
    obtain ⟨as, bs, has, hbs, hgist⟩ := ht.heads hn hrun
    rw [← hc] at has
    rw [← hd] at hbs
    have hname := (tagName_of_head has (endsAttrs_slash _)).2.1.trans
      (tagName_of_head hbs (endsAttrs_slash _)).2.1.symm
    obtain ⟨span, hcp⟩ := readPiece_selfClosing has
    obtain ⟨span', hdp⟩ := readPiece_selfClosing hbs
    refine alike_of_gist ?_ hcp hdp hname
    rw [Piece.gist, Piece.gist, Node.gist_element, Node.gist_element, hgist]

theorem Grammar.TagRespelling.exists_cons {s s' : List Char} (h : TagRespelling s s') :
    (∃ t, s = '<' :: t) ∧ ∃ t, s' = '<' :: t := by
  cases h <;> exact ⟨⟨_, rfl⟩, ⟨_, rfl⟩⟩

/-! ### The template -/

namespace Template

open Progress Grammar

/-- **A piece of the template begins** behind `before`, and blanks, with the characters `rest`. -/
def PieceAt (limit : Int) (before rest : List Char) : Prop :=
  ∃ q, Reaches limit (start (ofList (before ++ rest))) q ∧ q.skipBlanks.cursor.rest = rest

/-- **Up to the end of the text** a reading is the same, where a tag is respelled. -/
theorem alike_run_of_respelling {limit : Int} {before s s' : List Char}
    (hat : PieceAt limit before s) (h : TagRespelling s s') :
    ((start (ofList (before ++ s))).run limit).Alike
      ((start (ofList (before ++ s'))).run limit) := by
  obtain ⟨q, hreach, hrest⟩ := hat
  obtain ⟨⟨t, rfl⟩, t', rfl⟩ := h.exists_cons
  have hstop : q.skipBlanks.cursor.Stops t := by
    rw [Stops, hrest, List.length_cons]
    exact Nat.lt_succ_self _
  -- the state before the tag is the same in both readings, but for what is ahead
  obtain ⟨q, rfl, hreaches⟩ := Reaches.extended_of_stops (p := start (ofList before)) hreach
    ((leads_skipBlanks _).stops hstop)
  have hblanks := Progress.skipBlanks_extended_of_stops hstop
  have hnil : q.skipBlanks.cursor.rest = [] := by
    rw [hblanks] at hrest
    exact List.append_left_eq_self.mp hrest
  have hahead : ∀ u, (q.skipBlanks.extended ('<' :: u)).cursor.rest = '<' :: u := by
    intro u
    change q.skipBlanks.cursor.rest ++ '<' :: u = _
    rw [hnil, List.nil_append]
  have hrun : ∀ u, (start (ofList (before ++ '<' :: u))).run limit =
      ((q.skipBlanks.extended ('<' :: u)).step limit).run limit := by
    intro u
    have hne : (q.extended ('<' :: u)).skipBlanks.cursor.rest ≠ [] := by
      rw [hblanks, hahead]
      simp
    rw [← hblanks, ← run_of_rest hne, (hreaches u).run_eq]
    rfl
  have hplaced : ∀ u, (q.skipBlanks.extended ('<' :: u)).cursor.Placed := by
    intro u
    rw [← hblanks]
    exact ⟨_, (hreaches u).leads.trans (leads_skipBlanks _)⟩
  have hgist : (q.skipBlanks.extended ('<' :: t)).SameGist (q.skipBlanks.extended ('<' :: t')) :=
    ⟨⟨hplaced t, hplaced t'⟩, rfl, rfl, rfl, rfl, rfl⟩
  rw [← hahead t, ← hahead t'] at h
  rw [hrun, hrun]
  exact (hgist.step h.alike).run

/-- **The two spellings of an event can be interchanged.** Where a tag begins in a template, any of
its attributes whose names begin with `bind:` or `catch:`, and no second colon, can be written
without the colon, whatever the other attributes are. The elements that are read have the same props
and the same directives in the same order, there are as many remarks on repeated attributes, and the
conversion to every target is the same. The other remarks are the same as well. -/
theorem read_respelled (limit : Int) (before rest rest' : String)
    (hat : PieceAt limit before.toList rest.toList) (h : TagRespelling rest.toList rest'.toList) :
    let r := read limit (before ++ rest)
    let r' := read limit (before ++ rest')
    Node.SameViews r.forest r'.forest ∧ duplicates r.cautions = duplicates r'.cautions ∧
      (∀ t : Vue.Target, Vue.convert t r.forest = Vue.convert t r'.forest) ∧
      r.faults.map Located.what = r'.faults.map Located.what ∧
      (r.cautions.map fun w => w.what.gist) = r'.cautions.map fun w => w.what.gist := by
  intro r r'
  have halike := (alike_run_of_respelling hat h).finish
  rw [← String.toList_append, ← String.toList_append] at halike
  have hgists : Node.gists r.forest = Node.gists r'.forest := by
    change Node.gists (List.reverse _) = Node.gists (List.reverse _)
    rw [Node.gists_reverse, Node.gists_reverse]
    exact congrArg List.reverse halike.roots
  exact ⟨Node.sameViews_of_gists hgists, duplicates_of_gist halike.cautions,
    fun t => Vue.convert_of_gists t hgists, halike.faults, halike.cautions⟩

/-- A tag behind a fault, with both spellings of one event side by side. A modifier and a value stay
where they are, and so does the colon of a name that the word `bind` begins behind `catch`. -/
theorem read_respelled_side_by_side :
    let before := "</b>\n"
    let rest := "<a bind:tap.x=f bindtap.y=\"g\" catch:bind:z k>t</a>"
    let rest' := "<a bindtap.x=f bindtap.y=\"g\" catchbind:z k>t</a>"
    PieceAt 1 before.toList rest.toList ∧ TagRespelling rest.toList rest'.toList ∧
      duplicates (read 1 (before ++ rest)).cautions = 1 ∧
      duplicates (read 1 (before ++ rest')).cautions = 1 ∧
      Node.SameViews (read 1 (before ++ rest)).forest (read 1 (before ++ rest')).forest ∧
      Vue.convert .standard (read 1 (before ++ rest)).forest =
        Vue.convert .standard (read 1 (before ++ rest')).forest := by
  intro before rest rest'
  have hat : PieceAt 1 before.toList rest.toList :=
    ⟨_, .step (by decide +kernel) (.refl _), by decide +kernel⟩
  have h : TagRespelling rest.toList rest'.toList := by
    have hblank : ∀ x ∈ [' '], isBlank x := by decide
    have hx : ∀ t, Attr ("bind:tap.x".toList ++ (['=', 'f'] ++ ' ' :: t))
        (.ofWritten "bind:tap.x" "f") (' ' :: t) := by
      intro t
      have hf : Value ('f' :: ' ' :: t) ['f'] (' ' :: t) :=
        .bare ⟨rfl, by decide, stops_cons (by decide) t⟩ (stops_cons (by decide) [])
      exact .valued (by decide) (Text.run_append (by decide) (stops_cons (by decide) _))
        (blanks_refl (by decide) _) (blanks_refl (by decide) _) hf
    have hy : ∀ t, Attr ("bindtap.y".toList ++ (['=', '"', 'g', '"'] ++ t))
        (.ofWritten "bindtap.y" "g") t := by
      intro t
      have hg : Value ('"' :: 'g' :: '"' :: t) ['g'] t :=
        .quoted (by decide) (.plain (by decide) (by decide) (.close t))
      exact .valued (by decide) (Text.run_append (by decide) (stops_cons (by decide) _))
        (blanks_refl (by decide) _) (blanks_refl (by decide) _) hg
    have hz : ∀ t, Attr ("catch:bind:z".toList ++ ([] ++ ' ' :: t)) (.ofWritten "catch:bind:z" "")
        (' ' :: t) := fun t =>
      .alone (by decide) (Text.run_append (by decide) (stops_cons (by decide) t))
    have hk : ∀ t, Attr (['k'] ++ ([] ++ '>' :: t)) (.ofWritten "k" "") ('>' :: t) := fun t =>
      .alone (by decide) (Text.run_append (by decide) (stops_cons (by decide) t))
    have hbind : Directive.Respelled "bind:tap.x".toList "bindtap.x".toList :=
      .drop (by decide : "bind" ∈ Directive.binders) (by decide : "tap.x".toList.head? ≠ some ':')
    have hcatch : Directive.Respelled "catch:bind:z".toList "catchbind:z".toList :=
      .drop (by decide : "catch" ∈ Directive.binders) (by decide : "bind:z".toList.head? ≠ some ':')
    have hend := Respelling.nil (blanks_refl (c := '>') (by decide) "t</a>".toList)
    have htag := TagRespelling.opening (n := ['a']) (by decide)
      (Text.run_append (by decide) (stops_cons (by decide) _))
      (.cons hblank (hx _) rfl hbind (.cons hblank (hy _) rfl (.keep _)
        (.cons hblank (hz _) rfl hcatch (.cons hblank (hk _) rfl (.keep _) hend))))
    simpa [rest, rest'] using htag
  have hcount : duplicates (read 1 (before ++ rest)).cautions = 1 := by decide +kernel
  obtain ⟨hviews, hduplicates, hconvert, -, -⟩ := read_respelled 1 before rest rest' hat h
  exact ⟨hat, h, hcount, hduplicates ▸ hcount, hviews, hconvert .standard⟩

end Template

end MiniTemplate
