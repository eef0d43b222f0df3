import MiniTemplate.Proofs.Reading

/-!
# Spans

Every node that is read from a text knows where it stands there, and this holds of any text,
with or without faults. `MiniTemplate.Template.occupies_read` says what a span tells: it is not
empty and lies in the text, its line and column are those of its first character, and the
characters it covers are those that the node was read from. The spans of the children of an
element lie inside its own, behind its `<`, and the spans of siblings follow one another.

The span of an element is known only when it ends, and it may end in four ways: at its own
closing tag, at a closing tag of another name, at the end of the text, or where the nesting
grew too deep. What all of them have in common is that the element ends where the cursor is,
so it is enough to know, all along, that what is finished inside an open element fits between
the `<` of the element and the cursor (`MiniTemplate.Progress.Held`).
-/

namespace MiniTemplate

open Text

namespace Node

/-! ### What a span says -/

/-- What stands in a text between two offsets, for each kind of node. A comment whose closing
mark is missing goes on to the end of the text. -/
def Shows (cs : List Char) (start stop : Nat) : Node → Prop
  | text content _ => (cs.take stop).drop start = content.toList
  | comment content _ =>
    (cs.take stop).drop start = ("<!--" ++ content ++ "-->").toList ∨
      (cs.take stop).drop start = ("<!--" ++ content).toList ∧ stop = cs.length
  | element name _ _ selfClosing _ =>
    '<' :: name.toList <+: cs.drop start ∧ (selfClosing → "/>".toList <:+ cs.take stop)

/-- **A node occupies** a stretch of a text: its span says so, and the text shows it there. -/
structure Occupies (cs : List Char) (start stop : Nat) (n : Node) : Prop where
  lt : start < stop
  le : stop ≤ cs.length
  span : n.span = some ⟨start, stop, lineAt cs start, columnAt cs start⟩
  shows : n.Shows cs start stop

/-- The span of a node ends before the span of another begins. -/
def Precedes (m n : Node) : Prop :=
  ∃ s s', m.span = some s ∧ n.span = some s' ∧ s.stop ≤ s'.start

/-- The span of a node lies inside the span of another, behind its first character. -/
def Inside (m n : Node) : Prop :=
  ∃ s s', m.span = some s ∧ n.span = some s' ∧ s'.start < s.start ∧ s.stop ≤ s'.stop

/-! ### Trees that fit in a stretch of text -/

mutual

/-- A tree that occupies a stretch of a text, with its children fitting inside. -/
def Fits (cs : List Char) (start stop : Nat) : Node → Prop
  | element name attributes children selfClosing span =>
    (element name attributes children selfClosing span).Occupies cs start stop ∧
      FitAll cs (start + 1) stop children
  | text content span => (text content span).Occupies cs start stop
  | comment content span => (comment content span).Occupies cs start stop

/-- **A forest that fits** between two offsets: its trees occupy stretches there, one after
another. -/
def FitAll (cs : List Char) (lo hi : Nat) : List Node → Prop
  | [] => lo ≤ hi
  | n :: ns => ∃ start stop, lo ≤ start ∧ n.Fits cs start stop ∧ FitAll cs stop hi ns

end

variable {cs : List Char} {lo mid hi start stop : Nat} {n : Node} {f f' : List Node}

theorem Fits.occupies (h : n.Fits cs start stop) : n.Occupies cs start stop := by
  cases n with
  | element _ _ _ _ _ => exact h.1
  | text _ _ => exact h
  | comment _ _ => exact h

theorem Fits.children (h : n.Fits cs start stop) : FitAll cs (start + 1) stop n.children := by
  cases n with
  | element _ _ _ _ _ => exact h.2
  | text _ _ => exact h.lt
  | comment _ _ => exact h.lt

theorem FitAll.le (h : FitAll cs lo hi f) : lo ≤ hi := by
  induction f generalizing lo with
  | nil => exact h
  | cons n ns ih =>
    obtain ⟨start, stop, hlo, hn, hns⟩ := h
    exact hlo.trans (hn.occupies.lt.le.trans (ih hns))

theorem FitAll.append (h : FitAll cs lo mid f) (h' : FitAll cs mid hi f') :
    FitAll cs lo hi (f ++ f') := by
  induction f generalizing lo with
  | nil =>
    cases f' with
    | nil => exact Nat.le_trans h h'
    | cons n ns =>
      obtain ⟨start, stop, hmid, hn, hns⟩ := h'
      exact ⟨start, stop, Nat.le_trans h hmid, hn, hns⟩
  | cons n ns ih =>
    obtain ⟨start, stop, hlo, hn, hns⟩ := h
    exact ⟨start, stop, hlo, hn, ih hns⟩

theorem FitAll.mono (h : FitAll cs lo mid f) (hhi : mid ≤ hi) : FitAll cs lo hi f := by
  have hnil : FitAll cs mid hi [] := hhi
  have happ := h.append hnil
  rwa [List.append_nil] at happ

theorem FitAll.concat (h : FitAll cs lo mid f) (hmid : mid ≤ start) (hn : n.Fits cs start stop) :
    FitAll cs lo stop (f ++ [n]) :=
  h.append ⟨start, stop, hmid, hn, Nat.le_refl stop⟩

theorem FitAll.fits (h : FitAll cs lo hi f) (hn : n ∈ f) :
    ∃ start stop, lo ≤ start ∧ stop ≤ hi ∧ n.Fits cs start stop := by
  induction f generalizing lo with
  | nil => exact absurd hn (by simp)
  | cons m ms ih =>
    obtain ⟨start, stop, hlo, hm, hms⟩ := h
    rcases List.mem_cons.mp hn with rfl | hn
    · exact ⟨start, stop, hlo, hms.le, hm⟩
    · obtain ⟨start', stop', hlo', hhi, hfits⟩ := ih hms hn
      exact ⟨start', stop', hlo.trans (hm.occupies.lt.le.trans hlo'), hhi, hfits⟩

theorem FitAll.isChain (h : FitAll cs lo hi f) : f.IsChain Precedes := by
  induction f generalizing lo with
  | nil => exact .nil
  | cons m ms ih =>
    obtain ⟨start, stop, -, hm, hms⟩ := h
    cases ms with
    | nil => exact .singleton m
    | cons n ns =>
      refine .cons_cons ?_ (ih hms)
      obtain ⟨start', stop', hstop, hn, -⟩ := hms
      exact ⟨_, _, hm.occupies.span, hn.occupies.span, by simpa using hstop⟩

/-- A tree inside a forest that fits, fits itself. -/
theorem FitAll.occurs (h : FitAll cs lo hi f) (hn : Occurs n f) :
    ∃ start stop, n.Fits cs start stop := by
  induction hn generalizing lo hi with
  | here hmem =>
    obtain ⟨start, stop, -, -, hfits⟩ := h.fits hmem
    exact ⟨start, stop, hfits⟩
  | within hmem _ ih =>
    obtain ⟨start, stop, -, -, hfits⟩ := h.fits hmem
    exact ih hfits.children

theorem Fits.inside (h : n.Fits cs start stop) : ∀ m ∈ n.children, m.Inside n := by
  intro m hm
  obtain ⟨start', stop', hlo, hhi, hfits⟩ := h.children.fits hm
  have hlt : start < start' := hlo
  exact ⟨_, _, hfits.occupies.span, h.occupies.span, by simpa using hlt, by simpa using hhi⟩

end Node

/-! ### Pieces -/

section Pieces

open Cursor

variable {cs w : List Char} {c d : Cursor} {n : Node}

/-- A node that took its span from the cursor occupies what the cursor passed. -/
theorem Node.occupies_of_passes (hc : On cs c) (h : Passes c w d) (hw : w ≠ [])
    (hspan : n.span = some (c.position.spanTo d.position.offset))
    (hshows : n.Shows cs c.position.offset d.position.offset) :
    n.Occupies cs c.position.offset d.position.offset := by
  refine ⟨?_, (hc.passes h).le, ?_, hshows⟩
  · rw [h.offset]
    have := List.length_pos_iff.mpr hw
    omega
  · rw [hspan, Position.spanTo]
    congr 2
    · rw [hc.position]; rfl
    · rw [hc.position]; rfl

theorem fits_readText (hc : On cs c) (hne : c.rest ≠ []) (hlt : ∀ t, c.rest ≠ '<' :: t)
    (h : (readText c).value = some (.leaf n)) :
    n.Fits cs c.position.offset (readText c).cursor.position.offset := by
  have hpass := passes_skip_length (run_takeWhile (· != '<') c.rest).split
  have hw : c.rest.takeWhile (· != '<') ≠ [] := by
    obtain ⟨a, t, hat⟩ := List.exists_cons_of_ne_nil hne
    have ha : a ≠ '<' := by
      rintro rfl
      exact hlt t hat
    simp [hat, ha]
  simp only [readText, Option.some.injEq, Piece.leaf.injEq] at h
  subst h
  refine Node.occupies_of_passes hc hpass hw rfl ?_
  rw [Node.Shows, String.toList_ofList]
  exact hc.slice hpass

theorem fits_readComment (hc : On cs c) {t : List Char}
    (hrest : c.rest = '<' :: '!' :: '-' :: '-' :: t) (h : (readComment c).value = some (.leaf n)) :
    n.Fits cs c.position.offset (readComment c).cursor.position.offset := by
  obtain ⟨w, -, ⟨r, rfl, hcm⟩ | ⟨rfl, hcm⟩⟩ := readComment_cases hrest
  · have hlen : 4 + w.length + 3 = ("<!--" ++ String.ofList w ++ "-->").toList.length := by
      simp
      omega
    have hpass : Passes c ("<!--" ++ String.ofList w ++ "-->").toList (c.skip (4 + w.length + 3)) :=
      hlen ▸ passes_skip_length (r := r) (by simp [hrest])
    rw [hcm] at h ⊢
    obtain rfl := Piece.leaf.inj (Option.some.inj h)
    exact Node.occupies_of_passes hc hpass (by simp) rfl (Or.inl (hc.slice hpass))
  · have hlen : 4 + t.length = ("<!--" ++ String.ofList t).toList.length := by
      simp
      omega
    have hpass : Passes c ("<!--" ++ String.ofList t).toList (c.skip (4 + t.length)) :=
      hlen ▸ passes_skip_length (r := []) (by simp [hrest])
    have hend : (c.skip (4 + t.length)).rest = [] := by
      rw [Cursor.rest_skip, hrest]
      exact drop_lastComment t
    rw [hcm] at h ⊢
    obtain rfl := Piece.leaf.inj (Option.some.inj h)
    refine Node.occupies_of_passes hc hpass (by simp) rfl (Or.inr ⟨hc.slice hpass, ?_⟩)
    exact (hc.passes hpass).offset_of_end hend

/-- The name of a tag stands behind its `<`. -/
theorem prefix_tagName {t : List Char} (hrest : c.rest = '<' :: t) :
    '<' :: (String.ofList (tagName c)).toList <+: c.rest := by
  rw [hrest, String.toList_ofList, (run_tagName hrest).split]
  exact (List.prefix_cons_inj '<').mpr (List.prefix_append _ _)

theorem fits_readTag (hc : On cs c) {t : List Char} (hrest : c.rest = '<' :: t)
    (h : (readTag c).value = some (.leaf n)) :
    n.Fits cs c.position.offset (readTag c).cursor.position.offset := by
  rcases readTag_cases c with ⟨-, htag⟩ | ⟨-, r, hr, htag⟩ | ⟨-, r, hr, htag⟩ | ⟨-, -, -, htag⟩
  · rw [htag] at h
    exact absurd h (by simp)
  · obtain ⟨w, hw⟩ := leads_tagAttributes c
    have hmark : Passes (tagAttributes c).cursor "/>".toList ((tagAttributes c).cursor.skip 2) :=
      passes_skip_length (w := "/>".toList) (r := r) (by simp [hr])
    have hpass := hw.trans hmark
    rw [htag] at h ⊢
    obtain rfl := Piece.leaf.inj (Option.some.inj h)
    -- the name stands behind the first character, the mark before the last, and no child between
    refine ⟨Node.occupies_of_passes hc hpass (by simp) rfl ⟨?_, fun _ => ?_⟩, ?_⟩
    · rw [← hc.rest]
      exact prefix_tagName hrest
    · rw [(hc.passes hw).take_of_passes hmark]
      exact List.suffix_append _ _
    · change c.position.offset + 1 ≤ _
      rw [hpass.offset, List.length_append]
      exact Nat.add_le_add_left (Nat.le_add_left 1 _) _
  · rw [htag] at h
    exact absurd h (by simp)
  · rw [htag] at h
    exact absurd h (by simp)

/-- **A leaf fits** in what its reader passed. -/
theorem fits_readPiece (hc : On cs c) (hne : c.rest ≠ [])
    (h : (readPiece c).value = some (.leaf n)) :
    n.Fits cs c.position.offset (readPiece c).cursor.position.offset := by
  rcases readPiece_cases c with ⟨-, hp⟩ | ⟨⟨t, ht⟩, hp⟩ | ⟨⟨t, ht⟩, hp⟩ | ⟨hlt, hp⟩
  · rw [hp] at h
    rcases readClosing_cases c with ⟨r, -, hcl⟩ | ⟨-, hcl⟩
    · rw [hcl] at h
      exact absurd h (by simp)
    · rw [hcl] at h
      exact absurd h (by simp)
  · rw [hp] at h ⊢
    exact fits_readComment hc ht h
  · rw [hp] at h ⊢
    exact fits_readTag hc ht h
  · rw [hp] at h ⊢
    exact fits_readText hc hne hlt h

/-- An opening tag stands where it says. -/
theorem start_readPiece {name : String} {as : List Attribute} {start : Position}
    (h : (readPiece c).value = some (.opening name as start)) :
    start = c.position ∧ '<' :: name.toList <+: c.rest := by
  obtain ⟨⟨t, ht⟩, -, rfl, -, rfl⟩ := opening_of_readPiece h
  exact ⟨rfl, prefix_tagName ht⟩

end Pieces

/-! ### Open elements -/

namespace Progress

open Node Cursor

variable {cs : List Char} {limit : Int} {p : Progress} {n : Node} {roots : List Node}
  {fs : List Frame} {mid hi start stop : Nat}

/-- **What is held** while elements are open: the children of the innermost one fit between its
`<` and an offset, and in the same way each open element begins behind what is finished below
it. -/
def Held (cs : List Char) (roots : List Node) : List Frame → Nat → Prop
  | [], hi => FitAll cs 0 hi roots.reverse
  | f :: fs, hi => ∃ start, f.start = place cs start ∧ '<' :: f.name.toList <+: cs.drop start ∧
      FitAll cs (start + 1) hi f.children.reverse ∧ Held cs roots fs start

theorem Held.mono (h : Held cs roots fs mid) (hhi : mid ≤ hi) : Held cs roots fs hi := by
  cases fs with
  | nil => exact FitAll.mono h hhi
  | cons f fs =>
    obtain ⟨start, hstart, hname, hchildren, hfs⟩ := h
    exact ⟨start, hstart, hname, hchildren.mono hhi, hfs⟩

theorem Held.add (h : Held cs p.roots p.frames mid) (hmid : mid ≤ start)
    (hn : n.Fits cs start stop) : Held cs (p.add n).roots (p.add n).frames stop := by
  rw [Progress.add]
  cases hfs : p.frames with
  | nil =>
    rw [hfs] at h
    dsimp only
    rw [Held, List.reverse_cons]
    exact FitAll.concat h hmid hn
  | cons f fs =>
    rw [hfs] at h
    obtain ⟨start', hstart, hname, hchildren, hheld⟩ := h
    refine ⟨start', hstart, hname, ?_, hheld⟩
    rw [List.reverse_cons]
    exact hchildren.concat hmid hn

/-- An element that ends where what is finished in it ends fits in between. -/
theorem Held.ending {f : Frame} (h : Held cs roots (f :: fs) hi) (hle : hi ≤ cs.length) :
    ∃ start, (f.toNode hi).Fits cs start hi ∧ Held cs roots fs start := by
  obtain ⟨start, hstart, hname, hchildren, hheld⟩ := h
  -- even without children the element is longer than its `<`: that much room is always kept
  refine ⟨start, ⟨⟨hchildren.le, hle, ?_, hname, by simp⟩, hchildren⟩, hheld⟩
  rw [Node.span, hstart]
  rfl

/-- **A state that is in place**: its cursor is on the text, and what it holds fits before the
cursor. -/
structure InPlace (cs : List Char) (p : Progress) : Prop where
  on : On cs p.cursor
  held : Held cs p.roots p.frames p.cursor.position.offset

theorem inPlace_start (cs : List Char) : (Progress.start (Cursor.ofList cs)).InPlace cs where
  on := on_ofList cs
  held := Nat.zero_le _

theorem InPlace.move (h : p.InPlace cs) {d : Cursor} (hd : Leads p.cursor d) :
    InPlace cs { p with cursor := d } where
  on := h.on.leads hd
  held := h.held.mono hd.offset_le

theorem InPlace.leaf (h : p.InPlace cs) (hne : p.cursor.rest ≠ [])
    (hn : (readPiece p.cursor).value = some (.leaf n)) :
    InPlace cs ({ p with cursor := (readPiece p.cursor).cursor }.add n) := by
  have hq : InPlace cs { p with cursor := (readPiece p.cursor).cursor } :=
    h.move (leads_readPiece _)
  refine ⟨by rw [cursor_add]; exact hq.on, ?_⟩
  rw [cursor_add]
  exact Held.add h.held (Nat.le_refl _) (fits_readPiece h.on hne hn)

theorem InPlace.opening (h : p.InPlace cs) (hne : p.cursor.rest ≠ []) {name : String}
    {as : List Attribute} {place : Position}
    (hx : (readPiece p.cursor).value = some (.opening name as place)) :
    InPlace cs ({ p with cursor := (readPiece p.cursor).cursor }.push ⟨name, as, place, []⟩) := by
  obtain ⟨rfl, hname⟩ := start_readPiece hx
  refine ⟨h.on.leads (leads_readPiece _), p.cursor.position.offset, h.on.position, ?_, ?_, h.held⟩
  · rw [← h.on.rest]
    exact hname
  · exact (leads_readPiece _).offset_lt (length_rest_readPiece_lt hne)

/-- The innermost element ends where the cursor is, whatever made it end. -/
theorem InPlace.ending {f : Frame} (h : p.InPlace cs) (hfs : p.frames = f :: fs) :
    InPlace cs ({ p with frames := fs }.add (f.toNode p.cursor.position.offset)) := by
  have hheld := h.held
  rw [hfs] at hheld
  obtain ⟨start, hfits, hrest⟩ := hheld.ending h.on.le
  refine ⟨by rw [cursor_add]; exact h.on, ?_⟩
  rw [cursor_add]
  exact Held.add (p := { p with frames := fs }) hrest (Nat.le_refl start) hfits

/-- **A whole reading** is in place when it has ended. -/
theorem inPlace_finish (limit : Int) (cs : List Char) :
    ((Progress.start (Cursor.ofList cs)).run limit).finish.InPlace cs := by
  refine reading_induction (motive := InPlace cs) ?_ ?_ ?_ ?_ ?_ _ (inPlace_start cs)
  · rintro p ⟨_, _, _, _, _, _⟩ rfl rfl rfl hp
    exact ⟨hp.on, hp.held⟩
  · intro p d hd hp
    exact hp.move hd
  · intro p a t n hat _ hn hp
    exact hp.leaf (by simp [hat]) hn
  · intro p name as place hne _ hx hp
    exact hp.opening hne hx
  · intro p f fs hfs hp
    exact hp.ending hfs

end Progress

/-! ### The forest that is read -/

theorem Template.fitAll_read (limit : Int) (text : String) :
    ∃ hi, Node.FitAll text.toList 0 hi (read limit text).forest := by
  have h := (Progress.inPlace_finish limit text.toList).held
  rw [Progress.frames_finish] at h
  exact ⟨_, h⟩

/-- **Every node that is read occupies its span**, in any text. Its children lie inside, behind
its first character, and follow one another, as the nodes at the top do. -/
theorem Template.occupies_read (limit : Int) (text : String) :
    (∀ n, Node.Occurs n (read limit text).forest →
      (∃ start stop, n.Occupies text.toList start stop) ∧ (∀ m ∈ n.children, m.Inside n) ∧
        n.children.IsChain Node.Precedes) ∧
      (read limit text).forest.IsChain Node.Precedes := by
  obtain ⟨hi, hfit⟩ := fitAll_read limit text
  refine ⟨?_, hfit.isChain⟩
  intro n hn
  obtain ⟨start, stop, hfits⟩ := hfit.occurs hn
  exact ⟨⟨start, stop, hfits.occupies⟩, hfits.inside, hfits.children.isChain⟩

/-- An element that the end of the text closes, and in it one that a tag of another name
closes. -/
theorem Template.occupies_read_unclosed :
    ∃ n, Node.Occurs n (read 8 "<p>\n <b></i>x").forest ∧ n.span = some ⟨0, 13, 1, 1⟩ ∧
      n.children.map Node.span = [some ⟨5, 12, 2, 2⟩, some ⟨12, 13, 2, 9⟩] ∧
      (∃ start stop, n.Occupies "<p>\n <b></i>x".toList start stop) ∧
      (∀ m ∈ n.children, m.Inside n) ∧ n.children.IsChain Node.Precedes := by
  have hspans : ∃ n ∈ (read 8 "<p>\n <b></i>x").forest, n.span = some ⟨0, 13, 1, 1⟩ ∧
      n.children.map Node.span = [some ⟨5, 12, 2, 2⟩, some ⟨12, 13, 2, 9⟩] := by
    decide +kernel
  obtain ⟨n, hn, hspan, hchildren⟩ := hspans
  have hall := (occupies_read 8 "<p>\n <b></i>x").1 n (.here hn)
  exact ⟨n, .here hn, hspan, hchildren, hall⟩

end MiniTemplate
