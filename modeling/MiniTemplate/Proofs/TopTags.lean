import MiniTemplate.Proofs.Reading

/-!
# The tags at the top of a forest

The elements at the top level of a template, each with its name and the names and values of
its attributes, show in the order of their opening tags. They show long before the reading
ends: an element that is open at the top level is among them from its opening tag on, and
whatever follows cannot change what has shown (`MiniTemplate.Progress.prefix_tags_finish`). So the
first tag that is read otherwise than it was meant tells the two forests apart.
-/

namespace MiniTemplate

open Text Grammar

/-- An attribute by its name and its value. -/
def Attribute.pair (a : Attribute) : String × String := (a.name, a.value)

/-- The tag of an element: its name, and its attributes in order. -/
def Node.tag : Node → Option (String × List (String × String))
  | .element name attributes _ _ _ => some (name, attributes.map Attribute.pair)
  | .text .. | .comment .. => none

/-- The tag of an open element. -/
def Frame.tag (f : Frame) : String × List (String × String) :=
  (f.name, f.attributes.map Attribute.pair)

theorem Node.tag_recast_id (g : String → String) (n : Node) : (n.recast g id).tag = n.tag := by
  cases n with
  | element _ _ _ _ _ => rw [Node.recast_element, List.map_id]; rfl
  | text _ _ => rfl
  | comment _ _ => rfl

theorem Node.filterMap_tag_recastAll (g : String → String) (f : List Node) :
    (Node.recastAll g id f).filterMap Node.tag = f.filterMap Node.tag := by
  rw [Node.recastAll_eq_map, List.filterMap_map]
  congr 1
  funext n
  exact n.tag_recast_id g

theorem Frame.tag_toNode (f : Frame) (stop : Nat) : (f.toNode stop).tag = some f.tag := rfl

namespace Progress

variable {p : Progress} {n : Node} {limit : Int}

/-- **The tags that show at the top level**: those of the finished elements, and that of the
outermost open one. -/
def tags (p : Progress) : List (String × List (String × String)) :=
  p.roots.reverse.filterMap Node.tag ++ (p.frames.map Frame.tag).getLast?.toList

/-! ### What a change of state does to the tags -/

theorem tags_of_nil (h : p.frames = []) : p.tags = p.roots.reverse.filterMap Node.tag := by
  simp [tags, h]

theorem tags_add_of_nil (h : p.frames = []) (n : Node) :
    (p.add n).tags = p.tags ++ n.tag.toList := by
  have hadd : p.add n = { p with roots := n :: p.roots } := by rw [add, h]
  rw [hadd, tags_of_nil h, tags_of_nil (by exact h)]
  rw [List.reverse_cons, List.filterMap_append]
  cases hn : n.tag <;> simp [hn]

/-- Inside an open element nothing shows. -/
theorem tags_add_of_cons {f : Frame} {fs : List Frame} (h : p.frames = f :: fs) (n : Node) :
    (p.add n).tags = p.tags := by
  have hadd : p.add n = { p with frames := { f with children := n :: f.children } :: fs } := by
    rw [add, h]
  rw [hadd, tags, tags, h]
  rfl

theorem tags_push_of_nil (h : p.frames = []) (f : Frame) : (p.push f).tags = p.tags ++ [f.tag] := by
  rw [tags_of_nil h, tags, frames_push, h]
  rfl

theorem tags_push_of_cons {g : Frame} {fs : List Frame} (h : p.frames = g :: fs) (f : Frame) :
    (p.push f).tags = p.tags := by
  rw [tags, tags, frames_push, h, List.map_cons, List.map_cons, List.getLast?_cons_cons]
  rfl

/-- An element keeps its tag when it ends. -/
theorem tags_ending {f : Frame} {fs : List Frame} (h : p.frames = f :: fs) (stop : Nat) :
    ({ p with frames := fs }.add (f.toNode stop)).tags = p.tags := by
  cases fs with
  | nil =>
    rw [tags_add_of_nil rfl, Frame.tag_toNode]
    simp [tags, h]
  | cons g fs =>
    rw [tags_add_of_cons rfl, tags, tags, h]
    simp

theorem prefix_tags_add (p : Progress) (n : Node) : p.tags <+: (p.add n).tags := by
  cases hfs : p.frames with
  | nil =>
    rw [tags_add_of_nil hfs]
    exact List.prefix_append _ _
  | cons f fs =>
    rw [tags_add_of_cons hfs]

theorem prefix_tags_push (p : Progress) (f : Frame) : p.tags <+: (p.push f).tags := by
  cases hfs : p.frames with
  | nil =>
    rw [tags_push_of_nil hfs]
    exact List.prefix_append _ _
  | cons g fs =>
    rw [tags_push_of_cons hfs]

/-- **What has shown stays.** -/
theorem prefix_tags_finish (limit : Int) (p : Progress) :
    p.tags <+: (p.run limit).finish.tags := by
  refine reading_induction (motive := fun q => p.tags <+: q.tags) ?_ ?_ ?_ ?_ ?_ p List.prefix_rfl
  · rintro q ⟨_, _, _, _, _, _⟩ rfl rfl rfl hq
    exact hq
  · intro q d _ hq
    exact hq
  · intro q a t n _ _ _ hq
    exact hq.trans (prefix_tags_add { q with cursor := (readPiece q.cursor).cursor } n)
  · intro q name as start _ _ _ hq
    exact hq.trans (prefix_tags_push { q with cursor := (readPiece q.cursor).cursor } _)
  · intro q f fs hfs hq
    rw [tags_ending hfs]
    exact hq

/-! ### A tag shows at once -/

/-- **A tag at the top level shows at once**, if it is read without a fault. -/
theorem tags_step {x : Char} {t : List Char} (hp : p.frames = [])
    (hrest : p.cursor.rest = '<' :: x :: t) (hx : isTagChar x)
    (h : (p.step limit).faults = []) :
    ∃ name as r, Head p.cursor.rest name as r ∧
      (p.step limit).tags = p.tags ++ [(name, as.map Attribute.pair)] := by
  have hread : readPiece p.cursor = readTag p.cursor := by
    refine readPiece_of_tag hrest ?_ ?_
    · rintro t' ⟨⟩
      exact absurd hx (by decide)
    · rintro t' ⟨⟩
      exact absurd hx (by decide)
  obtain ⟨-, hpiece⟩ := faults_readPiece_of_step h
  rw [hread] at hpiece
  rcases readTag_cases p.cursor with
    ⟨-, htag⟩ | ⟨hn, r, -, htag⟩ | ⟨hn, r, -, htag⟩ | ⟨-, -, -, htag⟩
  · rw [htag] at hpiece
    exact absurd hpiece (by simp)
  · rw [htag] at hpiece
    refine ⟨_, _, _, head_of_tagAttributes hrest hn hpiece, ?_⟩
    rw [step_leaf (by rw [hread, htag]), tags_add_of_nil (by exact hp)]
    rfl
  · rw [htag] at hpiece
    refine ⟨_, _, _, head_of_tagAttributes hrest hn hpiece, ?_⟩
    have hval := congrArg Scan.value (hread.trans htag)
    rw [step_opening hval] at h ⊢
    rw [openElement_of_lt (length_lt_of_openElement h), tags_push_of_nil (by exact hp)]
    rfl
  · rw [htag] at hpiece
    exact absurd hpiece (by simp)

end Progress

end MiniTemplate
