import Mathlib.Algebra.Ring.Int.Defs
import Mathlib.Data.Finset.Card
import MiniTemplate.Proofs.AttributeViews
import MiniTemplate.Proofs.DocumentOrder
import MiniTemplate.Proofs.Faultless

/-!
# Every attribute that is lost is remarked on

The views of an element have fewer entries than the element has attributes if some of these share a
name. A reading remarks on every attribute whose key the tag already has, and the keys are the names
of the two views (`MiniTemplate.Attribute.mem_map_key`). So on one tag the remarks are as many as
the attributes that no entry is left for (`MiniTemplate.duplicates_readAttributes`).

On a whole text this is an invariant of the reading: what its cautions count is what the nodes of
its roll have lost. A tag puts its remarks and its node there at once, and the end of an element
changes neither. A tag that does not end leaves remarks without a node, but that is a fault.

## Main statements

* `MiniTemplate.Template.viewed_read`: the views of every node that is read, and how many remarks on
  repeated attributes there are.
-/

namespace MiniTemplate

open Text Node Attribute

/-! ### Counting -/

/-- Is it about a repeated attribute? -/
def Caution.isDuplicate : Caution → Bool
  | duplicateAttribute _ _ => true
  | unclosed _ => false

/-- **The number of remarks on repeated attributes.** -/
def duplicates (cs : List (Located Caution)) : Nat := cs.countP fun r => r.what.isDuplicate

@[simp] theorem duplicates_nil : duplicates [] = 0 := rfl

@[simp] theorem duplicates_append (cs ds : List (Located Caution)) :
    duplicates (cs ++ ds) = duplicates cs + duplicates ds :=
  List.countP_append

/-- **What is lost** of some attributes: how many more there are than entries in their views. -/
def Attribute.lost (as : List Attribute) : Int :=
  as.length - (props as).size - (directives as).size

@[simp] theorem Attribute.lost_nil : lost [] = 0 := rfl

/-! ### On one tag -/

theorem duplicates_duplicateCaution (tag : String) (seen : List String) (s : Scan Attribute) :
    duplicates (duplicateCaution tag seen s) = if s.value.key ∈ seen then 1 else 0 := by
  rw [duplicateCaution]
  split <;> rfl

/-- The attributes without a remark are as many as the keys that the tag did not have before. -/
theorem duplicates_add_card (tag : String) (seen : List String) (c : Cursor) :
    duplicates (readAttributes tag seen c).cautions +
        (((readAttributes tag seen c).value.map key).toFinset \ seen.toFinset).card =
      (readAttributes tag seen c).value.length := by
  fun_induction readAttributes tag seen c with
  | case1 seen c h => simp
  | case2 seen c s h hlt more ih =>
    change duplicates more.cautions +
      ((more.value.map key).toFinset \ (s.value.key :: seen).toFinset).card =
        more.value.length at ih
    rw [duplicates_append, duplicates_duplicateCaution, List.map_cons, List.toFinset_cons,
      List.length_cons, ← ih, List.toFinset_cons]
    by_cases hseen : s.value.key ∈ seen
    · have hmem : s.value.key ∈ seen.toFinset := List.mem_toFinset.mpr hseen
      rw [if_pos hseen, Finset.insert_sdiff_of_mem _ hmem, Finset.insert_eq_of_mem hmem]
      omega
    · -- a new key is counted here, and not again behind
      have hmem : s.value.key ∉ seen.toFinset := fun h => hseen (List.mem_toFinset.mp h)
      rw [if_neg hseen, ← Finset.sdiff_insert_insert_of_mem_of_notMem
        (Finset.mem_insert_self _ _) hmem, Finset.insert_sdiff_insert,
        Finset.card_insert_of_notMem (by simp)]
      omega

/-- **On one tag** there are as many remarks on repeated attributes as attributes are lost. -/
theorem duplicates_readAttributes (tag : String) (c : Cursor) :
    (duplicates (readAttributes tag [] c).cautions : Int) =
      lost (readAttributes tag [] c).value := by
  have hcount := duplicates_add_card tag [] c
  have has := wellFormed_readAttributes tag [] c
  generalize (readAttributes tag [] c).value = as at hcount has ⊢
  -- the names of the views are the keys, each of them once
  have hkeys : (as.map key).toFinset = ((props as).keys ++ (directives as).keys).toFinset := by
    ext k
    rw [List.mem_toFinset, List.mem_toFinset, mem_map_key has]
  have hsize : ((props as).keys ++ (directives as).keys).length =
      (props as).size + (directives as).size := by
    simp [Table.keys, Table.size]
  rw [List.toFinset_nil, Finset.sdiff_empty, hkeys,
    List.toFinset_card_of_nodup (nodup_keys has), hsize] at hcount
  rw [lost]
  omega

/-! ### On one piece -/

/-- The attributes of a piece. -/
def Piece.attributes : Piece → List Attribute
  | leaf n => n.attributes
  | opening _ attributes _ => attributes
  | closing _ _ => []

theorem duplicates_readPiece {c : Cursor} {x : Piece} (h : (readPiece c).value = some x) :
    (duplicates (readPiece c).cautions : Int) = lost x.attributes := by
  rcases readPiece_cases c with ⟨-, hp⟩ | ⟨⟨t, ht⟩, hp⟩ | ⟨-, hp⟩ | ⟨-, hp⟩
  · rw [hp] at h ⊢
    rcases readClosing_cases c with ⟨r, -, hc⟩ | ⟨-, hc⟩
    all_goals
      rw [hc] at h ⊢
      obtain rfl := Option.some.inj h
      rfl
  · rw [hp] at h ⊢
    obtain ⟨w, -, ⟨r, -, hc⟩ | ⟨-, hc⟩⟩ := readComment_cases ht
    all_goals
      rw [hc] at h ⊢
      obtain rfl := Option.some.inj h
      rfl
  · rw [hp] at h ⊢
    rcases readTag_cases c with ⟨-, hc⟩ | ⟨-, r, -, hc⟩ | ⟨-, r, -, hc⟩ | ⟨-, -, -, hc⟩
    · exact absurd h (by simp [hc])
    · rw [hc] at h ⊢
      obtain rfl := Option.some.inj h
      exact duplicates_readAttributes _ _
    · rw [hc] at h ⊢
      obtain rfl := Option.some.inj h
      exact duplicates_readAttributes _ _
    · exact absurd h (by simp [hc])
  · rw [hp, readText] at h ⊢
    obtain rfl := Option.some.inj h
    rfl

/-! ### On a whole text -/

theorem Node.attributes_bare (n : Node) : n.bare.attributes = n.attributes := by
  cases n <;> rfl

namespace Progress

variable {limit : Int} {p : Progress}

/-- What the nodes of a state have lost. -/
def lost (p : Progress) : Int := (p.roll.map fun e => Attribute.lost e.2.attributes).sum

theorem lost_add (p : Progress) {n : Node} (hn : n.children = []) :
    (p.add n).lost = p.lost + Attribute.lost n.attributes := by
  rw [lost, roll_add, Node.roll_eq, hn, lost]
  simp [Node.attributes_bare]

theorem lost_push (p : Progress) {f : Frame} (hf : f.children = []) :
    (p.push f).lost = p.lost + Attribute.lost f.attributes := by
  rw [lost, roll_push p hf, lost]
  simp [Node.attributes]

/-- **An account that is even**: for every attribute that is lost there is a remark. -/
def Even (p : Progress) : Prop := (duplicates p.cautions : Int) = p.lost

/-- **A step without a fault keeps the account even.** -/
theorem Even.step {a : Char} {t : List Char} (hp : p.Even) (hat : p.cursor.rest = a :: t)
    (ha : isBlank a = false) (h : (p.step limit).faults = []) : (p.step limit).Even := by
  let q := p.follow (readPiece p.cursor)
  have hq : ∀ x, (readPiece p.cursor).value = some x →
      (duplicates q.cautions : Int) = q.lost + Attribute.lost x.attributes := by
    intro x hx
    change ((duplicates (p.cautions ++ (readPiece p.cursor).cautions) : Nat) : Int) = p.lost + _
    rw [duplicates_append, Int.natCast_add, hp, duplicates_readPiece hx]
  rcases step_of_faultless hat ha h with
    ⟨n, hval, -, hstep⟩ | ⟨name, as, start, hval, -, -, hstep⟩ | ⟨f, fs, hfs, hclosing, hstep⟩
  · obtain ⟨-, hchildren⟩ := proper_leaf hat ha hval
    rw [hstep, Even, cautions_add, lost_add _ hchildren]
    exact hq (.leaf n) hval
  · rw [hstep, Even, lost_push _ rfl]
    exact hq (.opening name as start) hval
  · have hval := (readPiece_closing hclosing).1
    rw [hstep, Even, cautions_add, lost, roll_ending (p := q) hfs]
    exact (hq _ hval).trans (Int.add_zero _)

/-- **A reading without a fault keeps the account even**, up to its end. -/
theorem Even.run (hp : p.Even) (h : (p.run limit).faults = []) : (p.run limit).Even := by
  refine run_induction (motive := fun q => q.faults = [] → q.Even) ?_ ?_ p (fun _ => hp) h
  · intro q hq hfaults
    exact hq hfaults
  · intro q a t hat ha hq hfaults
    obtain ⟨hq', -⟩ := faults_readPiece_of_step hfaults
    exact (hq hq').step hat ha hfaults

/-- The end of the text adds no remark on a repeated attribute. -/
theorem duplicates_finish (p : Progress) :
    duplicates p.finish.cautions = duplicates p.cautions := by
  refine finish_induction
    (motive := fun q => duplicates q.cautions = duplicates p.cautions) ?_ p rfl
  intro q f fs _ hq
  rw [cautions_endElement, duplicates_append, hq]
  split <;> rfl

theorem Even.finish (hp : p.Even) : p.finish.Even := by
  rw [Even, duplicates_finish, lost, roll_finish]
  exact hp

end Progress

/-- **The views of a template.** In the forest of any text the views of every node fit its
attributes. And if the text is read without a fault, then the remarks on repeated attributes are as
many as the attributes that are lost, over all nodes of a walk. -/
theorem Template.viewed_read (limit : Int) (text : String) :
    Everywhere (fun n => Viewed n.attributes) (read limit text).forest ∧
      ((read limit text).faults = [] →
        (duplicates (read limit text).cautions : Int) =
          ((read limit text).forest.walk.map fun x => lost x.1.attributes).sum) := by
  refine ⟨fun n hn => ?_, fun h => ?_⟩
  · have hproper := proper_read limit text n hn
    cases n with
    | element name as children selfClosing span => exact viewed_of_wellFormed hproper.2.2.1
    | text content span => exact viewed_of_wellFormed (by simp [Node.attributes])
    | comment content span => exact viewed_of_wellFormed (by simp [Node.attributes])
  · let p := Progress.start (Cursor.ofList text.toList)
    have hstart : p.Even := rfl
    have hrun : (p.run limit).faults = [] := (Progress.faults_finish _).symm.trans h
    have hend := (hstart.run hrun).finish
    have hroll := Progress.roll_of_nil (Progress.frames_finish (p.run limit))
    -- the roll has the nodes of a walk
    have hwalk := congrArg (List.map fun n => lost n.attributes)
      (Forest.map_snd_roll (read limit text).forest)
    rw [List.map_map, List.map_map] at hwalk
    rw [Progress.Even, Progress.lost, hroll] at hend
    refine hend.trans (congrArg List.sum (hwalk.trans ?_))
    exact List.map_congr_left fun x _ => congrArg lost (Node.attributes_bare x.1)

/-- A name that is written twice, a directive in two spellings, and one with a modifier: of seven
attributes three are lost. -/
theorem Template.viewed_read_spellings :
    let r := read 256 "<a x=1 x=2 bind:tap=f bindtap.stop=g catchtap=h><b y y/></a>"
    r.faults = [] ∧ (r.forest.walk.map fun x => lost x.1.attributes).sum = 3 := by
  intro r
  have hfaults : r.faults = [] := by decide +kernel
  have hcount : duplicates r.cautions = 3 := by decide +kernel
  refine ⟨hfaults, ?_⟩
  rw [← (viewed_read 256 _).2 hfaults, hcount]
  rfl

end MiniTemplate
