import MiniTemplate.Proofs.Marking
import MiniTemplate.Proofs.Run

/-!
# Refs identify

The value of a ref is its stem, the path and the name of the element, joined by underscores. It
can be taken apart again (`MiniTemplate.RefStyle.value_inj`), whatever the stem and the name are
made of: the stem is the same in all refs, and a path is written with digits and dashes, so the
first underscore behind the stem and its own is the one behind the path. In the same way the
numbers of a path end where a dash comes, or the path.

So two elements have the same ref exactly if they have the same name and the same path
(`MiniTemplate.Forest.ref_eq_iff`). In one tree this is one element, since there a path
determines the address.
-/

namespace MiniTemplate

open Text

namespace RefStyle

/-! ### Paths as they are written -/

theorem isDigit_toString (k : Nat) : ∀ c ∈ (toString k).toList, c.isDigit := by
  intro c hc
  rw [Nat.toString_eq_repr, Nat.toList_repr] at hc
  exact Nat.isDigit_of_mem_toDigits (by omega) (by omega) hc

theorem toList_toString_ne_nil (k : Nat) : (toString k).toList ≠ [] := by
  rw [Nat.toString_eq_repr, Nat.toList_repr]
  exact Nat.toDigits_ne_nil

theorem toString_injective {j k : Nat} (h : (toString j).toList = (toString k).toList) :
    j = k := by
  rw [Nat.toString_eq_repr, Nat.toString_eq_repr, Nat.toList_repr, Nat.toList_repr] at h
  rw [← Nat.ofDigitChars_ten_toDigits (n := j), h, Nat.ofDigitChars_ten_toDigits]

@[simp] theorem toList_pathText_nil : (pathText []).toList = [] := by
  simp [pathText]

/-- What follows the first number of a path: nothing, or a dash and the rest. -/
def behindFirst (path : List Nat) : List Char :=
  if path = [] then [] else '-' :: (pathText path).toList

/-- **The first number of a path** is the digits it begins with. -/
theorem run_pathText (k : Nat) (path : List Nat) :
    Run Char.isDigit (pathText (k :: path)).toList (toString k).toList (behindFirst path) := by
  refine ⟨?_, isDigit_toString k, ?_⟩
  · cases path with
    | nil => simp [behindFirst, pathText_singleton]
    | cons j path => simp [behindFirst, pathText, String.intercalate_cons_cons]
  · intro c hc
    unfold behindFirst at hc
    split at hc
    · exact absurd hc (by simp)
    · obtain rfl : '-' = c := by simpa using hc
      decide

theorem pathText_injective {path path' : List Nat} (h : pathText path = pathText path') :
    path = path' := by
  have hnot : ∀ k ks, pathText [] ≠ pathText (k :: ks) := by
    intro k ks heq
    have hsplit := (run_pathText k ks).split
    rw [← heq, toList_pathText_nil] at hsplit
    exact toList_toString_ne_nil k (List.append_eq_nil_iff.mp hsplit.symm).1
  induction path generalizing path' with
  | nil =>
    cases path' with
    | nil => rfl
    | cons k ks => exact absurd h (hnot k ks)
  | cons j js ih =>
    cases path' with
    | nil => exact absurd h.symm (hnot j js)
    | cons k ks =>
      -- the two texts begin with the same digits, and go on in the same way behind them
      have hrun := run_pathText k ks
      rw [← h] at hrun
      obtain ⟨hdigits, hbehind⟩ := (run_pathText j js).unique hrun
      have hjk : j = k := toString_injective hdigits
      have hrest : js = ks := by
        unfold behindFirst at hbehind
        split at hbehind
        · rename_i hjs
          split at hbehind
          · rename_i hks
            rw [hjs, hks]
          · exact absurd hbehind (by simp)
        · split at hbehind
          · exact absurd hbehind (by simp)
          · exact ih (String.toList_inj.mp (List.cons.inj hbehind).2)
      rw [hjk, hrest]

/-- A path is written with digits and dashes. -/
theorem mem_pathText {path : List Nat} {c : Char} (h : c ∈ (pathText path).toList) :
    c.isDigit ∨ c = '-' := by
  induction path with
  | nil => exact absurd h (by simp)
  | cons k ks ih =>
    rw [(run_pathText k ks).split, List.mem_append] at h
    rcases h with h | h
    · exact Or.inl (isDigit_toString k c h)
    · unfold behindFirst at h
      split at h
      · exact absurd h (by simp)
      · rcases List.mem_cons.mp h with rfl | h
        · exact Or.inr rfl
        · exact ih h

theorem underscore_pathText (path : List Nat) : '_' ∉ (pathText path).toList := by
  intro h
  rcases mem_pathText h with h | h <;> exact absurd h (by decide)

/-! ### Values -/

/-- Behind its stem, a value goes on with the path up to the next underscore. -/
theorem run_value (r : RefStyle) (path : List Nat) (name : String) :
    ∃ t, (r.value path name).toList = (r.stem ++ "_").toList ++ t ∧
      Run (· != '_') t (pathText path).toList ('_' :: name.toList) := by
  refine ⟨(pathText path).toList ++ '_' :: name.toList, ?_, rfl, ?_, ?_⟩
  · simp [value]
  · intro c hc
    rw [bne_iff_ne]
    rintro rfl
    exact underscore_pathText path hc
  · exact stops_cons (by decide) _

/-- **A value can be taken apart.** -/
theorem value_inj (r : RefStyle) {path path' : List Nat} {name name' : String} :
    r.value path name = r.value path' name' ↔ path = path' ∧ name = name' := by
  constructor
  · intro h
    obtain ⟨t, ht, hrun⟩ := r.run_value path name
    obtain ⟨t', ht', hrun'⟩ := r.run_value path' name'
    rw [h, ht'] at ht
    obtain rfl : t' = t := List.append_cancel_left ht
    obtain ⟨hpath, hname⟩ := hrun.unique hrun'
    exact ⟨pathText_injective (String.toList_inj.mp hpath),
      String.toList_inj.mp (List.cons.inj hname).2⟩
  · rintro ⟨rfl, rfl⟩
    rfl

/-! ### Refs of nodes -/

/-- The value of the ref of a node, if it has one. -/
def ref? (r : RefStyle) (n : Node) : Option String :=
  (Attribute.find? n.attributes r.name).map Attribute.value

theorem find?_place (a : Attribute) (as : List Attribute) :
    Attribute.find? (place a as) a.name = some a := by
  rw [Attribute.find?, ← List.head?_filter, List.filter_reverse, filter_eq_place]
  rfl

end RefStyle

/-- The name of an element; other nodes have none. -/
def Node.name? : Node → Option String
  | element name _ _ _ _ => some name
  | text .. | comment .. => none

/-- A marked element has the ref of its path and its name. -/
theorem RefStyle.ref?_markNode (r : RefStyle) (path : List Nat) {n : Node} (hn : n.isElement) :
    ∃ name, (r.markNode path n).name? = some name ∧
      r.ref? (r.markNode path n) = some (r.value path name) := by
  cases n with
  | text _ _ => exact absurd hn (by simp [Node.isElement])
  | comment _ _ => exact absurd hn (by simp [Node.isElement])
  | element name as children selfClosing span =>
    refine ⟨name, rfl, ?_⟩
    have hfind := find?_place (attributeOf r.name (r.value path name)) as
    rw [name_attributeOf] at hfind
    rw [markNode, ref?, Node.attributes, attributes, hfind, Option.map_some, value_attributeOf]

namespace Forest

theorem exists_ref {r : RefStyle} {f : Forest} {i : Nat} {is : List Nat} {m : Node}
    (hm : (f.annotate r).node? i is = some m) (he : m.isElement) :
    ∃ name, m.name? = some name ∧
      r.ref? m = some (r.value (1 :: (f.annotate r).path i is) name) := by
  rw [path_annotate]
  rw [node?_annotate] at hm
  obtain ⟨n, -, rfl⟩ := Option.map_eq_some_iff.mp hm
  rw [r.isElement_markNode] at he
  exact r.ref?_markNode _ he

/-- **Refs identify.** Two elements of a forest with refs carry the same ref exactly if they have
the same name and the same path below the root of their tree. Two elements of one tree that
carry the same ref are one element. -/
theorem ref_eq_iff (r : RefStyle) (f : Forest) {i j : Nat} {is js : List Nat} {m n : Node}
    (hm : (f.annotate r).node? i is = some m) (hn : (f.annotate r).node? j js = some n)
    (em : m.isElement) (en : n.isElement) :
    ∃ u v, r.ref? m = some u ∧ r.ref? n = some v ∧
      (u = v ↔ m.name? = n.name? ∧ (f.annotate r).path i is = (f.annotate r).path j js) ∧
      (i = j → u = v → is = js) := by
  obtain ⟨a, ha, hu⟩ := exists_ref hm em
  obtain ⟨b, hb, hv⟩ := exists_ref hn en
  refine ⟨_, _, hu, hv, ?_, ?_⟩
  · rw [ha, hb, r.value_inj, List.cons.injEq, Option.some.injEq]
    tauto
  · rintro rfl heq
    obtain ⟨c, hc, hcm⟩ := exists_root hm
    obtain ⟨d, hd, hdn⟩ := exists_root hn
    obtain rfl : c = d := Option.some.inj (hc.symm.trans hd)
    obtain ⟨hpath, -⟩ := r.value_inj.mp heq
    rw [path_of_root hc, path_of_root hc] at hpath
    exact Node.pathTo_injective hcm hdn em en (List.cons.inj hpath).2

/-- Two trees of the same name, and a stem and names that look like parts of a ref: the two roots
carry the same ref, and the two elements of the name `b` in the first tree do not. -/
theorem ref_eq_iff_lookalikes :
    let r : RefStyle := ⟨"id", "x_1-1"⟩
    let f : Forest :=
      [.element "1_b" [] [.text "b" none,
          .element "1_b" [.plain "id" "b"] [.element "b" [] [] true none] false none,
          .element "b" [] [] true none] false none,
        .element "1_b" [] [] false none]
    (∃ m n u v, (f.annotate r).node? 0 [] = some m ∧ (f.annotate r).node? 1 [] = some n ∧
      r.ref? m = some u ∧ r.ref? n = some v ∧ u = v) ∧
    ∃ m n u v, (f.annotate r).node? 0 [1, 0] = some m ∧ (f.annotate r).node? 0 [2] = some n ∧
      m.name? = n.name? ∧ r.ref? m = some u ∧ r.ref? n = some v ∧ u ≠ v := by
  intro r f
  have hnode : ∀ i is n, f.node? i is = some n →
      (f.annotate r).node? i is = some (r.markNode (1 :: f.path i is) n) := by
    intro i is n hn
    rw [node?_annotate, hn, Option.map_some]
  constructor
  · obtain ⟨u, v, hu, hv, heq, -⟩ :=
      ref_eq_iff r f (hnode 0 [] _ rfl) (hnode 1 [] _ rfl) rfl rfl
    refine ⟨_, _, u, v, hnode 0 [] _ rfl, hnode 1 [] _ rfl, hu, hv, heq.mpr ⟨rfl, ?_⟩⟩
    rw [path_annotate, path_annotate]
    rfl
  · obtain ⟨u, v, hu, hv, -, hone⟩ :=
      ref_eq_iff r f (hnode 0 [1, 0] _ rfl) (hnode 0 [2] _ rfl) rfl rfl
    exact ⟨_, _, u, v, hnode 0 [1, 0] _ rfl, hnode 0 [2] _ rfl, rfl, hu, hv,
      fun h => absurd (hone rfl h) (by decide)⟩

end Forest

end MiniTemplate
