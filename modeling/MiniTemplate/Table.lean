/-!
# Tables with remembered order

A table maps names to values. Giving a name a second value replaces the first one
*in its place*: the order of a table is the order in which its names first came,
and its values are the last ones given. That order shows wherever a table is
written out, so it belongs to the type.
-/

namespace MiniTemplate

/-- A table from names to values, in the order of the names' first insertion. -/
structure Table (α : Type) where
  entries : List (String × α)
  deriving DecidableEq, Repr

namespace Table

variable {α : Type}

/-- The table without entries. -/
def empty : Table α := ⟨[]⟩

/-- Give a name a value in a list of entries: in its place if it is there, at the
end if not. -/
def put (key : String) (value : α) : List (String × α) → List (String × α)
  | [] => [(key, value)]
  | (k, v) :: es => if k = key then (key, value) :: es else (k, v) :: put key value es

/-- Give a name a value. -/
def insert (t : Table α) (key : String) (value : α) : Table α := ⟨put key value t.entries⟩

/-- Give several names their values, one after the other. -/
def insertAll (t : Table α) (es : List (String × α)) : Table α :=
  es.foldl (fun t e => t.insert e.1 e.2) t

/-- The table of a list of pairs. -/
def ofList (es : List (String × α)) : Table α := empty.insertAll es

/-- The value of a name. -/
def get? (t : Table α) (key : String) : Option α :=
  (t.entries.find? fun e => e.1 == key).map (·.2)

/-- The value of a name, or a value for names that have none. -/
def getD (t : Table α) (key : String) (default : α) : α := (t.get? key).getD default

/-- The names, in order. -/
def keys (t : Table α) : List String := t.entries.map (·.1)

/-- The number of names. -/
def size (t : Table α) : Nat := t.entries.length

/-! ### Where entries come from -/

variable {t : Table α} {key : String} {value : α} {e : String × α} {es : List (String × α)}

theorem mem_put (h : e ∈ put key value es) : e = (key, value) ∨ e ∈ es := by
  fun_induction put key value es with
  | case1 => exact Or.inl (List.mem_singleton.mp h)
  | case2 v es =>
    rcases List.mem_cons.mp h with rfl | h
    · exact Or.inl rfl
    · exact Or.inr (List.mem_cons_of_mem _ h)
  | case3 k v es hk ih =>
    rcases List.mem_cons.mp h with rfl | h
    · exact Or.inr List.mem_cons_self
    · exact (ih h).imp_right (List.mem_cons_of_mem _)

theorem mem_insertAll (h : e ∈ (t.insertAll es).entries) : e ∈ t.entries ∨ e ∈ es := by
  induction es generalizing t with
  | nil => exact Or.inl h
  | cons x es ih =>
    rcases ih h with h | h
    · rcases mem_put h with rfl | h
      · exact Or.inr List.mem_cons_self
      · exact Or.inl h
    · exact Or.inr (List.mem_cons_of_mem _ h)

theorem mem_ofList (h : e ∈ (ofList es).entries) : e ∈ es := by
  rcases mem_insertAll h with h | h
  · exact absurd h List.not_mem_nil
  · exact h

theorem mem_of_get? (h : t.get? key = some value) : (key, value) ∈ t.entries := by
  obtain ⟨⟨k, v⟩, he, rfl⟩ := Option.map_eq_some_iff.mp h
  obtain rfl : k = key := by simpa using List.find?_some he
  exact List.mem_of_find?_eq_some he

/-- What holds of all values of a table, and of the one for names that have none, holds of every
value that is looked up. -/
theorem getD_of_forall {P : α → Prop} (t : Table α) (ht : ∀ e ∈ t.entries, P e.2)
    (key : String) {default : α} (hdefault : P default) : P (t.getD key default) := by
  rw [getD]
  cases h : t.get? key with
  | none => exact hdefault
  | some v => exact ht _ (mem_of_get? h)

/-! ### Which names there are -/

theorem keys_put (key : String) (value : α) (es : List (String × α)) :
    (put key value es).map (·.1) =
      if key ∈ es.map (·.1) then es.map (·.1) else es.map (·.1) ++ [key] := by
  fun_induction put key value es with
  | case1 => simp
  | case2 v es => simp
  | case3 k v es hk ih =>
    have hne : key ≠ k := Ne.symm hk
    by_cases hes : key ∈ es.map (·.1)
    · rw [if_pos hes] at ih
      rw [List.map_cons, ih, List.map_cons, if_pos (List.mem_cons_of_mem _ hes)]
    · rw [if_neg hes] at ih
      rw [List.map_cons, ih, List.map_cons, if_neg, List.cons_append]
      rw [List.mem_cons]
      rintro (h | h)
      · exact hne h
      · exact hes h

theorem keys_insert (t : Table α) (key : String) (value : α) :
    (t.insert key value).keys = if key ∈ t.keys then t.keys else t.keys ++ [key] :=
  keys_put key value t.entries

theorem mem_keys_insertAll {k : String} :
    k ∈ (t.insertAll es).keys ↔ k ∈ t.keys ∨ k ∈ es.map (·.1) := by
  induction es generalizing t with
  | nil => simp [insertAll]
  | cons x es ih =>
    change k ∈ ((t.insert x.1 x.2).insertAll es).keys ↔ _
    rw [ih, keys_insert, List.map_cons, List.mem_cons]
    split
    · rename_i hx
      constructor
      · rintro (h | h)
        · exact Or.inl h
        · exact Or.inr (Or.inr h)
      · rintro (h | rfl | h)
        · exact Or.inl h
        · exact Or.inl hx
        · exact Or.inr h
    · rw [List.mem_append, List.mem_singleton, or_assoc]

theorem nodup_keys_insertAll (h : t.keys.Nodup) : (t.insertAll es).keys.Nodup := by
  induction es generalizing t with
  | nil => exact h
  | cons x es ih =>
    refine ih ?_
    rw [keys_insert]
    split
    · exact h
    · rename_i hx
      refine List.nodup_append.mpr ⟨h, List.nodup_cons.mpr ⟨by simp, List.nodup_nil⟩, ?_⟩
      rintro a ha b hb rfl
      exact hx (List.mem_singleton.mp hb ▸ ha)

theorem mem_keys_ofList {k : String} : k ∈ (ofList es).keys ↔ k ∈ es.map (·.1) := by
  rw [ofList, mem_keys_insertAll]
  simp [empty, keys]

/-- **A table has each of its names once.** -/
theorem nodup_keys_ofList (es : List (String × α)) : (ofList es).keys.Nodup :=
  nodup_keys_insertAll List.nodup_nil

/-- A name has a value exactly if it is one of the names. -/
theorem isSome_get?_iff (t : Table α) (key : String) : (t.get? key).isSome ↔ key ∈ t.keys := by
  simp [get?, keys]

/-! ### What is looked up -/

theorem find?_put (key : String) (value : α) (es : List (String × α)) (k : String) :
    (put key value es).find? (fun e => e.1 == k) =
      if key = k then some (key, value) else es.find? fun e => e.1 == k := by
  fun_induction put key value es with
  | case1 =>
    by_cases hk : key = k <;> simp [hk]
  | case2 v es =>
    by_cases hk : key = k <;> simp [hk]
  | case3 j v es hj ih =>
    rw [List.find?_cons, List.find?_cons, ih]
    by_cases hk : key = k
    · have hne : (j == k) = false := by simpa [← hk] using hj
      simp [hk, hne]
    · simp [hk]

theorem get?_insert (t : Table α) (key : String) (value : α) (k : String) :
    (t.insert key value).get? k = if key = k then some value else t.get? k := by
  rw [get?, insert, find?_put]
  split <;> rfl

theorem get?_insertAll (t : Table α) (es : List (String × α)) (k : String) :
    (t.insertAll es).get? k =
      ((es.reverse.find? fun e => e.1 == k).map (·.2)).or (t.get? k) := by
  induction es generalizing t with
  | nil => rfl
  | cons x es ih =>
    change ((t.insert x.1 x.2).insertAll es).get? k = _
    rw [ih, get?_insert, List.reverse_cons, List.find?_append]
    cases es.reverse.find? fun e => e.1 == k with
    | some e => rfl
    | none => by_cases hk : x.1 = k <;> simp [hk]

/-- **The last value of a name** is the one that is looked up. -/
theorem get?_ofList (es : List (String × α)) (k : String) :
    (ofList es).get? k = (es.reverse.find? fun e => e.1 == k).map (·.2) := by
  rw [ofList, get?_insertAll]
  exact Option.or_none

/-! ### Tables from entries with different names -/

theorem put_of_not_mem (h : key ∉ es.map (·.1)) : put key value es = es ++ [(key, value)] := by
  fun_induction put key value es with
  | case1 => rfl
  | case2 v es => exact absurd List.mem_cons_self h
  | case3 k v es hk ih =>
    rw [ih fun hes => h (List.mem_cons_of_mem _ hes)]
    rfl

theorem entries_insertAll (h : (t.keys ++ es.map (·.1)).Nodup) :
    (t.insertAll es).entries = t.entries ++ es := by
  induction es generalizing t with
  | nil => exact (List.append_nil _).symm
  | cons x es ih =>
    have hx : x.1 ∉ t.keys := fun hx =>
      (List.nodup_append.mp h).2.2 x.1 hx x.1 List.mem_cons_self rfl
    have hput : (t.insert x.1 x.2).entries = t.entries ++ [x] := put_of_not_mem hx
    change ((t.insert x.1 x.2).insertAll es).entries = _
    rw [ih, hput, List.append_assoc, List.singleton_append]
    rwa [keys, hput, List.map_append, List.append_assoc]

/-- **Different names keep their order**: the entries are those that were given. -/
theorem entries_ofList (h : (es.map (·.1)).Nodup) : (ofList es).entries = es :=
  entries_insertAll h

theorem ofList_entries (h : t.keys.Nodup) : ofList t.entries = t :=
  congrArg mk (entries_ofList h)

theorem get?_eq_some_iff (h : t.keys.Nodup) :
    t.get? key = some value ↔ (key, value) ∈ t.entries := by
  refine ⟨mem_of_get?, fun hmem => ?_⟩
  obtain ⟨l, r, hsplit⟩ := List.append_of_mem hmem
  rw [get?, hsplit, List.find?_append, List.find?_eq_none.mpr]
  · simp
  · intro e he hkey
    rw [keys, hsplit, List.map_append, List.nodup_append] at h
    exact h.2.2 e.1 (List.mem_map_of_mem he) key (by simp) (by simpa using hkey)

/-- **A table put over another**: its own names have their values, and all others are left. -/
theorem get?_insertAll_entries {u : Table α} (h : u.keys.Nodup) (t : Table α) (k : String) :
    (t.insertAll u.entries).get? k = (u.get? k).or (t.get? k) := by
  rw [get?_insertAll, ← get?_ofList, ofList_entries h]

/-! ### The entries of some names -/

theorem filter_put (p : String → Bool) (key : String) (value : α) (es : List (String × α)) :
    (put key value es).filter (fun e => p e.1) =
      if p key then put key value (es.filter fun e => p e.1) else es.filter fun e => p e.1 := by
  fun_induction put key value es with
  | case1 => by_cases hp : p key <;> simp [hp, put]
  | case2 v es => by_cases hp : p key <;> simp [hp, put]
  | case3 k v es hk ih =>
    rw [List.filter_cons, List.filter_cons, ih]
    by_cases hpk : p k <;> by_cases hp : p key <;> simp [hpk, hp, hk, put]

theorem filter_insertAll (p : String → Bool) (t : Table α) (es : List (String × α)) :
    (t.insertAll es).entries.filter (fun e => p e.1) =
      (insertAll ⟨t.entries.filter fun e => p e.1⟩ (es.filter fun e => p e.1)).entries := by
  induction es generalizing t with
  | nil => rfl
  | cons x es ih =>
    change ((t.insert x.1 x.2).insertAll es).entries.filter _ = _
    rw [ih, insert, filter_put, List.filter_cons]
    split
    · rfl
    · rfl

/-- **The entries of some names** are those of the table that has no others: what is given to other
names in between does not show. -/
theorem filter_ofList (p : String → Bool) (es : List (String × α)) :
    (ofList es).entries.filter (fun e => p e.1) = (ofList (es.filter fun e => p e.1)).entries :=
  filter_insertAll p empty es

end Table

end MiniTemplate
