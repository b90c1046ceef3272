import LoadOrder.Ordered.NameSet

/-!
# Maps keyed by names, in increasing order of their keys

A `NameMap` is the list of its entries with strictly increasing keys.  As for sets, a map is
determined by its look-ups (`NameMap.ext_get?`).
-/

namespace LoadOrder

/-- A finite map from names to values. -/
structure NameMap (β : Type) where
  entries : List (String × β)
  sorted : (entries.map Prod.fst).Pairwise (· < ·)

namespace NameMap

variable {β : Type}

/-- The value at a key. -/
def lookupList (k : String) : List (String × β) → Option β
  | [] => none
  | (k', v) :: rest => if k = k' then some v else lookupList k rest

/-- Changes the value at a key of an increasing list of entries; `f` is given the old value. -/
def alterList (k : String) (f : Option β → β) : List (String × β) → List (String × β)
  | [] => [(k, f none)]
  | (k', v) :: rest =>
    if k < k' then (k, f none) :: (k', v) :: rest
    else if k = k' then (k', f (some v)) :: rest
    else (k', v) :: alterList k f rest

theorem keys_alterList (k : String) (f : Option β → β) (l : List (String × β)) :
    (alterList k f l).map Prod.fst = NameSet.insertList k (l.map Prod.fst) := by
  induction l with
  | nil => rfl
  | cons e rest ih =>
    obtain ⟨k', v⟩ := e
    simp only [alterList, List.map_cons, NameSet.insertList]
    split
    · rfl
    · split
      · rfl
      · simp [ih]

theorem lookupList_eq_none {k : String} {l : List (String × β)} (h : k ∉ l.map Prod.fst) :
    lookupList k l = none := by
  induction l with
  | nil => rfl
  | cons e rest ih =>
    obtain ⟨k', v⟩ := e
    simp only [List.map_cons, List.mem_cons, not_or] at h
    simp [lookupList, h.1, ih h.2]

theorem lookupList_alterList {k j : String} {f : Option β → β} {l : List (String × β)}
    (h : (l.map Prod.fst).Pairwise (· < ·)) :
    lookupList j (alterList k f l) =
      if j = k then some (f (lookupList k l)) else lookupList j l := by
  induction l with
  | nil => simp [alterList, lookupList]
  | cons e rest ih =>
    obtain ⟨k', v⟩ := e
    simp only [List.map_cons, List.pairwise_cons] at h
    simp only [alterList]
    split
    · rename_i hlt
      have hk : lookupList k ((k', v) :: rest) = none := by
        refine lookupList_eq_none ?_
        simp only [List.map_cons, List.mem_cons, not_or]
        refine ⟨fun he => String.lt_irrefl k (he ▸ hlt), fun hm => ?_⟩
        exact String.lt_irrefl k (String.lt_trans hlt (h.1 k hm))
      rw [hk]
      simp [lookupList]
    · split
      · rename_i hk
        subst hk
        by_cases hj : j = k <;> simp [lookupList, hj]
      · rename_i hne
        rw [lookupList, ih h.2]
        by_cases hj : j = k
        · subst hj
          simp [lookupList, hne]
        · simp [lookupList, hj]

theorem sorted_nil : (([] : List (String × β)).map Prod.fst).Pairwise (· < ·) := List.Pairwise.nil

/-- The empty map. -/
def empty : NameMap β := ⟨[], sorted_nil⟩

instance : EmptyCollection (NameMap β) := ⟨empty⟩

instance : Inhabited (NameMap β) := ⟨∅⟩

/-- The value at a key. -/
def get? (m : NameMap β) (k : String) : Option β := lookupList k m.entries

/-- Changes the value at a key; `f` is given the old value, if there was one. -/
def alter (m : NameMap β) (k : String) (f : Option β → β) : NameMap β :=
  ⟨alterList k f m.entries, by
    rw [keys_alterList]
    exact NameSet.sorted_insertList m.sorted⟩

/-- The keys, in increasing order. -/
def keys (m : NameMap β) : NameSet := ⟨m.entries.map Prod.fst, m.sorted⟩

def contains (m : NameMap β) (k : String) : Bool := (m.get? k).isSome

/-- The number of entries. -/
def size (m : NameMap β) : Nat := m.entries.length

def isEmpty (m : NameMap β) : Bool := m.entries.isEmpty

@[simp]
theorem get?_empty (k : String) : (∅ : NameMap β).get? k = none := rfl

theorem get?_alter (m : NameMap β) (k j : String) (f : Option β → β) :
    (m.alter k f).get? j = if j = k then some (f (m.get? k)) else m.get? j :=
  lookupList_alterList m.sorted

theorem lookupList_isSome {k : String} {l : List (String × β)} :
    (lookupList k l).isSome ↔ k ∈ l.map Prod.fst := by
  induction l with
  | nil => simp [lookupList]
  | cons e rest ih =>
    obtain ⟨k', v⟩ := e
    simp only [lookupList, List.map_cons, List.mem_cons]
    split
    · rename_i h; simp [h]
    · rename_i h; simp [h, ih]

theorem mem_keys {m : NameMap β} {k : String} : k ∈ m.keys ↔ (m.get? k).isSome :=
  lookupList_isSome.symm

theorem mem_keys_alter {m : NameMap β} {k j : String} {f : Option β → β} :
    j ∈ (m.alter k f).keys ↔ j = k ∨ j ∈ m.keys := by
  show j ∈ (alterList k f m.entries).map Prod.fst ↔ j = k ∨ j ∈ m.entries.map Prod.fst
  rw [keys_alterList, NameSet.mem_insertList]

/-- An entry is listed exactly when looking up its key gives its value. -/
theorem mem_entries {m : NameMap β} {k : String} {v : β} :
    (k, v) ∈ m.entries ↔ m.get? k = some v := by
  obtain ⟨l, hl⟩ := m
  show (k, v) ∈ l ↔ lookupList k l = some v
  induction l with
  | nil => simp [lookupList]
  | cons e rest ih =>
    obtain ⟨k', v'⟩ := e
    simp only [List.map_cons, List.pairwise_cons] at hl
    simp only [List.mem_cons, Prod.mk.injEq, lookupList]
    split
    · rename_i hk
      subst hk
      constructor
      · rintro (⟨-, rfl⟩ | h)
        · rfl
        · exact absurd (hl.1 k (List.mem_map.mpr ⟨_, h, rfl⟩)) (String.lt_irrefl k)
      · intro h
        exact Or.inl ⟨rfl, (Option.some.inj h).symm⟩
    · rename_i hk
      simp [hk, ih hl.2]

/-- Entries with the same increasing keys and the same look-ups are the same. -/
theorem eq_of_keys_eq {l r : List (String × β)} (hl : (l.map Prod.fst).Pairwise (· < ·))
    (hkeys : l.map Prod.fst = r.map Prod.fst)
    (h : ∀ k, lookupList k l = lookupList k r) : l = r := by
  induction l generalizing r with
  | nil =>
    cases r with
    | nil => rfl
    | cons e r => simp at hkeys
  | cons e l ih =>
    obtain ⟨k, v⟩ := e
    cases r with
    | nil => simp at hkeys
    | cons e' r =>
      obtain ⟨k', v'⟩ := e'
      simp only [List.map_cons, List.cons.injEq] at hkeys
      simp only [List.map_cons, List.pairwise_cons] at hl
      obtain ⟨rfl, hkeys⟩ := hkeys
      have hv : v = v' := by simpa [lookupList] using h k
      subst hv
      refine congrArg _ (ih hl.2 hkeys fun j => ?_)
      by_cases hj : j = k
      · subst hj
        have hnot : j ∉ l.map Prod.fst := fun hm => String.lt_irrefl j (hl.1 j hm)
        rw [lookupList_eq_none hnot, lookupList_eq_none (hkeys ▸ hnot)]
      · simpa [lookupList, hj] using h j

/-- A map is determined by its look-ups. -/
theorem ext_get? {m n : NameMap β} (h : ∀ k, m.get? k = n.get? k) : m = n := by
  have hkeys : m.keys = n.keys := NameSet.ext_mem fun k => by rw [mem_keys, mem_keys, h]
  have key : m.entries = n.entries := eq_of_keys_eq m.sorted (congrArg NameSet.toList hkeys) h
  cases m
  cases n
  subst key
  rfl

end NameMap

end LoadOrder
