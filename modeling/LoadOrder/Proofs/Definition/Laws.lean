import LoadOrder.Proofs.Definition.Merge

/-!
# Laws of merging

A definition tree is determined by its paths (`DefinitionTree.ext_has`), since the names at every
level are kept in order.  What merging and inserting do to the paths is known, so the laws of these
operations are facts about sets of paths:

* `DefinitionTree.merge_assoc`, `DefinitionTree.merge_comm`, `DefinitionTree.merge_self` and
  `DefinitionTree.empty_merge`;
* `DefinitionTree.insert_insert` : a namespace that is opened twice is the namespace opened once
  with what both openings define;
* `DefinitionTree.walk?_insertLeaf` : defining a name without contents leaves alone what is there.
-/

namespace LoadOrder

namespace Forest

variable {f g : Forest} {name other : String} {nested below rest more : Forest}

theorem Sorted.eq_or_lt_of_walk? (h : (entry other below more).Sorted)
    (hname : ((entry other below more).walk? [name]).isSome) : name = other ∨ other < name := by
  by_cases hne : name = other
  · exact Or.inl hne
  · rw [walk?_entry_of_ne hne] at hname
    exact Or.inr (h.lt_of_walk?_rest hname)

theorem isSome_walk?_entry_singleton : ((entry name nested rest).walk? [name]).isSome := by
  simp [walk?, get?]

/-- **A sorted forest is determined by its paths.** -/
theorem ext_walk? (hf : f.Sorted) (hg : g.Sorted)
    (h : ∀ path, (f.walk? path).isSome ↔ (g.walk? path).isSome) : f = g := by
  induction f generalizing g with
  | nil =>
    cases g with
    | nil => rfl
    | entry other below more =>
      have hnil := (h [other]).2 isSome_walk?_entry_singleton
      simp [walk?, get?] at hnil
  | entry name nested rest ihNested ihRest =>
    cases g with
    | nil =>
      have hnil := (h [name]).1 isSome_walk?_entry_singleton
      simp [walk?, get?] at hnil
    | entry other below more =>
      -- each first name is a name of the other forest, so neither comes before the other
      have hname : name = other := by
        rcases hg.eq_or_lt_of_walk? ((h [name]).1 isSome_walk?_entry_singleton) with heq | hlt
        · exact heq
        rcases hf.eq_or_lt_of_walk? ((h [other]).2 isSome_walk?_entry_singleton) with heq | hgt
        · exact heq.symm
        · exact absurd (String.lt_trans hlt hgt) (String.lt_irrefl other)
      subst hname
      have hnested : nested = below := by
        refine ihNested hf.2.1 hg.2.1 fun path => ?_
        have hpath := h (name :: path)
        rwa [walk?_entry_self, walk?_entry_self] at hpath
      have hrest : rest = more := by
        refine ihRest hf.2.2 hg.2.2 fun path => ?_
        cases path with
        | nil => simp [walk?]
        | cons first path =>
          by_cases hfirst : first = name
          · -- the rest of a sorted forest does not have the first name again
            have hno : ¬ (rest.walk? (first :: path)).isSome :=
              fun hsome => hf.ne_of_walk?_rest hsome hfirst
            have hno' : ¬ (more.walk? (first :: path)).isSome :=
              fun hsome => hg.ne_of_walk?_rest hsome hfirst
            exact iff_of_false hno hno'
          · have hpath := h (first :: path)
            rwa [walk?_entry_of_ne hfirst, walk?_entry_of_ne hfirst] at hpath
      rw [hnested, hrest]

end Forest

namespace DefinitionTree

variable {t a b c nested : DefinitionTree} {name : String} {path : List String}

/-- **A definition tree is determined by its paths.** -/
theorem ext_has (h : ∀ path, a.has path = true ↔ b.has path = true) : a = b := by
  have hforest : a.forest = b.forest :=
    Forest.ext_walk? a.sorted b.sorted fun path => by rw [← has_iff, ← has_iff, h]
  cases a
  cases b
  simpa using hforest

@[simp] theorem has_empty : (∅ : DefinitionTree).has path = true ↔ path = [] := by
  rw [has_iff]
  exact Forest.isSome_walk?_nil

theorem merge_assoc (a b c : DefinitionTree) : (a.merge b).merge c = a.merge (b.merge c) :=
  ext_has fun path => by simp only [has_merge, or_assoc]

theorem merge_comm (a b : DefinitionTree) : a.merge b = b.merge a :=
  ext_has fun path => by simp only [has_merge, or_comm]

theorem merge_self (t : DefinitionTree) : t.merge t = t :=
  ext_has fun path => by simp only [has_merge, or_self]

theorem empty_merge (t : DefinitionTree) : (∅ : DefinitionTree).merge t = t := by
  refine ext_has fun path => ?_
  rw [has_merge, has_empty, or_iff_right_of_imp]
  rintro rfl
  exact has_nil

/-- **Opening a namespace twice is opening it once** with what both openings define. -/
theorem insert_insert (t : DefinitionTree) (name : String) (a b : DefinitionTree) :
    (t.insert name a).insert name b = t.insert name (a.merge b) := by
  refine ext_has fun path => ?_
  simp only [has_insert, has_merge]
  constructor
  · rintro ((h | ⟨rest, rfl, h⟩) | ⟨rest, rfl, h⟩)
    · exact Or.inl h
    · exact Or.inr ⟨rest, rfl, Or.inl h⟩
    · exact Or.inr ⟨rest, rfl, Or.inr h⟩
  · rintro (h | ⟨rest, rfl, h | h⟩)
    · exact Or.inl (Or.inl h)
    · exact Or.inl (Or.inr ⟨rest, rfl, h⟩)
    · exact Or.inr ⟨rest, rfl, h⟩

theorem merge_insert_empty (t : DefinitionTree) (name : String) (a : DefinitionTree) :
    t.merge (insert ∅ name a) = t.insert name a := by
  refine ext_has fun path => ?_
  have hnil : path = [] → t.has path = true := by
    rintro rfl
    exact has_nil
  rw [has_merge, has_insert, has_insert, has_empty, ← or_assoc, or_iff_left_of_imp hnil]

theorem insert_merge_insert (name : String) (a b : DefinitionTree) :
    (insert ∅ name a).merge (insert ∅ name b) = insert ∅ name (a.merge b) := by
  rw [merge_insert_empty, insert_insert]

/-! ### Names without contents -/

theorem insertLeaf_eq (t : DefinitionTree) (name : String) : t.insertLeaf name = t.insert name ∅ :=
  rfl

theorem has_insertLeaf :
    (t.insertLeaf name).has path = true ↔ t.has path = true ∨ path = [name] := by
  simp [insertLeaf_eq, has_insert]

theorem get?_insertLeaf {other : String} {below : DefinitionTree} (h : t.get? other = some below) :
    (t.insertLeaf name).get? other = some below := by
  have hforest : ((t.insertLeaf name).get? other).map forest = some below.forest := by
    have hold : t.forest.get? other = some below.forest := by rw [← forest_get?, h]; rfl
    rw [forest_get?, insertLeaf, Forest.get?_alter t.sorted]
    split_ifs with hother
    · rw [← hother, hold]; rfl
    · exact hold
  obtain ⟨found, hfound, heq⟩ := Option.map_eq_some_iff.1 hforest
  rw [hfound]
  cases found
  cases below
  simpa using heq

/-- **A name without contents takes nothing away**: what was below a path is still there, all of it
and nothing else. -/
theorem walk?_insertLeaf {below : DefinitionTree} (hpath : path ≠ [])
    (h : t.walk? path = some below) : (t.insertLeaf name).walk? path = some below := by
  obtain ⟨first, rest, rfl⟩ := List.exists_cons_of_ne_nil hpath
  obtain ⟨found, hfound, hrest⟩ := Option.bind_eq_some_iff.1 h
  rw [walk?, get?_insertLeaf hfound]
  exact hrest

end DefinitionTree

end LoadOrder
