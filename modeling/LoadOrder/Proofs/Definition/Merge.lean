import LoadOrder.Proofs.Definition.Paths
import Mathlib.Tactic.SplitIfs

/-!
# Paths of merged trees

Definitions are collected by merging trees and by putting a tree below a name.  This file says which
paths come of it:

* `DefinitionTree.has_merge` : the paths of a merged tree are those of either tree;
* `DefinitionTree.has_insert` : those of a tree in which a name was inserted are the old ones and
  those that lead through the name into what was put below it.
-/

namespace LoadOrder

namespace Forest

variable {f g : Forest} {name n : String} {change : Forest → Forest} {path : List String}

theorem get?_alter (hf : f.Sorted) :
    (alter name change f).get? n =
      if n = name then some (change ((f.get? name).getD nil)) else f.get? n := by
  induction f with
  | nil => simp [alter, get?]
  | entry other nested rest _ ih =>
    by_cases hlt : name < other
    · -- the name comes before all others, so it was not there
      have hnone : (entry other nested rest).get? name = none := by
        rw [Option.eq_none_iff_forall_ne_some]
        intro below hbelow
        rcases List.mem_cons.1 (mem_names_of_get? hbelow) with rfl | hmem
        · exact String.lt_irrefl name hlt
        · exact String.lt_irrefl name (String.lt_trans hlt (hf.1 name hmem))
      rw [alter, if_pos hlt, get?, hnone]
      rfl
    by_cases heq : name = other
    · subst heq
      rw [alter, if_neg hlt, if_pos rfl, get?, get?, if_pos rfl, get?]
      split_ifs <;> rfl
    · rw [alter, if_neg hlt, if_neg heq, get?, ih hf.2.2, get?, if_neg heq, get?]
      split_ifs with hother hname
      · exact absurd (hname.symm.trans hother) heq
      · rfl
      · rfl
      · rfl

theorem sorted_getD_get? (hf : f.Sorted) : ((f.get? name).getD nil).Sorted := by
  cases hget : f.get? name with
  | none => exact trivial
  | some below => exact sorted_get? hf hget

theorem isSome_walk?_nil : ((nil : Forest).walk? path).isSome ↔ path = [] := by
  cases path <;> simp [walk?, get?]

theorem isSome_walk?_getD (hpath : path ≠ []) :
    (((f.get? n).getD nil).walk? path).isSome ↔ (f.walk? (n :: path)).isSome := by
  rw [walk?]
  cases f.get? n with
  | none => simpa [isSome_walk?_nil] using hpath
  | some below => rfl

theorem isSome_walk?_alter (hf : f.Sorted) :
    ((alter name change f).walk? (n :: path)).isSome ↔
      if n = name then ((change ((f.get? name).getD nil)).walk? path).isSome
      else (f.walk? (n :: path)).isSome := by
  rw [walk?, get?_alter hf]
  split_ifs <;> rfl

theorem walk?_entry_self {nested rest : Forest} :
    (entry name nested rest).walk? (name :: path) = nested.walk? path := by
  simp [walk?, get?]

/-- **The paths of a merged forest are those of either forest.** -/
theorem isSome_walk?_mergeInto (hf : f.Sorted) (hg : g.Sorted) :
    ((mergeInto f g).walk? path).isSome ↔ (f.walk? path).isSome ∨ (g.walk? path).isSome := by
  induction f generalizing g path with
  | nil =>
    rw [mergeInto, isSome_walk?_nil]
    refine ⟨Or.inr, ?_⟩
    rintro (rfl | h)
    · rfl
    · exact h
  | entry name nested rest ihNested ihRest =>
    have hchange : ∀ below : Forest, below.Sorted → (mergeInto nested below).Sorted :=
      fun _ h => sorted_mergeInto hf.2.1 h
    rw [mergeInto, ihRest hf.2.2 (sorted_alter hchange hg)]
    cases path with
    | nil => simp [walk?]
    | cons n path =>
      rw [isSome_walk?_alter hg]
      split_ifs with hn
      · subst hn
        have hrest : ¬ (rest.walk? (n :: path)).isSome := fun h => hf.ne_of_walk?_rest h rfl
        rw [ihNested hf.2.1 (sorted_getD_get? hg), walk?_entry_self, or_iff_right hrest]
        -- the end of the path is there as soon as the name is, with or without `g`
        by_cases hpath : path = []
        · subst hpath
          simp [walk?]
        · rw [isSome_walk?_getD hpath]
      · rw [walk?_entry_of_ne hn]

end Forest

namespace DefinitionTree

variable {t nested : DefinitionTree} {name : String} {path : List String}

/-- **The paths of a merged tree are those of either tree.** -/
theorem has_merge {a b : DefinitionTree} :
    (a.merge b).has path = true ↔ a.has path = true ∨ b.has path = true := by
  rw [has_iff, has_iff, has_iff, or_comm]
  exact Forest.isSome_walk?_mergeInto b.sorted a.sorted

@[simp] theorem has_nil : t.has [] = true := rfl

theorem has_insert : (t.insert name nested).has path = true ↔
    t.has path = true ∨ ∃ rest, path = name :: rest ∧ nested.has rest = true := by
  cases path with
  | nil => simp
  | cons first rest =>
    have hinsert : (t.insert name nested).forest =
        t.forest.alter name fun below => Forest.mergeInto nested.forest below := rfl
    rw [has_iff, hinsert, Forest.isSome_walk?_alter t.sorted]
    by_cases hfirst : first = name
    · subst hfirst
      rw [if_pos rfl, Forest.isSome_walk?_mergeInto nested.sorted
        (Forest.sorted_getD_get? t.sorted), ← has_iff]
      by_cases hrest : rest = []
      · simp [hrest]
      · rw [Forest.isSome_walk?_getD hrest, ← has_iff]
        simp [or_comm]
    · rw [if_neg hfirst, ← has_iff]
      simp [hfirst]

theorem has_insert_cons (h : nested.has path = true) :
    (t.insert name nested).has (name :: path) = true :=
  has_insert.2 (Or.inr ⟨path, rfl, h⟩)

end DefinitionTree

end LoadOrder
