import LoadOrder.Proofs.Definition.Laws
import Mathlib.Data.Set.Card

/-!
# A definition tree as a set of paths

Merging, inserting and counting are recursions over nested maps.  Seen through the set of its paths
a tree has no nesting any more: merging is union, inserting adds the paths that start with a name,
and the number of definitions is the number of paths.  Nothing is lost that way
(`DefinitionTree.pathSet_injective`), so the laws of trees are those of sets.
-/

namespace LoadOrder

namespace DefinitionTree

variable {t : DefinitionTree} {path : List String}

/-- The paths of a tree: the lists of at least one name along which one can go down. -/
def pathSet (t : DefinitionTree) : Set (List String) := {path | path ≠ [] ∧ t.has path = true}

theorem mem_pathSet : path ∈ t.pathSet ↔ path ≠ [] ∧ t.has path = true := Iff.rfl

/-- **Merging is union.** -/
theorem pathSet_merge (a b : DefinitionTree) : (a.merge b).pathSet = a.pathSet ∪ b.pathSet := by
  ext path
  rw [Set.mem_union, mem_pathSet, mem_pathSet, mem_pathSet, has_merge, and_or_left]

/-- **A tree is determined by its set of paths.** -/
theorem pathSet_injective : Function.Injective pathSet := by
  intro a b h
  refine ext_has fun path => ?_
  -- every tree has the empty path, which is in no set
  by_cases hpath : path = []
  · simp [hpath]
  · have hiff : path ∈ a.pathSet ↔ path ∈ b.pathSet := by rw [h]
    simpa [mem_pathSet, hpath] using hiff

theorem pathSet_insertLeaf (t : DefinitionTree) (name : String) :
    (t.insertLeaf name).pathSet = t.pathSet ∪ {[name]} := by
  ext path
  rw [Set.mem_union, Set.mem_singleton_iff, mem_pathSet, mem_pathSet, has_insertLeaf]
  constructor
  · rintro ⟨hne, h | h⟩
    · exact Or.inl ⟨hne, h⟩
    · exact Or.inr h
  · rintro (⟨hne, h⟩ | rfl)
    · exact ⟨hne, Or.inl h⟩
    · exact ⟨by simp, Or.inr rfl⟩

theorem pathSet_eq (t : DefinitionTree) : t.pathSet = {path | path ∈ t.forest.pathList} :=
  Set.ext fun _ => mem_pathList_iff.symm

/-- **A tree has as many definitions as paths.** -/
theorem encard_pathSet (t : DefinitionTree) : t.pathSet.encard = t.total := by
  have hcard : t.forest.pathList.toFinset.card = t.total := by
    rw [List.toFinset_card_of_nodup (Forest.nodup_pathList t.sorted), Forest.length_pathList, total]
  rw [pathSet_eq, ← List.coe_toFinset, Set.encard_coe_eq_coe_finsetCard, hcard]

/-- **Definition trees are sets of paths.**  Merging is their union and a tree is nothing more than
its set, so that merging is a join with the empty tree at the bottom, and opening a namespace twice
is opening it once with what both openings hold.  A name without contents adds itself, and what was
below any path stays as it was.  The definitions of a tree are as many as its paths. -/
theorem merge_unites_paths :
    (∀ a b : DefinitionTree, (a.merge b).pathSet = a.pathSet ∪ b.pathSet) ∧
    (∀ a b : DefinitionTree, a.pathSet = b.pathSet → a = b) ∧
    (∀ a b c : DefinitionTree, (a.merge b).merge c = a.merge (b.merge c)) ∧
    (∀ a b : DefinitionTree, a.merge b = b.merge a) ∧
    (∀ a : DefinitionTree, a.merge a = a ∧ a.merge ∅ = a ∧ (∅ : DefinitionTree).merge a = a) ∧
    (∀ (t : DefinitionTree) (name : String) (a b : DefinitionTree),
      (t.insert name a).insert name b = t.insert name (a.merge b)) ∧
    (∀ (t : DefinitionTree) (name : String),
      (t.insertLeaf name).pathSet = t.pathSet ∪ {[name]} ∧
      ∀ path below, path ≠ [] → t.walk? path = some below →
        (t.insertLeaf name).walk? path = some below) ∧
    ∀ t : DefinitionTree, t.pathSet.encard = t.total := by
  refine ⟨pathSet_merge, fun a b h => pathSet_injective h, merge_assoc, merge_comm, fun a => ?_,
    insert_insert, fun t name => ?_, encard_pathSet⟩
  · exact ⟨merge_self a, (merge_comm a ∅).trans (empty_merge a), empty_merge a⟩
  · exact ⟨pathSet_insertLeaf t name, fun path below hpath h => walk?_insertLeaf hpath h⟩

/-- A namespace that is opened twice, and then named once more. -/
theorem merge_unites_paths_reopened :
    let first : DefinitionTree := insertLeaf ∅ "A"
    let second : DefinitionTree := insertLeaf ∅ "B"
    let tree := (insert ∅ "Outer" first).insert "Outer" second
    tree = insert ∅ "Outer" (second.merge first) ∧ tree.pathSet.encard = 3 ∧
      (tree.insertLeaf "Outer").walk? ["Outer"] = some (second.merge first) ∧
      tree.insertLeaf "Outer" = tree := by
  intro first second tree
  obtain ⟨-, hext, -, hcomm, -, hinsert, hleaf, htotal⟩ := merge_unites_paths
  obtain ⟨hset, hkept⟩ := hleaf tree "Outer"
  have hwalk : tree.walk? ["Outer"] = some (second.merge first) := by decide
  have hpath : ["Outer"] ∈ tree.pathSet := ⟨by simp, by decide⟩
  refine ⟨?_, htotal tree, hkept _ _ (by simp) hwalk, hext _ _ ?_⟩
  · rw [hcomm second first]
    exact hinsert ∅ "Outer" first second
  · rw [hset, Set.union_eq_self_of_subset_right (Set.singleton_subset_iff.2 hpath)]

end DefinitionTree

end LoadOrder
