import LoadOrder.Proofs.ByteOrder
import LoadOrder.Proofs.Definition.Paths
import Mathlib.Data.List.Lex
import Mathlib.Data.List.Sort

/-!
# The order of the listed definitions

A definition tree is handed on as a flat list: every path as one string, with the file that defines
it.  The list is the pre-order of the tree.  A path stands behind all paths that lead to it and
right before all that lead on from it, and what starts with a smaller name stands before what starts
with a larger one.

All of that is about paths, which are listed in increasing order (`Forest.pairwise_pathList`):

* `Forest.exists_pathList_eq` : the paths below a path are listed right behind it;
* `DefinitionTree.inPreorder_map_pathList` : whatever is written for the paths is in pre-order;
* `DefinitionTree.flatten_in_preorder` : hence the list of definitions is, and no two of its strings
  are equal if no name has a colon.

The order is not that of the strings.  The string of `A0` comes before the one of `A::B`, but `A::B`
is listed first, since it starts with `A`.
-/

namespace LoadOrder

namespace Forest

variable {f g : Forest} {path p q : List String}

theorem pair_sublist_pathList (hf : f.Sorted) (hp : p ∈ f.pathList) (hq : q ∈ f.pathList)
    (h : List.Lex (· < ·) p q) : [p, q].Sublist f.pathList := by
  have hne : p ≠ q := by
    rintro rfl
    exact List.lex_irrefl String.lt_irrefl p h
  have hsubperm : [p, q].Subperm f.pathList :=
    List.subperm_of_subset (by simpa using hne) (by simp [hp, hq])
  exact List.sublist_of_subperm_of_pairwise hsubperm (by simpa using h) (pairwise_pathList hf)

/-- **The paths below a path are listed right behind it.** -/
theorem exists_pathList_eq (hpath : path ≠ []) (h : f.walk? path = some g) :
    ∃ before after, f.pathList = before ++ path :: (g.pathList.map (path ++ ·) ++ after) := by
  induction f generalizing path with
  | nil =>
    obtain ⟨name, path, rfl⟩ := List.exists_cons_of_ne_nil hpath
    simp [walk?, get?] at h
  | entry other nested rest ihNested ihRest =>
    obtain ⟨name, path, rfl⟩ := List.exists_cons_of_ne_nil hpath
    by_cases hname : name = other
    · subst hname
      simp only [walk?, get?, if_pos, Option.bind_some] at h
      by_cases hend : path = []
      · subst hend
        cases h
        exact ⟨[], rest.pathList, rfl⟩
      · obtain ⟨before, after, heq⟩ := ihNested hend h
        refine ⟨[name] :: before.map (name :: ·), after.map (name :: ·) ++ rest.pathList, ?_⟩
        simp [pathList, heq]
    · rw [walk?_entry_of_ne hname] at h
      obtain ⟨before, after, heq⟩ := ihRest hpath h
      refine ⟨[other] :: (nested.pathList.map (other :: ·) ++ before), after, ?_⟩
      simp [pathList, heq]

end Forest

namespace DefinitionTree

variable {α : Type} {t below : DefinitionTree} {label : List String → α} {path p q : List String}

/-- The outer string and the names of a path, joined by double colons. -/
def joined (outer : String) (path : List String) : String :=
  outer ++ "::" ++ "::".intercalate path

/-- The list has what `label` makes of the paths of the tree, in pre-order.  That one entry comes
before another is said by the pair of them being a sublist. -/
structure InPreorder (t : DefinitionTree) (label : List String → α) (l : List α) : Prop where
  /-- A path comes after all its proper ancestors. -/
  ancestors_before : ∀ path rest, path ≠ [] → rest ≠ [] → t.has (path ++ rest) = true →
    [label path, label (path ++ rest)].Sublist l
  /-- Right behind a path stand all paths below it, before any other. -/
  descendants_next : ∀ path, path ≠ [] → t.has path = true →
    ∃ before inside after, l = before ++ label path :: (inside ++ after) ∧
      ∀ e, e ∈ inside ↔
        ∃ rest, rest ≠ [] ∧ t.has (path ++ rest) = true ∧ e = label (path ++ rest)
  /-- Of two names in one namespace, the one whose bytes come first comes first, and with it all
  that is below it. -/
  siblings_by_bytes : ∀ stem m n p q, Utf8.encode m < Utf8.encode n →
    t.has (stem ++ m :: p) = true → t.has (stem ++ n :: q) = true →
    [label (stem ++ m :: p), label (stem ++ n :: q)].Sublist l

theorem walk?_append (t : DefinitionTree) (p q : List String) :
    t.walk? (p ++ q) = (t.walk? p).bind (·.walk? q) := by
  induction p generalizing t with
  | nil => rfl
  | cons name p ih =>
    rw [List.cons_append, walk?, walk?, Option.bind_assoc]
    exact congrArg _ (funext fun below => ih below)

theorem has_append (h : t.walk? p = some below) : t.has (p ++ q) = below.has q := by
  rw [has, walk?_append, h]
  rfl

theorem has_of_has_append (h : t.has (p ++ q) = true) : t.has p = true := by
  rw [has, walk?_append] at h
  exact Option.isSome_of_isSome_bind h

theorem pair_sublist_map_pathList (hp : p ≠ [] ∧ t.has p = true) (hq : q ≠ [] ∧ t.has q = true)
    (h : List.Lex (· < ·) p q) : [label p, label q].Sublist (t.forest.pathList.map label) := by
  rw [← mem_pathList_iff] at hp hq
  exact (Forest.pair_sublist_pathList t.sorted hp hq h).map label

/-- **What is written for the listed paths is in pre-order.** -/
theorem inPreorder_map_pathList (t : DefinitionTree) (label : List String → α) :
    t.InPreorder label (t.forest.pathList.map label) where
  ancestors_before path rest hpath hrest h := by
    refine pair_sublist_map_pathList ⟨hpath, has_of_has_append h⟩ ⟨by simp [hpath], h⟩ ?_
    obtain ⟨name, rest, rfl⟩ := List.exists_cons_of_ne_nil hrest
    simpa using List.Lex.append_left (· < ·) (List.Lex.nil (a := name) (l := rest)) path
  descendants_next path hpath h := by
    obtain ⟨below, hbelow⟩ := Option.isSome_iff_exists.1 h
    have hwalk : t.forest.walk? path = some below.forest := by rw [← forest_walk?, hbelow]; rfl
    obtain ⟨before, after, heq⟩ := Forest.exists_pathList_eq hpath hwalk
    refine ⟨before.map label, (below.forest.pathList.map (path ++ ·)).map label, after.map label,
      by simp [heq], fun e => ?_⟩
    simp only [List.map_map, List.mem_map, mem_pathList_iff, has_append hbelow, and_assoc,
      Function.comp_apply, eq_comm]
  siblings_by_bytes stem m n p q hmn hp hq := by
    refine pair_sublist_map_pathList ⟨by simp, hp⟩ ⟨by simp, hq⟩ ?_
    exact List.Lex.append_left _ (List.Lex.rel (Utf8.encode_lt_encode_iff.1 hmn)) stem

theorem pathText_eq_joined (outer : String) (hpath : path ≠ []) :
    pathText outer path = joined outer path := by
  rw [pathText_eq_intercalate, String.intercalate_cons_of_ne_nil hpath, joined]

theorem flatten_eq_map (t : DefinitionTree) (unit outer : String) :
    t.flatten unit outer = t.forest.pathList.map fun path => (joined outer path, unit) := by
  rw [flatten, paths, Forest.flatten_eq, List.map_map]
  refine List.map_congr_left fun path hpath => ?_
  have htext := pathText_eq_joined outer (mem_pathList_iff.1 hpath).1
  exact congrArg (·, unit) htext

theorem nodup_map_joined (ht : t.AllColonFree) (outer : String) :
    (t.forest.pathList.map (joined outer)).Nodup := by
  refine List.Nodup.map_on (fun p hp q hq h => ?_) (Forest.nodup_pathList t.sorted)
  rw [mem_pathList_iff] at hp hq
  rw [← pathText_eq_joined outer hp.1, ← pathText_eq_joined outer hq.1] at h
  exact pathText_injective (ht.of_walk? (has_iff.1 hp.2)) (ht.of_walk? (has_iff.1 hq.2)) h

/-- **The list of definitions is the pre-order of the tree.**  It has as many entries as the tree
has definitions, no two of them with the same string, and they are the strings of the paths of the
tree, each with the file.  Every path comes after its ancestors, right behind it come all paths
below it, and the names of a namespace come in the order of their bytes. -/
theorem flatten_in_preorder (t : DefinitionTree) (unit outer : String) (ht : t.AllColonFree) :
    (t.flatten unit outer).length = t.total ∧
    ((t.flatten unit outer).map Prod.fst).Nodup ∧
    (∀ e, e ∈ t.flatten unit outer ↔
      ∃ path, path ≠ [] ∧ t.has path = true ∧ e = (joined outer path, unit)) ∧
    t.InPreorder (fun path => (joined outer path, unit)) (t.flatten unit outer) := by
  rw [flatten_eq_map]
  refine ⟨?_, ?_, fun e => ?_, inPreorder_map_pathList t _⟩
  · rw [List.length_map, Forest.length_pathList, total]
  · rw [List.map_map]
    exact nodup_map_joined ht outer
  · simp only [List.mem_map, mem_pathList_iff, and_assoc, eq_comm]

/-- The namespace `A` with a `B`, beside the name `A0`. -/
theorem flatten_in_preorder_nested :
    let tree : DefinitionTree := (insert ∅ "A" (insertLeaf ∅ "B")).insertLeaf "A0"
    let entries := tree.flatten "a.rb" "::M"
    tree.AllColonFree ∧ entries.length = 3 ∧ (entries.map Prod.fst).Nodup ∧
      [("::M::A", "a.rb"), ("::M::A::B", "a.rb")].Sublist entries ∧
      [("::M::A::B", "a.rb"), ("::M::A0", "a.rb")].Sublist entries := by
  intro tree entries
  have htree : tree.AllColonFree := by decide
  obtain ⟨hlength, hnodup, -, hpreorder⟩ := flatten_in_preorder tree "a.rb" "::M" htree
  refine ⟨htree, hlength, hnodup, ?_, ?_⟩
  · exact hpreorder.ancestors_before ["A"] ["B"] (by decide) (by decide) (by decide)
  · exact hpreorder.siblings_by_bytes [] "A" "A0" ["B"] [] (by decide) (by decide) (by decide)

-- With colons in names two paths may have the same string.
example :
    let tree : DefinitionTree := (insert ∅ "A" (insertLeaf ∅ "B")).insertLeaf "A::B"
    tree.paths "" = ["::A", "::A::B", "::A::B"] := by
  decide

end DefinitionTree

end LoadOrder
