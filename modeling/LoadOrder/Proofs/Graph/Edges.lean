import LoadOrder.Graph.Basic
import Mathlib.Tactic.ByContra
import Mathlib.Tactic.Push
import Mathlib.Tactic.SplitIfs

/-!
# The edges of a graph

What the operations on graphs do to the files (`units`) and to the direct dependencies
(`dependencies`), one statement for each operation.  These two determine a graph
(`DependencyGraph.ext_units`), and nothing after this file looks into the adjacency map.
-/

namespace LoadOrder

namespace NameSet

theorem isEmpty_iff {s : NameSet} : s.isEmpty = true ↔ ∀ v, v ∉ s := by
  rw [isEmpty, List.isEmpty_iff, List.eq_nil_iff_forall_not_mem]
  rfl

theorem nodup_toList (s : NameSet) : s.toList.Nodup := by
  refine s.sorted.imp fun {u v} hlt => ?_
  rintro rfl
  exact String.lt_irrefl u hlt

end NameSet

namespace DependencyGraph

variable {g h : DependencyGraph} {u v w x : String}

theorem not_mem_dependencies_of_not_mem_units (hu : u ∉ g.units) : v ∉ g.dependencies u := by
  have hget : g.adjacency.get? u = none := by
    rw [units, NameMap.mem_keys] at hu
    simpa using hu
  simp [dependencies, hget]

theorem mem_units_of_dependent (hv : v ∈ g.dependencies u) : u ∈ g.units := by
  by_contra hu
  exact not_mem_dependencies_of_not_mem_units hu hv

/-- **A graph is determined by its files and their dependencies.** -/
theorem ext_units (hunits : ∀ u, u ∈ g.units ↔ u ∈ h.units)
    (hdeps : ∀ u v, v ∈ g.dependencies u ↔ v ∈ h.dependencies u) : g = h := by
  have hget : ∀ u, g.adjacency.get? u = h.adjacency.get? u := by
    intro u
    have hu := hunits u
    rw [units, units, NameMap.mem_keys, NameMap.mem_keys] at hu
    have hset : g.dependencies u = h.dependencies u := NameSet.ext_mem (hdeps u)
    unfold dependencies at hset
    cases hg : g.adjacency.get? u <;> cases hh : h.adjacency.get? u <;> simp_all
  cases g
  cases h
  simp only [mk.injEq]
  exact NameMap.ext_get? hget

/-! ### Additions -/

@[simp] theorem not_mem_units_empty (u : String) : u ∉ (∅ : DependencyGraph).units :=
  List.not_mem_nil

@[simp] theorem not_mem_dependencies_empty (u v : String) :
    v ∉ (∅ : DependencyGraph).dependencies u :=
  List.not_mem_nil

@[simp] theorem mem_dependencies_addUnit :
    w ∈ (g.addUnit u).dependencies x ↔ w ∈ g.dependencies x := by
  simp only [dependencies, addUnit, NameMap.get?_alter]
  split_ifs with hx
  · subst hx; rfl
  · rfl

theorem mem_dependencies_addEdge {hne : u ≠ v} {hv : v ∈ g.units} :
    w ∈ (g.addEdge u v hne hv).dependencies x ↔ (x = u ∧ w = v) ∨ w ∈ g.dependencies x := by
  simp only [dependencies, addEdge, NameMap.get?_alter]
  split_ifs with hx
  · subst hx; simp
  · simp [hx]

theorem mem_units_addEdge {hne : u ≠ v} {hv : v ∈ g.units} :
    w ∈ (g.addEdge u v hne hv).units ↔ w = u ∨ w ∈ g.units :=
  NameMap.mem_keys_alter

theorem mem_units_addDependency :
    w ∈ (g.addDependency u v).units ↔ w = u ∨ w = v ∨ w ∈ g.units := by
  unfold addDependency
  split_ifs with huv
  · subst huv; rw [mem_units_addUnit]; simp
  · rw [mem_units_addEdge, mem_units_addUnit]

theorem mem_dependencies_addDependency :
    w ∈ (g.addDependency u v).dependencies x ↔
      (u ≠ v ∧ x = u ∧ w = v) ∨ w ∈ g.dependencies x := by
  unfold addDependency
  split_ifs with huv
  · simp [huv]
  · rw [mem_dependencies_addEdge, mem_dependencies_addUnit]
    simp [huv]

/-! ### Listings -/

theorem exists_dependencies?_iff :
    (∃ d, g.dependencies? u = some d ∧ v ∈ d) ↔ v ∈ g.dependencies u := by
  unfold dependencies? dependencies
  cases g.adjacency.get? u with
  | none => simp
  | some s =>
    simp only [Option.filter_some, Bool.not_eq_true', Option.getD_some]
    split_ifs with hs
    · simp
    · simp only [false_and, exists_false, false_iff]
      exact NameSet.isEmpty_iff.1 (by simpa using hs) v

theorem mem_entries {d : NameSet} :
    (u, d) ∈ g.entries ↔ d = g.dependencies u ∧ ∃ v, v ∈ d := by
  simp only [entries, List.mem_filter, NameMap.mem_entries, Bool.not_eq_true']
  rw [← Bool.not_eq_true, NameSet.isEmpty_iff]
  push Not
  constructor
  · rintro ⟨hget, hd⟩
    exact ⟨by simp [dependencies, hget], hd⟩
  · rintro ⟨rfl, v, hv⟩
    refine ⟨?_, v, hv⟩
    unfold dependencies at hv ⊢
    cases hget : g.adjacency.get? u with
    | none => simp [hget] at hv
    | some s => rfl

/-! ### Induced subgraphs -/

/-- The entries of the files in `s`, cut to `s`. -/
def inducedEntries (g : DependencyGraph) (s : NameSet) : List (String × NameSet) :=
  (g.adjacency.entries.filter fun e => e.1 ∈ s).map fun e => (e.1, e.2.filter (· ∈ s))

theorem sorted_inducedEntries (g : DependencyGraph) (s : NameSet) :
    ((g.inducedEntries s).map Prod.fst).Pairwise (· < ·) := by
  have hkeys : (g.inducedEntries s).map Prod.fst =
      (g.adjacency.entries.filter fun e => e.1 ∈ s).map Prod.fst := by
    rw [inducedEntries, List.map_map]; rfl
  rw [hkeys]
  exact g.adjacency.sorted.sublist (List.filter_sublist.map Prod.fst)

theorem get?_inducedEntries {s d : NameSet} :
    (NameMap.mk (g.inducedEntries s) (sorted_inducedEntries g s)).get? u = some d ↔
      u ∈ s ∧ ∃ old, g.adjacency.get? u = some old ∧ d = old.filter (· ∈ s) := by
  rw [← NameMap.mem_entries]
  simp only [inducedEntries, List.mem_map, List.mem_filter, Prod.mk.injEq, decide_eq_true_eq]
  constructor
  · rintro ⟨⟨_, old⟩, ⟨he, hs⟩, rfl, rfl⟩
    exact ⟨hs, old, NameMap.mem_entries.1 he, rfl⟩
  · rintro ⟨hs, old, hget, rfl⟩
    exact ⟨(u, old), ⟨NameMap.mem_entries.2 hget, hs⟩, rfl, rfl⟩

/-- The files of `s` with the dependencies between them. -/
def induced (g : DependencyGraph) (s : NameSet) : DependencyGraph where
  adjacency := ⟨g.inducedEntries s, sorted_inducedEntries g s⟩
  closed := by
    intro u v d hd hv
    obtain ⟨-, old, hold, rfl⟩ := get?_inducedEntries.1 hd
    simp only [NameSet.mem_filter, decide_eq_true_eq] at hv
    obtain ⟨next, hnext⟩ := Option.isSome_iff_exists.1 (NameMap.mem_keys.1 (g.closed hold hv.1))
    rw [NameMap.mem_keys, Option.isSome_iff_exists]
    exact ⟨_, get?_inducedEntries.2 ⟨hv.2, next, hnext, rfl⟩⟩
  irreflexive := by
    intro u d hd hu
    obtain ⟨-, old, hold, rfl⟩ := get?_inducedEntries.1 hd
    exact g.irreflexive hold (NameSet.mem_filter.1 hu).1

theorem mem_units_induced {s : NameSet} : u ∈ (g.induced s).units ↔ u ∈ g.units ∧ u ∈ s := by
  simp only [units, NameMap.mem_keys, Option.isSome_iff_exists, induced, get?_inducedEntries]
  constructor
  · rintro ⟨_, hs, old, hold, -⟩; exact ⟨⟨old, hold⟩, hs⟩
  · rintro ⟨⟨old, hold⟩, hs⟩; exact ⟨_, hs, old, hold, rfl⟩

theorem mem_dependencies_induced {s : NameSet} :
    v ∈ (g.induced s).dependencies u ↔ v ∈ g.dependencies u ∧ u ∈ s ∧ v ∈ s := by
  constructor
  · intro hv
    cases hget : (g.induced s).adjacency.get? u with
    | none => simp [dependencies, hget] at hv
    | some d =>
      obtain ⟨hs, old, hold, rfl⟩ := get?_inducedEntries.1 hget
      simp only [dependencies, hget, Option.getD_some, NameSet.mem_filter, decide_eq_true_eq] at hv
      exact ⟨by simpa [dependencies, hold] using hv.1, hs, hv.2⟩
  · rintro ⟨hv, hus, hvs⟩
    cases hold : g.adjacency.get? u with
    | none => simp [dependencies, hold] at hv
    | some old =>
      have hget : (g.induced s).adjacency.get? u = some (old.filter (· ∈ s)) :=
        get?_inducedEntries.2 ⟨hus, old, hold, rfl⟩
      simp only [dependencies, hget, Option.getD_some, NameSet.mem_filter, decide_eq_true_eq]
      exact ⟨by simpa [dependencies, hold] using hv, hvs⟩

theorem induced_units (g : DependencyGraph) : g.induced g.units = g := by
  refine ext_units (fun u => by simp [mem_units_induced]) fun u v => ?_
  rw [mem_dependencies_induced]
  exact ⟨fun h => h.1, fun h => ⟨h, mem_units_of_dependent h, mem_units_of_mem_dependencies h⟩⟩

end DependencyGraph

end LoadOrder
