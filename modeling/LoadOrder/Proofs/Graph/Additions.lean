import LoadOrder.Proofs.Graph.Edges
import Mathlib.Data.Set.Card
import Mathlib.Tactic.Tauto

/-!
# Graphs as the sum of their additions

A graph is made from the empty one by naming files and dependencies, in some order and perhaps more
than once.  One addition adds the files it names and at most one edge (`mem_units_apply`,
`mem_dependencies_apply`), so a graph has the files and edges that some addition names
(`mem_units_ofAdditions`, `mem_dependencies_ofAdditions`), and only the set of additions matters.

The edges are counted from both ends.  A list of the edges by the files they start from and a list
by the files they lead to have the same members, each once, and therefore the same length
(`edgeCount_eq_sum_dependents`).
-/

namespace LoadOrder

/-! ### Pairs by their first component -/

/-- Each key with each of its values. -/
def pairs (keys : List String) (values : String → List String) : List (String × String) :=
  keys.flatMap fun k => (values k).map (k, ·)

section Pairs

variable {keys : List String} {values : String → List String}

theorem mem_pairs {k v : String} : (k, v) ∈ pairs keys values ↔ k ∈ keys ∧ v ∈ values k := by
  simp only [pairs, List.mem_flatMap, List.mem_map, Prod.mk.injEq]
  constructor
  · rintro ⟨_, hk, _, hv, rfl, rfl⟩
    exact ⟨hk, hv⟩
  · rintro ⟨hk, hv⟩
    exact ⟨k, hk, v, hv, rfl, rfl⟩

theorem length_pairs :
    (pairs keys values).length = (keys.map fun k => (values k).length).sum := by
  simp only [pairs, List.length_flatMap, List.length_map]

theorem nodup_pairs (hkeys : keys.Nodup) (hvalues : ∀ k, (values k).Nodup) :
    (pairs keys values).Nodup := by
  refine List.nodup_flatMap.2 ⟨fun k _ => (hvalues k).map fun _ _ h => (Prod.mk.inj h).2, ?_⟩
  -- pairs of different keys differ in their first component
  refine hkeys.imp fun {j k} hjk => ?_
  rintro e hj hk
  obtain ⟨_, -, rfl⟩ := List.mem_map.1 hj
  obtain ⟨_, -, heq⟩ := List.mem_map.1 hk
  exact hjk (Prod.mk.inj heq).1.symm

end Pairs

namespace DependencyGraph

variable {g : DependencyGraph} {u v : String} {d : NameSet}

/-! ### Edges from either end -/

theorem mem_entries_iff : (u, d) ∈ g.entries ↔ g.dependencies? u = some d := by
  simp only [entries, dependencies?, List.mem_filter, NameMap.mem_entries,
    Option.filter_eq_some_iff]

theorem eq_dependencies_of_dependencies? (h : g.dependencies? u = some d) :
    d = g.dependencies u ∧ ∃ v, v ∈ d :=
  mem_entries.1 (mem_entries_iff.2 h)

theorem mem_dependents : u ∈ g.dependents v ↔ v ∈ g.dependencies u := by
  simp only [dependents, List.mem_map, List.mem_filter, decide_eq_true_eq]
  constructor
  · rintro ⟨⟨_, d⟩, ⟨he, hv⟩, rfl⟩
    obtain ⟨rfl, -⟩ := mem_entries.1 he
    exact hv
  · intro hv
    exact ⟨(u, g.dependencies u), ⟨mem_entries.2 ⟨rfl, v, hv⟩, hv⟩, rfl⟩

theorem pairwise_dependents (g : DependencyGraph) (v : String) :
    (g.dependents v).Pairwise (· < ·) :=
  g.adjacency.sorted.sublist ((List.filter_sublist.trans List.filter_sublist).map Prod.fst)

theorem nodup_dependents (g : DependencyGraph) (v : String) : (g.dependents v).Nodup :=
  (⟨g.dependents v, g.pairwise_dependents v⟩ : NameSet).nodup_toList

/-- The edges, by the files that they start from. -/
def edges (g : DependencyGraph) : List (String × String) :=
  pairs g.units.toList fun u => (g.dependencies u).toList

theorem mem_edges : (u, v) ∈ g.edges ↔ v ∈ g.dependencies u := by
  rw [edges, mem_pairs]
  exact and_iff_right_of_imp mem_units_of_dependent

theorem nodup_edges (g : DependencyGraph) : g.edges.Nodup :=
  nodup_pairs g.units.nodup_toList fun u => (g.dependencies u).nodup_toList

theorem length_edges (g : DependencyGraph) : g.edges.length = g.edgeCount := by
  have hsizes : (g.units.toList.map fun u => (g.dependencies u).toList.length) =
      g.adjacency.entries.map fun e => e.2.size := by
    rw [units, NameMap.keys, List.map_map]
    refine List.map_congr_left fun e he => ?_
    have hget : g.adjacency.get? e.1 = some e.2 := NameMap.mem_entries.1 he
    simp only [Function.comp_apply, dependencies, hget, Option.getD_some, NameSet.size]
  rw [edges, length_pairs, hsizes, edgeCount, List.sum_eq_foldl, List.foldl_map]

/-- **The edges can be counted at the files that they lead to.** -/
theorem edgeCount_eq_sum_dependents (g : DependencyGraph) :
    g.edgeCount = (g.units.toList.map fun v => (g.dependents v).length).sum := by
  have hback : (pairs g.units.toList g.dependents).Perm (g.edges.map Prod.swap) := by
    refine (List.perm_ext_iff_of_nodup ?_ ?_).2 ?_
    · exact nodup_pairs g.units.nodup_toList g.nodup_dependents
    · exact g.nodup_edges.map Prod.swap_injective
    · rintro ⟨v, u⟩
      have hunits : v ∈ g.dependencies u → v ∈ g.units := mem_units_of_mem_dependencies
      rw [mem_pairs, mem_dependents, NameSet.mem_toList, and_iff_right_of_imp hunits, ← mem_edges]
      simp
  rw [← length_edges, ← length_pairs, hback.length_eq, List.length_map]

end DependencyGraph

/-! ### Additions -/

/-- What is added to a graph at once. -/
inductive Addition where
  | unit (u : String)
  | dependency (u v : String)
  deriving DecidableEq

namespace Addition

/-- The files that an addition names. -/
def files : Addition → List String
  | .unit u => [u]
  | .dependency u v => [u, v]

/-- The graph after an addition. -/
def apply (g : DependencyGraph) : Addition → DependencyGraph
  | .unit u => g.addUnit u
  | .dependency u v => g.addDependency u v

/-- The pairs of different files of which some addition makes the first depend on the second. -/
def requested (additions : List Addition) : Set (String × String) :=
  {e | e.1 ≠ e.2 ∧ dependency e.1 e.2 ∈ additions}

theorem mem_requested {additions : List Addition} {u v : String} :
    (u, v) ∈ requested additions ↔ u ≠ v ∧ dependency u v ∈ additions :=
  Iff.rfl

end Addition

namespace DependencyGraph

variable {g : DependencyGraph} {u v w : String} {a : Addition} {additions others : List Addition}

/-- The graph that is made by some additions, one after the other. -/
def ofAdditions (additions : List Addition) : DependencyGraph := additions.foldl Addition.apply ∅

theorem mem_units_apply : w ∈ (a.apply g).units ↔ w ∈ a.files ∨ w ∈ g.units := by
  cases a with
  | unit u => simp [Addition.apply, Addition.files, mem_units_addUnit]
  | dependency u v => simp [Addition.apply, Addition.files, mem_units_addDependency, or_assoc]

theorem mem_dependencies_apply :
    v ∈ (a.apply g).dependencies u ↔ (u ≠ v ∧ a = .dependency u v) ∨ v ∈ g.dependencies u := by
  cases a with
  | unit u => simp [Addition.apply]
  | dependency x y =>
    simp only [Addition.apply, mem_dependencies_addDependency, Addition.dependency.injEq]
    refine or_congr_left ⟨?_, ?_⟩
    · rintro ⟨hne, rfl, rfl⟩
      exact ⟨hne, rfl, rfl⟩
    · rintro ⟨hne, rfl, rfl⟩
      exact ⟨hne, rfl, rfl⟩

theorem mem_units_foldl :
    w ∈ (additions.foldl Addition.apply g).units ↔
      (∃ a ∈ additions, w ∈ a.files) ∨ w ∈ g.units := by
  induction additions generalizing g with
  | nil => simp
  | cons a rest ih =>
    rw [List.foldl_cons, ih, mem_units_apply, List.exists_mem_cons_iff, ← or_assoc,
      or_comm (a := w ∈ a.files)]

theorem mem_dependencies_foldl :
    v ∈ (additions.foldl Addition.apply g).dependencies u ↔
      (u, v) ∈ Addition.requested additions ∨ v ∈ g.dependencies u := by
  induction additions generalizing g with
  | nil => simp [Addition.mem_requested]
  | cons a rest ih =>
    rw [List.foldl_cons, ih, mem_dependencies_apply, ← or_assoc]
    refine or_congr_left ?_
    rw [Addition.mem_requested, Addition.mem_requested, List.mem_cons, ← and_or_left, or_comm,
      eq_comm]

/-- **The files of a graph are those that some addition names.** -/
theorem mem_units_ofAdditions :
    u ∈ (ofAdditions additions).units ↔ ∃ a ∈ additions, u ∈ a.files := by
  rw [ofAdditions, mem_units_foldl]
  simp

/-- **The edges of a graph are the pairs of different files that some addition asks for.** -/
theorem mem_dependencies_ofAdditions :
    v ∈ (ofAdditions additions).dependencies u ↔ (u, v) ∈ Addition.requested additions := by
  rw [ofAdditions, mem_dependencies_foldl]
  simp

theorem encard_requested (additions : List Addition) :
    (Addition.requested additions).encard = (ofAdditions additions).edgeCount := by
  have hset : Addition.requested additions = {e | e ∈ (ofAdditions additions).edges} := by
    ext ⟨u, v⟩
    exact (mem_edges.trans mem_dependencies_ofAdditions).symm
  rw [hset, ← List.coe_toFinset, Set.encard_coe_eq_coe_finsetCard,
    List.toFinset_card_of_nodup (nodup_edges _), length_edges]

/-- **Neither the order of additions nor their repetition matters.** -/
theorem ofAdditions_congr (h : ∀ a, a ∈ others ↔ a ∈ additions) :
    ofAdditions others = ofAdditions additions := by
  refine ext_units (fun u => ?_) fun u v => ?_
  · simp only [mem_units_ofAdditions, h]
  · simp only [mem_dependencies_ofAdditions, Addition.mem_requested, h]

/-- **What a graph is, whatever additions it was made by.**  Its files are those that are named.
The sets in its map are not empty, hold no file that depends on itself, and lead from files of the
graph to files of the graph.  A file depends on another exactly when some addition says so, and
exactly then it is among the dependents of the other, which come in increasing order, each once.
The number of edges is the number of pairs that are asked for, and the number of dependents of all
files together.  The same additions in another order, or more often, make the same graph. -/
theorem ofAdditions_exact (additions : List Addition) :
    let g := ofAdditions additions
    (∀ u, u ∈ g.units ↔ ∃ a ∈ additions, u ∈ a.files) ∧
    (∀ u d, (u, d) ∈ g.entries ↔ g.dependencies? u = some d) ∧
    (∀ u d, g.dependencies? u = some d →
      (∃ v, v ∈ d) ∧ u ∉ d ∧ u ∈ g.units ∧ ∀ v ∈ d, v ∈ g.units) ∧
    (∀ u v, (∃ d, g.dependencies? u = some d ∧ v ∈ d) ↔
      u ≠ v ∧ Addition.dependency u v ∈ additions) ∧
    (∀ u v, u ∈ g.dependents v ↔ u ≠ v ∧ Addition.dependency u v ∈ additions) ∧
    (∀ v, (g.dependents v).Pairwise (· < ·) ∧ (g.dependents v).Nodup) ∧
    (Addition.requested additions).encard = g.edgeCount ∧
    g.edgeCount = (g.units.toList.map fun v => (g.dependents v).length).sum ∧
    ∀ others : List Addition, (∀ a, a ∈ others ↔ a ∈ additions) → ofAdditions others = g := by
  intro g
  refine ⟨fun u => mem_units_ofAdditions, fun u d => mem_entries_iff, fun u d h => ?_,
    fun u v => ?_, fun u v => ?_, fun v => ⟨g.pairwise_dependents v, g.nodup_dependents v⟩,
    encard_requested additions, g.edgeCount_eq_sum_dependents, fun others h => ofAdditions_congr h⟩
  · obtain ⟨rfl, v, hv⟩ := eq_dependencies_of_dependencies? h
    exact ⟨⟨v, hv⟩, g.not_mem_dependencies_self u, mem_units_of_dependent hv,
      fun w hw => mem_units_of_mem_dependencies hw⟩
  · rw [exists_dependencies?_iff, mem_dependencies_ofAdditions, Addition.mem_requested]
  · rw [mem_dependents, mem_dependencies_ofAdditions, Addition.mem_requested]

/-- A dependency that is added twice, and one of a file on itself. -/
theorem ofAdditions_exact_repeated :
    let g := ofAdditions [.dependency "b" "a", .unit "c", .dependency "a" "a", .dependency "b" "a"]
    (∃ d, g.dependencies? "b" = some d ∧ "b" ∉ d ∧ ∀ v ∈ d, v ∈ g.units) ∧
      g.dependents "a" = ["b"] ∧ g.edgeCount = 1 ∧
      ofAdditions [.unit "c", .dependency "b" "a", .dependency "a" "a"] = g := by
  intro g
  obtain ⟨-, -, hsets, hdependencies, -, -, -, -, hsame⟩ := ofAdditions_exact
    [.dependency "b" "a", .unit "c", .dependency "a" "a", .dependency "b" "a"]
  obtain ⟨d, hd, -⟩ := (hdependencies "b" "a").2 ⟨by decide, by decide⟩
  obtain ⟨-, hself, -, hunits⟩ := hsets "b" d hd
  refine ⟨⟨d, hd, hself, hunits⟩, by decide, by decide, hsame _ fun a => ?_⟩
  simp only [List.mem_cons]
  tauto

end DependencyGraph

end LoadOrder
