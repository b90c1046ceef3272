import LoadOrder.Proofs.Graph.Reach
import LoadOrder.Proofs.Graph.Search

/-!
# Cycles as paths and cycles as lists

A path from a file to itself says nothing about the files in between, and it may pass a file many
times.  A cycle in the sense of `DependencyGraph.IsCycle` is a list that repeats only its ends.
Both are the same thing seen from a file:

* `DependencyGraph.Path.exists_isCycle` : a file with a path to itself lies on a cycle, because a
  path can be cut short wherever it comes back to a file (`DependencyGraph.exists_route`);
* `DependencyGraph.IsCycle.path_self` : from every file of a cycle a path leads back to it, inside
  the subgraph of the files that the cycle is taken from.

So the search for a cycle and the search for what a file reaches can be stated against either.
-/

namespace LoadOrder

namespace DependencyGraph

variable {g : DependencyGraph} {among : NameSet} {u v w : String} {files cycle : List String}

/-! ### Paths without repetition -/

/-- Files from `u` to `v`, each of which depends on the next, and none of which comes twice. -/
structure Route (g : DependencyGraph) (u v : String) (files : List String) : Prop where
  head : files.head? = some u
  last : files.getLast? = some v
  nodup : files.Nodup
  mem : ∀ w ∈ files, w ∈ g.units
  chain : files.IsChain g.DependsOn

theorem Route.single (hu : u ∈ g.units) : g.Route u u [u] :=
  ⟨rfl, rfl, List.nodup_singleton u, by simpa using hu, List.isChain_singleton u⟩

theorem Route.enter (h : g.Route u v files) (hw : w ∈ files) : ∃ rest, g.Route w v rest := by
  obtain ⟨before, after, rfl⟩ := List.append_of_mem hw
  refine ⟨w :: after, rfl, ?_, h.nodup.of_append_right, fun x hx => ?_, h.chain.right_of_append⟩
  · have hlast := h.last
    rwa [List.getLast?_append_of_ne_nil before (List.cons_ne_nil w after)] at hlast
  · exact h.mem x (List.mem_append_right before hx)

theorem Route.cons (h : g.Route w v files) (hw : w ∈ g.dependencies u) (hu : u ∉ files) :
    g.Route u v (u :: files) where
  head := rfl
  last := by rw [List.getLast?_cons, h.last]; rfl
  nodup := List.nodup_cons.2 ⟨hu, h.nodup⟩
  mem := List.forall_mem_cons.2 ⟨mem_units_of_dependent hw, h.mem⟩
  chain := by
    refine List.isChain_cons.2 ⟨fun x hx => ?_, h.chain⟩
    rw [h.head] at hx
    exact Option.some.inj hx ▸ hw

/-- One dependency more either is new to a route or cuts it short. -/
theorem Route.exists_of_dependency (h : g.Route w v files) (hw : w ∈ g.dependencies u) :
    ∃ longer, g.Route u v longer := by
  by_cases hu : u ∈ files
  · exact h.enter hu
  · exact ⟨u :: files, h.cons hw hu⟩

theorem exists_route (h : g.Path u v) : ∃ files, g.Route u v files := by
  have hv : v ∈ g.units := h.mem_units_right
  induction h using Relation.TransGen.head_induction_on with
  | single hw => exact (Route.single hv).exists_of_dependency hw
  | head hw _ ih =>
    obtain ⟨files, hroute⟩ := ih
    exact hroute.exists_of_dependency hw

/-- **A file with a path to itself lies on a cycle.** -/
theorem Path.exists_isCycle (h : g.Path u u) : ∃ cycle, g.IsCycle g.units cycle ∧ u ∈ cycle := by
  obtain ⟨v, hv, hvu⟩ := h.head_cases
  have hne : v ≠ u := by
    rintro rfl
    exact not_mem_dependencies_self g v hv
  obtain ⟨files, hroute⟩ := exists_route (hvu.resolve_left hne)
  refine ⟨u :: files, ⟨?_, ?_, hroute.nodup, ?_, ?_⟩, List.mem_cons_self⟩
  · -- the route goes from `v` to `u`, so it has at least these two files
    match files, hroute.head, hroute.last with
    | [x], hhead, hlast =>
      exact absurd ((Option.some.inj hhead).symm.trans (Option.some.inj hlast)) hne
    | x :: y :: rest, _, _ => simp
  · rw [List.getLast?_cons, hroute.last]
    rfl
  · exact List.forall_mem_cons.2 ⟨mem_units_of_dependent hv, hroute.mem⟩
  · refine List.isChain_cons.2 ⟨fun x hx => ?_, hroute.chain⟩
    rw [hroute.head] at hx
    exact Option.some.inj hx ▸ hv

/-! ### The two searches -/

/-- **The search for a cycle is exact**: it finds one exactly when the subgraph of the given files
has a path from some file to itself, and what it finds is a cycle of the given files. -/
theorem findCycle?_exact (g : DependencyGraph) (among : NameSet) :
    ((∃ cycle, g.findCycle? among = some cycle) ↔ ∃ u, (g.induced among).Path u u) ∧
      ∀ cycle, g.findCycle? among = some cycle → g.IsCycle among cycle := by
  refine ⟨?_, fun cycle => isCycle_of_findCycle?⟩
  rw [← Option.ne_none_iff_exists', Ne, findCycle?_eq_none_iff, Acyclic]
  push Not
  rfl

/-- Two files need each other and a third needs one of them.  What is asked about need not be
known. -/
theorem findCycle?_exact_pair :
    let g := (((∅ : DependencyGraph).addDependency "a" "b").addDependency "b" "a").addDependency
      "c" "a"
    g.findCycle? (NameSet.ofList ["a", "b", "x"]) = some ["a", "b", "a"] ∧
      g.IsCycle (NameSet.ofList ["a", "b", "x"]) ["a", "b", "a"] ∧
      ¬ ∃ u, (g.induced (NameSet.ofList ["a", "c"])).Path u u := by
  intro g
  have hpair : g.findCycle? (NameSet.ofList ["a", "b", "x"]) = some ["a", "b", "a"] := by cbv
  have hnone : g.findCycle? (NameSet.ofList ["a", "c"]) = none := by cbv
  refine ⟨hpair, (findCycle?_exact g _).2 _ hpair, fun hpath => ?_⟩
  obtain ⟨cycle, hcycle⟩ := (findCycle?_exact g _).1.2 hpath
  rw [hnone] at hcycle
  cases hcycle

/-- **The search for what a file reaches is exact**, on every graph and for any two names: it ends,
because it takes every file at most once, and its answer says whether a path leads from the first
to the second.  So a file reaches itself exactly when it lies on a cycle, and what is reached from
what is reached is reached. -/
theorem reaches_exact (g : DependencyGraph) :
    (∀ u v, g.reaches u v = true ↔ g.Path u v) ∧
    (∀ u, g.reaches u u = true ↔ ∃ cycle, g.IsCycle g.units cycle ∧ u ∈ cycle) ∧
    ∀ u v w, g.reaches u v = true → g.reaches v w = true → g.reaches u w = true := by
  refine ⟨fun u v => reaches_iff, fun u => ?_, fun u v w huv hvw => ?_⟩
  · rw [reaches_iff]
    refine ⟨fun hu => hu.exists_isCycle, ?_⟩
    rintro ⟨cycle, hcycle, hu⟩
    have hpath := hcycle.path_self hu
    rwa [induced_units] at hpath
  · exact reaches_iff.2 ((reaches_iff.1 huv).trans (reaches_iff.1 hvw))

/-- A file that needs a cycle reaches all of it, and is not on it; an unknown name reaches
nothing. -/
theorem reaches_exact_pair :
    let g := (((∅ : DependencyGraph).addDependency "a" "b").addDependency "b" "a").addDependency
      "c" "a"
    g.reaches "c" "b" = true ∧ (∃ cycle, g.IsCycle g.units cycle ∧ "a" ∈ cycle) ∧
      (¬ ∃ cycle, g.IsCycle g.units cycle ∧ "c" ∈ cycle) ∧ ¬ g.Path "x" "a" := by
  intro g
  obtain ⟨hpath, hcycle, htrans⟩ := reaches_exact g
  have hca : g.reaches "c" "a" = true := by cbv
  have hab : g.reaches "a" "b" = true := by cbv
  have haa : g.reaches "a" "a" = true := by cbv
  have hcc : g.reaches "c" "c" = false := by cbv
  have hxa : g.reaches "x" "a" = false := by cbv
  refine ⟨htrans _ _ _ hca hab, (hcycle "a").1 haa, fun h => ?_, fun h => ?_⟩
  · exact Bool.false_ne_true (hcc.symm.trans ((hcycle "c").2 h))
  · exact Bool.false_ne_true (hxa.symm.trans ((hpath "x" "a").2 h))

end DependencyGraph

end LoadOrder
