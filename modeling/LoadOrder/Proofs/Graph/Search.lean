import LoadOrder.Graph.Cycle
import LoadOrder.Proofs.Graph.Paths
import Mathlib.Data.List.Chain

/-!
# The search for a cycle

The search among the files of a set is about the subgraph that they induce.  It is sound because
its path is a chain of dependencies without repetition (`DependencyGraph.Trail`), which the file
that turns up again closes to a cycle.  It is complete because it calls a file finished only after
all its dependencies, so the finished files are grounded.

* `DependencyGraph.isCycle_of_findCycle?` : what is found is a cycle.
* `DependencyGraph.findCycle?_eq_none_iff` : nothing is found exactly when the induced subgraph has
  no cycle.
-/

namespace LoadOrder

namespace DependencyGraph

variable {g : DependencyGraph} {among : NameSet} {path : List String} {u v : String}

/-- A list of files of `among` each of which depends on the next.  It starts and ends with the
same file and repeats no other. -/
structure IsCycle (g : DependencyGraph) (among : NameSet) (cycle : List String) : Prop where
  three_le : 3 ≤ cycle.length
  ends : cycle.head? = cycle.getLast?
  nodup : cycle.tail.Nodup
  mem : ∀ u ∈ cycle, u ∈ among
  chain : cycle.IsChain g.DependsOn

/-- The path of a search, last file first: each file is a dependency of the one after it. -/
structure Trail (g : DependencyGraph) (among : NameSet) (path : List String) : Prop where
  nodup : path.Nodup
  mem : ∀ u ∈ path, u ∈ among
  chain : path.IsChain fun v u => g.DependsOn u v

/-- `u` can be put at the end of the path. -/
def Extends (g : DependencyGraph) (among : NameSet) (path : List String) (u : String) : Prop :=
  u ∈ among ∧ ∀ v ∈ path.head?, g.DependsOn v u

/-! ### Paths and cycles -/

theorem Trail.nil : g.Trail among [] := ⟨List.nodup_nil, by simp, List.isChain_nil⟩

theorem Trail.cons (h : g.Trail among path) (hu : g.Extends among path u) (hnot : u ∉ path) :
    g.Trail among (u :: path) where
  nodup := List.nodup_cons.2 ⟨hnot, h.nodup⟩
  mem := List.forall_mem_cons.2 ⟨hu.1, h.mem⟩
  chain := List.isChain_cons.2 ⟨hu.2, h.chain⟩

theorem exists_closing_eq (hu : u ∈ path) :
    ∃ between before, path = between ++ [u] ++ before ∧
      closing path u = u :: (between.reverse ++ [u]) := by
  suffices h : ∃ before, path = path.takeWhile (· ≠ u) ++ [u] ++ before by
    obtain ⟨before, h⟩ := h
    exact ⟨_, before, h, rfl⟩
  induction path with
  | nil => simp at hu
  | cons v path ih =>
    by_cases hvu : v = u
    · exact ⟨path, by simp [hvu]⟩
    · obtain ⟨before, h⟩ := ih ((List.mem_cons.1 hu).resolve_left (Ne.symm hvu))
      exact ⟨before, by simpa [hvu] using h⟩

/-- **A file that turns up on its own path closes a cycle.** -/
theorem Trail.isCycle_closing (h : g.Trail among path) (hu : g.Extends among path u)
    (hmem : u ∈ path) : g.IsCycle among (closing path u) := by
  obtain ⟨between, before, rfl, hclosing⟩ := exists_closing_eq hmem
  rw [hclosing]
  cases between with
  | nil =>
    -- `u` would be the last file of the path and depend on itself
    exact absurd (hu.2 u rfl) (not_mem_dependencies_self g u)
  | cons v between =>
    have hnodup : (u :: v :: between).Nodup := List.nodup_append_comm.1 h.nodup.of_append_left
    have hchain : (u :: (v :: between ++ [u])).IsChain fun v u => g.DependsOn u v :=
      h.chain.left_of_append.cons_cons (hu.2 v rfl)
    have hrev : u :: ((v :: between).reverse ++ [u]) = (u :: (v :: between ++ [u])).reverse := by
      simp
    refine ⟨by simp, ?_, ?_, fun w hw => ?_, ?_⟩
    · rw [← List.cons_append, List.getLast?_concat]
      rfl
    · simpa using List.nodup_reverse.2 hnodup
    · rw [hrev, List.mem_reverse, List.mem_cons] at hw
      rcases hw with rfl | hw
      · exact hu.1
      · exact h.mem w (List.mem_append_left before hw)
    · rw [hrev, List.isChain_reverse]
      exact hchain

theorem IsCycle.exists_eq {cycle : List String} (h : g.IsCycle among cycle) :
    ∃ first between, cycle = first :: (between ++ [first]) := by
  obtain ⟨hlen, hends, -, -, -⟩ := h
  match cycle, hlen with
  | first :: second :: rest, _ =>
    have hne : second :: rest ≠ [] := List.cons_ne_nil second rest
    refine ⟨first, (second :: rest).dropLast, ?_⟩
    rw [List.head?_cons, List.getLast?_cons_cons, List.getLast?_eq_some_getLast hne] at hends
    rw [Option.some.inj hends, List.dropLast_append_getLast hne]

/-- **From every file of a cycle a path leads back to it**, inside the subgraph. -/
theorem IsCycle.path_self {cycle : List String} (h : g.IsCycle among cycle) (hu : u ∈ cycle) :
    (g.induced among).Path u u := by
  have hsub : cycle.IsChain (g.induced among).Path :=
    h.chain.imp_of_mem_imp fun x y hx hy hxy =>
      Path.single (mem_dependencies_induced.2 ⟨hxy, h.mem x hx, h.mem y hy⟩)
  have : IsTrans String (g.induced among).Path := ⟨fun _ _ _ hxy hyz => hxy.trans hyz⟩
  -- from every file of the list a path leads to all that come later
  have hlater : cycle.Pairwise (g.induced among).Path := hsub.pairwise
  obtain ⟨first, between, rfl⟩ := h.exists_eq
  obtain ⟨hfirst, hrest⟩ := List.pairwise_cons.1 hlater
  by_cases hends : u = first
  · subst hends
    exact hfirst u (List.mem_append_right between (List.mem_singleton_self u))
  · have hbetween : u ∈ between := by simpa [hends] using hu
    have hback : (g.induced among).Path u first :=
      (List.pairwise_append.1 hrest).2.2 u hbetween first (List.mem_singleton_self first)
    exact hback.trans (hfirst u (List.mem_append_left [first] hbetween))

theorem IsCycle.not_acyclic {cycle : List String} (h : g.IsCycle among cycle) :
    ¬ (g.induced among).Acyclic := by
  obtain ⟨first, between, rfl⟩ := h.exists_eq
  exact fun hacyclic => hacyclic first (h.path_self List.mem_cons_self)

/-! ### Soundness and completeness of the search -/

theorem mem_dependencies_among :
    v ∈ ((g.dependencies u).filter (· ∈ among)).toList ↔ v ∈ g.dependencies u ∧ v ∈ among := by
  simp

theorem isCycle_of_searchCycle {free finished todo cycle : List String}
    (hpath : g.Trail among path) (htodo : ∀ u ∈ todo, g.Extends among path u)
    (h : g.searchCycle among free path finished todo = .error cycle) : g.IsCycle among cycle := by
  fun_induction searchCycle g among free path finished todo with
  | case1 => cases h
  | case2 free path finished u rest hu =>
    cases h
    exact hpath.isCycle_closing (htodo u List.mem_cons_self) hu
  | case3 free path finished u rest hu hfin ih =>
    exact ih hpath (List.forall_mem_cons.1 htodo).2 h
  | case4 free path finished u rest hu hfin hfree c hc ih =>
    cases h
    refine ih (hpath.cons (htodo u List.mem_cons_self) hu) (fun v hv => ?_) hc
    obtain ⟨hdep, hv⟩ := mem_dependencies_among.1 hv
    exact ⟨hv, fun w hw => Option.some.inj hw ▸ hdep⟩
  | case5 free path finished u rest hu hfin hfree fin hdone ih₁ ih₂ =>
    exact ih₂ hpath (List.forall_mem_cons.1 htodo).2 h
  | case6 free path finished u rest hu hfin hfree ih =>
    exact ih hpath (List.forall_mem_cons.1 htodo).2 h

/-- What a search leaves finished are grounded files of the subgraph, and all that it was asked to
search is among them, provided that the free files and the path make up the subgraph. -/
theorem grounded_of_searchCycle {free finished todo finished' : List String}
    (hcover : ∀ u ∈ (g.induced among).units, u ∈ free ∨ u ∈ path)
    (htodo : ∀ u ∈ todo, u ∈ (g.induced among).units)
    (hfinished : ∀ u ∈ finished, (g.induced among).Grounded u)
    (h : g.searchCycle among free path finished todo = .ok finished') :
    (∀ u ∈ finished', (g.induced among).Grounded u) ∧ (∀ u ∈ finished, u ∈ finished') ∧
      ∀ u ∈ todo, u ∈ finished' := by
  fun_induction searchCycle g among free path finished todo generalizing finished' with
  | case1 =>
    cases h
    exact ⟨hfinished, fun _ hu => hu, by simp⟩
  | case2 => cases h
  | case3 free path finished u rest hu hfin ih =>
    obtain ⟨hgrounded, hkeep, hrest⟩ := ih hcover (List.forall_mem_cons.1 htodo).2 hfinished h
    exact ⟨hgrounded, hkeep, List.forall_mem_cons.2 ⟨hkeep u hfin, hrest⟩⟩
  | case4 => cases h
  | case5 free path finished u rest hu hfin hfree below hbelow ih₁ ih₂ =>
    have hcover' : ∀ v ∈ (g.induced among).units, v ∈ free.erase u ∨ v ∈ u :: path := by
      intro v hv
      by_cases hvu : v = u
      · exact Or.inr (List.mem_cons.2 (Or.inl hvu))
      · rw [List.mem_erase_of_ne hvu, List.mem_cons]
        exact (hcover v hv).imp_right Or.inr
    have htodo' : ∀ v ∈ ((g.dependencies u).filter (· ∈ among)).toList,
        v ∈ (g.induced among).units := by
      intro v hv
      obtain ⟨hdep, hva⟩ := mem_dependencies_among.1 hv
      exact mem_units_induced.2 ⟨mem_units_of_mem_dependencies hdep, hva⟩
    obtain ⟨hgrounded, hkeep, hdeps⟩ := ih₁ hcover' htodo' hfinished hbelow
    -- all dependencies of `u` in the subgraph are finished, so `u` is grounded
    have hu' : (g.induced among).Grounded u := Grounded.intro fun v hv => by
      obtain ⟨hdep, -, hva⟩ := mem_dependencies_induced.1 hv
      exact hgrounded v (hdeps v (mem_dependencies_among.2 ⟨hdep, hva⟩))
    obtain ⟨hgrounded', hkeep', hrest⟩ := ih₂ hcover (List.forall_mem_cons.1 htodo).2
      (List.forall_mem_cons.2 ⟨hu', hgrounded⟩) h
    obtain ⟨huf, hkeep'⟩ := List.forall_mem_cons.1 hkeep'
    exact ⟨hgrounded', fun v hv => hkeep' v (hkeep v hv), List.forall_mem_cons.2 ⟨huf, hrest⟩⟩
  | case6 free path finished u rest hu hfin hfree ih =>
    -- a file of the subgraph is never passed over unsearched
    rcases hcover u (htodo u List.mem_cons_self) with hmem | hmem
    · exact absurd hmem hfree
    · exact absurd hmem hu

/-! ### Finding a cycle -/

theorem mem_starts :
    u ∈ (g.units.filter (· ∈ among)).toList ↔ u ∈ (g.induced among).units := by
  rw [mem_units_induced]
  simp

/-- **What is found is a cycle.** -/
theorem isCycle_of_findCycle? {cycle : List String} (h : g.findCycle? among = some cycle) :
    g.IsCycle among cycle := by
  simp only [findCycle?] at h
  split at h
  next c hc =>
    cases h
    refine isCycle_of_searchCycle Trail.nil (fun u hu => ⟨?_, by simp⟩) hc
    exact (mem_units_induced.1 (mem_starts.1 hu)).2
  next => cases h

/-- **Nothing is found exactly when there is no cycle** in the subgraph. -/
theorem findCycle?_eq_none_iff : g.findCycle? among = none ↔ (g.induced among).Acyclic := by
  constructor
  · intro h
    simp only [findCycle?] at h
    split at h
    next => cases h
    next finished hfinished =>
      obtain ⟨hgrounded, -, hstarts⟩ := grounded_of_searchCycle
        (fun u hu => Or.inl (mem_starts.2 hu)) (fun u hu => mem_starts.1 hu) (by simp) hfinished
      exact acyclic_iff_grounded.2 fun u hu => hgrounded u (hstarts u (mem_starts.2 hu))
  · intro h
    by_contra hsome
    obtain ⟨cycle, hcycle⟩ := Option.ne_none_iff_exists'.1 hsome
    exact (isCycle_of_findCycle? hcycle).not_acyclic h

end DependencyGraph

end LoadOrder
