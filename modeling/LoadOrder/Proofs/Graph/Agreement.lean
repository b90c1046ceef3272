import LoadOrder.Proofs.Graph.Reach
import LoadOrder.Proofs.Graph.Search
import LoadOrder.Proofs.Graph.Waiting

/-!
# The algorithms agree on cycles

Ordering by rounds, the search for a cycle along a path, the search for what a file reaches and the
check of an order by positions have no code in common.  Each of them decides whether the graph has
a cycle, so they agree (`DependencyGraph.order_agrees_on_cycles`).  When the ordering fails, a
cycle is found among the files that it reports.
-/

namespace LoadOrder

namespace DependencyGraph

variable {g : DependencyGraph} {u v : String}

/-! ### The other algorithms and cycles -/

theorem findCycle?_units_eq_none_iff : g.findCycle? g.units = none ↔ g.Acyclic := by
  rw [findCycle?_eq_none_iff, induced_units]

theorem forall_not_reaches_self_iff : (∀ u ∈ g.units, g.reaches u u = false) ↔ g.Acyclic := by
  constructor
  · intro h u hu
    have hfalse := h u hu.mem_units_left
    rw [reaches_iff.2 hu] at hfalse
    exact Bool.noConfusion hfalse
  · intro h u _
    rw [← Bool.not_eq_true, reaches_iff]
    exact h u

theorem Path.position?_lt {o : BuildOrder} (ho : o.satisfies g = true) (hp : g.Path u v) :
    ∃ i j, o.position? u = some i ∧ o.position? v = some j ∧ j < i := by
  have hstep := BuildOrder.satisfies_iff.1 ho
  induction hp with
  | single hv => exact hstep _ _ hv
  | tail _ hv ih =>
    obtain ⟨i, j, hi, hj, hlt⟩ := ih
    obtain ⟨j', k, hj', hk, hlt'⟩ := hstep _ _ hv
    rw [hj, Option.some_inj] at hj'
    exact ⟨i, k, hi, hk, by omega⟩

theorem exists_satisfies_iff : (∃ o : BuildOrder, o.satisfies g = true) ↔ g.Acyclic := by
  constructor
  · rintro ⟨o, ho⟩ u hu
    obtain ⟨i, j, hi, hj, hlt⟩ := hu.position?_lt ho
    rw [hi, Option.some_inj] at hj
    omega
  · intro h
    obtain ⟨o, ho⟩ := exists_order_ok_iff.2 h
    exact ⟨o, satisfies_of_order_ok ho⟩

/-! ### Cycles among the waiting files -/

theorem ReachesCycle.exists_dependency (h : g.ReachesCycle u) :
    ∃ v ∈ g.dependencies u, g.ReachesCycle v := by
  by_contra hnone
  push Not at hnone
  have hu : g.Grounded u := Grounded.intro fun v hv => grounded_of_not_reachesCycle (hnone v hv)
  exact grounded_iff.1 hu h

/-- The files that reach a cycle depend on each other for ever, so none of them is grounded in any
subgraph that has them all. -/
theorem ReachesCycle.not_grounded_induced {s : NameSet} (hs : ∀ v, g.ReachesCycle v → v ∈ s)
    (h : g.ReachesCycle u) : ¬ (g.induced s).Grounded u := by
  intro hu
  induction hu with
  | intro u _ ih =>
    obtain ⟨v, hv, hcycle⟩ := h.exists_dependency
    exact ih v (mem_dependencies_induced.2 ⟨hv, hs u h, hs v hcycle⟩) hcycle

theorem ReachesCycle.mem_units (h : g.ReachesCycle u) : u ∈ g.units := by
  obtain ⟨v, hv, -⟩ := h.exists_dependency
  exact mem_units_of_dependent hv

theorem exists_findCycle?_waiting {e : CircularDependency} (h : g.order = .error e) :
    ∃ cycle, g.findCycle? (NameSet.ofList e.waiting) = some cycle := by
  obtain ⟨n, hn, -⟩ := g.exists_stable
  obtain ⟨hne, rfl⟩ := (order_eq_error_iff hn).1 h
  refine Option.ne_none_iff_exists'.1 fun hnone => ?_
  obtain ⟨u, hu⟩ := List.exists_mem_of_ne_nil _ hne
  obtain ⟨hunit, hcycle⟩ := hn.mem_remaining_iff.1 hu
  have hall : ∀ v, g.ReachesCycle v → v ∈ NameSet.ofList (g.remaining n) := fun v hv =>
    NameSet.mem_ofList.2 (hn.mem_remaining_iff.2 ⟨hv.mem_units, hv⟩)
  have hgrounded := acyclic_iff_grounded.1 (findCycle?_eq_none_iff.1 hnone) u
    (mem_units_induced.2 ⟨hunit, hall u hcycle⟩)
  exact hcycle.not_grounded_induced hall hgrounded

/-- **The algorithms agree on cycles**: an order is found exactly when no cycle is found, when no
file reaches itself, and when some order satisfies the graph.  When none is found, a cycle is
found among the waiting files. -/
theorem order_agrees_on_cycles (g : DependencyGraph) :
    ((∃ o, g.order = .ok o) ↔ g.findCycle? g.units = none) ∧
    ((∃ o, g.order = .ok o) ↔ ∀ u ∈ g.units, g.reaches u u = false) ∧
    ((∃ o, g.order = .ok o) ↔ ∃ o : BuildOrder, o.satisfies g = true) ∧
    ∀ e, g.order = .error e → ∃ cycle, g.findCycle? (NameSet.ofList e.waiting) = some cycle ∧
      cycle ≠ [] ∧ ∀ u ∈ cycle, u ∈ e.waiting := by
  rw [findCycle?_units_eq_none_iff, forall_not_reaches_self_iff, exists_satisfies_iff]
  refine ⟨exists_order_ok_iff, exists_order_ok_iff, exists_order_ok_iff, fun e he => ?_⟩
  obtain ⟨cycle, hcycle⟩ := exists_findCycle?_waiting he
  have hc := isCycle_of_findCycle? hcycle
  refine ⟨cycle, hcycle, ?_, fun u hu => NameSet.mem_ofList.1 (hc.mem u hu)⟩
  rintro rfl
  exact absurd hc.three_le (by simp)

/-- Two files need each other and a third needs one of them: all three are waiting. -/
theorem order_agrees_on_cycles_of_pair :
    let g := (((∅ : DependencyGraph).addDependency "a" "b").addDependency "b" "a").addDependency
      "c" "a"
    g.order = .error ⟨["a", "b", "c"], []⟩ ∧ g.findCycle? g.units ≠ none ∧
      ∃ cycle, g.findCycle? (NameSet.ofList ["a", "b", "c"]) = some cycle ∧ cycle ≠ [] := by
  intro g
  have hstable : g.Stable 0 := layer_eq_nil_iff.1 (by decide)
  have h : g.order = .error ⟨["a", "b", "c"], []⟩ :=
    (order_eq_error_iff hstable).2 ⟨by decide, by decide⟩
  obtain ⟨hfind, -, -, hwaiting⟩ := order_agrees_on_cycles g
  refine ⟨h, fun hnone => ?_, ?_⟩
  · obtain ⟨o, ho⟩ := hfind.2 hnone
    rw [h] at ho
    cases ho
  · obtain ⟨cycle, hcycle, hne, -⟩ := hwaiting _ h
    exact ⟨cycle, hcycle, hne⟩

end DependencyGraph

end LoadOrder
