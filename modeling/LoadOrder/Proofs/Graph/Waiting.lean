import LoadOrder.Proofs.Graph.Depth
import LoadOrder.Proofs.Graph.Paths

/-!
# The files that cannot be placed

The rounds place the grounded files and no others, so what remains are the files that reach a
cycle.  The placed files are closed under dependencies, and on a closed set of files a graph and
its induced subgraph go through the same rounds.

* `DependencyGraph.Stable.mem_remaining_iff` : the files that remain are those that reach a cycle.
* `DependencyGraph.layers_induced` : the rounds of a subgraph that is induced on a closed set.
* `DependencyGraph.order_error_reaches_cycle` : what a failed ordering reports.
-/

namespace LoadOrder

namespace DependencyGraph

variable {g : DependencyGraph} {s : NameSet} {u v : String} {n : ℕ}

/-! ### Rounds and cycles -/

theorem grounded_of_mem_stage (h : u ∈ g.stage n) : g.Grounded u := by
  induction n generalizing u with
  | zero => simp at h
  | succ n ih => exact Grounded.intro fun v hv => ih ((mem_stage_succ.1 h).2 v hv)

theorem Stable.mem_stage_of_grounded (hn : g.Stable n) (h : g.Grounded u) (hu : u ∈ g.units) :
    u ∈ g.stage n := by
  induction h with
  | intro u _ ih =>
    rw [← hn.stage_succ]
    exact mem_stage_succ.2 ⟨hu, fun v hv => ih v hv (mem_units_of_mem_dependencies hv)⟩

theorem Stable.mem_stage_iff (hn : g.Stable n) (hu : u ∈ g.units) :
    u ∈ g.stage n ↔ g.Grounded u :=
  ⟨grounded_of_mem_stage, fun h => hn.mem_stage_of_grounded h hu⟩

/-- **What remains in the end are the files that reach a cycle.** -/
theorem Stable.mem_remaining_iff (hn : g.Stable n) :
    u ∈ g.remaining n ↔ u ∈ g.units ∧ g.ReachesCycle u := by
  rw [mem_remaining]
  refine and_congr_right fun hu => ?_
  rw [hn.mem_stage_iff hu, grounded_iff, not_not]

theorem exists_order_ok_iff : (∃ o, g.order = .ok o) ↔ g.Acyclic := by
  obtain ⟨n, hn, -⟩ := g.exists_stable
  rw [acyclic_iff_grounded]
  constructor
  · rintro ⟨o, ho⟩ u hu
    exact grounded_of_mem_stage (hn.mem_stage_of_order_ok ho hu)
  · intro h
    refine ⟨⟨g.layers n⟩, (order_eq_ok_iff hn).2 ⟨?_, rfl⟩⟩
    rw [List.eq_nil_iff_forall_not_mem]
    intro u hu
    obtain ⟨hmem, hnot⟩ := mem_remaining.1 hu
    exact hnot (hn.mem_stage_of_grounded (h u hmem) hmem)

/-! ### Rounds of a subgraph -/

/-- What a file of `s` depends on is in `s`. -/
def ClosedUnder (g : DependencyGraph) (s : NameSet) : Prop :=
  ∀ u ∈ s, ∀ v ∈ g.dependencies u, v ∈ s

theorem mem_stage_induced (hs : g.ClosedUnder s) :
    u ∈ (g.induced s).stage n ↔ u ∈ g.stage n ∧ u ∈ s := by
  induction n generalizing u with
  | zero => simp
  | succ n ih =>
    simp only [mem_stage_succ, mem_units_induced, mem_dependencies_induced, ih]
    constructor
    · rintro ⟨⟨hu, hus⟩, hdeps⟩
      exact ⟨⟨hu, fun v hv => (hdeps v ⟨hv, hus, hs u hus v hv⟩).1⟩, hus⟩
    · rintro ⟨⟨hu, hdeps⟩, hus⟩
      exact ⟨⟨hu, hus⟩, fun v hv => ⟨hdeps v hv.1, hv.2.2⟩⟩

theorem filter_units_induced {p q : String → Bool} (h : ∀ u ∈ s, p u = q u) :
    (g.induced s).units.toList.filter p = (g.units.toList.filter q).filter (· ∈ s) := by
  have hunits : (g.induced s).units = g.units.filter (· ∈ s) :=
    NameSet.ext_mem fun u => by simp [mem_units_induced]
  have hlist : (g.induced s).units.toList = g.units.toList.filter (· ∈ s) := by rw [hunits]; rfl
  rw [hlist, List.filter_filter, List.filter_filter]
  refine List.filter_congr fun u _ => ?_
  by_cases hus : u ∈ s
  · simp [hus, h u hus]
  · simp [hus]

theorem layer_induced (hs : g.ClosedUnder s) :
    (g.induced s).layer n = (g.layer n).filter (· ∈ s) :=
  filter_units_induced fun u hu => by simp [mem_stage_induced hs, hu]

/-- **A closed set of files goes through the rounds on its own.** -/
theorem layers_induced (hs : g.ClosedUnder s) :
    (g.induced s).layers n = (g.layers n).filter (· ∈ s) := by
  rw [layers, layers, List.filter_flatMap]
  exact List.flatMap_congr fun i _ => layer_induced hs

theorem remaining_induced (hs : g.ClosedUnder s) :
    (g.induced s).remaining n = (g.remaining n).filter (· ∈ s) :=
  filter_units_induced fun u hu => by simp [mem_stage_induced hs, hu]

theorem Stable.induced (hs : g.ClosedUnder s) (hn : g.Stable n) : (g.induced s).Stable n := by
  rw [← layer_eq_nil_iff, layer_induced hs, layer_eq_nil_iff.2 hn, List.filter_nil]

/-! ### What a failure reports -/

theorem Stable.order_induced_stage (hn : g.Stable n) (hs : ∀ u, u ∈ s ↔ u ∈ g.stage n) :
    (g.induced s).order = .ok ⟨g.layers n⟩ := by
  -- the dependencies of a file are placed before it, so they are placed too
  have hclosed : g.ClosedUnder s := by
    intro u hu v hv
    rw [hs] at hu ⊢
    exact (mem_stage_succ.1 (mem_stage_succ_of_mem hu)).2 v hv
  refine (order_eq_ok_iff (hn.induced hclosed)).2 ⟨?_, ?_⟩
  · rw [remaining_induced hclosed, List.filter_eq_nil_iff]
    intro u hu
    simpa [hs] using (mem_remaining.1 hu).2
  · rw [layers_induced hclosed, List.filter_eq_self.2]
    intro u hu
    simpa [hs] using mem_layers.1 hu

/-- **A failed ordering reports the files that reach a cycle**, in increasing order, and the
order of all the others, which is the order of the subgraph that they induce. -/
theorem order_error_reaches_cycle (g : DependencyGraph) (e : CircularDependency)
    (h : g.order = .error e) :
    e.waiting ≠ [] ∧ e.waiting.Pairwise (· < ·) ∧
    (∀ u, u ∈ e.waiting ↔ u ∈ g.units ∧ g.ReachesCycle u) ∧
    (∀ u, e.placed.count u = if u ∈ g.units ∧ u ∉ e.waiting then 1 else 0) ∧
    (g.induced (NameSet.ofList e.placed)).order = .ok ⟨e.placed⟩ := by
  obtain ⟨n, hn, -⟩ := g.exists_stable
  obtain ⟨hne, rfl⟩ := (order_eq_error_iff hn).1 h
  have hplaced : ∀ u, u ∈ g.layers n ↔ u ∈ g.units ∧ u ∉ g.remaining n := by
    intro u
    rw [mem_layers, mem_remaining]
    -- a file of the graph is in the last stage or remains
    exact ⟨fun hu => ⟨mem_units_of_mem_stage hu, fun hr => hr.2 hu⟩,
      fun ⟨hu, hr⟩ => by_contra fun hnot => hr ⟨hu, hnot⟩⟩
  refine ⟨hne, g.units.sorted.filter _, fun u => hn.mem_remaining_iff, fun u => ?_, ?_⟩
  · simp only [(nodup_layers n).count, hplaced]
  · exact hn.order_induced_stage fun u => NameSet.mem_ofList.trans mem_layers

/-- Two files need each other, a third needs one of them and is needed by none, and a fourth is
needed by the cycle. -/
theorem order_error_reaches_cycle_of_pair :
    let g := ((((∅ : DependencyGraph).addDependency "a" "b").addDependency "b" "a").addDependency
      "b" "z").addDependency "c" "a"
    let e : CircularDependency := ⟨["a", "b", "c"], ["z"]⟩
    g.order = .error e ∧ g.ReachesCycle "c" ∧
      (g.induced (NameSet.ofList ["z"])).order = .ok ⟨["z"]⟩ := by
  intro g e
  have hstable : g.Stable 1 := layer_eq_nil_iff.1 (by decide)
  have h : g.order = .error e := (order_eq_error_iff hstable).2 ⟨by decide, by decide⟩
  obtain ⟨-, -, hwaiting, -, hplaced⟩ := order_error_reaches_cycle g e h
  exact ⟨h, ((hwaiting "c").1 (by decide)).2, hplaced⟩

end DependencyGraph

end LoadOrder
