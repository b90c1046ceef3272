import LoadOrder.Proofs.Graph.Waiting

/-!
# Removing a file that nothing depends on

A file that nothing depends on holds no other file up.  It takes part in one round, or in none when
it depends on a cycle; all other files are placed, or wait, as they would without it.

* `DependencyGraph.Stable.exists_ne_mem_remaining` : such a file is never the only one that waits;
* `DependencyGraph.order_without` : so the ordering of the graph without the file answers as that of
  the whole graph, with the file deleted from the answer.
-/

namespace LoadOrder

namespace DependencyGraph

variable {g : DependencyGraph} {u w : String} {n : ℕ}

/-- No file depends on `w`. -/
def Unneeded (g : DependencyGraph) (w : String) : Prop := ∀ u, w ∉ g.dependencies u

/-- The graph without the file `w`. -/
def without (g : DependencyGraph) (w : String) : DependencyGraph := g.induced (g.units.erase w)

/-- An answer of the ordering, with the file `w` deleted from it. -/
def deleteFrom (w : String) :
    Except CircularDependency BuildOrder → Except CircularDependency BuildOrder
  | .ok o => .ok ⟨o.units.filter (· ≠ w)⟩
  | .error e => .error ⟨e.waiting.filter (· ≠ w), e.placed.filter (· ≠ w)⟩

theorem exists_deleteFrom_eq_ok_iff {answer : Except CircularDependency BuildOrder} :
    (∃ o, deleteFrom w answer = .ok o) ↔ ∃ o, answer = .ok o := by
  cases answer <;> simp [deleteFrom]

theorem mem_units_without : u ∈ (g.without w).units ↔ u ∈ g.units ∧ u ≠ w := by
  rw [without, mem_units_induced, NameSet.mem_erase]
  tauto

theorem mem_dependencies_without (hw : g.Unneeded w) {v : String} :
    v ∈ (g.without w).dependencies u ↔ v ∈ g.dependencies u ∧ u ≠ w := by
  simp only [without, mem_dependencies_induced, NameSet.mem_erase]
  refine and_congr_right fun hv => ?_
  have hu : u ∈ g.units := mem_units_of_dependent hv
  have hv' : v ∈ g.units := mem_units_of_mem_dependencies hv
  have hvw : v ≠ w := by
    rintro rfl
    exact hw u hv
  simp [hu, hv', hvw]

theorem dependencies?_congr {h : DependencyGraph}
    (hdeps : ∀ v, v ∈ g.dependencies u ↔ v ∈ h.dependencies u) :
    g.dependencies? u = h.dependencies? u := by
  have hset : g.dependencies u = h.dependencies u := NameSet.ext_mem hdeps
  have hfilter : ∀ k : DependencyGraph,
      k.dependencies? u = if (k.dependencies u).isEmpty then none else some (k.dependencies u) := by
    intro k
    unfold dependencies? dependencies
    cases k.adjacency.get? u with
    | none => rfl
    | some d => cases hd : d.isEmpty <;> simp [hd]
  rw [hfilter, hfilter, hset]

theorem closedUnder_erase (hw : g.Unneeded w) : g.ClosedUnder (g.units.erase w) := by
  intro u _ v hv
  refine NameSet.mem_erase.2 ⟨mem_units_of_mem_dependencies hv, ?_⟩
  rintro rfl
  exact hw u hv

theorem filter_mem_erase {l : List String} (hl : ∀ u ∈ l, u ∈ g.units) :
    l.filter (· ∈ g.units.erase w) = l.filter (· ≠ w) := by
  refine List.filter_congr fun u hu => ?_
  simp [NameSet.mem_erase, hl u hu]

theorem layers_without (hw : g.Unneeded w) :
    (g.without w).layers n = (g.layers n).filter (· ≠ w) := by
  rw [without, layers_induced (closedUnder_erase hw)]
  exact filter_mem_erase fun u hu => mem_units_of_mem_stage (mem_layers.1 hu)

theorem remaining_without (hw : g.Unneeded w) :
    (g.without w).remaining n = (g.remaining n).filter (· ≠ w) := by
  rw [without, remaining_induced (closedUnder_erase hw)]
  exact filter_mem_erase fun u hu => (mem_remaining.1 hu).1

/-- **A file waits in the end only if another one does.** -/
theorem Stable.exists_ne_mem_remaining (hn : g.Stable n) (hu : u ∈ g.remaining n) (w : String) :
    ∃ v ∈ g.remaining n, v ≠ w := by
  by_contra hall
  push Not at hall
  obtain rfl : u = w := hall u hu
  obtain ⟨hmem, hnot⟩ := mem_remaining.1 hu
  -- what `u` depends on is not `u` itself, so all of it is placed, and `u` is placed next
  have hdeps : ∀ v ∈ g.dependencies u, v ∈ g.stage n := by
    intro v hv
    by_contra hvn
    obtain rfl := hall v (mem_remaining.2 ⟨mem_units_of_mem_dependencies hv, hvn⟩)
    exact not_mem_dependencies_self g v hv
  have hnext : u ∈ g.stage (n + 1) := mem_stage_succ.2 ⟨hmem, hdeps⟩
  exact hnot (hn.stage_succ ▸ hnext)

/-- **Without a file that nothing depends on, the ordering answers the same**, with the file deleted
from the answer. -/
theorem order_without (hw : g.Unneeded w) : (g.without w).order = deleteFrom w g.order := by
  obtain ⟨n, hn, horder⟩ := g.exists_stable
  have hstable : (g.without w).Stable n := hn.induced (closedUnder_erase hw)
  have hempty : (g.remaining n).filter (· ≠ w) = [] ↔ g.remaining n = [] := by
    refine ⟨fun h => ?_, fun h => by rw [h]; rfl⟩
    rw [List.eq_nil_iff_forall_not_mem]
    intro u hu
    obtain ⟨v, hv, hvw⟩ := hn.exists_ne_mem_remaining hu w
    rw [List.filter_eq_nil_iff] at h
    exact h v hv (by simpa using hvw)
  rw [order_eq_of_stable hstable, horder, outcome, outcome, layers_without hw, remaining_without hw]
  by_cases hrem : g.remaining n = []
  · simp [hrem, deleteFrom]
  · have hrem' : (g.remaining n).filter (· ≠ w) ≠ [] := fun h => hrem (hempty.1 h)
    rw [if_neg (by simpa using hrem'), if_neg (by simpa using hrem)]
    rfl

end DependencyGraph

end LoadOrder
