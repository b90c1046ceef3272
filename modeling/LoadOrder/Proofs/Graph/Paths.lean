import LoadOrder.Proofs.Graph.Edges
import Mathlib.Data.Fintype.Card
import Mathlib.Data.Fintype.EquivFin
import Mathlib.Data.Fintype.Sets
import Mathlib.Logic.Relation

/-!
# Dependency paths and cycles

A path follows one or more direct dependencies.  A cycle is a path from a file to itself, and it
may be reached from files that are not on it.  The files from which no cycle is reached are those
from which one cannot go on for ever; they are called grounded here, and a proof about them goes
by induction along the dependencies.

* `DependencyGraph.grounded_iff` : a file is grounded exactly when it reaches no cycle.  Only one
  direction needs that there are finitely many files.
* `DependencyGraph.acyclic_iff_grounded` : a graph has no cycle exactly when all files are
  grounded.
-/

namespace LoadOrder

namespace DependencyGraph

variable {g : DependencyGraph} {u v w : String}

/-- `u` depends directly on `v`. -/
def DependsOn (g : DependencyGraph) (u v : String) : Prop := v ∈ g.dependencies u

/-- `u` depends on `v` through one or more direct dependencies. -/
def Path (g : DependencyGraph) : String → String → Prop := Relation.TransGen g.DependsOn

/-- `u` lies on a cycle or depends on one. -/
def ReachesCycle (g : DependencyGraph) (u : String) : Prop :=
  ∃ v, (u = v ∨ g.Path u v) ∧ g.Path v v

/-- No file depends on itself, even through others. -/
def Acyclic (g : DependencyGraph) : Prop := ∀ u, ¬ g.Path u u

/-- The dependencies of `u`, their dependencies and so on come to an end. -/
def Grounded (g : DependencyGraph) (u : String) : Prop := Acc (fun v u => g.DependsOn u v) u

theorem Path.single (h : v ∈ g.dependencies u) : g.Path u v := Relation.TransGen.single h

theorem Path.trans (h : g.Path u v) (h' : g.Path v w) : g.Path u w := Relation.TransGen.trans h h'

theorem Path.head_cases (h : g.Path u w) : ∃ v ∈ g.dependencies u, v = w ∨ g.Path v w := by
  induction h using Relation.TransGen.head_induction_on with
  | single h => exact ⟨_, h, Or.inl rfl⟩
  | head h hrest _ => exact ⟨_, h, Or.inr hrest⟩

theorem Path.mem_units_left (h : g.Path u v) : u ∈ g.units := by
  obtain ⟨w, hw, -⟩ := h.head_cases
  exact mem_units_of_dependent hw

theorem Path.mem_units_right (h : g.Path u v) : v ∈ g.units := by
  induction h with
  | single h => exact mem_units_of_mem_dependencies h
  | tail _ h _ => exact mem_units_of_mem_dependencies h

/-! ### Grounded files -/

theorem Grounded.intro (h : ∀ v ∈ g.dependencies u, g.Grounded v) : g.Grounded u := Acc.intro u h

theorem Grounded.of_dependsOn (h : g.Grounded u) (hv : v ∈ g.dependencies u) : g.Grounded v :=
  h.inv hv

theorem Grounded.of_path (h : g.Grounded u) (hp : g.Path u v) : g.Grounded v := by
  induction hp with
  | single hv => exact h.of_dependsOn hv
  | tail _ hv ih => exact ih.of_dependsOn hv

theorem Grounded.not_path_self (h : g.Grounded u) : ¬ g.Path u u := by
  induction h with
  | intro u _ ih =>
    intro hp
    -- the cycle can be entered at the next file, which is grounded too
    obtain ⟨v, hv, hvu⟩ := hp.head_cases
    rcases hvu with rfl | hvu
    · exact not_mem_dependencies_self g v hv
    · exact ih v hv (hvu.trans (Path.single hv))

/-- On the files that `u` reaches, and if none of them lies on a cycle, following paths is
well-founded: there are finitely many files. -/
theorem wellFounded_path (hu : ¬ g.ReachesCycle u) :
    WellFounded fun y x : {v // v ∈ g.units.toList} => g.Path u x ∧ g.Path x y := by
  let r := fun y x : {v // v ∈ g.units.toList} => g.Path u x ∧ g.Path x y
  have : IsTrans _ r := ⟨fun _ _ _ hzy hyx => ⟨hyx.1, hyx.2.trans hzy.2⟩⟩
  have : Std.Irrefl r := ⟨fun x hx => hu ⟨x, Or.inr hx.1, hx.2⟩⟩
  exact Finite.wellFounded_of_trans_of_irrefl r

theorem grounded_of_not_reachesCycle (hu : ¬ g.ReachesCycle u) : g.Grounded u := by
  have hbelow : ∀ x : {v // v ∈ g.units.toList}, g.Path u x → g.Grounded x := by
    intro x
    induction x using (wellFounded_path hu).induction with
    | _ x ih =>
      intro hx
      refine Grounded.intro fun v hv => ?_
      have hp : g.Path u v := hx.trans (Path.single hv)
      exact ih ⟨v, hp.mem_units_right⟩ ⟨hx, Path.single hv⟩ hp
  refine Grounded.intro fun v hv => ?_
  have hp : g.Path u v := Path.single hv
  exact hbelow ⟨v, hp.mem_units_right⟩ hp

/-- **A file is grounded exactly when it reaches no cycle.** -/
theorem grounded_iff : g.Grounded u ↔ ¬ g.ReachesCycle u := by
  refine ⟨?_, grounded_of_not_reachesCycle⟩
  rintro h ⟨v, rfl | hv, hcycle⟩
  · exact h.not_path_self hcycle
  · exact (h.of_path hv).not_path_self hcycle

/-- A graph has no cycle exactly when all its files are grounded. -/
theorem acyclic_iff_grounded : g.Acyclic ↔ ∀ u ∈ g.units, g.Grounded u := by
  constructor
  · intro h u _
    rw [grounded_iff]
    rintro ⟨v, -, hv⟩
    exact h v hv
  · intro h u hu
    exact (h u hu.mem_units_left).not_path_self hu

end DependencyGraph

end LoadOrder
