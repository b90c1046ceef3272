import LoadOrder.Proofs.Graph.Reach
import LoadOrder.Proofs.Graph.Waiting

/-!
# Asking before a dependency is added

`DependencyGraph.wouldCreateCycle` searches the graph as it is, without the dependency that is
asked about.  Its answer is about the graph with that dependency:

* `DependencyGraph.path_addDependency_iff` : a path of the larger graph is an old one, or it enters
  the new edge for the first time at its start and leaves it for the last time at its end.  What
  happens between the two does not matter.
* `DependencyGraph.wouldCreateCycle_foretells_order` : on a graph that can be ordered, the answer
  says whether the larger graph can be ordered; and on any graph, adding the dependency does not
  change the answer.
-/

namespace LoadOrder

namespace DependencyGraph

variable {g : DependencyGraph} {a b u v : String}

/-! ### Paths through the new edge -/

theorem dependsOn_addDependency (hab : a ≠ b) :
    v ∈ (g.addDependency a b).dependencies u ↔ (u = a ∧ v = b) ∨ v ∈ g.dependencies u := by
  rw [mem_dependencies_addDependency]
  simp [hab]

theorem Path.addDependency (h : g.Path u v) : (g.addDependency a b).Path u v := by
  refine Relation.TransGen.mono (fun x y hy => ?_) _ _ h
  exact mem_dependencies_addDependency.2 (Or.inr hy)

theorem path_addDependency_self (hab : a ≠ b) : (g.addDependency a b).Path a b :=
  Path.single ((dependsOn_addDependency hab).2 (Or.inl ⟨rfl, rfl⟩))

/-- **The paths of a graph with one more dependency**: the old ones, and those that go to the new
edge and on from it by old ones. -/
theorem path_addDependency_iff (hab : a ≠ b) :
    (g.addDependency a b).Path u v ↔
      g.Path u v ∨ ((u = a ∨ g.Path u a) ∧ (b = v ∨ g.Path b v)) := by
  constructor
  · intro h
    induction h with
    | single hv =>
      rcases (dependsOn_addDependency hab).1 hv with ⟨rfl, rfl⟩ | hold
      · exact Or.inr ⟨Or.inl rfl, Or.inl rfl⟩
      · exact Or.inl (Path.single hold)
    | tail _ hw ih =>
      rcases (dependsOn_addDependency hab).1 hw with ⟨rfl, rfl⟩ | hold
      · -- the new edge is taken (again): only the way to it is kept
        refine Or.inr ⟨?_, Or.inl rfl⟩
        rcases ih with hu | ⟨hu, -⟩
        · exact Or.inr hu
        · exact hu
      · rcases ih with hu | ⟨hu, rfl | hb⟩
        · exact Or.inl (hu.trans (Path.single hold))
        · exact Or.inr ⟨hu, Or.inr (Path.single hold)⟩
        · exact Or.inr ⟨hu, Or.inr (hb.trans (Path.single hold))⟩
  · rintro (h | ⟨hu, hv⟩)
    · exact h.addDependency
    · have hto : (g.addDependency a b).Path u b := by
        rcases hu with rfl | hu
        · exact path_addDependency_self hab
        · exact hu.addDependency.trans (path_addDependency_self hab)
      rcases hv with rfl | hv
      · exact hto
      · exact hto.trans hv.addDependency

/-! ### Cycles through the new edge -/

theorem wouldCreateCycle_iff (hab : a ≠ b) : g.wouldCreateCycle a b = true ↔ g.Path b a := by
  simp [wouldCreateCycle, hab, reaches_iff]

/-- A new edge does not help to get back to its start. -/
theorem path_back_addDependency_iff (hab : a ≠ b) :
    (g.addDependency a b).Path b a ↔ g.Path b a := by
  rw [path_addDependency_iff hab]
  refine ⟨fun h => ?_, Or.inl⟩
  rcases h with hba | ⟨rfl | hba, -⟩
  · exact hba
  · exact absurd rfl hab
  · exact hba

theorem Acyclic.addDependency_iff (h : g.Acyclic) (hab : a ≠ b) :
    (g.addDependency a b).Acyclic ↔ ¬ g.Path b a := by
  constructor
  · intro hnew hback
    exact hnew a ((path_addDependency_self hab).trans hback.addDependency)
  · intro hback u hu
    rcases (path_addDependency_iff hab).1 hu with hold | ⟨hua, hbu⟩
    · exact h u hold
    · -- from the end of the new edge to `u`, and from `u` to its start
      rcases hbu with rfl | hbu <;> rcases hua with rfl | hua
      · exact hab rfl
      · exact hback hua
      · exact hback hbu
      · exact hback (hbu.trans hua)

theorem exists_order_error_iff : (∃ e, g.order = .error e) ↔ ¬ g.Acyclic := by
  rw [← exists_order_ok_iff]
  cases g.order with
  | ok o => simp
  | error e => simp

/-- **The answer foretells what the ordering says**: on a graph that can be ordered, a dependency
would create a cycle exactly when the graph with it cannot be ordered.  On any graph, the answer is
the same before and after the dependency is added. -/
theorem wouldCreateCycle_foretells_order (g : DependencyGraph) {a b : String} (hab : a ≠ b) :
    ((∃ o, g.order = .ok o) →
      (g.wouldCreateCycle a b = true ↔ ∃ e, (g.addDependency a b).order = .error e)) ∧
    (g.addDependency a b).wouldCreateCycle a b = g.wouldCreateCycle a b := by
  refine ⟨fun horder => ?_, ?_⟩
  · have hacyclic : g.Acyclic := exists_order_ok_iff.1 horder
    rw [wouldCreateCycle_iff hab, exists_order_error_iff, hacyclic.addDependency_iff hab, not_not]
  · rw [Bool.eq_iff_iff, wouldCreateCycle_iff hab, wouldCreateCycle_iff hab,
      path_back_addDependency_iff hab]

/-- A chain `a`, `b`, `c` can be ordered; `c` must not depend on `a`, and `a` may depend on `c`. -/
theorem wouldCreateCycle_foretells_order_chain :
    let g := ((∅ : DependencyGraph).addDependency "a" "b").addDependency "b" "c"
    g.order = .ok ⟨["c", "b", "a"]⟩ ∧
      (g.wouldCreateCycle "c" "a" = true ∧ (∃ e, (g.addDependency "c" "a").order = .error e) ∧
        (g.addDependency "c" "a").wouldCreateCycle "c" "a" = true) ∧
      (g.wouldCreateCycle "a" "c" = false ∧ ¬ ∃ e, (g.addDependency "a" "c").order = .error e) := by
  intro g
  have hstable : g.Stable 3 := layer_eq_nil_iff.1 (by decide)
  have h : g.order = .ok ⟨["c", "b", "a"]⟩ := (order_eq_ok_iff hstable).2 ⟨by decide, by decide⟩
  have hpath : g.Path "a" "c" :=
    (Path.single (v := "b") (by decide)).trans (Path.single (by decide))
  have hback : g.wouldCreateCycle "c" "a" = true := (wouldCreateCycle_iff (by decide)).2 hpath
  have hforth : g.wouldCreateCycle "a" "c" = false := by
    have hnone : (g.dependencies "c").toList = [] := by decide
    rw [← Bool.not_eq_true, wouldCreateCycle_iff (by decide)]
    intro hp
    obtain ⟨v, hv, -⟩ := hp.head_cases
    rw [← NameSet.mem_toList, hnone] at hv
    cases hv
  obtain ⟨hfails, hsame⟩ := wouldCreateCycle_foretells_order g (a := "c") (b := "a") (by decide)
  obtain ⟨hholds, -⟩ := wouldCreateCycle_foretells_order g (a := "a") (b := "c") (by decide)
  refine ⟨h, ⟨hback, (hfails ⟨_, h⟩).1 hback, hsame.trans hback⟩, hforth, fun herror => ?_⟩
  exact Bool.false_ne_true (hforth.symm.trans ((hholds ⟨_, h⟩).2 herror))

end DependencyGraph

end LoadOrder
