import LoadOrder.Graph.Reach
import LoadOrder.Proofs.Graph.Paths

/-!
# Reachability is dependency through a path

The search for the files that are reached takes files off the list of the unseen ones.  What is
taken off is reached from the files to do (`exists_mem_todo_of_not_mem_unreached`), and at any time
the dependencies of a file that was taken off are taken off too or still to do
(`DependencyGraph.Pursued`).  Together they give `DependencyGraph.reaches_iff`.
-/

namespace LoadOrder

namespace DependencyGraph

variable {g : DependencyGraph} {unseen todo : List String} {u v : String}

/-- The files still to do account for all dependencies from seen files to unseen ones. -/
def Pursued (g : DependencyGraph) (unseen todo : List String) : Prop :=
  ∀ u, u ∉ unseen → ∀ v ∈ g.dependencies u, v ∈ unseen → v ∈ todo

theorem Pursued.visit {rest : List String} (h : g.Pursued unseen (u :: rest))
    (hnodup : unseen.Nodup) :
    g.Pursued (unseen.erase u) ((g.dependencies u).toList ++ rest) := by
  intro x hx y hy hmem
  rw [hnodup.mem_erase_iff] at hx hmem
  by_cases hxu : x = u
  · subst hxu
    exact List.mem_append_left _ hy
  · rcases List.mem_cons.1 (h x (fun hmem => hx ⟨hxu, hmem⟩) y hy hmem.2) with rfl | hrest
    · exact absurd rfl hmem.1
    · exact List.mem_append_right _ hrest

theorem Pursued.skip {rest : List String} (h : g.Pursued unseen (u :: rest)) (hu : u ∉ unseen) :
    g.Pursued unseen rest := by
  intro x hx y hy hmem
  rcases List.mem_cons.1 (h x hx y hy hmem) with rfl | hrest
  · exact absurd hmem hu
  · exact hrest

theorem mem_of_mem_unreached (h : v ∈ g.unreached unseen todo) : v ∈ unseen := by
  fun_induction unreached g unseen todo with
  | case1 => exact h
  | case2 unseen u rest hu ih => exact List.mem_of_mem_erase (ih h)
  | case3 unseen u rest hu ih => exact ih h

theorem exists_mem_todo_of_not_mem_unreached (hv : v ∈ unseen)
    (h : v ∉ g.unreached unseen todo) : ∃ u ∈ todo, u = v ∨ g.Path u v := by
  fun_induction unreached g unseen todo with
  | case1 => exact absurd hv h
  | case2 unseen u rest hu ih =>
    by_cases huv : v = u
    · exact ⟨u, List.mem_cons_self, Or.inl huv.symm⟩
    · obtain ⟨x, hx, hxv⟩ := ih ((List.mem_erase_of_ne huv).2 hv) h
      rcases List.mem_append.1 hx with hdep | hrest
      · refine ⟨u, List.mem_cons_self, Or.inr ?_⟩
        rcases hxv with rfl | hxv
        · exact Path.single hdep
        · exact (Path.single hdep).trans hxv
      · exact ⟨x, List.mem_cons_of_mem u hrest, hxv⟩
  | case3 unseen u rest hu ih =>
    obtain ⟨x, hx, hxv⟩ := ih hv h
    exact ⟨x, List.mem_cons_of_mem u hx, hxv⟩

theorem Pursued.unreached (h : g.Pursued unseen todo) (hnodup : unseen.Nodup) :
    g.Pursued (g.unreached unseen todo) [] := by
  fun_induction DependencyGraph.unreached g unseen todo with
  | case1 => exact h
  | case2 unseen u rest hu ih => exact ih (h.visit hnodup) (hnodup.erase u)
  | case3 unseen u rest hu ih => exact ih (h.skip hu) hnodup

theorem not_mem_unreached_of_mem_todo (hnodup : unseen.Nodup) (h : u ∈ todo) :
    u ∉ g.unreached unseen todo := by
  fun_induction unreached g unseen todo with
  | case1 => simp at h
  | case2 unseen v rest hv ih =>
    rcases List.mem_cons.1 h with rfl | hrest
    · intro hmem
      exact (hnodup.mem_erase_iff.1 (mem_of_mem_unreached hmem)).1 rfl
    · exact ih (hnodup.erase v) (List.mem_append_right _ hrest)
  | case3 unseen v rest hv ih =>
    rcases List.mem_cons.1 h with rfl | hrest
    · exact fun hmem => hv (mem_of_mem_unreached hmem)
    · exact ih hnodup hrest

theorem Pursued.not_mem_of_path (h : g.Pursued unseen []) (hu : u ∉ unseen) (hp : g.Path u v) :
    v ∉ unseen := by
  induction hp with
  | single hv => exact fun hmem => List.not_mem_nil (h u hu _ hv hmem)
  | tail _ hv ih => exact fun hmem => List.not_mem_nil (h _ ih _ hv hmem)

/-- **One file reaches another exactly when a path leads from it to the other.** -/
theorem reaches_iff : g.reaches u v = true ↔ g.Path u v := by
  have hnodup := g.units.nodup_toList
  -- at first all files are unseen, and what is no file has no dependencies
  have hstart : g.Pursued g.units.toList (g.dependencies u).toList := fun x hx y hy =>
    absurd hy (not_mem_dependencies_of_not_mem_units hx)
  simp only [reaches, Bool.and_eq_true, decide_eq_true_eq]
  constructor
  · rintro ⟨hv, hseen⟩
    obtain ⟨w, hw, hwv⟩ := exists_mem_todo_of_not_mem_unreached hv hseen
    rcases hwv with rfl | hwv
    · exact Path.single hw
    · exact (Path.single hw).trans hwv
  · intro hp
    refine ⟨hp.mem_units_right, ?_⟩
    obtain ⟨w, hw, hwv⟩ := hp.head_cases
    have hseen : w ∉ g.unreached g.units.toList (g.dependencies u).toList :=
      not_mem_unreached_of_mem_todo hnodup hw
    rcases hwv with rfl | hwv
    · exact hseen
    · exact (hstart.unreached hnodup).not_mem_of_path hseen hwv

end DependencyGraph

end LoadOrder
