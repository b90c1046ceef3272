import LoadOrder.Graph.Order
import LoadOrder.Proofs.Graph.Edges
import Mathlib.Order.Monotone.Basic

/-!
# The rounds of an ordering

Files are placed in rounds.  `stage n` is the set of the files that are placed within `n` rounds;
it is defined by the dependencies alone, without the lists that the ordering works on.  The sets
grow until a round adds nothing, and then they stay as they are.

* `DependencyGraph.place_layers` : after `n` rounds the ordering has placed the files of
  `stage n`, round by round and in increasing order in each round, and the others are waiting.
* `DependencyGraph.order_eq_of_stable` : the answer of the ordering, in terms of any round that
  adds nothing.
* `DependencyGraph.pairwise_layers` : in what order the files are placed.

All that follows about the ordering is derived from these, without another look at the rounds.
-/

namespace LoadOrder

namespace DependencyGraph

variable (g : DependencyGraph)

/-- The files that are placed within `n` rounds: their dependencies are placed within one round
less. -/
def stage : ℕ → NameSet
  | 0 => ∅
  | n + 1 => g.units.filter fun u => (g.dependencies u).toList.all (· ∈ stage n)

/-- The files that round `n` places, counted from zero. -/
def layer (n : ℕ) : List String :=
  g.units.toList.filter fun u => u ∈ g.stage (n + 1) ∧ u ∉ g.stage n

/-- The files that the first `n` rounds place, in order. -/
def layers (n : ℕ) : List String := (List.range n).flatMap g.layer

/-- The files that are waiting after `n` rounds. -/
def remaining (n : ℕ) : List String := g.units.toList.filter fun u => u ∉ g.stage n

/-- Round `n` places nothing. -/
def Stable (n : ℕ) : Prop := g.stage (n + 1) = g.stage n

/-- What comes of `n` rounds, when no more follow. -/
def outcome (n : ℕ) : Except CircularDependency BuildOrder :=
  if (g.remaining n).isEmpty then .ok ⟨g.layers n⟩ else .error ⟨g.remaining n, g.layers n⟩

variable {g} {u v : String} {m n : ℕ}

/-! ### Stages -/

@[simp] theorem not_mem_stage_zero : u ∉ g.stage 0 := NameSet.not_mem_empty u

theorem mem_stage_succ :
    u ∈ g.stage (n + 1) ↔ u ∈ g.units ∧ ∀ v ∈ g.dependencies u, v ∈ g.stage n := by
  simp [stage]

theorem mem_units_of_mem_stage (h : u ∈ g.stage n) : u ∈ g.units := by
  cases n with
  | zero => simp at h
  | succ n => exact (mem_stage_succ.1 h).1

theorem mem_stage_succ_of_mem (h : u ∈ g.stage n) : u ∈ g.stage (n + 1) := by
  induction n generalizing u with
  | zero => simp at h
  | succ n ih =>
    obtain ⟨hu, hdeps⟩ := mem_stage_succ.1 h
    exact mem_stage_succ.2 ⟨hu, fun v hv => ih (hdeps v hv)⟩

theorem mem_stage_of_le (hmn : m ≤ n) (h : u ∈ g.stage m) : u ∈ g.stage n := by
  induction n, hmn using Nat.le_induction with
  | base => exact h
  | succ n _ ih => exact mem_stage_succ_of_mem ih

theorem Stable.stage_succ (h : g.Stable n) : g.stage (n + 1) = g.stage n := h

/-- A round that places nothing is the last one that matters. -/
theorem Stable.succ (h : g.Stable n) : g.Stable (n + 1) := by
  refine NameSet.ext_mem fun u => ?_
  rw [mem_stage_succ, mem_stage_succ, h.stage_succ]

theorem Stable.stage_eq (h : g.Stable n) (hnm : n ≤ m) : g.stage m = g.stage n := by
  have key : g.Stable m ∧ g.stage m = g.stage n := by
    induction m, hnm using Nat.le_induction with
    | base => exact ⟨h, rfl⟩
    | succ m _ ih => exact ⟨ih.1.succ, ih.1.stage_succ.trans ih.2⟩
  exact key.2

theorem stable_of_subset (h : ∀ u ∈ g.stage (n + 1), u ∈ g.stage n) : g.Stable n :=
  NameSet.ext_mem fun u => ⟨h u, mem_stage_succ_of_mem⟩

/-! ### Layers -/

theorem mem_layer : u ∈ g.layer n ↔ u ∈ g.stage (n + 1) ∧ u ∉ g.stage n := by
  simp only [layer, List.mem_filter, decide_eq_true_eq, NameSet.mem_toList]
  exact ⟨fun h => h.2, fun h => ⟨mem_units_of_mem_stage h.1, h⟩⟩

theorem mem_remaining : u ∈ g.remaining n ↔ u ∈ g.units ∧ u ∉ g.stage n := by
  simp [remaining]

theorem layers_succ : g.layers (n + 1) = g.layers n ++ g.layer n := by
  simp [layers, List.range_succ]

theorem mem_layers : u ∈ g.layers n ↔ u ∈ g.stage n := by
  induction n with
  | zero => simp [layers]
  | succ n ih =>
    rw [layers_succ, List.mem_append, ih, mem_layer]
    constructor
    · rintro (h | h)
      · exact mem_stage_succ_of_mem h
      · exact h.1
    · intro h
      by_cases hu : u ∈ g.stage n
      · exact Or.inl hu
      · exact Or.inr ⟨h, hu⟩

theorem layer_eq_nil_iff : g.layer n = [] ↔ g.Stable n := by
  rw [List.eq_nil_iff_forall_not_mem]
  constructor
  · intro h
    refine stable_of_subset fun u hu => ?_
    by_contra hnot
    exact h u (mem_layer.2 ⟨hu, hnot⟩)
  · intro h u hu
    rw [mem_layer, h.stage_succ] at hu
    exact hu.2 hu.1

theorem Stable.layers_eq (h : g.Stable n) (hnm : n ≤ m) : g.layers m = g.layers n := by
  induction m, hnm using Nat.le_induction with
  | base => rfl
  | succ m hm ih =>
    have hm' : g.Stable m := by
      rw [Stable, h.stage_eq hm, h.stage_eq (Nat.le_succ_of_le hm)]
    rw [layers_succ, layer_eq_nil_iff.2 hm', List.append_nil, ih]

theorem Stable.remaining_eq (h : g.Stable n) (hnm : n ≤ m) : g.remaining m = g.remaining n := by
  rw [remaining, remaining, h.stage_eq hnm]

theorem Stable.outcome_eq (h : g.Stable n) (h' : g.Stable m) : g.outcome m = g.outcome n := by
  have key : ∀ {i j : ℕ}, g.Stable i → i ≤ j → g.outcome j = g.outcome i := by
    intro i j hi hij
    rw [outcome, outcome, hi.remaining_eq hij, hi.layers_eq hij]
  rcases Nat.le_total n m with hnm | hmn
  · exact key h hnm
  · exact (key h' hmn).symm

/-! ### The ordering goes through the stages -/

theorem isReady_iff {placed : List String} :
    g.isReady placed u = true ↔ ∀ v ∈ g.dependencies u, v ∈ placed := by
  simp [isReady]

theorem isReady_layers (hu : u ∈ g.units) :
    g.isReady (g.layers n) u = true ↔ u ∈ g.stage (n + 1) := by
  simp [isReady_iff, mem_layers, mem_stage_succ, hu]

theorem ready_layers : g.ready (g.layers n) (g.remaining n) = g.layer n := by
  rw [ready, remaining, layer, List.filter_filter]
  refine List.filter_congr fun u hu => ?_
  rw [Bool.eq_iff_iff, Bool.and_eq_true, isReady_layers hu]
  simp

theorem unready_layers : g.unready (g.layers n) (g.remaining n) = g.remaining (n + 1) := by
  rw [unready, remaining, remaining, List.filter_filter]
  refine List.filter_congr fun u hu => ?_
  have hready := isReady_layers (n := n) hu
  rw [Bool.eq_iff_iff, Bool.and_eq_true, Bool.not_eq_true', ← Bool.not_eq_true, hready]
  simp only [decide_eq_true_eq, and_iff_left_iff_imp]
  exact fun h hn => h (mem_stage_succ_of_mem hn)

/-- **The ordering goes through the stages** until a round places nothing. -/
theorem place_layers (n : ℕ) :
    ∃ m, g.Stable m ∧ g.place (g.layers n) (g.remaining n) = g.outcome m := by
  -- every round but the last leaves fewer files waiting
  induction hk : (g.remaining n).length using Nat.strong_induction_on generalizing n with
  | _ k ih =>
    rw [place]
    split_ifs with hempty hready
    · refine ⟨n, stable_of_subset fun u hu => ?_, by rw [outcome, if_pos hempty]⟩
      by_contra hnot
      have hmem : u ∈ g.remaining n := mem_remaining.2 ⟨mem_units_of_mem_stage hu, hnot⟩
      rw [List.isEmpty_iff.1 hempty] at hmem
      exact List.not_mem_nil hmem
    · rw [ready_layers, List.isEmpty_iff] at hready
      exact ⟨n, layer_eq_nil_iff.1 hready, by rw [outcome, if_neg hempty]⟩
    · have hlt : (g.remaining (n + 1)).length < k := by
        rw [← hk, ← unready_layers]
        exact length_unready_lt hready
      rw [ready_layers, unready_layers, ← layers_succ]
      exact ih _ hlt (n + 1) rfl

theorem remaining_zero : g.remaining 0 = g.units.toList := by
  simp [remaining]

/-- **The answer of the ordering**, after any round that places nothing; there is one. -/
theorem exists_stable (g : DependencyGraph) : ∃ n, g.Stable n ∧ g.order = g.outcome n := by
  obtain ⟨n, hn, hplace⟩ := g.place_layers 0
  rw [remaining_zero] at hplace
  exact ⟨n, hn, hplace⟩

theorem order_eq_of_stable (h : g.Stable n) : g.order = g.outcome n := by
  obtain ⟨m, hm, horder⟩ := g.exists_stable
  rw [horder, hm.outcome_eq h]

theorem order_eq_ok_iff (h : g.Stable n) {o : BuildOrder} :
    g.order = .ok o ↔ g.remaining n = [] ∧ o = ⟨g.layers n⟩ := by
  rw [order_eq_of_stable h, outcome]
  split_ifs with hempty
  · simp [List.isEmpty_iff.1 hempty, eq_comm]
  · rw [List.isEmpty_iff] at hempty
    simp [hempty]

theorem order_eq_error_iff (h : g.Stable n) {e : CircularDependency} :
    g.order = .error e ↔ g.remaining n ≠ [] ∧ e = ⟨g.remaining n, g.layers n⟩ := by
  rw [order_eq_of_stable h, outcome]
  split_ifs with hempty
  · simp [List.isEmpty_iff.1 hempty]
  · rw [List.isEmpty_iff] at hempty
    simp [hempty, eq_comm]

/-! ### The order of the files -/

variable (g) in
/-- `u` is placed in an earlier round than `v`, or in the same and has the smaller name. -/
def Earlier (u v : String) : Prop :=
  (∃ n, u ∈ g.stage n ∧ v ∉ g.stage n) ∨ ((∀ n, u ∈ g.stage n ↔ v ∈ g.stage n) ∧ u < v)

theorem Earlier.ne (h : g.Earlier u v) : u ≠ v := by
  rintro rfl
  rcases h with ⟨n, hn, hnot⟩ | ⟨-, hlt⟩
  · exact hnot hn
  · exact String.lt_irrefl u hlt

theorem Earlier.asymm (h : g.Earlier u v) : ¬ g.Earlier v u := by
  rintro (⟨m, hv, hu⟩ | ⟨hiff, hlt⟩)
  · rcases h with ⟨n, hun, hvn⟩ | ⟨hiff, -⟩
    · rcases Nat.le_total m n with hmn | hnm
      · exact hvn (mem_stage_of_le hmn hv)
      · exact hu (mem_stage_of_le hnm hun)
    · exact hu ((hiff m).2 hv)
  · rcases h with ⟨n, hun, hvn⟩ | ⟨-, hlt'⟩
    · exact hvn ((hiff n).2 hun)
    · exact String.lt_asymm hlt hlt'

theorem mem_stage_iff_of_mem_layer (h : u ∈ g.layer n) : u ∈ g.stage m ↔ n < m := by
  obtain ⟨hu, hnot⟩ := mem_layer.1 h
  constructor
  · intro hm
    by_contra hlt
    exact hnot (mem_stage_of_le (Nat.le_of_not_lt hlt) hm)
  · exact fun hlt => mem_stage_of_le hlt hu

/-- **In what order the files are placed.** -/
theorem pairwise_layers (n : ℕ) : (g.layers n).Pairwise g.Earlier := by
  rw [layers, List.pairwise_flatMap]
  constructor
  · intro i _
    refine ((g.units.sorted.filter _).imp_of_mem fun {u v} hu hv hlt => Or.inr ⟨fun m => ?_, hlt⟩)
    rw [mem_stage_iff_of_mem_layer hu, mem_stage_iff_of_mem_layer hv]
  · refine List.pairwise_lt_range.imp fun {i j} hij u hu v hv => Or.inl ⟨i + 1, ?_, ?_⟩
    · exact (mem_stage_iff_of_mem_layer hu).2 (Nat.lt_succ_self i)
    · rw [mem_stage_iff_of_mem_layer hv]; omega

theorem nodup_layers (n : ℕ) : (g.layers n).Nodup := (pairwise_layers n).imp Earlier.ne

end DependencyGraph

end LoadOrder
