import LoadOrder.Proofs.ByteOrder
import LoadOrder.Proofs.Graph.Rounds
import Mathlib.Data.List.Sort
import Mathlib.Data.Prod.Lex
import Mathlib.Tactic.Choose

/-!
# Orders by depth

The depth of a file without dependencies is zero, and that of any other file is one more than the
largest depth of its dependencies.  When the ordering succeeds there is such a depth for all files,
and the order is the files sorted by their depth, and by the bytes of their names where the depth
is the same (`DependencyGraph.order_sorted_by_depth`).

The link between the two is `IsDepth.mem_stage_iff`: round `n` places the files of depth `n`.
-/

namespace LoadOrder

/-! ### Positions -/

namespace BuildOrder

variable {g : DependencyGraph} {o : BuildOrder} {u v : String}

theorem exists_position? (h : u ∈ o.units) :
    ∃ i, ∃ hi : i < o.units.length, o.position? u = some i ∧ o.units[i] = u := by
  have hsome : (o.position? u).isSome := by
    rw [position?, List.findIdx?_isSome]
    simpa using h
  obtain ⟨i, hi⟩ := Option.isSome_iff_exists.1 hsome
  obtain ⟨hlt, heq, -⟩ := List.findIdx?_eq_some_iff_getElem.1 hi
  exact ⟨i, hlt, hi, of_decide_eq_true heq⟩

theorem satisfies_iff :
    o.satisfies g = true ↔ ∀ u v, v ∈ g.dependencies u →
      ∃ i j, o.position? u = some i ∧ o.position? v = some j ∧ j < i := by
  rw [satisfies, List.all_eq_true]
  constructor
  · intro h u v hv
    have hu := h (u, g.dependencies u) (DependencyGraph.mem_entries.2 ⟨rfl, v, hv⟩)
    cases hi : o.position? u with
    | none => simp [hi] at hu
    | some i =>
      simp only [hi, List.all_eq_true] at hu
      have hlt := hu v hv
      cases hj : o.position? v with
      | none => simp [hj] at hlt
      | some j => exact ⟨i, j, rfl, rfl, by simpa [hj] using hlt⟩
  · rintro h ⟨u, d⟩ he
    obtain ⟨rfl, v, hv⟩ := DependencyGraph.mem_entries.1 he
    obtain ⟨i, -, hi, -⟩ := h u v hv
    simp only [hi, List.all_eq_true]
    intro w hw
    obtain ⟨i', j, hi', hj, hlt⟩ := h u w hw
    rw [hi, Option.some_inj] at hi'
    simpa [hj, hi'] using hlt

theorem satisfies_of_pairwise {r : String → String → Prop} (hr : ∀ u v, r u v → ¬ r v u)
    (ho : o.units.Pairwise r) (hmem : ∀ u ∈ g.units, u ∈ o.units)
    (hdep : ∀ u v, v ∈ g.dependencies u → r v u) : o.satisfies g = true := by
  refine satisfies_iff.2 fun u v hv => ?_
  obtain ⟨i, hi, hposu, hu⟩ := exists_position? (hmem u (DependencyGraph.mem_units_of_dependent hv))
  obtain ⟨j, hj, hposv, hv'⟩ :=
    exists_position? (hmem v (DependencyGraph.mem_units_of_mem_dependencies hv))
  have hvu : r v u := hdep u v hv
  refine ⟨i, j, hposu, hposv, ?_⟩
  rcases Nat.lt_trichotomy i j with hlt | heq | hlt
  · have huv := List.pairwise_iff_getElem.1 ho i j hi hj hlt
    rw [hu, hv'] at huv
    exact absurd hvu (hr u v huv)
  · subst heq
    rw [← hv', hu] at hvu
    exact absurd hvu (hr u u hvu)
  · exact hlt

end BuildOrder

namespace DependencyGraph

variable {g : DependencyGraph} {depth : String → ℕ} {u v : String} {n : ℕ}

/-- `depth` is zero on the files without dependencies, and one more than the largest depth of the
dependencies on the others. -/
def IsDepth (g : DependencyGraph) (depth : String → ℕ) : Prop :=
  ∀ u ∈ g.units, depth u =
    match ((g.dependencies u).toList.map depth).max? with
    | none => 0
    | some largest => 1 + largest

/-- `u` has a smaller depth than `v`, or the same and its bytes do not come after those of `v`. -/
def notLater (depth : String → ℕ) (u v : String) : Bool :=
  depth u < depth v ∨ depth u = depth v ∧ Utf8.encode u ≤ Utf8.encode v

/-! ### Depth and rounds -/

theorem max?_dependencies_eq_none :
    ((g.dependencies u).toList.map depth).max? = none ↔ ∀ v, v ∉ g.dependencies u := by
  rw [List.max?_eq_none_iff, List.map_eq_nil_iff, List.eq_nil_iff_forall_not_mem]
  rfl

theorem max?_dependencies_eq_some {largest : ℕ} :
    ((g.dependencies u).toList.map depth).max? = some largest ↔
      (∃ v ∈ g.dependencies u, depth v = largest) ∧ ∀ v ∈ g.dependencies u, depth v ≤ largest := by
  rw [List.max?_eq_some_iff]
  simp [List.mem_map]

/-- A file is less deep than `n + 1` exactly when all its dependencies are less deep than `n`. -/
theorem IsDepth.lt_succ_iff (hd : g.IsDepth depth) (hu : u ∈ g.units) :
    depth u < n + 1 ↔ ∀ v ∈ g.dependencies u, depth v < n := by
  rw [hd u hu]
  cases hmax : ((g.dependencies u).toList.map depth).max? with
  | none =>
    have hnone := max?_dependencies_eq_none.1 hmax
    exact ⟨fun _ v hv => absurd hv (hnone v), fun _ => Nat.succ_pos n⟩
  | some largest =>
    obtain ⟨⟨v, hv, rfl⟩, hle⟩ := max?_dependencies_eq_some.1 hmax
    show 1 + depth v < n + 1 ↔ _
    constructor
    · intro h w hw
      have := hle w hw
      omega
    · intro h
      have := h v hv
      omega

/-- **Round `n` places the files of depth `n`.** -/
theorem IsDepth.mem_stage_iff (hd : g.IsDepth depth) (hu : u ∈ g.units) :
    u ∈ g.stage n ↔ depth u < n := by
  induction n generalizing u with
  | zero => simp
  | succ n ih =>
    rw [mem_stage_succ, hd.lt_succ_iff hu]
    simp only [hu, true_and]
    exact forall₂_congr fun v hv => ih (mem_units_of_mem_dependencies hv)

theorem isDepth_of_mem_stage_iff (h : ∀ u ∈ g.units, ∀ n, u ∈ g.stage n ↔ depth u < n) :
    g.IsDepth depth := by
  intro u hu
  cases hmax : ((g.dependencies u).toList.map depth).max? with
  | none =>
    have hnone := max?_dependencies_eq_none.1 hmax
    have hone : u ∈ g.stage 1 := mem_stage_succ.2 ⟨hu, fun v hv => absurd hv (hnone v)⟩
    have := (h u hu 1).1 hone
    show depth u = 0
    omega
  | some largest =>
    obtain ⟨⟨v, hv, rfl⟩, hle⟩ := max?_dependencies_eq_some.1 hmax
    have hstage : ∀ w ∈ g.dependencies u, ∀ n, w ∈ g.stage n ↔ depth w < n := fun w hw =>
      h w (mem_units_of_mem_dependencies hw)
    -- `u` is placed one round after its deepest dependency `v`, and not before
    have hup : u ∈ g.stage (depth v + 2) := by
      refine mem_stage_succ.2 ⟨hu, fun w hw => (hstage w hw _).2 ?_⟩
      have := hle w hw
      omega
    have hlow : u ∉ g.stage (depth v + 1) := fun hmem =>
      lt_irrefl _ ((hstage v hv _).1 ((mem_stage_succ.1 hmem).2 v hv))
    have := (h u hu _).1 hup
    rw [h u hu] at hlow
    show depth u = 1 + depth v
    omega

theorem exists_isDepth (h : ∀ u ∈ g.units, u ∈ g.stage n) : ∃ depth, g.IsDepth depth := by
  have hlayer : ∀ u ∈ g.units, ∃ i, u ∈ g.layer i := by
    intro u hu
    obtain ⟨i, -, hi⟩ := List.mem_flatMap.1 (mem_layers.2 (h u hu))
    exact ⟨i, hi⟩
  choose! depth hdepth using hlayer
  exact ⟨depth, isDepth_of_mem_stage_iff fun u hu _ => mem_stage_iff_of_mem_layer (hdepth u hu)⟩

/-! ### Sorting by depth -/

theorem notLater_iff : notLater depth u v = true ↔ toLex (depth u, u) ≤ toLex (depth v, v) := by
  rw [notLater, decide_eq_true_eq, Prod.Lex.toLex_le_toLex, Utf8.encode_le_encode_iff]

theorem pairwise_mergeSort_notLater (l : List String) :
    (l.mergeSort (notLater depth)).Pairwise fun u v => notLater depth u v = true := by
  refine List.pairwise_mergeSort (fun u v w huv hvw => ?_) (fun u v => ?_) l
  · rw [notLater_iff] at huv hvw ⊢
    exact huv.trans hvw
  · rw [Bool.or_eq_true, notLater_iff, notLater_iff]
    exact le_total _ _

theorem IsDepth.notLater_of_earlier (hd : g.IsDepth depth) (hu : u ∈ g.units) (hv : v ∈ g.units)
    (h : g.Earlier u v) : notLater depth u v = true := by
  rw [notLater_iff, Prod.Lex.toLex_le_toLex]
  rcases h with ⟨n, hun, hvn⟩ | ⟨hiff, hlt⟩
  · rw [hd.mem_stage_iff hu] at hun
    rw [hd.mem_stage_iff hv] at hvn
    exact Or.inl (by omega)
  · -- the two are in the same stages, so neither is deeper
    have hsame : ∀ n, depth u < n ↔ depth v < n := fun n => by
      rw [← hd.mem_stage_iff hu, ← hd.mem_stage_iff hv, hiff]
    have h1 := hsame (depth u + 1)
    have h2 := hsame (depth v + 1)
    exact Or.inr ⟨by show depth u = depth v; omega, hlt.le⟩

/-- A list of all files, in the order in which they are placed, is sorted by depth. -/
theorem IsDepth.eq_mergeSort (hd : g.IsDepth depth) {l : List String}
    (hl : l.Pairwise g.Earlier) (hmem : ∀ u, u ∈ l ↔ u ∈ g.units) :
    l = g.units.toList.mergeSort (notLater depth) := by
  have hnodup : l.Nodup := hl.imp Earlier.ne
  have hperm : l.Perm (g.units.toList.mergeSort (notLater depth)) :=
    ((List.perm_ext_iff_of_nodup hnodup g.units.nodup_toList).2 hmem).trans
      (List.mergeSort_perm _ _).symm
  have hsorted : l.Pairwise fun u v => notLater depth u v = true :=
    hl.imp_of_mem fun hu hv huv => hd.notLater_of_earlier ((hmem _).1 hu) ((hmem _).1 hv) huv
  refine hperm.eq_of_pairwise ?_ hsorted (pairwise_mergeSort_notLater _)
  intro u v _ _ huv hvu
  rw [notLater_iff] at huv hvu
  exact congrArg Prod.snd (toLex.injective (le_antisymm huv hvu))

/-! ### The order -/

theorem Stable.mem_stage_of_order_ok (hn : g.Stable n) {o : BuildOrder} (h : g.order = .ok o)
    (hu : u ∈ g.units) : u ∈ g.stage n := by
  by_contra hnot
  have hrem : u ∈ g.remaining n := mem_remaining.2 ⟨hu, hnot⟩
  rw [((order_eq_ok_iff hn).1 h).1] at hrem
  exact List.not_mem_nil hrem

theorem earlier_of_mem_dependencies (hu : u ∈ g.stage n) (hv : v ∈ g.dependencies u) :
    g.Earlier v u := by
  induction n with
  | zero => simp at hu
  | succ n ih =>
    by_cases hun : u ∈ g.stage n
    · exact ih hun
    · exact Or.inl ⟨n, (mem_stage_succ.1 hu).2 v hv, hun⟩

theorem satisfies_of_order_ok {o : BuildOrder} (h : g.order = .ok o) : o.satisfies g = true := by
  obtain ⟨n, hn, -⟩ := g.exists_stable
  obtain ⟨-, rfl⟩ := (order_eq_ok_iff hn).1 h
  refine BuildOrder.satisfies_of_pairwise (fun u v => Earlier.asymm) (pairwise_layers n) ?_ ?_
  · exact fun u hu => mem_layers.2 (hn.mem_stage_of_order_ok h hu)
  · exact fun u v hv =>
      earlier_of_mem_dependencies (hn.mem_stage_of_order_ok h (mem_units_of_dependent hv)) hv

/-- **A successful order is the files sorted by depth and name**: it lists every file once and
nothing else, it satisfies the graph, there is a depth for the files, and whatever the depth,
sorting by it gives the order. -/
theorem order_sorted_by_depth (g : DependencyGraph) (o : BuildOrder) (h : g.order = .ok o) :
    (∀ u, o.units.count u = if u ∈ g.units then 1 else 0) ∧
    o.satisfies g = true ∧
    (∃ depth, g.IsDepth depth) ∧
    ∀ depth, g.IsDepth depth → o.units = g.units.toList.mergeSort (notLater depth) := by
  obtain ⟨n, hn, -⟩ := g.exists_stable
  have hplaced : ∀ u ∈ g.units, u ∈ g.stage n := fun u hu => hn.mem_stage_of_order_ok h hu
  have hsat := satisfies_of_order_ok h
  obtain ⟨-, rfl⟩ := (order_eq_ok_iff hn).1 h
  have hmem : ∀ u, u ∈ g.layers n ↔ u ∈ g.units := fun u =>
    mem_layers.trans ⟨mem_units_of_mem_stage, hplaced u⟩
  refine ⟨fun u => ?_, hsat, exists_isDepth hplaced, fun depth hd => ?_⟩
  · simp only [(nodup_layers n).count, hmem]
  · exact hd.eq_mergeSort (pairwise_layers n) hmem

/-- The names alone would give another order: `z` is needed by all but `c`. -/
theorem order_sorted_by_depth_chain :
    let g := ((((∅ : DependencyGraph).addDependency "a" "z").addDependency "b" "a").addDependency
      "b" "z").addUnit "c"
    let o : BuildOrder := ⟨["c", "z", "a", "b"]⟩
    g.order = .ok o ∧ o.satisfies g = true ∧ ∃ depth, g.IsDepth depth ∧
      o.units = ["a", "b", "c", "z"].mergeSort (notLater depth) := by
  intro g o
  have hstable : g.Stable 3 := layer_eq_nil_iff.1 (by decide)
  have h : g.order = .ok o := (order_eq_ok_iff hstable).2 ⟨by decide, by decide⟩
  obtain ⟨-, hsat, ⟨depth, hd⟩, hsorted⟩ := order_sorted_by_depth g o h
  exact ⟨h, hsat, depth, hd, hsorted depth hd⟩

end DependencyGraph

end LoadOrder
