import LoadOrder.Link
import LoadOrder.Proofs.Graph.Edges
import Mathlib.Data.List.Basic

/-!
# What linking records

Linking goes through the files and, in each file, through its references.  `Links.Records` says
what it has recorded after some files and some of their references: which files are known, which
dependencies there are, which names are logged as external, and how many references came out in
which way.

* `Links.Records.addReference` : one more reference is recorded;
* `Links.records_ofUnits` : after all files, exactly their references are recorded;
* `Links.Records.eq_of_perm` : what is recorded determines the links.

The symbol table stays a parameter here; all that is used of it is what references stand for.
-/

namespace LoadOrder

namespace ExternalLog

/-- It is logged that the file mentions the name. -/
def Logs (log : ExternalLog) (name unit : String) : Prop :=
  ∃ units, log.units? name = some units ∧ unit ∈ units

@[simp] theorem not_logs_empty (name unit : String) : ¬ (∅ : ExternalLog).Logs name unit := by
  rintro ⟨_, h, -⟩
  cases h

theorem logs_record {log : ExternalLog} {name unit n u : String} :
    (log.record name unit).Logs n u ↔ (n = name ∧ u = unit) ∨ log.Logs n u := by
  simp only [Logs, record, units?, NameMap.get?_alter]
  split_ifs with hn
  · subst hn
    cases log.names.get? n <;> simp
  · simp [hn]

/-- A name is in the log exactly when some file is logged for it. -/
def NoneBlank (log : ExternalLog) : Prop :=
  ∀ name, log.contains name = true ↔ ∃ unit, log.Logs name unit

theorem noneBlank_empty : NoneBlank ∅ := by
  intro name
  simp only [not_logs_empty, exists_false, iff_false]
  rintro ⟨⟩

theorem NoneBlank.record {log : ExternalLog} (h : log.NoneBlank) (name unit : String) :
    (log.record name unit).NoneBlank := by
  intro n
  have hn := h n
  simp only [logs_record]
  simp only [contains, NameMap.contains, ExternalLog.record, NameMap.get?_alter] at hn ⊢
  split_ifs with hname
  · simp [hname]
  · rw [hn]; simp [hname]

theorem NoneBlank.units?_eq_some_iff {log : ExternalLog} (h : log.NoneBlank) {name : String}
    {units : NameSet} :
    log.units? name = some units ↔ (∃ u, u ∈ units) ∧ ∀ u, u ∈ units ↔ log.Logs name u := by
  constructor
  · intro hunits
    have hlogs : ∀ u, u ∈ units ↔ log.Logs name u := fun u => by simp [Logs, hunits]
    have hcontains : log.contains name = true := by
      show (log.units? name).isSome = true
      rw [hunits]
      rfl
    obtain ⟨u, hu⟩ := (h name).1 hcontains
    exact ⟨⟨u, (hlogs u).2 hu⟩, hlogs⟩
  · rintro ⟨⟨u, hu⟩, hlogs⟩
    obtain ⟨units', hunits', -⟩ := (hlogs u).1 hu
    have hsame : units' = units :=
      NameSet.ext_mem fun v => by simp [hlogs, Logs, hunits']
    rw [hunits', hsame]

/-- A log without names that stand alone is determined by which file is logged for which name. -/
theorem NoneBlank.ext_logs {log log' : ExternalLog} (h : log.NoneBlank) (h' : log'.NoneBlank)
    (hlogs : ∀ name unit, log.Logs name unit ↔ log'.Logs name unit) : log = log' := by
  have hget : ∀ name, log.units? name = log'.units? name := by
    intro name
    refine Option.ext fun units => ?_
    rw [h.units?_eq_some_iff, h'.units?_eq_some_iff]
    simp only [hlogs]
  cases log
  cases log'
  exact congrArg ExternalLog.mk (NameMap.ext_get? hget)

end ExternalLog

/-- How a reference of a file comes out. -/
inductive Fate where
  /-- It stands for another file. -/
  | elsewhere
  /-- It stands for the file itself. -/
  | here
  /-- It stands for no file. -/
  | nowhere
  deriving DecidableEq

namespace Fate

/-- How a reference comes out in the file `unit`, given what it stands for. -/
def of (unit : String) : Option String → Fate
  | none => nowhere
  | some owner => if owner = unit then here else elsewhere

/-- The ways exclude each other and there is no other. -/
theorem countP_add_countP {α : Type} (f : α → Fate) (l : List α) :
    l.countP (f · = elsewhere) + l.countP (f · = here) + l.countP (f · = nowhere) = l.length := by
  induction l with
  | nil => rfl
  | cons x l ih =>
    simp only [List.countP_cons, List.length_cons]
    cases f x <;> simp <;> omega

end Fate

namespace Links

variable {symbols : SymbolTable} {l : Links} {ids : List String}
  {ms : List (String × Reference)} {unit owner : String} {r : Reference}

/-! ### One reference -/

theorem addReference_elsewhere (hr : symbols.resolve? r = some owner) (hne : owner ≠ unit) :
    addReference symbols unit l r =
      ⟨l.graph.addDependency unit owner, l.externals,
        ⟨l.stats.resolved + 1, l.stats.toSelf, l.stats.external, l.stats.total + 1⟩⟩ := by
  simp [addReference, hr, hne]

theorem addReference_here (hr : symbols.resolve? r = some unit) :
    addReference symbols unit l r =
      ⟨l.graph, l.externals,
        ⟨l.stats.resolved, l.stats.toSelf + 1, l.stats.external, l.stats.total + 1⟩⟩ := by
  simp [addReference, hr]

theorem addReference_nowhere (hr : symbols.resolve? r = none) :
    addReference symbols unit l r =
      ⟨l.graph, l.externals.record r.written unit,
        ⟨l.stats.resolved, l.stats.toSelf, l.stats.external + 1, l.stats.total + 1⟩⟩ := by
  simp [addReference, hr]

theorem mem_dependencies_addReference {u v : String} :
    v ∈ (addReference symbols unit l r).graph.dependencies u ↔
      v ∈ l.graph.dependencies u ∨ u ≠ v ∧ u = unit ∧ symbols.resolve? r = some v := by
  cases hr : symbols.resolve? r with
  | none => rw [addReference_nowhere hr]; simp
  | some owner =>
    rw [Option.some.injEq]
    by_cases hne : owner = unit
    · subst hne
      rw [addReference_here hr]
      refine ⟨Or.inl, fun h => h.elim id ?_⟩
      -- a file is no dependency of itself, so nothing is lost
      rintro ⟨huv, rfl, rfl⟩
      exact absurd rfl huv
    · rw [addReference_elsewhere hr hne, DependencyGraph.mem_dependencies_addDependency, or_comm]
      refine or_congr_right ⟨?_, ?_⟩
      · rintro ⟨huv, rfl, rfl⟩; exact ⟨huv, rfl, rfl⟩
      · rintro ⟨huv, rfl, rfl⟩; exact ⟨huv, rfl, rfl⟩

theorem mem_units_addReference {w : String} (hunit : unit ∈ l.graph.units) :
    w ∈ (addReference symbols unit l r).graph.units ↔
      w ∈ l.graph.units ∨ symbols.resolve? r = some w := by
  cases hr : symbols.resolve? r with
  | none => rw [addReference_nowhere hr]; simp
  | some owner =>
    rw [Option.some.injEq]
    by_cases hne : owner = unit
    · subst hne
      rw [addReference_here hr]
      refine ⟨Or.inl, fun h => h.elim id ?_⟩
      rintro rfl
      exact hunit
    · rw [addReference_elsewhere hr hne, DependencyGraph.mem_units_addDependency]
      constructor
      · rintro (rfl | rfl | hw)
        · exact Or.inl hunit
        · exact Or.inr rfl
        · exact Or.inl hw
      · rintro (hw | rfl)
        · exact Or.inr (Or.inr hw)
        · exact Or.inr (Or.inl rfl)

theorem externals_addReference :
    (addReference symbols unit l r).externals =
      if symbols.resolve? r = none then l.externals.record r.written unit else l.externals := by
  cases hr : symbols.resolve? r with
  | none => rw [addReference_nowhere hr, if_pos rfl]
  | some owner =>
    rw [if_neg (Option.some_ne_none owner)]
    by_cases hne : owner = unit
    · rw [addReference_here (hne ▸ hr)]
    · rw [addReference_elsewhere hr hne]

theorem logs_addReference {name u : String} :
    (addReference symbols unit l r).externals.Logs name u ↔
      l.externals.Logs name u ∨ u = unit ∧ r.written = name ∧ symbols.resolve? r = none := by
  rw [externals_addReference]
  split_ifs with hr
  · rw [ExternalLog.logs_record, or_comm, and_comm, eq_comm (b := r.written)]
    simp [hr]
  · simp [hr]

theorem noneBlank_addReference (h : l.externals.NoneBlank) :
    (addReference symbols unit l r).externals.NoneBlank := by
  rw [externals_addReference]
  split_ifs
  · exact h.record _ _
  · exact h

theorem stats_addReference :
    (addReference symbols unit l r).stats =
      let fate := Fate.of unit (symbols.resolve? r)
      ⟨l.stats.resolved + if fate = .elsewhere then 1 else 0,
        l.stats.toSelf + if fate = .here then 1 else 0,
        l.stats.external + if fate = .nowhere then 1 else 0, l.stats.total + 1⟩ := by
  cases hr : symbols.resolve? r with
  | none => rw [addReference_nowhere hr]; rfl
  | some owner =>
    by_cases hne : owner = unit
    · rw [addReference_here (hne ▸ hr)]; simp [Fate.of, hne]
    · rw [addReference_elsewhere hr hne]; simp [Fate.of, hne]

variable (symbols) in
/-- What is recorded after the files `ids` and the references `ms`. -/
structure Records (l : Links) (ids : List String) (ms : List (String × Reference)) : Prop where
  units : ∀ w, w ∈ l.graph.units ↔
    w ∈ ids ∨ ∃ u r, (u, r) ∈ ms ∧ symbols.resolve? r = some w
  dependencies : ∀ u v, v ∈ l.graph.dependencies u ↔
    u ≠ v ∧ ∃ r, (u, r) ∈ ms ∧ symbols.resolve? r = some v
  externals : ∀ n u, l.externals.Logs n u ↔
    ∃ r, (u, r) ∈ ms ∧ r.written = n ∧ symbols.resolve? r = none
  noneBlank : l.externals.NoneBlank
  resolved : l.stats.resolved = ms.countP (fun m => Fate.of m.1 (symbols.resolve? m.2) = .elsewhere)
  toSelf : l.stats.toSelf = ms.countP (fun m => Fate.of m.1 (symbols.resolve? m.2) = .here)
  external : l.stats.external = ms.countP (fun m => Fate.of m.1 (symbols.resolve? m.2) = .nowhere)
  total : l.stats.total = ms.length

theorem records_empty : Records symbols ∅ [] [] where
  units w := by simp [show (∅ : Links).graph = ∅ from rfl]
  dependencies u v := by simp [show (∅ : Links).graph = ∅ from rfl]
  externals n u := by simp [show (∅ : Links).externals = ∅ from rfl]
  noneBlank := ExternalLog.noneBlank_empty
  resolved := rfl
  toSelf := rfl
  external := rfl
  total := rfl

theorem exists_mem_append {P : String → Reference → Prop} :
    (∃ u s, (u, s) ∈ ms ++ [(unit, r)] ∧ P u s) ↔ (∃ u s, (u, s) ∈ ms ∧ P u s) ∨ P unit r := by
  simp only [List.mem_append, List.mem_singleton, Prod.mk.injEq, or_and_right, exists_or]
  refine or_congr_right ⟨?_, fun h => ⟨unit, r, ⟨rfl, rfl⟩, h⟩⟩
  rintro ⟨_, _, ⟨rfl, rfl⟩, h⟩; exact h

theorem exists_mem_append_of_unit {u : String} {P : Reference → Prop} :
    (∃ s, (u, s) ∈ ms ++ [(unit, r)] ∧ P s) ↔ (∃ s, (u, s) ∈ ms ∧ P s) ∨ u = unit ∧ P r := by
  simp only [List.mem_append, List.mem_singleton, Prod.mk.injEq, or_and_right, exists_or]
  refine or_congr_right ⟨?_, fun h => ⟨r, ⟨h.1, rfl⟩, h.2⟩⟩
  rintro ⟨_, ⟨rfl, rfl⟩, h⟩; exact ⟨rfl, h⟩

/-- **One more reference is recorded.** -/
theorem Records.addReference (h : Records symbols l ids ms) (hu : unit ∈ ids) :
    Records symbols (addReference symbols unit l r) ids (ms ++ [(unit, r)]) where
  units w := by
    have hunit : unit ∈ l.graph.units := (h.units unit).2 (Or.inl hu)
    rw [mem_units_addReference hunit, h.units, exists_mem_append, or_assoc]
  dependencies u v := by
    rw [mem_dependencies_addReference, h.dependencies, exists_mem_append_of_unit, and_or_left]
  externals n u := by
    rw [logs_addReference, h.externals, exists_mem_append_of_unit]
  noneBlank := noneBlank_addReference h.noneBlank
  resolved := by simp [stats_addReference, h.resolved, List.countP_append, List.countP_singleton]
  toSelf := by simp [stats_addReference, h.toSelf, List.countP_append, List.countP_singleton]
  external := by simp [stats_addReference, h.external, List.countP_append, List.countP_singleton]
  total := by simp [stats_addReference, h.total]

/-! ### All references of all files -/

theorem Records.addUnitNode (h : Records symbols l ids ms) (unit : String) :
    Records symbols { l with graph := l.graph.addUnit unit } (ids ++ [unit]) ms := by
  refine ⟨fun w => ?_, fun u v => ?_, h.externals, h.noneBlank, h.resolved, h.toSelf, h.external,
    h.total⟩
  · rw [DependencyGraph.mem_units_addUnit, h.units, List.mem_append, List.mem_singleton]
    tauto
  · rw [DependencyGraph.mem_dependencies_addUnit, h.dependencies]

theorem Records.foldl_addReference (h : Records symbols l ids ms) (hu : unit ∈ ids)
    (references : List Reference) :
    Records symbols (references.foldl (Links.addReference symbols unit) l) ids
      (ms ++ references.map fun r => (unit, r)) := by
  induction references generalizing l ms with
  | nil => simpa using h
  | cons r references ih =>
    have := ih (h.addReference (r := r) hu)
    rwa [List.append_assoc] at this

theorem Records.addUnit (h : Records symbols l ids ms) (unit : String)
    (references : List Reference) :
    Records symbols (l.addUnit symbols unit references) (ids ++ [unit])
      (ms ++ references.map fun r => (unit, r)) :=
  (h.addUnitNode unit).foldl_addReference (by simp) references

theorem Records.foldl_addUnit (h : Records symbols l ids ms)
    (units : List (String × List Reference)) :
    Records symbols (units.foldl (fun l u => l.addUnit symbols u.1 u.2) l)
      (ids ++ units.map Prod.fst) (ms ++ units.flatMap fun u => u.2.map fun r => (u.1, r)) := by
  induction units generalizing l ids ms with
  | nil => simpa using h
  | cons u units ih =>
    have := ih (h.addUnit u.1 u.2)
    rwa [List.append_assoc, List.append_assoc] at this

/-- **Linking records the references of all files**, and nothing else. -/
theorem records_ofUnits (symbols : SymbolTable) (units : List (String × List Reference)) :
    Records symbols (ofUnits symbols units) (units.map Prod.fst)
      (units.flatMap fun u => u.2.map fun r => (u.1, r)) := by
  have hnone : Records symbols ∅ [] [] := records_empty
  have := hnone.foldl_addUnit units
  rwa [List.nil_append, List.nil_append] at this

/-! ### What is recorded determines the links -/

/-- **Links are determined by the files and references that they record**, whatever the order of
these. -/
theorem Records.eq_of_perm {l' : Links} {ids' : List String} {ms' : List (String × Reference)}
    (h : Records symbols l ids ms) (h' : Records symbols l' ids' ms') (hids : ids.Perm ids')
    (hms : ms.Perm ms') : l = l' := by
  have hgraph : l.graph = l'.graph := by
    refine DependencyGraph.ext_units (fun u => ?_) fun u v => ?_
    · simp only [h.units, h'.units, hids.mem_iff, hms.mem_iff]
    · simp only [h.dependencies, h'.dependencies, hms.mem_iff]
  have hexternals : l.externals = l'.externals := by
    refine h.noneBlank.ext_logs h'.noneBlank fun n u => ?_
    simp only [h.externals, h'.externals, hms.mem_iff]
  have hstats : l.stats = l'.stats := by
    rw [LinkStats.mk.injEq]
    refine ⟨?_, ?_, ?_, ?_⟩
    · rw [h.resolved, h'.resolved, hms.countP_eq]
    · rw [h.toSelf, h'.toSelf, hms.countP_eq]
    · rw [h.external, h'.external, hms.countP_eq]
    · rw [h.total, h'.total, hms.length_eq]
  cases l
  cases l'
  simp_all

end Links

end LoadOrder
