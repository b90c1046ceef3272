import LoadOrder.Proofs.Analysis
import LoadOrder.Proofs.Graph.Removal
import LoadOrder.Proofs.StrictAnalysis

/-!
# Adding a file without definitions

A file that defines nothing adds no symbol, so the references of all other files stand for what they
stood for before, and none of them stands for the new file.  What the new file adds is its own: the
files that it depends on and the external names that it mentions.

* `Analysis.graph_without_newcomer` : the dependencies, without the new file, are those of before;
* `Analysis.logs_externals_newcomer` : likewise the external names;
* `Analysis.undisturbed_by_newcomer` : what an analysis with the new file says about the others.

Only the name of the new file has to be new; the others may have the same name.
-/

namespace LoadOrder

theorem SymbolTable.addUnit_empty (t : SymbolTable) (unit : String) : t.addUnit unit ∅ = t := rfl

/-- Where two logs differ in one file only, the files that are logged for a name are the same but
for that file. -/
theorem ExternalLog.NoneBlank.units?_erase {log log' : ExternalLog} (h : log.NoneBlank)
    (h' : log'.NoneBlank) {w : String}
    (hlogs : ∀ name u, log.Logs name u ↔ log'.Logs name u ∧ u ≠ w) (name : String) :
    log.units? name = ((log'.units? name).map (·.erase w)).filter (! ·.isEmpty) := by
  refine Option.ext fun units => ?_
  rw [h.units?_eq_some_iff, Option.filter_eq_some_iff, Option.map_eq_some_iff, Bool.not_eq_true',
    ← Bool.not_eq_true, NameSet.isEmpty_iff]
  push Not
  rw [and_comm]
  refine and_congr_left fun ⟨u, hu⟩ => ?_
  constructor
  · intro hunits
    obtain ⟨⟨all, hall, -⟩, -⟩ := (hlogs name u).1 ((hunits u).1 hu)
    have hsame : all.erase w = units := by
      refine NameSet.ext_mem fun v => ?_
      rw [NameSet.mem_erase, hunits, hlogs, (h'.units?_eq_some_iff.1 hall).2]
    exact ⟨all, hall, hsame⟩
  · rintro ⟨all, hall, rfl⟩ v
    rw [NameSet.mem_erase, hlogs, (h'.units?_eq_some_iff.1 hall).2]

namespace Analysis

theorem mem_units_ofScans {scans : List (String × Findings)} {u : String} :
    u ∈ (ofScans scans).links.graph.units ↔ u ∈ scans.map Prod.fst := by
  rw [(records_ofScans scans).units]
  refine ⟨fun h => h.elim id ?_, Or.inl⟩
  rintro ⟨_, r, -, hr⟩
  rw [resolve?_ofScans] at hr
  obtain ⟨s, hs, rfl⟩ := exists_of_target? hr
  exact List.mem_map_of_mem hs

/-! ### One more scan -/

section

variable {before after : List (String × Findings)} {w u : String} {f : Findings}

theorem symbols_newcomer (hnone : f.definitions = ∅) :
    (ofScans (before ++ (w, f) :: after)).symbols = (ofScans (before ++ after)).symbols := by
  simp only [ofScans, List.foldl_append, List.foldl_cons, hnone, SymbolTable.addUnit_empty]

theorem mem_mentions_newcomer (hu : u ≠ w) {r : Reference} :
    (u, r) ∈ mentions (before ++ (w, f) :: after) ↔ (u, r) ∈ mentions (before ++ after) := by
  simp [mentions, hu.symm]

theorem resolve?_ne_of_fresh {scans : List (String × Findings)} (hfresh : ∀ s ∈ scans, s.1 ≠ w)
    (r : Reference) : (ofScans scans).symbols.resolve? r ≠ some w := by
  intro hr
  rw [resolve?_ofScans] at hr
  obtain ⟨s, hs, hw⟩ := exists_of_target? hr
  exact hfresh s hs hw

theorem mem_dependencies_newcomer (hnone : f.definitions = ∅) (hu : u ≠ w) {v : String} :
    v ∈ (ofScans (before ++ (w, f) :: after)).links.graph.dependencies u ↔
      v ∈ (ofScans (before ++ after)).links.graph.dependencies u := by
  simp only [(records_ofScans _).dependencies, symbols_newcomer hnone, mem_mentions_newcomer hu]

theorem unneeded_newcomer (hfresh : ∀ s ∈ before ++ after, s.1 ≠ w) (hnone : f.definitions = ∅) :
    (ofScans (before ++ (w, f) :: after)).links.graph.Unneeded w := by
  intro u hw
  rw [(records_ofScans _).dependencies, symbols_newcomer hnone] at hw
  obtain ⟨-, r, -, hr⟩ := hw
  exact resolve?_ne_of_fresh hfresh r hr

/-- **Without the new file the graph is that of before.** -/
theorem graph_without_newcomer (hfresh : ∀ s ∈ before ++ after, s.1 ≠ w)
    (hnone : f.definitions = ∅) :
    (ofScans (before ++ (w, f) :: after)).links.graph.without w =
      (ofScans (before ++ after)).links.graph := by
  have hunknown : w ∉ (ofScans (before ++ after)).links.graph.units := by
    intro hw
    obtain ⟨s, hs, rfl⟩ := List.mem_map.1 (mem_units_ofScans.1 hw)
    exact hfresh s hs rfl
  refine DependencyGraph.ext_units (fun u => ?_) fun u v => ?_
  · rw [DependencyGraph.mem_units_without]
    by_cases hu : u = w
    · simp [hu, hunknown]
    · simp [hu, mem_units_ofScans]
  · rw [DependencyGraph.mem_dependencies_without (unneeded_newcomer hfresh hnone)]
    by_cases hu : u = w
    · simp [hu, DependencyGraph.not_mem_dependencies_of_not_mem_units hunknown]
    · simp [hu, mem_dependencies_newcomer hnone hu]

theorem logs_externals_newcomer (hfresh : ∀ s ∈ before ++ after, s.1 ≠ w)
    (hnone : f.definitions = ∅) (name u : String) :
    (ofScans (before ++ after)).links.externals.Logs name u ↔
      (ofScans (before ++ (w, f) :: after)).links.externals.Logs name u ∧ u ≠ w := by
  by_cases hu : u = w
  · subst hu
    simp only [ne_eq, not_true_eq_false, and_false, iff_false, (records_ofScans _).externals]
    rw [exists_mem_mentions]
    rintro ⟨s, hs, hsu, -⟩
    exact hfresh s hs hsu
  · simp only [(records_ofScans _).externals, symbols_newcomer hnone, mem_mentions_newcomer hu]
    exact (and_iff_left hu).symm

end

/-- **A file without definitions does not disturb the others.**  If a file with a new name that
defines nothing is put anywhere among some files, a lenient analysis finds the same symbol table,
the same dependencies of each other file and the same external names, but for those that only the
new file mentions.  A build order is found exactly when there was one before; and the order, or the
files that are reported as waiting and as placed, are those of before once the new file is
deleted. -/
theorem undisturbed_by_newcomer (before after : List SourceUnit) (w : SourceUnit)
    (hfresh : ∀ u ∈ before ++ after, u.id ≠ w.id) {f : Findings} (hscan : w.scan false = .ok f)
    (hnone : f.definitions = ∅) :
    ∃ a b, ofUnits false (before ++ after) = .ok a ∧ ofUnits false (before ++ w :: after) = .ok b ∧
      b.symbols = a.symbols ∧
      (∀ u, u ≠ w.id → b.links.graph.dependencies? u = a.links.graph.dependencies? u) ∧
      (∀ name, a.links.externals.units? name =
        ((b.links.externals.units? name).map (·.erase w.id)).filter (! ·.isEmpty)) ∧
      ((∃ o, b.buildOrder = .ok o) ↔ ∃ o, a.buildOrder = .ok o) ∧
      (∀ o, b.buildOrder = .ok o → a.buildOrder = .ok ⟨o.units.filter (· ≠ w.id)⟩) ∧
      ∀ e, b.buildOrder = .error e →
        a.buildOrder = .error ⟨e.waiting.filter (· ≠ w.id), e.placed.filter (· ≠ w.id)⟩ := by
  have hold := ofUnits_lenient (before ++ after)
  have hnew := ofUnits_lenient (before ++ w :: after)
  rw [List.map_append] at hold
  rw [List.map_append, List.map_cons, SourceUnit.lenientScan_eq hscan] at hnew
  have hfresh' : ∀ s ∈ before.map SourceUnit.lenientScan ++ after.map SourceUnit.lenientScan,
      s.1 ≠ w.id := by
    rw [← List.map_append]
    intro s hs
    obtain ⟨u, hu, rfl⟩ := List.mem_map.1 hs
    exact hfresh u hu
  have horder := DependencyGraph.order_without (unneeded_newcomer hfresh' hnone)
  rw [graph_without_newcomer hfresh' hnone] at horder
  refine ⟨_, _, hold, hnew, symbols_newcomer hnone, fun u hu => ?_, fun name => ?_, ?_,
    fun o ho => ?_, fun e he => ?_⟩
  · exact DependencyGraph.dependencies?_congr fun v => mem_dependencies_newcomer hnone hu
  · exact (records_ofScans _).noneBlank.units?_erase (records_ofScans _).noneBlank
      (logs_externals_newcomer hfresh' hnone) name
  · rw [buildOrder, buildOrder, horder]
    exact DependencyGraph.exists_deleteFrom_eq_ok_iff.symm
  · rw [buildOrder] at ho
    rw [buildOrder, horder, ho]
    rfl
  · rw [buildOrder] at he
    rw [buildOrder, horder, he]
    rfl

/-- The modules of `a` and `b` mention each other and that of `z` itself; `m` mentions `A` and an
unknown name.  It waits for `a` and `b`, and without it they wait alike. -/
theorem undisturbed_by_newcomer_of_pair : ∃ (a z m b : SourceUnit) (old new : Analysis),
    [a, z, m, b].map SourceUnit.id = ["a", "z", "m", "b"] ∧
      ofUnits false [a, z, b] = .ok old ∧ ofUnits false [a, z, m, b] = .ok new ∧
      new.buildOrder = .error ⟨["a", "b", "m"], ["z"]⟩ ∧
      old.buildOrder = .error ⟨["a", "b"], ["z"]⟩ ∧
      new.links.externals.Logs "X" "m" ∧ old.links.externals.units? "X" = none := by
  let name (text : String) : Slot := .node .const [.literal text]
  let file (id own other : String) : SourceUnit := ⟨id, ⟨.moduleDef, [.node .constRef [name own],
    .node .bodyStmt [.list [.node .varRef [name other]]]]⟩⟩
  let found (own other : String) : Findings := .nestedIn own (.ofReferences [.lexical other []])
  let before := [file "a" "A" "B", file "z" "Z" "Z"]
  let after := [file "b" "B" "A"]
  let m : SourceUnit :=
    ⟨"m", ⟨.program, [.list [.node .varRef [name "A"], .node .varRef [name "X"]]]⟩⟩
  let mentioned : Findings := .ofReferences [.lexical "A" [], .lexical "X" []]
  have hm : m.scan false = .ok mentioned := rfl
  have hfresh : ∀ u ∈ before ++ after, u.id ≠ m.id := by decide
  obtain ⟨old, new, hold, hnew, -, -, hexternals, -, -, herror⟩ :=
    undisturbed_by_newcomer before after m hfresh hm rfl
  have hscans : ofUnits false (before ++ m :: after) = .ok (ofScans [("a", found "A" "B"),
    ("z", found "Z" "Z"), ("m", mentioned), ("b", found "B" "A")]) := rfl
  obtain rfl := Except.ok.inj (hscans.symm.trans hnew)
  set new := ofScans [("a", found "A" "B"), ("z", found "Z" "Z"), ("m", mentioned),
    ("b", found "B" "A")]
  have hstable : new.links.graph.Stable 1 :=
    DependencyGraph.layer_eq_nil_iff.1 (by decide +kernel)
  have horder : new.buildOrder = .error ⟨["a", "b", "m"], ["z"]⟩ :=
    (DependencyGraph.order_eq_error_iff hstable).2 ⟨by decide +kernel, by decide +kernel⟩
  have hlogged : new.links.externals.units? "X" = some (NameSet.ofList ["m"]) := by decide +kernel
  refine ⟨_, _, m, _, old, new, rfl, hold, hnew, horder, herror _ horder, ?_, ?_⟩
  · exact ⟨_, hlogged, by decide⟩
  · rw [hexternals, hlogged]
    decide

end Analysis

end LoadOrder
