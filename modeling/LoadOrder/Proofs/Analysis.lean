import LoadOrder.Proofs.Arrivals
import LoadOrder.Proofs.Linking
import LoadOrder.Proofs.Resolution

/-!
# What an analysis says about a project

An analysis scans the files, fills a symbol table and links the references.  `Analysis.Faithful`
says what must come out of it, in terms of the scans alone: the symbol table does not occur in it.

* `Analysis.faithful_of_ofUnits` : every analysis that succeeds is faithful.

The files may have the same name.  A reference of a file leads to the last file, in the order of the
input, that defines the first of its candidates that is defined at all.
-/

namespace LoadOrder

namespace Analysis

variable {strict : Bool} {units : List SourceUnit} {scans : List (String × Findings)}

/-- The references of all scans, each with the name of its file. -/
def mentions (scans : List (String × Findings)) : List (String × Reference) :=
  scans.flatMap fun s => s.2.references.map fun r => (s.1, r)

/-- How a reference of a file comes out. -/
def fate (scans : List (String × Findings)) (m : String × Reference) : Fate :=
  Fate.of m.1 (target? scans m.2)

/-- The analysis `a` of some files is what their scans dictate. -/
structure Faithful (strict : Bool) (units : List SourceUnit) (a : Analysis) : Prop where
  /-- The scans are those of the files, in their order. -/
  scans : List.Forall₂ (SourceUnit.ScansTo strict) units a.scans
  /-- The files of the graph are the files of the input. -/
  units : a.links.graph.units = NameSet.ofList (units.map SourceUnit.id)
  /-- A file depends on another exactly when one of its references leads there: the other is the
  last file that defines the first candidate of the reference that some file defines. -/
  dependencies : ∀ u v, (∃ d, a.links.graph.dependencies? u = some d ∧ v ∈ d) ↔
    u ≠ v ∧ ∃ s ∈ a.scans, s.1 = u ∧ ∃ r ∈ s.2.references, ∃ path,
      firstDefined? a.scans r = some path ∧ lastDefiner? a.scans path = some v
  /-- A name is logged for a file exactly when a reference of the file is written so and no file
  defines any of its candidates. -/
  externals : ∀ name u, a.links.externals.Logs name u ↔
    ∃ s ∈ a.scans, s.1 = u ∧ ∃ r ∈ s.2.references,
      r.written = name ∧ ∀ path ∈ r.candidates, ∀ t ∈ a.scans, ¬ Defines t path
  /-- No name is logged without a file. -/
  noneBlank : a.links.externals.NoneBlank
  /-- Every reference is counted. -/
  total : a.links.stats.total = (a.scans.flatMap fun s => s.2.references).length
  /-- Every reference is counted in one way. -/
  total_eq : a.links.stats.total =
    a.links.stats.resolved + a.links.stats.toSelf + a.links.stats.external
  /-- The references to other files. -/
  resolved : a.links.stats.resolved = (mentions a.scans).countP (fate a.scans · = .elsewhere)
  /-- The references of files to themselves. -/
  toSelf : a.links.stats.toSelf = (mentions a.scans).countP (fate a.scans · = .here)
  /-- The references to no file. -/
  external : a.links.stats.external = (mentions a.scans).countP (fate a.scans · = .nowhere)

theorem exists_mem_mentions {u : String} {P : Reference → Prop} :
    (∃ r, (u, r) ∈ mentions scans ∧ P r) ↔
      ∃ s ∈ scans, s.1 = u ∧ ∃ r ∈ s.2.references, P r := by
  simp only [mentions, List.mem_flatMap, List.mem_map, Prod.mk.injEq]
  constructor
  · rintro ⟨_, ⟨s, hs, r, hr, rfl, rfl⟩, h⟩
    exact ⟨s, hs, rfl, r, hr, h⟩
  · rintro ⟨s, hs, rfl, r, hr, h⟩
    exact ⟨r, ⟨s, hs, r, hr, rfl, rfl⟩, h⟩

theorem length_mentions (scans : List (String × Findings)) :
    (mentions scans).length = (scans.flatMap fun s => s.2.references).length := by
  simp [mentions, List.length_flatMap]

theorem records_ofScans (scans : List (String × Findings)) :
    Links.Records (ofScans scans).symbols (ofScans scans).links (scans.map Prod.fst)
      (mentions scans) := by
  have := Links.records_ofUnits (ofScans scans).symbols
    (scans.map fun s => (s.1, s.2.references))
  rwa [List.map_map, List.flatMap_map] at this

theorem map_fst_of_scansTo (h : List.Forall₂ (SourceUnit.ScansTo strict) units scans) :
    scans.map Prod.fst = units.map SourceUnit.id := by
  induction h with
  | nil => rfl
  | cons hs _ ih => rw [List.map_cons, List.map_cons, ih, hs.1]

/-- **An analysis that succeeds says exactly what the scans dictate.** -/
theorem faithful_of_ofUnits {a : Analysis} (h : ofUnits strict units = .ok a) :
    Faithful strict units a := by
  obtain ⟨scans, hscans, rfl⟩ := ofUnits_eq_ok_iff.1 h
  have hrec := records_ofScans scans
  have hfate : ∀ m : String × Reference,
      Fate.of m.1 ((ofScans scans).symbols.resolve? m.2) = fate scans m := by
    intro m
    rw [resolve?_ofScans, fate]
  refine ⟨hscans, ?_, fun u v => ?_, fun name u => ?_, hrec.noneBlank, ?_, ?_, ?_, ?_, ?_⟩
  · -- what a reference leads to is a file of the input, so linking adds no others
    refine NameSet.ext_mem fun w => ?_
    rw [hrec.units, NameSet.mem_ofList, ← map_fst_of_scansTo hscans]
    refine ⟨fun hw => hw.elim id ?_, Or.inl⟩
    rintro ⟨u, r, -, hr⟩
    rw [resolve?_ofScans] at hr
    obtain ⟨s, hs, rfl⟩ := exists_of_target? hr
    exact List.mem_map_of_mem hs
  · rw [DependencyGraph.exists_dependencies?_iff, hrec.dependencies, exists_mem_mentions]
    simp only [resolve?_ofScans, target?, Option.bind_eq_some_iff]
    rfl
  · rw [hrec.externals, exists_mem_mentions]
    simp only [resolve?_ofScans, target?_eq_none_iff]
    rfl
  · rw [hrec.total, length_mentions]; rfl
  · rw [hrec.total, hrec.resolved, hrec.toSelf, hrec.external]
    exact (Fate.countP_add_countP _ _).symm
  · simp only [hrec.resolved, hfate]; rfl
  · simp only [hrec.toSelf, hfate]; rfl
  · simp only [hrec.external, hfate]; rfl

/-- The module in `a` mentions `X`, which `b` and then `c` define at the top level. -/
theorem faithful_of_later_definition : ∃ units a,
    units.map SourceUnit.id = ["a", "b", "c"] ∧ ofUnits false units = .ok a ∧
      Faithful false units a ∧ (a.links.graph.dependencies "a").toList = ["c"] := by
  let x : Slot := .node .const [.literal "X"]
  let a : SourceUnit := ⟨"a", ⟨.moduleDef, [.node .constRef [.node .const [.literal "M"]],
    .node .bodyStmt [.list [.node .varRef [x]]]]⟩⟩
  let b : SourceUnit := ⟨"b", ⟨.moduleDef, [.node .constRef [x], .node .bodyStmt [.list []]]⟩⟩
  let c : SourceUnit := ⟨"c", ⟨.assign, [.node .varField [x], .nil]⟩⟩
  have h : ofUnits false [a, b, c] = .ok (ofScans [
      ("a", Findings.nestedIn "M" (.ofReferences [.lexical "X" []])),
      ("b", Findings.nestedIn "X" ∅), ("c", .ofDefinition "X")]) := rfl
  exact ⟨[a, b, c], _, rfl, h, faithful_of_ofUnits h, by decide +kernel⟩

end Analysis

end LoadOrder
