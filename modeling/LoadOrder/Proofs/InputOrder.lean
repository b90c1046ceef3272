import LoadOrder.Proofs.Analysis
import LoadOrder.Proofs.Contributors
import LoadOrder.Proofs.StrictAnalysis

/-!
# The order of the files

The symbol table is filled in the order of the files, and a later file takes the paths that it
defines from earlier ones.  That is the only place where the order matters: as long as no path is
defined by two files with different names, the owner of a path is *some* file that defines it, and
everything after the table is a set or a count.

* `Analysis.Unambiguous.lastDefiner?_eq_some_iff` : the last file that defines a path, said without
  any order;
* `Analysis.Unambiguous.symbols_eq_of_perm` and `Analysis.Unambiguous.links_eq_of_perm` : hence the
  symbol table and the links of files in any order;
* `Analysis.agree_of_perm` : analyses of the same files in different orders agree.

Files may have the same name.  Two of them may also define the same path; they count as one file.
-/

namespace LoadOrder

namespace SourceUnit

/-- The file defines a path, as a lenient scan finds. -/
def Defines (u : SourceUnit) (path : String) : Prop :=
  ∃ f, u.scan false = .ok f ∧ Analysis.Defines (u.id, f) path

theorem defines_iff {u : SourceUnit} {f : Findings} (h : u.scan false = .ok f) {path : String} :
    u.Defines path ↔ Analysis.Defines (u.id, f) path := by
  simp [Defines, h]

/-- No path is defined by two files with different names. -/
def Unambiguous (units : List SourceUnit) : Prop :=
  ∀ u ∈ units, ∀ v ∈ units, ∀ path, u.Defines path → v.Defines path → u.id = v.id

end SourceUnit

namespace Analysis

variable {scans scans' : List (String × Findings)} {path v : String}

/-- No path is defined by two scans with different names. -/
def Unambiguous (scans : List (String × Findings)) : Prop :=
  ∀ s ∈ scans, ∀ t ∈ scans, ∀ path, Defines s path → Defines t path → s.1 = t.1

theorem unambiguous_lenientScan {units : List SourceUnit} (h : SourceUnit.Unambiguous units) :
    Unambiguous (units.map SourceUnit.lenientScan) := by
  intro s hs t ht path hsp htp
  obtain ⟨u, hu, rfl⟩ := List.mem_map.1 hs
  obtain ⟨v, hv, rfl⟩ := List.mem_map.1 ht
  have hup : u.Defines path := (SourceUnit.defines_iff u.scansTo_lenientScan.2).2 hsp
  have hvp : v.Defines path := (SourceUnit.defines_iff v.scansTo_lenientScan.2).2 htp
  exact h u hu v hv path hup hvp

namespace Unambiguous

theorem perm (h : Unambiguous scans) (hperm : scans.Perm scans') : Unambiguous scans' :=
  fun s hs t ht => h s (hperm.mem_iff.2 hs) t (hperm.mem_iff.2 ht)

/-- **Where no path has two definers, the last one is any.** -/
theorem lastDefiner?_eq_some_iff (h : Unambiguous scans) :
    lastDefiner? scans path = some v ↔ ∃ s ∈ scans, s.1 = v ∧ Defines s path := by
  refine ⟨exists_of_lastDefiner?, ?_⟩
  rintro ⟨s, hs, rfl, hd⟩
  have hsome : (lastDefiner? scans path).isSome := by
    rw [isSome_lastDefiner?, List.any_eq_true]
    exact ⟨s, hs, by simpa using hd⟩
  obtain ⟨v, hv⟩ := Option.isSome_iff_exists.1 hsome
  obtain ⟨t, ht, rfl, hd'⟩ := exists_of_lastDefiner? hv
  rw [hv, h t ht s hs path hd' hd]

theorem diagnostics_symbols (h : Unambiguous scans) : (ofScans scans).symbols.diagnostics = [] := by
  rw [symbols_ofScans]
  refine SymbolTable.diagnostics_ofTrees fun f hf g hg p hpf hpg => ?_
  obtain ⟨s, hs, rfl⟩ := List.mem_map.1 hf
  obtain ⟨t, ht, rfl⟩ := List.mem_map.1 hg
  exact h s hs t ht p (defines_iff.2 hpf) (defines_iff.2 hpg)

/-- **The symbol table does not depend on the order of the files.** -/
theorem symbols_eq_of_perm (h : Unambiguous scans) (hperm : scans.Perm scans') :
    (ofScans scans).symbols = (ofScans scans').symbols := by
  have h' : Unambiguous scans' := h.perm hperm
  refine SymbolTable.ext_owner (fun p => ?_) (fun p u => ?_) ?_
  · -- the owner is the last definer, which is where the order comes in
    have howner : ∀ v, lastDefiner? scans p = some v ↔ lastDefiner? scans' p = some v := by
      intro v
      simp only [h.lastDefiner?_eq_some_iff, h'.lastDefiner?_eq_some_iff, hperm.mem_iff]
    rw [owner?_ofScans, owner?_ofScans]
    exact Option.ext howner
  · simp only [contributes_ofScans, hperm.mem_iff]
  · rw [h.diagnostics_symbols, h'.diagnostics_symbols]

/-- **The links do not depend on the order of the files.** -/
theorem links_eq_of_perm (h : Unambiguous scans) (hperm : scans.Perm scans') :
    (ofScans scans).links = (ofScans scans').links := by
  have hrecords := records_ofScans scans
  rw [h.symbols_eq_of_perm hperm] at hrecords
  exact hrecords.eq_of_perm (records_ofScans scans') (hperm.map _) (hperm.flatMap_right _)

end Unambiguous

theorem kind_ne_duplicate {units : List SourceUnit} (h : SourceUnit.Unambiguous units)
    {d : Diagnostic}
    (hd : d ∈ (ofScans (units.map SourceUnit.lenientScan)).diagnostics) :
    d.kind ≠ .duplicateDefinition := by
  rw [diagnostics, (unambiguous_lenientScan h).diagnostics_symbols, List.append_nil] at hd
  obtain ⟨s, hs, hds⟩ := List.mem_flatMap.1 hd
  obtain ⟨u, -, rfl⟩ := List.mem_map.1 hs
  obtain ⟨-, hscan⟩ := u.scansTo_lenientScan
  exact (Findings.assembled_of_scan hscan).kind_ne_duplicate hds

/-- **The order of the files matters only where a path is defined by two of them.**  Otherwise
lenient analyses of the files in two orders have the same symbol table, that is the same owners and
contributors, the same links, that is the same graph, externals and counts, and the same build order
or the same failure of it; and neither reports a path with two definers. -/
theorem agree_of_perm {units units' : List SourceUnit} (hperm : units.Perm units')
    (h : SourceUnit.Unambiguous units) :
    ∃ a b, ofUnits false units = .ok a ∧ ofUnits false units' = .ok b ∧
      a.symbols = b.symbols ∧ a.links = b.links ∧ a.buildOrder = b.buildOrder ∧
      (∀ d ∈ a.diagnostics, d.kind ≠ .duplicateDefinition) ∧
      ∀ d ∈ b.diagnostics, d.kind ≠ .duplicateDefinition := by
  have h' : SourceUnit.Unambiguous units' :=
    fun u hu v hv => h u (hperm.mem_iff.2 hu) v (hperm.mem_iff.2 hv)
  have hscans := unambiguous_lenientScan h
  have hlinks := hscans.links_eq_of_perm (hperm.map SourceUnit.lenientScan)
  refine ⟨_, _, ofUnits_lenient units, ofUnits_lenient units', ?_, hlinks, ?_, ?_, ?_⟩
  · exact hscans.symbols_eq_of_perm (hperm.map SourceUnit.lenientScan)
  · rw [buildOrder, buildOrder, hlinks]
  · exact fun d => kind_ne_duplicate h
  · exact fun d => kind_ne_duplicate h'

/-- The module in `a` mentions `X`, which two files with the name `b` define. -/
theorem agree_of_perm_rotated : ∃ units units' : List SourceUnit,
    units.map SourceUnit.id = ["a", "b", "b"] ∧ units'.map SourceUnit.id = ["b", "a", "b"] ∧
      units.Perm units' ∧ SourceUnit.Unambiguous units ∧
      ∃ a b, ofUnits false units = .ok a ∧ ofUnits false units' = .ok b ∧
        a.buildOrder = b.buildOrder ∧ (b.links.graph.dependencies "a").toList = ["b"] := by
  let x : Slot := .node .const [.literal "X"]
  let a : SourceUnit := ⟨"a", ⟨.moduleDef, [.node .constRef [.node .const [.literal "M"]],
    .node .bodyStmt [.list [.node .varRef [x]]]]⟩⟩
  let b : SourceUnit := ⟨"b", ⟨.moduleDef, [.node .constRef [x], .node .bodyStmt [.list []]]⟩⟩
  let b' : SourceUnit := ⟨"b", ⟨.assign, [.node .varField [x], .nil]⟩⟩
  have ha : a.scan false = .ok (.nestedIn "M" (.ofReferences [.lexical "X" []])) := rfl
  have hb : b.scan false = .ok (.nestedIn "X" ∅) := rfl
  have hb' : b'.scan false = .ok (.ofDefinition "X") := rfl
  have hperm : ([a, b] ++ [b']).Perm ([b'] ++ [a, b]) := List.perm_append_comm
  have hid : ∀ u ∈ [a, b, b'], ∀ path, u.Defines path →
      u.id = if path = "::M" then "a" else "b" := by
    simp only [List.forall_mem_cons, SourceUnit.defines_iff ha, SourceUnit.defines_iff hb,
      SourceUnit.defines_iff hb', defines_iff]
    refine ⟨?_, ?_, ?_, by simp⟩
    all_goals
      intro path hpath
      rw [List.mem_singleton.1 hpath]
      rfl
  have hunambiguous : SourceUnit.Unambiguous [a, b, b'] :=
    fun u hu v hv path hup hvp => (hid u hu path hup).trans (hid v hv path hvp).symm
  obtain ⟨y, z, hy, hz, -, -, horder, -, -⟩ := agree_of_perm hperm hunambiguous
  have hz' : ofUnits false ([b'] ++ [a, b]) = .ok (ofScans [("b", .ofDefinition "X"),
    ("a", .nestedIn "M" (.ofReferences [.lexical "X" []])), ("b", .nestedIn "X" ∅)]) := rfl
  refine ⟨_, _, rfl, rfl, hperm, hunambiguous, y, z, hy, hz, horder, ?_⟩
  rw [← Except.ok.inj (hz'.symm.trans hz)]
  decide +kernel

-- Two files with different names for one path: the second of them owns it.
example :
    let scans := [("a", Findings.ofDefinition "X"), ("b", Findings.ofDefinition "X")]
    (ofScans scans).symbols.owner? "::X" = some "b" ∧
      (ofScans scans.reverse).symbols.owner? "::X" = some "a" := by
  decide +kernel

end Analysis

end LoadOrder
