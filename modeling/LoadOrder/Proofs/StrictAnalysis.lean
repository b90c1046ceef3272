import LoadOrder.Proofs.Scan.Strictness
import LoadOrder.Proofs.Workers.Schedules

/-!
# Strict analyses and lenient analyses

A strict analysis is a lenient one that gives up at nodes of an unknown kind.  The diagnostics of
the lenient analysis list what is reported in the files, file by file, and then what the symbol
table reports, and the latter is never such a node.  So the first report of such a node belongs to
the first file whose strict scan fails.

* `SourceUnit.scanInTurn_tightens` : what strict scans of some files come to;
* `Analysis.ofUnits_lenient` : a lenient analysis is that of the lenient scans of the files;
* `Analysis.strict_analysis_tightens` : what a strict analysis says, in terms of the lenient one.
-/

namespace LoadOrder

theorem Diagnostic.find?_isUnrecognized_eq_none_iff {ds : List Diagnostic} :
    ds.find? isUnrecognized = none ↔ ∀ d ∈ ds, d.kind ≠ .unrecognizedNode := by
  simp [isUnrecognized]

/-! ### The files of a project -/

namespace Findings

/-- The first node of an unknown kind that is reported in some files. -/
def firstUnrecognized? (found : List Findings) : Option Diagnostic :=
  (found.flatMap diagnostics).find? Diagnostic.isUnrecognized

theorem firstUnrecognized?_cons (f : Findings) (found : List Findings) :
    firstUnrecognized? (f :: found) =
      (f.diagnostics.find? Diagnostic.isUnrecognized).or (firstUnrecognized? found) := by
  rw [firstUnrecognized?, List.flatMap_cons, List.find?_append]
  rfl

end Findings

namespace SourceUnit

open Findings (firstUnrecognized? firstUnrecognized?_cons)

theorem scanInTurn_cons (strict : Bool) (u : SourceUnit) (units : List SourceUnit) :
    scanInTurn strict (u :: units) =
      (u.scan strict).mapError .unrecognized >>= fun f =>
        (scanInTurn strict units).map (f :: ·) := by
  rw [scanInTurn, List.mapM_cons]
  rfl

/-- Lenient scans of some files succeed, and strict ones either find the same or fail with the first
node of an unknown kind that the lenient ones report. -/
theorem scanInTurn_tightens (units : List SourceUnit) :
    ∃ found, scanInTurn false units = .ok found ∧ found.length = units.length ∧
      (firstUnrecognized? found = none → scanInTurn true units = .ok found) ∧
      ∀ d, firstUnrecognized? found = some d →
        ∃ e, d.Reports e ∧ scanInTurn true units = .error (.unrecognized e) := by
  induction units with
  | nil => exact ⟨[], rfl, rfl, fun _ => rfl, nofun⟩
  | cons u units ih =>
    obtain ⟨found, hlenient, hlength, hclean, hrefused⟩ := ih
    obtain ⟨f, hf, hverdict⟩ := Scanner.scan_tightens u.id u.root
    replace hf : u.scan false = .ok f := hf
    refine ⟨f :: found, ?_, by simp [hlength], ?_⟩
    · rw [scanInTurn_cons, hf, hlenient]
      rfl
    rw [firstUnrecognized?_cons, scanInTurn_cons]
    generalize hstrict : u.scan true = outcome
    rw [show (Scanner.mk u.id true).scan u.root = outcome from hstrict] at hverdict
    cases hverdict with
    | clean hnone =>
      -- the file is passed over, and the others decide
      rw [hnone, Option.none_or]
      refine ⟨fun h => ?_, fun d hd => ?_⟩
      · rw [hclean h]
        rfl
      · obtain ⟨e, he, herror⟩ := hrefused d hd
        exact ⟨e, he, by rw [herror]; rfl⟩
    | @refused d e hd he =>
      rw [hd, Option.some_or]
      exact ⟨nofun, fun d' hd' => ⟨e, Option.some.inj hd' ▸ he, rfl⟩⟩

/-- The name of the file and what a lenient scan of it finds. -/
def lenientScan (u : SourceUnit) : String × Findings := (u.id, (u.scan false).toOption.getD ∅)

theorem lenientScan_eq {u : SourceUnit} {f : Findings} (h : u.scan false = .ok f) :
    u.lenientScan = (u.id, f) := by
  simp [lenientScan, h, Except.toOption]

theorem scansTo_lenientScan (u : SourceUnit) : u.ScansTo false u.lenientScan := by
  obtain ⟨f, hf, -⟩ := Scanner.scan_tightens u.id u.root
  replace hf : u.scan false = .ok f := hf
  exact ⟨rfl, by rw [hf, lenientScan_eq hf]⟩

end SourceUnit

/-- **A lenient analysis succeeds**, and it is that of the lenient scans of the files. -/
theorem Analysis.ofUnits_lenient (units : List SourceUnit) :
    ofUnits false units = .ok (ofScans (units.map SourceUnit.lenientScan)) := by
  refine ofUnits_eq_ok_iff.2 ⟨_, ?_, rfl⟩
  rw [List.forall₂_map_right_iff, List.forall₂_same]
  exact fun u _ => u.scansTo_lenientScan

/-! ### The symbol table -/

namespace SymbolTable

/-- All that the table reports are changes of owner. -/
def ReportsDuplicates (t : SymbolTable) : Prop :=
  ∀ d ∈ t.diagnostics, d.kind = .duplicateDefinition

variable {t : SymbolTable}

theorem ReportsDuplicates.insert (h : t.ReportsDuplicates) (path unit : String) :
    (t.insert path unit).ReportsDuplicates := by
  intro d hd
  unfold SymbolTable.insert at hd
  cases howner : t.owner? path with
  | none =>
    simp only [howner] at hd
    exact h d hd
  | some previous =>
    simp only [howner] at hd
    split at hd
    · exact h d hd
    · rcases List.mem_append.1 hd with hd | hd
      · exact h d hd
      · rw [List.mem_singleton.1 hd, duplicate]

theorem ReportsDuplicates.addUnit (h : t.ReportsDuplicates) (unit : String) (d : DefinitionTree) :
    (t.addUnit unit d).ReportsDuplicates :=
  List.foldlRecOn _ _ h fun _ ht e _ => ht.insert e.1 e.2

end SymbolTable

namespace Analysis

theorem reportsDuplicates_ofScans (scans : List (String × Findings)) :
    (ofScans scans).symbols.ReportsDuplicates :=
  List.foldlRecOn _ _ (fun _ h => nomatch h) fun _ ht s _ => ht.addUnit s.1 s.2.definitions

theorem find?_diagnostics_ofScans {ids : List String} {found : List Findings}
    (h : found.length = ids.length) :
    (ofScans (ids.zip found)).diagnostics.find? Diagnostic.isUnrecognized =
      Findings.firstUnrecognized? found := by
  have hsymbols : (ofScans (ids.zip found)).symbols.diagnostics.find? Diagnostic.isUnrecognized =
      none := by
    refine List.find?_eq_none.2 fun d hd => ?_
    simp [Diagnostic.isUnrecognized, reportsDuplicates_ofScans _ d hd]
  have hfound : (ids.zip found).flatMap (·.2.diagnostics) = found.flatMap Findings.diagnostics := by
    rw [← List.flatMap_map Prod.snd Findings.diagnostics, List.map_snd_zip h.le]
  rw [diagnostics, List.find?_append, hsymbols, Option.or_none]
  exact congrArg (List.find? Diagnostic.isUnrecognized) hfound

/-- **A strict analysis is a lenient one that fails on nodes of an unknown kind.**  With any number
of workers and any schedule an analysis comes to one thing, which is what it comes to without
workers.  A lenient analysis succeeds; a strict one succeeds exactly when the lenient one reports no
such node, and then the two are equal; otherwise it fails with the file and the kind of the first
such node that the lenient one reports. -/
theorem strict_analysis_tightens (units : List SourceUnit) :
    (∀ strict parallelism requested r,
      ComesTo strict parallelism requested units r ↔ r = ofUnits strict units) ∧
    ∃ a, ofUnits false units = .ok a ∧
      ((∃ b, ofUnits true units = .ok b) ↔ ∀ d ∈ a.diagnostics, d.kind ≠ .unrecognizedNode) ∧
      (∀ b, ofUnits true units = .ok b → b = a) ∧
      ∀ d, a.diagnostics.find? (·.kind = .unrecognizedNode) = some d →
        ∃ kind, d.message = "don't know how to find constants in `" ++ kind ++ "`" ∧
          ofUnits true units = .error (.unrecognized ⟨d.unit, kind⟩) := by
  refine ⟨fun strict parallelism requested r => comesTo_iff, ?_⟩
  obtain ⟨found, hlenient, hlength, hclean, hrefused⟩ := SourceUnit.scanInTurn_tightens units
  let a := ofScans ((units.map SourceUnit.id).zip found)
  have hfirst : a.diagnostics.find? Diagnostic.isUnrecognized =
      Findings.firstUnrecognized? found :=
    find?_diagnostics_ofScans (by simpa using hlength)
  refine ⟨a, by rw [ofUnits_eq, hlenient]; rfl, ?_⟩
  rw [← Diagnostic.find?_isUnrecognized_eq_none_iff, hfirst]
  cases hd : Findings.firstUnrecognized? found with
  | none =>
    have hstrict : ofUnits true units = .ok a := by rw [ofUnits_eq, hclean hd]; rfl
    refine ⟨by simp [hstrict], fun b hb => ?_, fun d hsome => ?_⟩
    · rw [hstrict] at hb
      exact (Except.ok.inj hb).symm
    · exact nomatch (hfirst.trans hd).symm.trans hsome
  | some d =>
    obtain ⟨e, ⟨hunit, hmessage⟩, herror⟩ := hrefused d hd
    have hstrict : ofUnits true units = .error (.unrecognized e) := by
      rw [ofUnits_eq, herror]
      rfl
    refine ⟨by simp [hstrict], fun b hb => ?_, fun d' hsome => ?_⟩
    · rw [hstrict] at hb
      cases hb
    · obtain rfl : d = d' := Option.some.inj ((hfirst.trans hd).symm.trans hsome)
      exact ⟨e.kind, hmessage, by rw [hstrict, hunit]⟩

/-- A class without a name is reported first, but it is the first of two nodes of unknown kinds that
a strict analysis fails with. -/
theorem strict_analysis_tightens_first :
    let units : List SourceUnit := [⟨"a", ⟨.program, [.list [.node .classDef []]]⟩⟩,
      ⟨"b", ⟨.program, [.list [.node (.unknown "lambda") [], .node (.unknown "retry") []]]⟩⟩]
    ∃ a, ofUnits false units = .ok a ∧
      a.diagnostics.map (fun d => (d.kind, d.unit)) =
        [(.malformedDefinition, "a"), (.unrecognizedNode, "b"), (.unrecognizedNode, "b")] ∧
      ofUnits true units = .error (.unrecognized ⟨"b", "lambda"⟩) := by
  intro units
  obtain ⟨-, a, hlenient, -, -, hfirst⟩ := strict_analysis_tightens units
  obtain rfl := Except.ok.inj hlenient
  obtain ⟨kind, hkind, hstrict⟩ := hfirst _ rfl
  obtain rfl : (Kind.unknown "lambda").tag = kind := by simpa using hkind
  exact ⟨_, hlenient, rfl, hstrict⟩

end Analysis

end LoadOrder
