import LoadOrder.Proofs.Scan.Walk

/-!
# Strict scans and lenient scans

A lenient scan passes over nodes of an unknown kind and reports each of them; a strict scan ends at
the first.  Both walk over a file in the same order, so one lenient scan tells what a strict scan
says (`Scanner.scan_tightens`): if the lenient scan reports no such node, the strict scan finds the
same, and otherwise it fails with the node that is reported first.

What is used of the walk is only that the reports of two pieces stand in the order of the pieces
(`Tightens.append`).
-/

namespace LoadOrder

namespace Diagnostic

/-- The diagnostic reports a node of an unknown kind. -/
def isUnrecognized (d : Diagnostic) : Bool := d.kind = .unrecognizedNode

/-- The diagnostic reports a node of the kind and in the file with which a strict scan failed. -/
def Reports (d : Diagnostic) (e : UnrecognizedNode) : Prop :=
  d.unit = e.unit ∧ d.message = "don't know how to find constants in `" ++ e.kind ++ "`"

end Diagnostic

/-- What a strict scan says about a piece in which a lenient one finds `f`. -/
inductive StrictVerdict (f : Findings) : ScanOutcome → Prop
  | clean : f.diagnostics.find? Diagnostic.isUnrecognized = none → StrictVerdict f (.ok f)
  | refused {d : Diagnostic} {e : UnrecognizedNode} :
      f.diagnostics.find? Diagnostic.isUnrecognized = some d → d.Reports e →
      StrictVerdict f (.error e)

/-- The lenient outcome is a success, and the strict outcome is what it foretells. -/
def Tightens (lenient strict : ScanOutcome) : Prop := ∃ f, lenient = .ok f ∧ StrictVerdict f strict

namespace Tightens

variable {l s l' s' : ScanOutcome}

theorem ok {f : Findings} (h : f.diagnostics.find? Diagnostic.isUnrecognized = none) :
    Tightens (.ok f) (.ok f) :=
  ⟨f, rfl, .clean h⟩

theorem references (rs : List Reference) :
    Tightens (.ok (.ofReferences rs)) (.ok (.ofReferences rs)) :=
  ok rfl

theorem empty : Tightens (.ok ∅) (.ok ∅) := ok rfl

theorem append (h : Tightens l s) (h' : Tightens l' s') :
    Tightens (do let a ← l; let b ← l'; .ok (a ++ b)) (do let a ← s; let b ← s'; .ok (a ++ b)) := by
  obtain ⟨f, rfl, hf⟩ := h
  obtain ⟨f', rfl, hf'⟩ := h'
  refine ⟨f ++ f', rfl, ?_⟩
  have hdiag : (f ++ f').diagnostics = f.diagnostics ++ f'.diagnostics := rfl
  cases hf with
  | refused hd he => exact .refused (by rw [hdiag, List.find?_append, hd]; rfl) he
  | clean hnone =>
    cases hf' with
    | clean hnone' => exact .clean (by rw [hdiag, List.find?_append, hnone, hnone']; rfl)
    | refused hd he => exact .refused (by rw [hdiag, List.find?_append, hnone, hd]; rfl) he

theorem nestedIn (h : Tightens l s) (name : String) :
    Tightens (l.map (Findings.nestedIn name)) (s.map (Findings.nestedIn name)) := by
  obtain ⟨f, rfl, hf⟩ := h
  refine ⟨f.nestedIn name, rfl, ?_⟩
  cases hf with
  | clean hnone => exact .clean hnone
  | refused hd he => exact .refused hd he

end Tightens

namespace Scanner

variable (unit : String)

theorem find?_report_eq_none (s : Scanner) {kind : DiagnosticKind} (h : kind ≠ .unrecognizedNode)
    (message : String) (children : List Slot) :
    (s.report kind message children).diagnostics.find? Diagnostic.isUnrecognized = none := by
  simp [report, Findings.ofDiagnostics, Diagnostic.isUnrecognized, h]

theorem unrecognized_tightens (kind : Kind) (children : List Slot) :
    Tightens ((Scanner.mk unit false).unrecognized kind children)
      ((Scanner.mk unit true).unrecognized kind children) :=
  ⟨_, rfl, .refused rfl ⟨rfl, rfl⟩⟩

/-- Every step of the two scans keeps the outcome of the strict one foretold. -/
theorem walkInvariant_tightens :
    WalkInvariant (Scanner.mk unit false) (Scanner.mk unit true) Tightens where
  empty := .empty
  references rs _ := .references rs
  definition _ := .ok rfl
  report kind message children hkind := by
    have hne : kind ≠ .unrecognizedNode := by rcases hkind with rfl | rfl <;> decide
    exact .ok (find?_report_eq_none _ hne message children)
  unrecognized := unrecognized_tightens unit
  append := Tightens.append
  nestedIn name h := h.nestedIn name

/-- **A lenient scan tells what a strict scan says.** -/
theorem scan_tightens (root : Node) :
    Tightens ((Scanner.mk unit false).scan root) ((Scanner.mk unit true).scan root) :=
  (walkInvariant_tightens unit).scan root

end Scanner

end LoadOrder
