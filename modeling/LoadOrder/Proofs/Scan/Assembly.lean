import LoadOrder.Proofs.Definition.Merge
import LoadOrder.Proofs.Scan.Walk

/-!
# The findings of a scan

Whatever a scan finds is assembled from small findings: constants that are mentioned outside any
namespace, single constants that are defined, and reports.  `Findings.Assembled` has one case for
each of them and for the two ways of putting findings together, so that a fact about all scans is
proved by induction over these cases.

* `Findings.assembled_of_scan` : the findings of every scan are assembled in this way.
* `Findings.Assembled.has_enclosing` : the namespaces around a reference are among the definitions
  that were found with it.
* `Findings.Assembled.kind_ne_duplicate` : no scan reports that a constant is defined twice.
-/

namespace LoadOrder

namespace Findings

/-- How the findings of a scan are made. -/
inductive Assembled : Findings → Prop
  | empty : Assembled ∅
  /-- Constants that are mentioned, outside any namespace. -/
  | references {rs : List Reference} : (∀ r ∈ rs, r.scope = []) → Assembled (.ofReferences rs)
  /-- A constant that is defined. -/
  | definition (name : String) : Assembled (.ofDefinition name)
  /-- Reports, none of which is about two files. -/
  | reports {ds : List Diagnostic} :
      (∀ d ∈ ds, d.kind ≠ .duplicateDefinition) → Assembled (.ofDiagnostics ds)
  /-- One piece behind the other. -/
  | append {a b : Findings} : Assembled a → Assembled b → Assembled (a ++ b)
  /-- A body inside its namespace. -/
  | nestedIn {f : Findings} (name : String) : Assembled f → Assembled (f.nestedIn name)

theorem Assembled.report (s : Scanner) {kind : DiagnosticKind} (h : kind ≠ .duplicateDefinition)
    (message : String) (children : List Slot) : (s.report kind message children).Assembled := by
  refine .reports fun d hd => ?_
  rw [List.mem_singleton.1 hd]
  exact h

theorem walkInvariant_assembled (s : Scanner) :
    WalkInvariant s s fun outcome _ => ∀ f, outcome = .ok f → f.Assembled where
  empty := by
    rintro f ⟨⟩
    exact .empty
  references rs hrs := by
    rintro f ⟨⟩
    exact .references hrs
  definition name := by
    rintro f ⟨⟩
    exact .definition name
  report kind message children hkind := by
    rintro f ⟨⟩
    have hne : kind ≠ .duplicateDefinition := by rcases hkind with rfl | rfl <;> decide
    exact .report s hne message children
  unrecognized kind children := by
    intro f hf
    unfold Scanner.unrecognized at hf
    split at hf
    · cases hf
    · cases hf
      exact .report s (by decide) _ children
  append := by
    intro a _ b _ ha hb f hf
    cases a with
    | error e => cases hf
    | ok x =>
      cases b with
      | error e => cases hf
      | ok y =>
        cases hf
        exact .append (ha x rfl) (hb y rfl)
  nestedIn := by
    intro a _ name ha f hf
    cases a with
    | error e => cases hf
    | ok x =>
      cases hf
      exact .nestedIn name (ha x rfl)

/-- **The findings of every scan are assembled from small ones.** -/
theorem assembled_of_scan {s : Scanner} {root : Node} {f : Findings} (h : s.scan root = .ok f) :
    f.Assembled :=
  (walkInvariant_assembled s).scan root f h

variable {f : Findings}

/-- **The namespaces around a reference are defined**, from the outermost inwards. -/
theorem Assembled.has_enclosing (hf : f.Assembled) {r : Reference} (hr : r ∈ f.references)
    {path : List String} (hpath : path <+: r.scope) : f.definitions.has path = true := by
  induction hf generalizing r path with
  | empty => cases hr
  | references hrs =>
    rw [hrs r hr, List.prefix_nil] at hpath
    subst hpath
    rfl
  | definition name => cases hr
  | reports _ => cases hr
  | append _ _ iha ihb =>
    rcases List.mem_append.1 hr with hr | hr
    · exact DefinitionTree.has_merge.2 (Or.inl (iha hr hpath))
    · exact DefinitionTree.has_merge.2 (Or.inr (ihb hr hpath))
  | nestedIn name _ ih =>
    -- the name is put in front of the scope, and it is what the definitions are put below
    obtain ⟨inner, hinner, rfl⟩ := List.mem_map.1 hr
    cases path with
    | nil => rfl
    | cons first rest =>
      cases inner with
      | root _ => exact absurd (List.prefix_nil.1 hpath) (List.cons_ne_nil first rest)
      | lexical text scope =>
        obtain ⟨rfl, hrest⟩ := List.cons_prefix_cons.1 hpath
        exact DefinitionTree.has_insert_cons (ih hinner hrest)

theorem Assembled.kind_ne_duplicate (hf : f.Assembled) {d : Diagnostic} (hd : d ∈ f.diagnostics) :
    d.kind ≠ .duplicateDefinition := by
  induction hf with
  | empty => cases hd
  | references _ => cases hd
  | definition _ => cases hd
  | reports hds => exact hds d hd
  | append _ _ iha ihb =>
    rcases List.mem_append.1 hd with hd | hd
    · exact iha hd
    · exact ihb hd
  | nestedIn _ _ ih => exact ih hd

end Findings

end LoadOrder
