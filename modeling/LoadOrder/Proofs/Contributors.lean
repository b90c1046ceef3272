import LoadOrder.Proofs.Arrivals
import LoadOrder.Proofs.Resolution
import LoadOrder.Proofs.Scan.Assembly

/-!
# Who defines a path

Besides the owner of a path the symbol table keeps all files that define it, also those that a later
file has taken the path from.

* `SymbolTable.contributes_ofTrees` and `Analysis.contributes_ofScans` : the contributors of a path
  are the files that define it.
* `SymbolTable.diagnostics_ofTrees` : nothing is reported as long as no two files with different
  names define the same path.
* `Analysis.scope_contributed` : the namespaces around a reference are defined by the very file that
  makes the reference.
-/

namespace LoadOrder

namespace SymbolTable

variable {t t' : SymbolTable} {files : List (String × DefinitionTree)} {path unit p u : String}
  {paths : List String}

/-- The file is one of those that define the path. -/
def Contributes (t : SymbolTable) (path unit : String) : Prop :=
  ∃ units, t.contributors? path = some units ∧ unit ∈ units

theorem contains_of_contributes (h : t.Contributes path unit) : t.contains path = true := by
  obtain ⟨units, hunits, -⟩ := h
  obtain ⟨symbol, hsymbol, -⟩ := Option.map_eq_some_iff.1 hunits
  rw [contains, NameMap.contains, hsymbol]
  rfl

theorem ext_owner (howner : ∀ p, t.owner? p = t'.owner? p)
    (hcontributes : ∀ p u, t.Contributes p u ↔ t'.Contributes p u)
    (hdiagnostics : t.diagnostics = t'.diagnostics) : t = t' := by
  have hsymbols : t.symbols = t'.symbols := by
    refine NameMap.ext_get? fun p => ?_
    have ho := howner p
    have hc := hcontributes p
    unfold owner? at ho
    unfold Contributes contributors? at hc
    cases hs : t.symbols.get? p with
    | none => cases hs' : t'.symbols.get? p <;> simp_all
    | some s =>
      cases hs' : t'.symbols.get? p with
      | none => simp_all
      | some s' =>
        obtain ⟨owner, contributors⟩ := s
        obtain ⟨owner', contributors'⟩ := s'
        have hsame : contributors = contributors' := NameSet.ext_mem (by simpa [hs, hs'] using hc)
        simp_all
  cases t
  cases t'
  simp_all

/-! ### Contributors -/

@[simp] theorem not_contributes_empty : ¬ (∅ : SymbolTable).Contributes p u := by
  rintro ⟨_, h, -⟩
  cases h

theorem contributors?_insert (t : SymbolTable) (path unit p : String) :
    (t.insert path unit).contributors? p =
      if p = path then some (((t.contributors? path).getD ∅).insert unit)
      else t.contributors? p := by
  simp only [contributors?, insert, NameMap.get?_alter]
  split_ifs <;> rfl

theorem contributes_insert :
    (t.insert path unit).Contributes p u ↔ (p = path ∧ u = unit) ∨ t.Contributes p u := by
  simp only [Contributes, contributors?_insert]
  split_ifs with hp
  · subst hp
    cases t.contributors? p <;> simp
  · simp [hp]

theorem contributes_foldl_insert :
    ((paths.map fun path => (path, unit)).foldl (fun t e => t.insert e.1 e.2) t).Contributes p u ↔
      (p ∈ paths ∧ u = unit) ∨ t.Contributes p u := by
  induction paths generalizing t with
  | nil => simp
  | cons path paths ih =>
    rw [List.map_cons, List.foldl_cons, ih, contributes_insert, List.mem_cons]
    tauto

theorem contributes_addUnit {d : DefinitionTree} :
    (t.addUnit unit d).Contributes p u ↔ (p ∈ d.paths "" ∧ u = unit) ∨ t.Contributes p u :=
  contributes_foldl_insert

/-- **The contributors of a path are the files that define it.** -/
theorem contributes_ofTrees :
    (ofTrees files).Contributes p u ↔ ∃ f ∈ files, f.1 = u ∧ p ∈ f.2.paths "" := by
  induction files using List.reverseRecOn with
  | nil =>
    refine ⟨fun h => absurd h not_contributes_empty, ?_⟩
    rintro ⟨f, hf, -⟩
    cases hf
  | append_singleton files f ih =>
    rw [ofTrees_concat, contributes_addUnit, ih]
    simp only [List.mem_append, List.mem_singleton, or_and_right, exists_or, exists_eq_left]
    rw [or_comm, and_comm, eq_comm]

/-! ### Reports -/

theorem diagnostics_insert_eq (t : SymbolTable) (path unit : String) :
    (t.insert path unit).diagnostics = t.diagnostics ++
      (((t.owner? path).filter (· ≠ unit)).map (duplicate path · unit)).toList := by
  unfold insert
  cases t.owner? path with
  | none => simp
  | some previous => by_cases h : previous = unit <;> simp [h, Option.filter_some]

theorem diagnostics_insert (h : ∀ v, t.owner? path = some v → v = unit) :
    (t.insert path unit).diagnostics = t.diagnostics := by
  rw [diagnostics_insert_eq]
  cases howner : t.owner? path with
  | none => simp
  | some v => simp [h v howner]

theorem diagnostics_foldl_insert (h : ∀ path ∈ paths, ∀ v, t.owner? path = some v → v = unit) :
    ((paths.map fun path => (path, unit)).foldl (fun t e => t.insert e.1 e.2) t).diagnostics =
      t.diagnostics := by
  induction paths generalizing t with
  | nil => rfl
  | cons path paths ih =>
    rw [List.forall_mem_cons] at h
    rw [List.map_cons, List.foldl_cons, ih, diagnostics_insert h.1]
    -- the file may come upon a path again, but then the path is its own
    intro p hp v hv
    rw [owner?_insert] at hv
    split_ifs at hv with hpath
    · exact (Option.some.inj hv).symm
    · exact h.2 p hp v hv

theorem diagnostics_addUnit {d : DefinitionTree}
    (h : ∀ p ∈ d.paths "", ∀ v, t.owner? p = some v → v = unit) :
    (t.addUnit unit d).diagnostics = t.diagnostics :=
  diagnostics_foldl_insert h

/-- **Nothing is reported as long as no two files with different names define the same path.** -/
theorem diagnostics_ofTrees (h : ∀ f ∈ files, ∀ g ∈ files, ∀ p, p ∈ f.2.paths "" →
    p ∈ g.2.paths "" → f.1 = g.1) : (ofTrees files).diagnostics = [] := by
  induction files using List.reverseRecOn with
  | nil => rfl
  | append_singleton files f ih =>
    have hbefore : (ofTrees files).diagnostics = [] := by
      refine ih fun g hg g' hg' => h g ?_ g' ?_
      · exact List.mem_append_left _ hg
      · exact List.mem_append_left _ hg'
    rw [ofTrees_concat, diagnostics_addUnit, hbefore]
    intro p hp v hv
    rw [owner?_ofTrees] at hv
    obtain ⟨g, hfind, rfl⟩ := Option.map_eq_some_iff.1 hv
    have hg : g ∈ files := by simpa using List.mem_of_find?_eq_some hfind
    have hpg : p ∈ g.2.paths "" := by simpa using List.find?_some hfind
    exact h g (List.mem_append_left _ hg) f (by simp) p hpg hp

end SymbolTable

namespace Analysis

variable {scans : List (String × Findings)}

/-- **The contributors of a path are the files whose scans define it.** -/
theorem contributes_ofScans {path u : String} :
    (ofScans scans).symbols.Contributes path u ↔ ∃ s ∈ scans, s.1 = u ∧ Defines s path := by
  rw [symbols_ofScans, SymbolTable.contributes_ofTrees]
  simp [defines_iff]

theorem exists_scansTo_of_mem {strict : Bool} {units : List SourceUnit} {s : String × Findings}
    (h : List.Forall₂ (SourceUnit.ScansTo strict) units scans) (hs : s ∈ scans) :
    ∃ u ∈ units, u.ScansTo strict s := by
  induction h with
  | nil => cases hs
  | @cons u first units scans hfirst _ ih =>
    rcases List.mem_cons.1 hs with rfl | hs
    · exact ⟨u, List.mem_cons_self, hfirst⟩
    · obtain ⟨v, hv, hvs⟩ := ih hs
      exact ⟨v, List.mem_cons_of_mem _ hv, hvs⟩

/-- **The namespaces around a reference are defined by the file that makes it.**  Every scan that
succeeds, strict or not, finds each of them, from the outermost inwards; and in every analysis the
symbol table has each of them, with the file of the reference among its contributors. -/
theorem scope_contributed :
    (∀ (scanner : Scanner) (root : Node) (f : Findings), scanner.scan root = .ok f →
      ∀ name scope, .lexical name scope ∈ f.references →
        ∀ path, path ≠ [] → path <+: scope → f.definitions.has path = true) ∧
    ∀ strict units a, ofUnits strict units = .ok a →
      ∀ s ∈ a.scans, ∀ name scope, .lexical name scope ∈ s.2.references →
        ∀ path, path ≠ [] → path <+: scope →
          a.symbols.contains (pathText "" path) = true ∧
          a.symbols.Contributes (pathText "" path) s.1 := by
  have hscan : ∀ (scanner : Scanner) (root : Node) (f : Findings), scanner.scan root = .ok f →
      ∀ name scope, .lexical name scope ∈ f.references →
        ∀ path, path ≠ [] → path <+: scope → f.definitions.has path = true :=
    fun scanner root f hf name scope hr path _ hpath =>
      (Findings.assembled_of_scan hf).has_enclosing hr hpath
  refine ⟨hscan, ?_⟩
  intro strict units a ha s hs name scope hr path hne hpath
  obtain ⟨scans, hscans, rfl⟩ := ofUnits_eq_ok_iff.1 ha
  obtain ⟨u, -, -, hu⟩ := exists_scansTo_of_mem hscans hs
  have hhas : s.2.definitions.has path = true := hscan _ u.root s.2 hu name scope hr path hne hpath
  have hdefines : Defines s (pathText "" path) :=
    defines_iff.2 (DefinitionTree.mem_paths_iff.2 ⟨path, hne, hhas, rfl⟩)
  have hcontributes := contributes_ofScans.2 ⟨s, hs, rfl, hdefines⟩
  exact ⟨SymbolTable.contains_of_contributes hcontributes, hcontributes⟩

/-- The class in the module of `a` mentions `X`; then `b` opens the module too and becomes its
owner, but `a` stays a contributor. -/
theorem scope_contributed_reopened : ∃ units a,
    units.map SourceUnit.id = ["a", "b"] ∧ ofUnits true units = .ok a ∧
      a.symbols.owner? "::Outer" = some "b" ∧
      a.symbols.Contributes "::Outer" "a" ∧ a.symbols.Contributes "::Outer::Inner" "a" := by
  let name (text : String) : Slot := .node .constRef [.node .const [.literal text]]
  let x : Slot := .node .varRef [.node .const [.literal "X"]]
  let a : SourceUnit := ⟨"a", ⟨.moduleDef, [name "Outer", .node .bodyStmt [.list [
    .node .classDef [name "Inner", .nil, .node .bodyStmt [.list [x]]]]]]⟩⟩
  let b : SourceUnit := ⟨"b", ⟨.moduleDef, [name "Outer", .node .bodyStmt [.list []]]⟩⟩
  let found : Findings := .nestedIn "Outer" (.nestedIn "Inner" (.ofReferences [.lexical "X" []]))
  have h : ofUnits true [a, b] = .ok (ofScans [("a", found), ("b", .nestedIn "Outer" ∅)]) := rfl
  have hr : Reference.lexical "X" ["Outer", "Inner"] ∈ found.references := List.mem_singleton.2 rfl
  have hcontributes := fun path => scope_contributed.2 true [a, b] _ h ("a", found)
    (by simp [ofScans]) "X" ["Outer", "Inner"] hr path
  exact ⟨[a, b], _, rfl, h, by decide +kernel,
    (hcontributes ["Outer"] (by decide) (by decide)).2,
    (hcontributes ["Outer", "Inner"] (by decide) (by decide)).2⟩

end Analysis

end LoadOrder
