import LoadOrder.Proofs.Contributors

/-!
# The history of a symbol table

A symbol table keeps three things about the files that were entered for its paths: the owner of each
path, the contributors of each path, and a report for each change of owner.  Here all three are read
off the insertions that filled the table.  What counts for a path is the list of the files that were
inserted for it, in order (`unitsFor`): its last member is the owner, its members are the
contributors, and an insertion is reported when it differs from the member before.

* `SymbolTable.owner?_ofInsertions`, `SymbolTable.contributors?_ofInsertions` and
  `SymbolTable.diagnostics_ofInsertions` : the three views, one by one;
* `SymbolTable.isReported_iff` : some insertion of a path is reported exactly when different files
  were inserted for it;
* `SymbolTable.history_ofInsertions` : all of it together.

When two files take a path from each other again and again, each change is reported, while the
contributors stay the same two.
-/

namespace LoadOrder

/-! ### Sets with more than one member -/

namespace NameSet

theorem ofList_concat (l : List String) (x : String) : ofList (l ++ [x]) = (ofList l).insert x := by
  simp only [ofList, List.foldl_append, List.foldl_cons, List.foldl_nil]

theorem two_le_size_iff {s : NameSet} : 2 ≤ s.size ↔ ∃ x ∈ s, ∃ y ∈ s, x ≠ y := by
  obtain ⟨l, hl⟩ := s
  show 2 ≤ l.length ↔ ∃ x ∈ l, ∃ y ∈ l, x ≠ y
  match l, hl with
  | [], _ => simp
  | [a], _ => simp
  | a :: b :: rest, hl =>
    have hlt : a < b := (List.pairwise_cons.1 hl).1 b List.mem_cons_self
    have hne : a ≠ b := fun h => String.lt_irrefl b (h ▸ hlt)
    exact iff_of_true (by simp) ⟨a, by simp, b, by simp, hne⟩

end NameSet

theorem exists_ne_concat {α : Type} {l : List α} {x : α} :
    (∃ u ∈ l ++ [x], ∃ v ∈ l ++ [x], u ≠ v) ↔
      (∃ u ∈ l, ∃ v ∈ l, u ≠ v) ∨ ∃ last, l.getLast? = some last ∧ last ≠ x := by
  constructor
  · intro h
    by_cases hl : ∃ u ∈ l, ∃ v ∈ l, u ≠ v
    · exact Or.inl hl
    -- all members before are the same, so the new one differs from each of them
    push Not at hl
    have hother : ∃ w ∈ l, w ≠ x := by
      by_contra hnone
      push Not at hnone
      obtain ⟨u, hu, v, hv, hne⟩ := h
      have hall : ∀ w ∈ l ++ [x], w = x := by simpa [or_imp, forall_and] using hnone
      exact hne ((hall u hu).trans (hall v hv).symm)
    obtain ⟨w, hw, hne⟩ := hother
    have hnil : l ≠ [] := List.ne_nil_of_mem hw
    obtain ⟨last, hlast⟩ := Option.isSome_iff_exists.1 (List.getLast?_isSome.2 hnil)
    exact Or.inr ⟨last, hlast, hl w hw last (List.mem_of_getLast? hlast) ▸ hne⟩
  · rintro (⟨u, hu, v, hv, hne⟩ | ⟨last, hlast, hne⟩)
    · exact ⟨u, List.mem_append_left _ hu, v, List.mem_append_left _ hv, hne⟩
    · exact ⟨last, List.mem_append_left _ (List.mem_of_getLast? hlast), x, by simp, hne⟩

namespace SymbolTable

variable {entries : List (String × String)} {path unit p : String}

/-! ### All insertions -/

/-- The table after insertions of files for paths, one after the other. -/
def ofInsertions (entries : List (String × String)) : SymbolTable :=
  entries.foldl (fun t e => t.insert e.1 e.2) ∅

/-- The files that are inserted for a path, in order. -/
def unitsFor (entries : List (String × String)) (path : String) : List String :=
  (entries.filter (·.1 = path)).map Prod.snd

/-- What is reported about insertion `i`: that it takes the path from the file inserted for it most
recently, if that is another one. -/
def reportAt? (entries : List (String × String)) (i : ℕ) : Option Diagnostic :=
  entries[i]?.bind fun (path, unit) =>
    ((unitsFor (entries.take i) path).getLast?.filter (· ≠ unit)).map fun previous =>
      { kind := .duplicateDefinition
        unit := unit
        message := path ++ " is also defined in " ++ previous ++ "; the later definition wins" }

theorem ofInsertions_concat (entries : List (String × String)) (path unit : String) :
    ofInsertions (entries ++ [(path, unit)]) = (ofInsertions entries).insert path unit := by
  simp [ofInsertions, List.foldl_append]

theorem unitsFor_concat (entries : List (String × String)) (path unit p : String) :
    unitsFor (entries ++ [(path, unit)]) p =
      if path = p then unitsFor entries p ++ [unit] else unitsFor entries p := by
  simp only [unitsFor, List.filter_append, List.map_append]
  split_ifs with h <;> simp [h]

theorem reportAt?_concat_of_lt {e : String × String} {i : ℕ} (h : i < entries.length) :
    reportAt? (entries ++ [e]) i = reportAt? entries i := by
  have hle : i ≤ entries.length := Nat.le_of_lt h
  rw [reportAt?, reportAt?, List.getElem?_append_left h, List.take_append_of_le_length hle]

theorem reportAt?_concat_length (entries : List (String × String)) (path unit : String) :
    reportAt? (entries ++ [(path, unit)]) entries.length =
      ((unitsFor entries path).getLast?.filter (· ≠ unit)).map (duplicate path · unit) := by
  simp [reportAt?, duplicate]

/-- **The owner of a path is the file inserted for it last.** -/
theorem owner?_ofInsertions (entries : List (String × String)) (p : String) :
    (ofInsertions entries).owner? p = (unitsFor entries p).getLast? := by
  induction entries using List.reverseRecOn with
  | nil => rfl
  | append_singleton entries e ih =>
    obtain ⟨path, unit⟩ := e
    rw [ofInsertions_concat, owner?_insert, unitsFor_concat, ih]
    by_cases hp : path = p
    · simp [hp]
    · simp [hp, Ne.symm hp]

/-- **The contributors of a path are the files inserted for it.** -/
theorem contributors?_ofInsertions (entries : List (String × String)) (p : String) :
    (ofInsertions entries).contributors? p =
      if unitsFor entries p = [] then none else some (.ofList (unitsFor entries p)) := by
  induction entries using List.reverseRecOn with
  | nil => rfl
  | append_singleton entries e ih =>
    obtain ⟨path, unit⟩ := e
    rw [ofInsertions_concat, contributors?_insert, unitsFor_concat]
    by_cases hp : path = p
    · subst hp
      have hbefore : ((ofInsertions entries).contributors? path).getD ∅ =
          .ofList (unitsFor entries path) := by
        rw [ih]
        split_ifs with hnil
        · rw [hnil]
          rfl
        · rfl
      rw [if_pos rfl, if_pos rfl, hbefore, if_neg (by simp), NameSet.ofList_concat]
    · rw [if_neg (Ne.symm hp), if_neg hp, ih]

/-- **Each change of owner is reported**, in the order of the insertions. -/
theorem diagnostics_ofInsertions (entries : List (String × String)) :
    (ofInsertions entries).diagnostics =
      (List.range entries.length).filterMap (reportAt? entries) := by
  induction entries using List.reverseRecOn with
  | nil => rfl
  | append_singleton entries e ih =>
    obtain ⟨path, unit⟩ := e
    have hbefore : (List.range entries.length).filterMap (reportAt? (entries ++ [(path, unit)])) =
        (List.range entries.length).filterMap (reportAt? entries) :=
      List.filterMap_congr fun i hi => reportAt?_concat_of_lt (List.mem_range.1 hi)
    rw [ofInsertions_concat, diagnostics_insert_eq, owner?_ofInsertions, ih, List.length_append,
      List.length_singleton, List.range_succ, List.filterMap_append, hbefore,
      ← reportAt?_concat_length]
    cases h : reportAt? (entries ++ [(path, unit)]) entries.length <;> simp [h]

/-! ### Reports and contributors -/

/-- Some insertion of the path is reported. -/
def IsReported (entries : List (String × String)) (path : String) : Prop :=
  ∃ i unit, entries[i]? = some (path, unit) ∧ (reportAt? entries i).isSome

theorem isReported_concat : IsReported (entries ++ [(path, unit)]) p ↔
    IsReported entries p ∨
      (path = p ∧ ∃ previous, (unitsFor entries p).getLast? = some previous ∧ previous ≠ unit) := by
  constructor
  · rintro ⟨i, u, hi, hreport⟩
    rcases Nat.lt_trichotomy i entries.length with hlt | rfl | hgt
    · rw [List.getElem?_append_left hlt] at hi
      rw [reportAt?_concat_of_lt hlt] at hreport
      exact Or.inl ⟨i, u, hi, hreport⟩
    · rw [List.getElem?_concat_length, Option.some.injEq, Prod.mk.injEq] at hi
      obtain ⟨rfl, rfl⟩ := hi
      rw [reportAt?_concat_length, Option.isSome_map] at hreport
      obtain ⟨previous, hprevious⟩ := Option.isSome_iff_exists.1 hreport
      obtain ⟨hlast, hne⟩ := Option.filter_eq_some_iff.1 hprevious
      exact Or.inr ⟨rfl, previous, hlast, by simpa using hne⟩
    · have hlength : (entries ++ [(path, unit)]).length ≤ i := by
        rw [List.length_append]
        exact hgt
      rw [List.getElem?_eq_none hlength] at hi
      cases hi
  · rintro (⟨i, u, hi, hreport⟩ | ⟨rfl, previous, hlast, hne⟩)
    · obtain ⟨hlt, -⟩ := List.getElem?_eq_some_iff.1 hi
      refine ⟨i, u, ?_, ?_⟩
      · rwa [List.getElem?_append_left hlt]
      · rwa [reportAt?_concat_of_lt hlt]
    · refine ⟨entries.length, unit, List.getElem?_concat_length, ?_⟩
      rw [reportAt?_concat_length, hlast]
      simp [hne]

/-- **Some insertion of a path is reported exactly when different files were inserted for it.** -/
theorem isReported_iff :
    IsReported entries p ↔ ∃ u ∈ unitsFor entries p, ∃ v ∈ unitsFor entries p, u ≠ v := by
  induction entries using List.reverseRecOn with
  | nil => simp [IsReported, unitsFor]
  | append_singleton entries e ih =>
    obtain ⟨path, unit⟩ := e
    rw [isReported_concat, unitsFor_concat, ih]
    by_cases hp : path = p
    · simp only [hp, true_and, if_true, exists_ne_concat]
    · simp only [hp, false_and, or_false, if_false]

/-- **What a symbol table says about the insertions that filled it.**  A path is owned by the file
inserted for it last, and its contributors are all files inserted for it; so the same paths have an
owner and contributors, and the owner is one of them.  Every insertion that takes a path from
another file is reported, and nothing else, in the order of the insertions; so a path has two
contributors or more exactly when some insertion of it is reported. -/
theorem history_ofInsertions (entries : List (String × String)) :
    let t := ofInsertions entries
    (∀ p, t.owner? p = (unitsFor entries p).getLast?) ∧
    (∀ p, t.contributors? p =
      if unitsFor entries p = [] then none else some (.ofList (unitsFor entries p))) ∧
    (∀ p, (t.owner? p).isSome ↔ (t.contributors? p).isSome) ∧
    (∀ p u, t.owner? p = some u → t.Contributes p u) ∧
    t.diagnostics = (List.range entries.length).filterMap (reportAt? entries) ∧
    ∀ p, (∃ units, t.contributors? p = some units ∧ 2 ≤ units.size) ↔
      ∃ i unit, entries[i]? = some (p, unit) ∧ (reportAt? entries i).isSome := by
  intro t
  have howner (p : String) : t.owner? p = (unitsFor entries p).getLast? :=
    owner?_ofInsertions entries p
  have hcontributors (p : String) := contributors?_ofInsertions entries p
  refine ⟨howner, hcontributors, fun p => ?_, fun p u hu => ?_, diagnostics_ofInsertions entries,
    fun p => ?_⟩
  · rw [howner, hcontributors, List.getLast?_isSome]
    split_ifs with hnil <;> simp [hnil]
  · rw [howner] at hu
    have hmem := List.mem_of_getLast? hu
    refine ⟨.ofList (unitsFor entries p), ?_, NameSet.mem_ofList.2 hmem⟩
    rw [hcontributors, if_neg (List.ne_nil_of_mem hmem)]
  · refine Iff.trans ?_ isReported_iff.symm
    rw [hcontributors]
    constructor
    · rintro ⟨units, hunits, hsize⟩
      split_ifs at hunits
      cases hunits
      simpa [NameSet.two_le_size_iff] using hsize
    · rintro ⟨u, hu, hrest⟩
      rw [if_neg (List.ne_nil_of_mem hu)]
      refine ⟨_, rfl, ?_⟩
      simpa [NameSet.two_le_size_iff] using ⟨u, hu, hrest⟩

/-- Two files take `::A` from each other; `::B` is inserted twice for the same file. -/
theorem history_ofInsertions_alternating :
    let entries := [("::A", "a"), ("::B", "a"), ("::A", "b"), ("::B", "a"), ("::A", "a")]
    let t := ofInsertions entries
    t.owner? "::A" = some "a" ∧ t.Contributes "::A" "a" ∧
      t.diagnostics.map (fun d => (d.unit, d.message)) =
        [("b", "::A is also defined in a; the later definition wins"),
          ("a", "::A is also defined in b; the later definition wins")] ∧
      (∃ units, t.contributors? "::A" = some units ∧ 2 ≤ units.size) ∧
      ¬ ∃ units, t.contributors? "::B" = some units ∧ 2 ≤ units.size := by
  intro entries t
  obtain ⟨howner, hcontributors, -, hown, hdiagnostics, htwo⟩ := history_ofInsertions entries
  refine ⟨howner "::A", hown "::A" "a" (howner "::A"), ?_, ?_, ?_⟩
  · rw [hdiagnostics]
    rfl
  · exact (htwo "::A").2 ⟨2, "b", rfl, rfl⟩
  · rintro ⟨units, hunits, hsize⟩
    obtain rfl := Option.some.inj ((hcontributors "::B").symm.trans hunits)
    exact absurd hsize (by decide)

end SymbolTable

end LoadOrder
