import LoadOrder.Analysis
import Mathlib.Data.List.Forall2

/-!
# Arrivals and the files they belong to

The outcomes of the scans arrive one by one, and each is filed at the place of its file.  What
comes of it does not depend on the order of the arrivals:

* `Arrival.foldl_file_eq` : when every arrival is the outcome of the file at its place, and every
  file has an arrival, the slots hold the outcomes of the files in the order of the files.
* `Arrival.collect_eq_ok_iff` : the outcomes give findings exactly when every scan succeeds, and
  then they are the findings of the scans, file by file.
* `Analysis.ofUnits_eq_ok_iff` : an analysis succeeds exactly when every scan does, and then it is
  the analysis of the scans.
-/

namespace LoadOrder

namespace SourceUnit

/-- `s` is the name of the file together with what a scan of it finds. -/
def ScansTo (strict : Bool) (u : SourceUnit) (s : String × Findings) : Prop :=
  s.1 = u.id ∧ u.scan strict = .ok s.2

end SourceUnit

namespace Arrival

variable {strict : Bool} {units : List SourceUnit} {arrivals : List Arrival}

/-- The arrival carries the outcome of the file at its place. -/
def Genuine (strict : Bool) (units : List SourceUnit) (a : Arrival) : Prop :=
  ∃ u, units[a.index]? = some u ∧ a.outcome = u.scan strict

@[simp] theorem length_file (slots : List (Option ScanOutcome)) (a : Arrival) :
    (file slots a).length = slots.length := by
  simp [file]

@[simp] theorem length_foldl_file (slots : List (Option ScanOutcome)) (arrivals : List Arrival) :
    (arrivals.foldl file slots).length = slots.length := by
  induction arrivals generalizing slots with
  | nil => rfl
  | cons a arrivals ih => rw [List.foldl_cons, ih, length_file]

/-- A slot holds `o` once one of the arrivals for it, all with the outcome `o`, has been filed. -/
theorem getElem?_foldl_file {slots : List (Option ScanOutcome)} {i : ℕ} {o : ScanOutcome}
    (hi : i < slots.length) (ho : ∀ a ∈ arrivals, a.index = i → a.outcome = o)
    (h : slots[i]? = some (some o) ∨ ∃ a ∈ arrivals, a.index = i) :
    (arrivals.foldl file slots)[i]? = some (some o) := by
  induction arrivals generalizing slots with
  | nil => simpa using h
  | cons a arrivals ih =>
    rw [List.foldl_cons]
    refine ih (by simpa using hi) (fun b hb => ho b (List.mem_cons_of_mem _ hb)) ?_
    -- whatever the slot held before, an arrival for it leaves `o` there
    by_cases ha : a.index = i
    · left
      have hoa := ho a List.mem_cons_self ha
      subst ha
      rw [file, List.getElem?_set_self hi, hoa]
    · rw [file, List.getElem?_set_ne ha]
      refine h.imp id fun ⟨b, hb, hbi⟩ => ⟨b, ?_, hbi⟩
      rcases List.mem_cons.1 hb with rfl | hb
      · exact absurd hbi ha
      · exact hb

/-- **The order of the arrivals does not matter**: the slots end up with the outcomes of the
files. -/
theorem foldl_file_eq (hg : ∀ a ∈ arrivals, Genuine strict units a)
    (hall : ∀ i < units.length, ∃ a ∈ arrivals, a.index = i) :
    arrivals.foldl file (units.map fun _ => none) = units.map fun u => some (u.scan strict) := by
  refine List.ext_getElem? fun i => ?_
  by_cases hi : i < units.length
  · rw [getElem?_foldl_file (o := units[i].scan strict) (by simpa using hi) ?_ (Or.inr (hall i hi))]
    · simp [hi]
    · intro a ha hai
      obtain ⟨u, hu, ho⟩ := hg a ha
      rw [hai, List.getElem?_eq_getElem hi, Option.some.injEq] at hu
      rw [ho, hu]
  · rw [List.getElem?_eq_none (by simpa using hi), List.getElem?_eq_none (by simpa using hi)]

theorem gather_eq (hg : ∀ a ∈ arrivals, Genuine strict units a)
    (hall : ∀ i < units.length, ∃ a ∈ arrivals, a.index = i) :
    gather units arrivals = collect (units.map fun u => (some (u.scan strict), u)) := by
  rw [gather, foldl_file_eq hg hall, ← List.map_prod_right_eq_zip]

theorem collect_eq_ok_iff {found : List Findings} :
    collect (units.map fun u => (some (u.scan strict), u)) = .ok found ↔
      List.Forall₂ (fun u f => u.scan strict = .ok f) units found := by
  induction units generalizing found with
  | nil => simp [collect, eq_comm]
  | cons u units ih =>
    rw [List.map_cons, List.forall₂_cons_left_iff]
    cases hu : u.scan strict with
    | error e => simp [collect]
    | ok f =>
      cases hc : collect (units.map fun u => (some (u.scan strict), u)) with
      | error e =>
        simp only [collect, hc, Except.map, reduceCtorEq, false_iff]
        rintro ⟨f', l, -, hl, -⟩
        rw [← ih, hc] at hl
        cases hl
      | ok l =>
        simp only [collect, hc, Except.map, Except.ok.injEq]
        constructor
        · rintro rfl
          exact ⟨f, l, rfl, ih.1 hc, rfl⟩
        · rintro ⟨f', l', hf, hl, rfl⟩
          rw [← ih, hc] at hl
          cases hf; cases hl; rfl

theorem genuine_of_mem_inTurn {a : Arrival} (ha : a ∈ inTurn strict units) :
    Genuine strict units a := by
  obtain ⟨⟨u, i⟩, hu, rfl⟩ := List.mem_map.1 ha
  exact ⟨u, List.mem_zipIdx_iff_getElem?.1 hu, rfl⟩

theorem exists_mem_inTurn {i : ℕ} (hi : i < units.length) :
    ∃ a ∈ inTurn strict units, a.index = i := by
  refine ⟨_, List.mem_map.2 ⟨(units[i], i), ?_, rfl⟩, rfl⟩
  rw [List.mem_zipIdx_iff_getElem?, List.getElem?_eq_getElem hi]

end Arrival

namespace Analysis

variable {strict : Bool} {units : List SourceUnit}

theorem forall₂_scansTo_iff {scans : List (String × Findings)} :
    List.Forall₂ (SourceUnit.ScansTo strict) units scans ↔
      ∃ found, List.Forall₂ (fun u f => u.scan strict = .ok f) units found ∧
        scans = (units.map SourceUnit.id).zip found := by
  constructor
  · intro h
    induction h with
    | nil => exact ⟨[], .nil, rfl⟩
    | @cons u s units scans hs _ ih =>
      obtain ⟨found, hfound, rfl⟩ := ih
      exact ⟨s.2 :: found, .cons hs.2 hfound, by rw [List.map_cons, List.zip_cons_cons, ← hs.1]⟩
  · rintro ⟨found, hfound, rfl⟩
    induction hfound with
    | nil => exact .nil
    | cons hf _ ih => exact .cons ⟨rfl, hf⟩ ih

/-- **An analysis succeeds exactly when every scan does**, and then it is the analysis of the
scans. -/
theorem ofUnits_eq_ok_iff {a : Analysis} :
    ofUnits strict units = .ok a ↔
      ∃ scans, List.Forall₂ (SourceUnit.ScansTo strict) units scans ∧ a = ofScans scans := by
  have hgather : Arrival.gather units (Arrival.inTurn strict units) =
      Arrival.collect (units.map fun u => (some (u.scan strict), u)) :=
    Arrival.gather_eq (fun _ => Arrival.genuine_of_mem_inTurn) fun _ => Arrival.exists_mem_inTurn
  simp only [ofUnits, ofArrivals, hgather, forall₂_scansTo_iff, ← Arrival.collect_eq_ok_iff]
  cases Arrival.collect (units.map fun u => (some (u.scan strict), u)) with
  | error e => simp [Bind.bind, Except.bind]
  | ok found =>
    simp only [Bind.bind, Except.bind, Except.ok.injEq]
    constructor
    · rintro rfl
      exact ⟨_, ⟨found, rfl, rfl⟩, rfl⟩
    · rintro ⟨_, ⟨_, rfl, rfl⟩, rfl⟩
      rfl

end Analysis

end LoadOrder
