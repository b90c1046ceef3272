import LoadOrder.Proofs.Arrivals
import LoadOrder.Proofs.Workers.Steps

/-!
# The schedule does not matter

However the moves of the workers and of the coordinator are interleaved, and however many workers
there are, what the coordinator makes of the results is what scanning the files one after the other
gives.

* `Pool.received_perm_inTurn` : when all is done, the results that were received are those of
  scanning the files in turn, in some order;
* `Pool.scansInOrder_of_run` : every run is finite, a run that cannot go on has finished, and then
  the results, put back into the order of the files, are as if there were no workers;
* `Analysis.comesTo_iff` : hence the analysis comes to the same for all schedules.
-/

namespace LoadOrder

/-- Scans some files one after the other, until a scan fails. -/
def SourceUnit.scanInTurn (strict : Bool) (units : List SourceUnit) :
    Except AnalysisError (List Findings) :=
  units.mapM fun u => (u.scan strict).mapError .unrecognized

namespace Arrival

variable {strict : Bool} {units : List SourceUnit} {arrivals : List Arrival}

/-! ### Arrivals in any order -/

theorem map_index_inTurn (strict : Bool) (units : List SourceUnit) :
    (inTurn strict units).map index = List.range units.length := by
  rw [inTurn, List.map_map, List.range_eq_range', ← List.zipIdx_map_snd]
  rfl

theorem map_unit_inTurn (strict : Bool) (units : List SourceUnit) :
    (inTurn strict units).map unit = units.map SourceUnit.id := by
  have hfst := congrArg (List.map SourceUnit.id) (List.zipIdx_map_fst 0 units)
  rw [← hfst, inTurn, List.map_map, List.map_map]
  rfl

theorem slots_of_perm (h : arrivals.Perm (inTurn strict units)) :
    arrivals.foldl file (units.map fun _ => none) = units.map fun u => some (u.scan strict) := by
  refine foldl_file_eq (fun a ha => genuine_of_mem_inTurn (h.mem_iff.1 ha)) fun i hi => ?_
  obtain ⟨a, ha, hai⟩ : ∃ a ∈ inTurn strict units, a.index = i := exists_mem_inTurn hi
  exact ⟨a, h.mem_iff.2 ha, hai⟩

theorem collect_eq_scanInTurn (strict : Bool) (units : List SourceUnit) :
    collect (units.map fun u => (some (u.scan strict), u)) =
      SourceUnit.scanInTurn strict units := by
  induction units with
  | nil => rfl
  | cons u units ih =>
    rw [SourceUnit.scanInTurn, List.map_cons, List.mapM_cons, ← SourceUnit.scanInTurn, ← ih]
    cases u.scan strict with
    | error e => rfl
    | ok f =>
      simp only [collect, Except.mapError]
      cases collect (units.map fun u => (some (u.scan strict), u)) <;> rfl

theorem gather_of_perm (h : arrivals.Perm (inTurn strict units)) :
    gather units arrivals = SourceUnit.scanInTurn strict units := by
  rw [gather, slots_of_perm h, ← List.map_prod_right_eq_zip, collect_eq_scanInTurn]

theorem scanInTurn_ne_lost (strict : Bool) (units : List SourceUnit) (unit : String) :
    SourceUnit.scanInTurn strict units ≠ .error (.lost unit) := by
  rw [← collect_eq_scanInTurn]
  intro hlost
  induction units with
  | nil => cases hlost
  | cons u units ih =>
    rw [List.map_cons] at hlost
    cases hscan : u.scan strict with
    | error e =>
      rw [hscan] at hlost
      cases hlost
    | ok f =>
      simp only [hscan, collect] at hlost
      cases hc : collect (units.map fun u => (some (u.scan strict), u)) with
      | ok l =>
        rw [hc] at hlost
        cases hlost
      | error e =>
        rw [hc] at hlost
        exact ih (hc.trans (by simpa [Except.map] using hlost))

theorem progress_eq (units : List SourceUnit) (arrivals : List Arrival) :
    progress units arrivals =
      .started .scanning units.length ::
        ((arrivals.map unit).zipIdx 1).map (fun n => .advanced .scanning n.2 n.1) ++
        [.finished .scanning] := by
  rw [progress, List.zipIdx_map, List.map_map, List.zipIdx_succ, List.map_map]
  rfl

end Arrival

/-- What comes of the results that were received is what comes of scanning the files in turn. -/
structure ScansInOrder (strict : Bool) (units : List SourceUnit) (received : List Arrival) :
    Prop where
  /-- For every file one result was received, and there were no others. -/
  once : (received.map Arrival.index).Perm (List.range units.length)
  /-- The slots hold the outcomes of the files. -/
  slots : received.foldl Arrival.file (units.map fun _ => none) =
    units.map fun u => some (u.scan strict)
  /-- The findings are those of the files in their order, or else the first failure decides. -/
  result : Arrival.gather units received = SourceUnit.scanInTurn strict units
  /-- No result is missed. -/
  noneLost : ∀ unit, Arrival.gather units received ≠ .error (.lost unit)
  /-- The scanning is announced, then the files are counted, each as often as it occurs in the
  input, and then the end is announced. -/
  progress : ∃ names : List String, names.Perm (units.map SourceUnit.id) ∧
    Arrival.progress units received =
      .started .scanning units.length ::
        (names.zipIdx 1).map (fun n => .advanced .scanning n.2 n.1) ++ [.finished .scanning]

theorem ScansInOrder.of_perm {strict : Bool} {units : List SourceUnit} {received : List Arrival}
    (h : received.Perm (Arrival.inTurn strict units)) : ScansInOrder strict units received where
  once := by
    rw [← Arrival.map_index_inTurn strict]
    exact h.map _
  slots := Arrival.slots_of_perm h
  result := Arrival.gather_of_perm h
  noneLost := by
    rw [Arrival.gather_of_perm h]
    exact Arrival.scanInTurn_ne_lost strict units
  progress := by
    refine ⟨received.map Arrival.unit, ?_, Arrival.progress_eq units received⟩
    rw [← Arrival.map_unit_inTurn strict]
    exact h.map _

namespace Pool

variable {strict : Bool} {units : List SourceUnit} {count : ℕ} {moves : List Move} {p : Pool}

/-- **What has been received in the end** are the results of scanning the files in turn, in some
order. -/
theorem received_perm_inTurn (hcount : 1 ≤ count)
    (h : (start units count).run? strict moves = some p) (hp : p.Finished) :
    p.received.Perm (Arrival.inTurn strict units) := by
  have hstaffed : p.Staffed := (staffed_start hcount).run h
  refine Multiset.coe_eq_coe.1 ?_
  rw [← hstaffed.outcomes_eq hp, outcomes_run h, outcomes_start]

/-- **The schedule does not matter.**  Whatever number of workers is requested, and however their
moves are interleaved: a run has at most four moves for every file and one for every worker; a run
that cannot go on has finished; and a run that has finished leaves the coordinator with what
scanning the files in turn gives. -/
theorem scansInOrder_of_run (strict : Bool) (units : List SourceUnit) (parallelism requested : ℕ)
    (moves : List Move) (p : Pool)
    (h : (start units (workerCount parallelism requested units.length)).run? strict moves =
      some p) :
    moves.length ≤ 4 * units.length + workerCount parallelism requested units.length ∧
    ((∀ m, p.step? strict m = none) → p.Finished) ∧
    (p.Finished → ScansInOrder strict units p.received) := by
  refine ⟨?_, fun hstuck => ?_, fun hp => ?_⟩
  · have := work_run h
    rw [work_start] at this
    omega
  · by_contra hp
    obtain ⟨m, q, hm⟩ := exists_step strict hp
    rw [hstuck m] at hm
    cases hm
  · exact .of_perm (received_perm_inTurn (one_le_workerCount ..) h hp)

/-- Two workers; the second file is done first, and the first file fails. -/
theorem scansInOrder_of_run_overtaken :
    let units : List SourceUnit := [⟨"a", ⟨.unknown "lambda", []⟩⟩, ⟨"b", ⟨.voidStmt, []⟩⟩]
    let moves := [.take 0, .take 1, .scan 1, .send 1, .receive, .scan 0, .send 0, .leave 1,
      .receive, .leave 0]
    ∃ p, (start units (workerCount 8 2 2)).run? true moves = some p ∧ p.Finished ∧
      p.received.map Arrival.unit = ["b", "a"] ∧ ScansInOrder true units p.received ∧
      Arrival.gather units p.received = .error (.unrecognized ⟨"a", "lambda"⟩) := by
  intro units moves
  have hrun : (start units (workerCount 8 2 2)).run? true moves =
      some ⟨[], [.gone, .gone], [], [⟨1, "b", .ok ∅⟩, ⟨0, "a", .error ⟨"a", "lambda"⟩⟩]⟩ := rfl
  have hfinished : Pool.Finished
      ⟨[], [.gone, .gone], [], [⟨1, "b", .ok ∅⟩, ⟨0, "a", .error ⟨"a", "lambda"⟩⟩]⟩ := by
    simp [Finished]
  obtain ⟨-, -, h⟩ := scansInOrder_of_run true units 8 2 moves _ hrun
  exact ⟨_, hrun, hfinished, rfl, h hfinished, (h hfinished).result⟩

end Pool

namespace Analysis

/-- The analysis of some files can come to `r` when they are scanned by workers. -/
def ComesTo (strict : Bool) (parallelism requested : ℕ) (units : List SourceUnit)
    (r : Except AnalysisError Analysis) : Prop :=
  ∃ moves p, (Pool.start units (Pool.workerCount parallelism requested units.length)).run? strict
    moves = some p ∧ p.Finished ∧ r = ofArrivals units p.received

theorem ofArrivals_of_perm {strict : Bool} {units : List SourceUnit} {arrivals : List Arrival}
    (h : arrivals.Perm (Arrival.inTurn strict units)) :
    ofArrivals units arrivals =
      (SourceUnit.scanInTurn strict units).map fun found =>
        ofScans ((units.map SourceUnit.id).zip found) := by
  rw [ofArrivals, Arrival.gather_of_perm h]
  cases SourceUnit.scanInTurn strict units <;> rfl

theorem ofUnits_eq (strict : Bool) (units : List SourceUnit) :
    ofUnits strict units =
      (SourceUnit.scanInTurn strict units).map fun found =>
        ofScans ((units.map SourceUnit.id).zip found) :=
  ofArrivals_of_perm (List.Perm.refl _)

/-- **An analysis with workers comes to what it comes to without them**, for all schedules. -/
theorem comesTo_iff {strict : Bool} {parallelism requested : ℕ} {units : List SourceUnit}
    {r : Except AnalysisError Analysis} :
    ComesTo strict parallelism requested units r ↔ r = ofUnits strict units := by
  have hcount := Pool.one_le_workerCount parallelism requested units.length
  constructor
  · rintro ⟨moves, p, h, hp, rfl⟩
    rw [ofUnits_eq, ofArrivals_of_perm (Pool.received_perm_inTurn hcount h hp)]
  · rintro rfl
    obtain ⟨moves, p, h, hp⟩ := Pool.exists_finished strict (Pool.start units _)
    refine ⟨moves, p, h, hp, ?_⟩
    rw [ofUnits_eq, ofArrivals_of_perm (Pool.received_perm_inTurn hcount h hp)]

end Analysis

end LoadOrder
