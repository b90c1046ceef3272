import LoadOrder.Scan.Pool
import Mathlib.Algebra.BigOperators.Group.List.Basic
import Mathlib.Algebra.GroupWithZero.Nat
import Mathlib.Algebra.Order.Group.Multiset

/-!
# Workers that scan files side by side

The files wait in a queue of jobs.  Each of several workers takes the next job, scans it, puts the
result into a queue of results and starts again; a worker that finds no job leaves.  A coordinator
takes the results out of their queue, one by one.  The queues deliver what is put into them, once
and in order, but nothing is said about who moves when: a run is any list of moves each of which is
possible when its turn comes.

* `Pool.outcomes_step` : a move neither loses nor doubles a result, those not yet computed included;
* `Pool.work_step` : every move takes one step off the work that is left;
* `Pool.exists_step` : until all is done some move is possible;
* `Pool.exists_finished` : hence every run can be completed, and none goes on for ever.
-/

namespace LoadOrder

/-- A file with its place in the input. -/
abbrev Job := SourceUnit × ℕ

/-- The result of a job. -/
def Job.result (strict : Bool) (job : Job) : Arrival := ⟨job.2, job.1.id, job.1.scan strict⟩

/-- What a worker is doing. -/
inductive Worker where
  /-- It looks for the next job. -/
  | idle
  | scanning (job : Job)
  /-- It has scanned a file and has not sent the result yet. -/
  | sending (result : Arrival)
  /-- It found no job and left. -/
  | gone

namespace Worker

/-- The results that a worker has or will have from the job it took. -/
def outcomes (strict : Bool) : Worker → Multiset Arrival
  | idle | gone => 0
  | scanning job => {job.result strict}
  | sending a => {a}

/-- The number of moves that a worker and what it holds have before them, if it takes no more
jobs. -/
def work : Worker → ℕ
  | idle => 1
  | scanning _ => 4
  | sending _ => 3
  | gone => 0

end Worker

/-- The workers, numbered from zero, with what passes between them and the coordinator. -/
structure Pool where
  /-- The jobs that no worker has taken. -/
  jobs : List Job
  workers : List Worker
  /-- The results that are on their way. -/
  sent : List Arrival
  /-- The results that the coordinator has, in the order in which it took them. -/
  received : List Arrival

/-- What may happen next. -/
inductive Move where
  | take (worker : ℕ)
  | scan (worker : ℕ)
  | send (worker : ℕ)
  | leave (worker : ℕ)
  | receive

namespace Pool

/-- The number of workers for some jobs: as many as requested, or as the machine runs side by side
when zero are requested, but at least one and no more than there are jobs. -/
def workerCount (parallelism requested jobs : ℕ) : ℕ :=
  max 1 (min (if requested = 0 then parallelism else requested) (max jobs 1))

/-- All files wait, and all workers are idle. -/
def start (units : List SourceUnit) (count : ℕ) : Pool :=
  ⟨units.zipIdx, List.replicate count .idle, [], []⟩

/-- The pool after a move, if the move is possible. -/
def step? (strict : Bool) (p : Pool) : Move → Option Pool
  | .take w =>
    match p.workers[w]?, p.jobs with
    | some .idle, job :: rest =>
      some { p with jobs := rest, workers := p.workers.set w (.scanning job) }
    | _, _ => none
  | .scan w =>
    match p.workers[w]? with
    | some (.scanning job) =>
      some { p with workers := p.workers.set w (.sending (job.result strict)) }
    | _ => none
  | .send w =>
    match p.workers[w]? with
    | some (.sending a) => some { p with workers := p.workers.set w .idle, sent := p.sent ++ [a] }
    | _ => none
  | .leave w =>
    match p.workers[w]?, p.jobs with
    | some .idle, [] => some { p with workers := p.workers.set w .gone }
    | _, _ => none
  | .receive =>
    match p.sent with
    | a :: rest => some { p with sent := rest, received := p.received ++ [a] }
    | [] => none

/-- The pool after some moves, if each is possible in its turn. -/
def run? (strict : Bool) (p : Pool) : List Move → Option Pool
  | [] => some p
  | m :: moves => (p.step? strict m).bind (·.run? strict moves)

/-- All workers have left and no result is on its way, so the coordinator waits for no more. -/
def Finished (p : Pool) : Prop := (∀ w ∈ p.workers, w = .gone) ∧ p.sent = []

variable {strict : Bool} {p q : Pool} {m : Move} {moves : List Move}

/-! ### One move -/

theorem step?_cases (h : p.step? strict m = some q) :
    (∃ w job rest, p.workers[w]? = some .idle ∧ p.jobs = job :: rest ∧
      q = { p with jobs := rest, workers := p.workers.set w (.scanning job) }) ∨
    (∃ w job, p.workers[w]? = some (.scanning job) ∧
      q = { p with workers := p.workers.set w (.sending (job.result strict)) }) ∨
    (∃ w a, p.workers[w]? = some (.sending a) ∧
      q = { p with workers := p.workers.set w .idle, sent := p.sent ++ [a] }) ∨
    (∃ w, p.workers[w]? = some .idle ∧ p.jobs = [] ∧
      q = { p with workers := p.workers.set w .gone }) ∨
    (∃ a rest, p.sent = a :: rest ∧
      q = { p with sent := rest, received := p.received ++ [a] }) := by
  cases m with
  | take w =>
    simp only [step?] at h
    split at h
    · rename_i job rest hw hjobs
      exact Or.inl ⟨w, job, rest, hw, hjobs, (Option.some.inj h).symm⟩
    · cases h
  | scan w =>
    simp only [step?] at h
    split at h
    · rename_i job hw
      exact Or.inr (Or.inl ⟨w, job, hw, (Option.some.inj h).symm⟩)
    · cases h
  | send w =>
    simp only [step?] at h
    split at h
    · rename_i a hw
      exact Or.inr (Or.inr (Or.inl ⟨w, a, hw, (Option.some.inj h).symm⟩))
    · cases h
  | leave w =>
    simp only [step?] at h
    split at h
    · rename_i hw hjobs
      exact Or.inr (Or.inr (Or.inr (Or.inl ⟨w, hw, hjobs, (Option.some.inj h).symm⟩)))
    · cases h
  | receive =>
    simp only [step?] at h
    split at h
    · rename_i a rest hsent
      exact Or.inr (Or.inr (Or.inr (Or.inr ⟨a, rest, hsent, (Option.some.inj h).symm⟩)))
    · cases h

theorem sum_map_set {M : Type} [AddCommMonoid M] (f : Worker → M) {workers : List Worker} {i : ℕ}
    {old : Worker} (h : workers[i]? = some old) (new : Worker) :
    ((workers.set i new).map f).sum + f old = (workers.map f).sum + f new := by
  induction workers generalizing i with
  | nil => simp at h
  | cons w workers ih =>
    cases i with
    | zero =>
      obtain rfl : w = old := by simpa using h
      simp only [List.set_cons_zero, List.map_cons, List.sum_cons]
      ac_rfl
    | succ i =>
      have := ih (by simpa using h)
      simp only [List.set_cons_succ, List.map_cons, List.sum_cons, add_assoc, this]

/-! ### Nothing is lost -/

/-- The results of all jobs, wherever they are. -/
def outcomes (strict : Bool) (p : Pool) : Multiset Arrival :=
  ↑(p.jobs.map (Job.result strict)) + (p.workers.map (Worker.outcomes strict)).sum + ↑p.sent +
    ↑p.received

/-- **A move neither loses nor doubles a result.** -/
theorem outcomes_step (h : p.step? strict m = some q) : q.outcomes strict = p.outcomes strict := by
  rcases step?_cases h with ⟨w, job, rest, hw, hjobs, rfl⟩ | ⟨w, job, hw, rfl⟩ | ⟨w, a, hw, rfl⟩ |
    ⟨w, hw, -, rfl⟩ | ⟨a, rest, hsent, rfl⟩
  · have hsum := sum_map_set (Worker.outcomes strict) hw (.scanning job)
    simp only [Worker.outcomes, add_zero] at hsum
    simp only [outcomes, hsum, hjobs, List.map_cons, ← Multiset.cons_coe, ← Multiset.singleton_add]
    ac_rfl
  · have hsum := sum_map_set (Worker.outcomes strict) hw (.sending (job.result strict))
    simp only [Worker.outcomes, add_left_inj] at hsum
    simp only [outcomes, hsum]
  · have hsum := sum_map_set (Worker.outcomes strict) hw .idle
    simp only [Worker.outcomes, add_zero] at hsum
    simp only [outcomes, ← hsum, ← Multiset.coe_add, Multiset.coe_singleton]
    ac_rfl
  · have hsum := sum_map_set (Worker.outcomes strict) hw .gone
    simp only [Worker.outcomes, add_zero] at hsum
    simp only [outcomes, hsum]
  · simp only [outcomes, hsent, ← Multiset.coe_add, ← Multiset.cons_coe, ← Multiset.singleton_add]
    ac_rfl

/-! ### Every move is progress -/

/-- The number of moves that are left: four for a job, and one for each worker to leave. -/
def work (p : Pool) : ℕ := 4 * p.jobs.length + (p.workers.map Worker.work).sum + p.sent.length

theorem work_step (h : p.step? strict m = some q) : q.work + 1 = p.work := by
  rcases step?_cases h with ⟨w, job, rest, hw, hjobs, rfl⟩ | ⟨w, job, hw, rfl⟩ | ⟨w, a, hw, rfl⟩ |
    ⟨w, hw, hjobs, rfl⟩ | ⟨a, rest, hsent, rfl⟩
  · have hsum := sum_map_set Worker.work hw (.scanning job)
    simp only [work, Worker.work, hjobs, List.length_cons] at hsum ⊢
    omega
  · have hsum := sum_map_set Worker.work hw (.sending (job.result strict))
    simp only [work, Worker.work] at hsum ⊢
    omega
  · have hsum := sum_map_set Worker.work hw .idle
    simp only [work, Worker.work, List.length_append, List.length_singleton] at hsum ⊢
    omega
  · have hsum := sum_map_set Worker.work hw .gone
    simp only [work, Worker.work] at hsum ⊢
    omega
  · simp only [work, hsent, List.length_cons]
    omega

/-- Until all workers have left and all results have been received, some move is possible. -/
theorem exists_step (strict : Bool) (h : ¬ p.Finished) : ∃ m q, p.step? strict m = some q := by
  cases hsent : p.sent with
  | cons a rest => exact ⟨.receive, _, by simp only [step?, hsent]; rfl⟩
  | nil =>
    obtain ⟨worker, hmem, hgone⟩ : ∃ worker ∈ p.workers, worker ≠ .gone := by
      by_contra hall
      push Not at hall
      exact h ⟨hall, hsent⟩
    obtain ⟨w, hw⟩ := List.mem_iff_getElem?.1 hmem
    cases worker with
    | idle =>
      cases hjobs : p.jobs with
      | nil => exact ⟨.leave w, _, by simp only [step?, hw, hjobs]; rfl⟩
      | cons job rest => exact ⟨.take w, _, by simp only [step?, hw, hjobs]; rfl⟩
    | scanning job => exact ⟨.scan w, _, by simp only [step?, hw]; rfl⟩
    | sending a => exact ⟨.send w, _, by simp only [step?, hw]; rfl⟩
    | gone => exact absurd rfl hgone

/-! ### Nobody leaves early -/

/-- No worker leaves while there are jobs, and there are workers. -/
def Staffed (p : Pool) : Prop := p.workers ≠ [] ∧ (p.jobs ≠ [] → .gone ∉ p.workers)

theorem not_mem_set {workers : List Worker} {w : ℕ} {new : Worker} (h : .gone ∉ workers)
    (hnew : new ≠ .gone) : .gone ∉ workers.set w new := by
  intro hmem
  rcases List.mem_or_eq_of_mem_set hmem with hmem | heq
  · exact h hmem
  · exact hnew heq.symm

theorem Staffed.step (hp : p.Staffed) (h : p.step? strict m = some q) : q.Staffed := by
  obtain ⟨hne, hgone⟩ := hp
  rcases step?_cases h with ⟨w, job, rest, hw, hjobs, rfl⟩ | ⟨w, job, hw, rfl⟩ | ⟨w, a, hw, rfl⟩ |
    ⟨w, hw, hjobs, rfl⟩ | ⟨a, rest, hsent, rfl⟩
  · exact ⟨by simpa using hne, fun _ => not_mem_set (hgone (by simp [hjobs])) nofun⟩
  · exact ⟨by simpa using hne, fun h => not_mem_set (hgone h) nofun⟩
  · exact ⟨by simpa using hne, fun h => not_mem_set (hgone h) nofun⟩
  · exact ⟨by simpa using hne, fun h => absurd hjobs h⟩
  · exact ⟨hne, hgone⟩

theorem Staffed.jobs_eq_nil (hp : p.Staffed) (h : p.Finished) : p.jobs = [] := by
  by_contra hjobs
  obtain ⟨w, hw⟩ := List.exists_mem_of_ne_nil _ hp.1
  exact hp.2 hjobs (h.1 w hw ▸ hw)

theorem Staffed.outcomes_eq (hp : p.Staffed) (h : p.Finished) :
    p.outcomes strict = ↑p.received := by
  have hworkers : (p.workers.map (Worker.outcomes strict)).sum = 0 := by
    refine List.sum_eq_zero fun x hx => ?_
    obtain ⟨w, hw, rfl⟩ := List.mem_map.1 hx
    rw [h.1 w hw, Worker.outcomes]
  simp [outcomes, hp.jobs_eq_nil h, hworkers, h.2]

/-! ### Runs -/

/-- What every possible move keeps, a run keeps. -/
theorem run?_induction {I : Pool → Prop} (hstep : ∀ {p q m}, I p → p.step? strict m = some q → I q)
    (hp : I p) (h : p.run? strict moves = some q) : I q := by
  induction moves generalizing p with
  | nil =>
    cases h
    exact hp
  | cons m moves ih =>
    obtain ⟨next, hm, hrest⟩ := Option.bind_eq_some_iff.1 h
    exact ih (hstep hp hm) hrest

theorem outcomes_run (h : p.run? strict moves = some q) :
    q.outcomes strict = p.outcomes strict :=
  run?_induction (I := fun r => r.outcomes strict = p.outcomes strict)
    (fun hr hm => (outcomes_step hm).trans hr) rfl h

theorem Staffed.run (hp : p.Staffed) (h : p.run? strict moves = some q) : q.Staffed :=
  run?_induction (fun hr hm => hr.step hm) hp h

theorem work_run (h : p.run? strict moves = some q) : q.work + moves.length = p.work := by
  induction moves generalizing p with
  | nil =>
    cases h
    rfl
  | cons m moves ih =>
    obtain ⟨next, hm, hrest⟩ := Option.bind_eq_some_iff.1 h
    have := ih hrest
    have := work_step hm
    rw [List.length_cons]
    omega

/-- **Every run can be completed.** -/
theorem exists_finished (strict : Bool) (p : Pool) :
    ∃ moves q, p.run? strict moves = some q ∧ q.Finished := by
  induction hn : p.work generalizing p with
  | zero =>
    refine ⟨[], p, rfl, ?_⟩
    by_contra h
    obtain ⟨m, q, hm⟩ := exists_step strict h
    have := work_step hm
    omega
  | succ n ih =>
    by_cases h : p.Finished
    · exact ⟨[], p, rfl, h⟩
    · obtain ⟨m, next, hm⟩ := exists_step strict h
      have hwork := work_step hm
      obtain ⟨moves, q, hrun, hq⟩ := ih next (by omega)
      exact ⟨m :: moves, q, by rw [run?, hm]; exact hrun, hq⟩

/-! ### The start -/

theorem one_le_workerCount (parallelism requested jobs : ℕ) :
    1 ≤ workerCount parallelism requested jobs :=
  Nat.le_max_left 1 _

variable {units : List SourceUnit} {count : ℕ}

theorem work_start : (start units count).work = 4 * units.length + count := by
  simp [work, start, Worker.work]

theorem staffed_start (h : 1 ≤ count) : (start units count).Staffed := by
  refine ⟨?_, fun _ hgone => ?_⟩
  · simp only [start, ne_eq, List.replicate_eq_nil_iff]
    omega
  · cases List.eq_of_mem_replicate hgone

theorem outcomes_start :
    (start units count).outcomes strict = ↑(Arrival.inTurn strict units) := by
  have hjobs : units.zipIdx.map (Job.result strict) = Arrival.inTurn strict units := rfl
  simp [outcomes, start, Worker.outcomes, hjobs]

end Pool

end LoadOrder
