import LoadOrder.Dump.Decode
import Mathlib.Tactic.SplitIfs

/-!
# Where a dump ends

A dump that is cut off, or to which something is appended, must not be taken for a smaller or
another dump.  The reader sees a text one character at a time, so this is a fact about its states:

* after the root value only blanks are accepted (`Json.Reader.run_finished`);
* an array is finished by a bracket that is read while nothing but the root array is open, and by
  nothing else (`Json.Reader.step_cases`);
* a text that ends before is refused, with one exception: a numeral may end with the text.  A
  numeral at the root never becomes an array, though (`Json.Reader.AtNumeral.run`).

`Node.parse_exact_extent` says what follows for dumps.
-/

namespace LoadOrder

namespace Json

namespace Reader

variable {st : State} {frames : List Frame} {n : Numeral} {c : Char} {cs ds : List Char}
  {value v : Json} {items : List Json}

/-! ### After the end -/

@[simp] theorem run_failed (cs : List Char) : run .failed cs = .failed := by
  induction cs with
  | nil => rfl
  | cons c cs ih => exact ih

/-- **After the root value only blanks are accepted.** -/
theorem run_finished (v : Json) (cs : List Char) :
    run (.finished v) cs = if cs.all isBlank then .finished v else .failed := by
  induction cs with
  | nil => simp
  | cons c cs ih =>
    rw [run_cons, step, stepFinished]
    by_cases hc : isBlank c = true
    · simp [hc, ih]
    · simp [hc]

/-! ### The end of an array -/

/-- No array is finished, and no word is read that stands for one. -/
def NoArray : State → Prop
  | .reading _ (.word _ value) => ∀ items, value ≠ .array items
  | .finished v => ∀ items, v ≠ .array items
  | _ => True

/-- The character is a bracket, and it closes the only array that is open. -/
def ClosesRoot (frames : List Frame) (c : Char) (next : State) : Prop :=
  c = ']' ∧ (∃ opened, frames = [.array opened]) ∧ ∃ v, next = .finished v

theorem noArray_complete (h : ∀ items, value ≠ .array items) : NoArray (complete value frames) := by
  rcases frames with _ | ⟨_ | _ | _, _⟩
  · exact h
  all_goals trivial

theorem noArray_ite {p : Prop} [Decidable p] {a b : State} (ha : NoArray a) (hb : NoArray b) :
    NoArray (if p then a else b) := by
  split
  · exact ha
  · exact hb

theorem noArray_startValue : NoArray (startValue frames c) := by
  unfold startValue
  repeat' apply noArray_ite
  all_goals simp [NoArray]

theorem noArray_closeObject : NoArray (closeObject frames) := by
  unfold closeObject
  split
  · exact noArray_complete (by simp)
  · trivial

theorem closeArray_cases (frames : List Frame) :
    NoArray (closeArray frames) ∨ ClosesRoot frames ']' (closeArray frames) := by
  rcases frames with _ | ⟨_ | _ | _, _ | ⟨_ | _ | _, _⟩⟩
  case cons.array.nil opened => exact Or.inr ⟨rfl, ⟨opened, rfl⟩, _, rfl⟩
  all_goals exact Or.inl trivial

theorem stepBetween_cases (frames : List Frame) (phase : Phase) (c : Char) :
    NoArray (stepBetween frames phase c) ∨ ClosesRoot frames c (stepBetween frames phase c) := by
  cases phase <;> simp only [stepBetween, stepAfterItem, stepAfterMember]
  case value => exact Or.inl (noArray_ite trivial noArray_startValue)
  case firstItem =>
    split_ifs with _ hc
    · exact Or.inl trivial
    · exact hc ▸ closeArray_cases frames
    · exact Or.inl noArray_startValue
  case afterItem =>
    split_ifs with _ _ hc
    · exact Or.inl trivial
    · exact Or.inl trivial
    · exact hc ▸ closeArray_cases frames
    · exact Or.inl trivial
  case firstName =>
    refine Or.inl (noArray_ite trivial (noArray_ite noArray_closeObject ?_))
    exact noArray_ite trivial trivial
  case name => exact Or.inl (noArray_ite trivial (noArray_ite trivial trivial))
  case colon =>
    refine Or.inl (noArray_ite trivial (noArray_ite ?_ trivial))
    split <;> trivial
  case afterMember =>
    refine Or.inl (noArray_ite trivial (noArray_ite trivial ?_))
    exact noArray_ite noArray_closeObject trivial
  all_goals exact Or.inl trivial

theorem stepNumeral_cases (frames : List Frame) (part : NumeralPart) (n : Numeral) (c : Char) :
    (∃ part' n', stepNumeral frames part n c = .reading frames (.numeral part' n')) ∨
      stepNumeral frames part n c = .failed ∨
      stepNumeral frames part n c = stepAfterNumeral n frames c := by
  cases part <;> simp only [stepNumeral] <;> split_ifs <;> simp

/-- The character after a numeral may be the bracket that closes the array around it. -/
theorem stepAfterNumeral_cases (n : Numeral) (frames : List Frame) (c : Char) :
    NoArray (stepAfterNumeral n frames c) ∨ ClosesRoot frames c (stepAfterNumeral n frames c) := by
  unfold stepAfterNumeral numeralRead
  cases n.toNumber? with
  | none => exact Or.inl trivial
  | some x =>
    rcases frames with _ | ⟨opened | _ | ⟨members, name⟩, rest⟩
    · exact Or.inl (noArray_ite (by simp [NoArray]) trivial)
    · rcases stepBetween_cases (.array (.number x :: opened) :: rest) .afterItem c with h | h
      · exact Or.inl h
      · obtain ⟨hc, ⟨_, heq⟩, hnext⟩ := h
        obtain ⟨-, rfl⟩ := List.cons.inj heq
        exact Or.inr ⟨hc, ⟨opened, rfl⟩, hnext⟩
    · exact Or.inl trivial
    · rcases stepBetween_cases (.object ((name, .number x) :: members) :: rest) .afterMember c with
        h | ⟨-, ⟨_, heq⟩, -⟩
      · exact Or.inl h
      · cases (List.cons.inj heq).1

/-- **Only the bracket that closes the root finishes an array.** -/
theorem step_cases (h : NoArray st) (c : Char) :
    NoArray (step st c) ∨
      ∃ frames phase, st = .reading frames phase ∧ ClosesRoot frames c (step st c) := by
  cases st with
  | failed => exact Or.inl trivial
  | finished v => exact Or.inl (noArray_ite h trivial)
  | reading frames phase =>
    suffices hstep : NoArray (step (.reading frames phase) c) ∨
        ClosesRoot frames c (step (.reading frames phase) c) from
      hstep.imp_right fun hc => ⟨frames, phase, rfl, hc⟩
    cases phase with
    | word rest value =>
      rcases rest with _ | ⟨d, _ | ⟨e, rest⟩⟩
      · exact Or.inl trivial
      · exact Or.inl (noArray_ite (noArray_complete h) trivial)
      · exact Or.inl (noArray_ite h trivial)
    | text use read =>
      refine Or.inl (noArray_ite ?_ (noArray_ite trivial (noArray_ite trivial trivial)))
      cases use with
      | value => exact noArray_complete (by simp)
      | name => trivial
    | escape use read =>
      refine Or.inl (noArray_ite trivial ?_)
      split <;> trivial
    | hex use read high octets =>
      refine Or.inl (noArray_ite trivial (noArray_ite ?_ trivial))
      unfold unicodeRead
      split
      · trivial
      · exact noArray_ite trivial (noArray_ite trivial trivial)
      · exact noArray_ite trivial trivial
    | lowBackslash use read high | lowMark use read high =>
      exact Or.inl (noArray_ite trivial trivial)
    | numeral part n =>
      simp only [step]
      rcases stepNumeral_cases frames part n c with ⟨_, _, heq⟩ | heq | heq <;> rw [heq]
      · exact Or.inl trivial
      · exact Or.inl trivial
      · exact stepAfterNumeral_cases n frames c
    | _ =>
      simp only [step]
      exact stepBetween_cases frames _ c

theorem noArray_start : NoArray start := trivial

/-- **The text of an array has one closing bracket for the root.**  Before it nothing but the root
is open, and after it there are only blanks. -/
theorem exists_closing_bracket (hst : NoArray st) (h : run st cs = .finished (.array items)) :
    ∃ body tail, cs = body ++ ']' :: tail ∧ tail.all isBlank = true ∧
      (∃ opened phase, run st body = .reading [.array opened] phase) ∧
      run st (body ++ [']']) = .finished (.array items) := by
  induction cs generalizing st with
  | nil =>
    rw [run_nil] at h
    subst h
    exact absurd rfl (hst items)
  | cons c cs ih =>
    rw [run_cons] at h
    rcases step_cases hst c with hnext | ⟨frames, phase, rfl, rfl, ⟨opened, rfl⟩, v, hv⟩
    · obtain ⟨body, tail, rfl, htail, hbody, hclosed⟩ := ih hnext h
      exact ⟨c :: body, tail, rfl, htail, hbody, hclosed⟩
    · rw [hv, run_finished] at h
      split_ifs at h with hblank
      exact ⟨[], cs, rfl, hblank, ⟨opened, phase, rfl⟩, hv.trans h⟩

/-! ### Numerals at the root -/

/-- The text so far is a numeral, or can no longer be read. -/
def AtNumeral : State → Prop
  | .reading frames (.numeral _ _) => frames = []
  | .finished (.number _) => True
  | .failed => True
  | _ => False

theorem atNumeral_stepFinished (x : JsonNumber) (c : Char) :
    AtNumeral (stepFinished (.number x) c) := by
  unfold stepFinished
  split_ifs <;> trivial

theorem AtNumeral.step (h : AtNumeral st) (c : Char) : AtNumeral (step st c) := by
  unfold AtNumeral at h
  split at h
  · subst h
    simp only [Reader.step]
    rename_i part n
    rcases stepNumeral_cases [] part n c with ⟨_, _, heq⟩ | heq | heq <;> rw [heq]
    · rfl
    · trivial
    · unfold stepAfterNumeral numeralRead
      cases n.toNumber? with
      | none => trivial
      | some x => exact atNumeral_stepFinished x c
  · exact atNumeral_stepFinished _ c
  · trivial
  · exact h.elim

theorem AtNumeral.run (h : AtNumeral st) (cs : List Char) : AtNumeral (run st cs) := by
  induction cs generalizing st with
  | nil => exact h
  | cons c cs ih => exact ih (h.step c)

theorem numeralRead_cons_ne_finished {frame : Frame} {rest : List Frame} :
    numeralRead n (frame :: rest) ≠ .finished v := by
  unfold numeralRead
  cases n.toNumber? <;> cases frame <;> simp [complete]

/-- A text is accepted in a finished state, or at the end of a numeral. -/
theorem eq_finished_or_atNumeral (h : finish st = .ok v) : st = .finished v ∨ AtNumeral st := by
  unfold finish at h
  split at h
  · exact Or.inl (congrArg State.finished (Except.ok.inj h))
  · cases h
  · rename_i frames part n
    right
    split_ifs at h
    rcases frames with _ | ⟨frame, rest⟩
    · rfl
    · split at h
      · rename_i hread
        exact absurd hread numeralRead_cons_ne_finished
      · cases h
      · cases h
  · cases h

theorem AtNumeral.finish_ne_array (h : AtNumeral st) : finish st ≠ .ok (.array items) := by
  unfold AtNumeral at h
  split at h
  · subst h
    rename_i part n
    simp only [finish, numeralRead]
    cases part.isComplete <;> cases n.toNumber? <;> simp [complete]
  · simp [finish]
  · simp [finish]
  · exact h.elim

theorem eq_finished_of_finish (h : finish st = .ok (.array items)) :
    st = .finished (.array items) :=
  (eq_finished_or_atNumeral h).resolve_right fun hnumeral => hnumeral.finish_ne_array h

/-- **The text of an array that is cut off is refused**, unless only blanks are missing. -/
theorem exists_fault_of_cut (h : run st (cs ++ ds) = .finished (.array items))
    (hds : ¬ ds.all isBlank = true) : ∃ fault, finish (run st cs) = .error fault := by
  rw [run_append] at h
  cases hfinish : finish (run st cs) with
  | error fault => exact ⟨fault, rfl⟩
  | ok v =>
    rcases eq_finished_or_atNumeral hfinish with heq | hnumeral
    · rw [heq, run_finished, if_neg hds] at h
      cases h
    · have hend := hnumeral.run ds
      rw [h] at hend
      exact hend.elim

end Reader

/-- Nothing but blanks: spaces, tabs, line feeds and carriage returns. -/
def BlankText (t : String) : Prop := t.toList.all Reader.isBlank = true

instance (t : String) : Decidable (BlankText t) :=
  inferInstanceAs (Decidable (t.toList.all Reader.isBlank = true))

/-- Of the arrays and objects in the text just one is still open, and it is an array. -/
def RootOpen (t : String) : Prop :=
  ∃ opened phase, Reader.run Reader.start t.toList = .reading [.array opened] phase

end Json

/-! ### Dumps -/

namespace Node

open Json (BlankText RootOpen)
open Json.Reader

variable {s t : String} {n : Node} {items : List Json}

theorem parse_of_fault {fault : Json.Fault} (h : finish (run start s.toList) = .error fault) :
    parse s = .error (.json fault) := by
  simp only [parse, Json.parse, h]
  rfl

theorem exists_array_of_parse (h : parse s = .ok n) :
    ∃ items, run start s.toList = .finished (.array items) := by
  unfold parse Json.parse at h
  cases hfinish : finish (run start s.toList) with
  | error fault =>
    rw [hfinish] at h
    cases h
  | ok value =>
    rw [hfinish] at h
    cases value with
    | array items => exact ⟨items, eq_finished_of_finish hfinish⟩
    | _ => cases h

theorem run_toList_append {v : Json} (h : run start s.toList = .finished v) (t : String) :
    run start (s ++ t).toList = if BlankText t then .finished v else .failed := by
  rw [String.toList_append, run_append, h, run_finished]
  rfl

theorem parse_eq_of_finished (hs : run start s.toList = .finished (.array items))
    (ht : run start t.toList = .finished (.array items)) : parse t = parse s := by
  simp only [parse, Json.parse, hs, ht]

theorem exists_parts (h : run start s.toList = .finished (.array items)) :
    ∃ body tail, s = body ++ "]" ++ tail ∧ RootOpen body ∧ BlankText tail ∧
      run start (body ++ "]").toList = .finished (.array items) := by
  obtain ⟨body, tail, heq, htail, hopen, hclosed⟩ := exists_closing_bracket noArray_start h
  refine ⟨String.ofList body, String.ofList tail, ?_, ?_, ?_, ?_⟩
  · rw [← String.toList_inj, heq]
    simp
  · simpa only [RootOpen, String.toList_ofList] using hopen
  · simpa only [BlankText, String.toList_ofList] using htail
  · simpa using hclosed

/-- **A dump ends where its root array ends.**  What follows may only be blanks: they change
nothing, and anything else is an error of the text.  The text has a bracket before which just the
root array is open and after which there are only blanks; cut off anywhere before that bracket,
whatever is open there, it is an error of the text, and cut off after it, it is the same dump. -/
theorem parse_exact_extent {s : String} {n : Node} (h : parse s = .ok n) :
    (∀ t, BlankText t → parse (s ++ t) = .ok n) ∧
    (∀ t, ¬ BlankText t → parse (s ++ t) = .error (.json .malformed)) ∧
    ∃ body tail, s = body ++ "]" ++ tail ∧ RootOpen body ∧ BlankText tail ∧
      (∀ p q, body = p ++ q → ∃ fault, parse p = .error (.json fault)) ∧
      ∀ p q, tail = p ++ q → parse (body ++ "]" ++ p) = .ok n := by
  obtain ⟨items, hs⟩ := exists_array_of_parse h
  obtain ⟨body, tail, rfl, hopen, htail, hclosed⟩ := exists_parts hs
  refine ⟨fun t ht => ?_, fun t ht => parse_of_fault ?_, body, tail, rfl, hopen, htail,
    fun p q hpq => ?_, fun p q hpq => ?_⟩
  · rw [← h]
    exact parse_eq_of_finished hs (by rw [run_toList_append hs, if_pos ht])
  · rw [run_toList_append hs, if_neg ht]
    rfl
  · -- the missing part holds the bracket
    rw [hpq, String.append_assoc, String.append_assoc, String.toList_append] at hs
    obtain ⟨fault, hfault⟩ := exists_fault_of_cut hs fun hblank =>
      absurd (List.all_eq_true.1 hblank ']' (by simp)) (by decide)
    exact ⟨fault, parse_of_fault hfault⟩
  · have hp : BlankText p := by
      rw [hpq, BlankText, String.toList_append, List.all_append, Bool.and_eq_true] at htail
      exact htail.1
    rw [← h]
    exact parse_eq_of_finished hs (by rw [run_toList_append hclosed, if_pos hp])

/-- A dump with a bracket and a surrogate pair inside a string, and a blank at its end. -/
theorem parse_exact_extent_nested :
    let s := "[\"program\", [[null], \"]\\\"\\ud83d\\ude00\"]] "
    let n : Node := ⟨.program, [.list [.list [.nil], .literal "]\"😀"]]⟩
    parse s = .ok n ∧ parse (s ++ "\r\n") = .ok n ∧ parse (s ++ " ]") = .error (.json .malformed) ∧
      ∃ body tail, s = body ++ "]" ++ tail ∧ BlankText tail ∧ parse (body ++ "]" ++ "") = .ok n ∧
        ∃ fault, parse body = .error (.json fault) := by
  intro s n
  have hrun : run start s.toList = .finished (.array [.string "program",
      .array [.array [.null], .string "]\"😀"]]) := by
    simp only [s, String.reduceToList]
    rfl
  have hparse : parse s = .ok n := by
    rw [parse, Json.parse, hrun]
    rfl
  obtain ⟨hblank, hmore, body, tail, hs, -, htail, hcut, hshort⟩ := parse_exact_extent hparse
  exact ⟨hparse, hblank _ (by decide), hmore _ (by decide), body, tail, hs, htail,
    hshort "" tail (by simp), hcut body "" (by simp)⟩

end Node

end LoadOrder
