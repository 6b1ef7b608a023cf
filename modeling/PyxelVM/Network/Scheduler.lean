/-
  PyxelVM.Network.Scheduler — `ComputeScheduler` (`open_pyxel/network/scheduler.py`).

  The queue is sorted by priority, greatest first, at every submission, and served from the
  front. `pending` are the requests submitted and not yet returned, in the order of
  submission. NaN is a float, and nothing is less or greater than it, so that a list with
  one has no order: what a sort makes of it is some permutation (`sorted` is Python's for
  the three requests below).

  - `serves_fairly`: nothing is lost or returned twice; where no priority is NaN, the answer
    is the first submitted of those of the highest priority.
  - `nan_hides_priority`: with a NaN between them, a request of lower priority is served first.
-/

import Mathlib.Data.List.Induction
import PyxelVM.Lib.PyJson
import PyxelVM.Lib.StableQueue
import PyxelVM.Lib.Trace

namespace PyxelVM.Network

open PyxelVM.Lib

structure TrainingRequest where
  jobId : String
  requiredNodes : Int
  priority : PyFloat := .finite 0
  deriving DecidableEq

structure ComputeScheduler where
  queue : List TrainingRequest := []

namespace ComputeScheduler

/-- The priority is less. -/
def below (r s : TrainingRequest) : Bool := r.priority.lt s.priority

def submit (c : ComputeScheduler) (r : TrainingRequest) : ComputeScheduler := ⟨StableQueue.sorted below (c.queue ++ [r])⟩

def nextJob (c : ComputeScheduler) : Option TrainingRequest × ComputeScheduler :=
  match c.queue with
  | [] => (none, c)
  | r :: queue => (some r, ⟨queue⟩)

inductive Call where
  | submit (r : TrainingRequest)
  | nextJob

/-- A call, with what it returns. -/
def step (c : ComputeScheduler) : Call → Option TrainingRequest × ComputeScheduler
  | .submit r => (none, c.submit r)
  | .nextJob => c.nextJob

def after (calls : List Call) : ComputeScheduler := Trace.final step {} calls

/-! ## Fairness -/

def submitted (calls : List Call) : List TrainingRequest :=
  calls.filterMap fun
    | .submit r => some r
    | .nextJob => none

def returned (calls : List Call) : List TrainingRequest := Trace.seen step (fun _ answer => answer.toList) {} calls

/-- The requests that wait after a call: of equal ones the first has been returned. -/
def wait (pending : List TrainingRequest) : Call → Option TrainingRequest → List TrainingRequest
  | .submit r, _ => pending ++ [r]
  | .nextJob, some r => pending.erase r
  | .nextJob, none => pending

/-- The requests submitted and not yet returned, in the order of submission. -/
def pending (calls : List Call) : List TrainingRequest :=
  (Trace.log step {} calls).foldl (fun waiting x => wait waiting x.1 x.2) []

/-- Nothing that waits has a higher priority, and nothing submitted before has the same. -/
def First (waiting : List TrainingRequest) (r : TrainingRequest) : Prop := ∃ others, StableQueue.Served below waiting r others

/-- What has become of the requests, and what `next_job` answers now. -/
structure Fair (calls : List Call) : Prop where
  kept : (submitted calls).Perm (returned calls ++ pending calls)
  none_iff : (after calls).nextJob.1 = none ↔ pending calls = []
  first : ∀ r, (after calls).nextJob.1 = some r → First (pending calls) r

/-! ## One call -/

section

variable (calls : List Call) (c : Call)

theorem after_concat : after (calls ++ [c]) = (step (after calls) c).2 := Trace.final_concat _ calls c

theorem submitted_concat : submitted (calls ++ [c]) = submitted calls ++ submitted [c] := List.filterMap_append

theorem returned_concat : returned (calls ++ [c]) = returned calls ++ (step (after calls) c).1.toList :=
  Trace.seen_concat _ calls c

theorem pending_concat : pending (calls ++ [c]) = wait (pending calls) c (step (after calls) c).1 := by
  rw [pending, Trace.log_concat, List.foldl_concat, ← pending, ← after]

end

theorem ranks : StableQueue.Ranks below fun r => r.priority ≠ .nan where
  asymm _ _ h := PyFloat.lt_asymm h
  trans _ hb _ hab hbc := PyFloat.lt_false_trans hb hab hbc

/-- `next_job` answers the front of the queue. -/
theorem nextJob_cases (c : ComputeScheduler) :
    (c.queue = [] ∧ c.nextJob = (none, c)) ∨ ∃ r queue, c.queue = r :: queue ∧ c.nextJob = (some r, ⟨queue⟩) := by
  cases hq : c.queue with
  | nil => exact .inl ⟨rfl, by rw [nextJob, hq]⟩
  | cons r queue => exact .inr ⟨r, queue, rfl, by rw [nextJob, hq]⟩

/-! ## A run -/

/-- The queue has what waits, whatever the priorities. -/
theorem queue_perm (calls : List Call) : (after calls).queue.Perm (pending calls) := by
  induction calls using List.reverseRecOn with
  | nil => exact .refl _
  | append_singleton calls c ih =>
    rw [after_concat, pending_concat]
    cases c with
    | submit r => exact (StableQueue.sorted_perm below _).trans (ih.append_right [r])
    | nextJob =>
      rcases nextJob_cases (after calls) with ⟨-, he⟩ | ⟨r, queue, hq, he⟩
      · simp only [step, he, wait]
        exact ih
      · simp only [step, he, wait]
        rw [hq] at ih
        have herase := ih.erase r
        rwa [List.erase_cons_head] at herase

theorem kept_after (calls : List Call) : (submitted calls).Perm (returned calls ++ pending calls) := by
  induction calls using List.reverseRecOn with
  | nil => exact .refl _
  | append_singleton calls c ih =>
    rw [submitted_concat, returned_concat, pending_concat]
    cases c with
    | submit r =>
      simp only [step, wait, Option.toList_none, List.append_nil]
      rw [← List.append_assoc]
      exact ih.append_right [r]
    | nextJob =>
      simp only [submitted, List.filterMap_cons, List.filterMap_nil, List.append_nil]
      rcases nextJob_cases (after calls) with ⟨-, he⟩ | ⟨r, queue, hq, he⟩
      · simp only [step, he, wait, Option.toList_none, List.append_nil]
        exact ih
      · simp only [step, he, wait, Option.toList_some, List.append_assoc, List.singleton_append]
        have hmem : r ∈ pending calls := (queue_perm calls).mem_iff.mp (by rw [hq]; exact List.mem_cons_self)
        exact ih.trans ((List.perm_cons_erase hmem).append_left _)

/-- Where no priority is NaN, the queue is what waits in the one stable order. -/
theorem queue_sorted {calls : List Call} (h : ∀ r ∈ submitted calls, r.priority ≠ .nan) :
    (after calls).queue = StableQueue.sorted below (pending calls) := by
  induction calls using List.reverseRecOn with
  | nil => rfl
  | append_singleton calls c ih =>
    rw [submitted_concat] at h
    have hcalls : ∀ r ∈ submitted calls, r.priority ≠ .nan := fun r hr => h r (List.mem_append_left _ hr)
    have hpending : ∀ r ∈ pending calls, r.priority ≠ .nan :=
      fun r hr => hcalls r ((kept_after calls).mem_iff.mpr (List.mem_append_right _ hr))
    rw [after_concat, pending_concat]
    cases c with
    | submit r =>
      have hr : r.priority ≠ .nan := h r (List.mem_append_right _ (List.mem_singleton.mpr rfl))
      show StableQueue.sorted below ((after calls).queue ++ [r]) = StableQueue.sorted below (pending calls ++ [r])
      rw [ih hcalls, StableQueue.sorted_append ranks hpending hr]
    | nextJob =>
      rcases nextJob_cases (after calls) with ⟨-, he⟩ | ⟨r, queue, hq, he⟩
      · simp only [step, he, wait]
        exact ih hcalls
      · simp only [step, he, wait]
        obtain ⟨others, hserved, hrest⟩ := StableQueue.sorted_cons ranks hpending ((ih hcalls).symm.trans hq)
        have hr : r.priority ≠ .nan := hpending r ((queue_perm calls).mem_iff.mp (by rw [hq]; exact List.mem_cons_self))
        rw [hserved.erase ranks hr, hrest]

theorem none_iff (calls : List Call) : (after calls).nextJob.1 = none ↔ pending calls = [] := by
  rcases nextJob_cases (after calls) with ⟨hq, he⟩ | ⟨r, queue, hq, he⟩
  · have hnil := queue_perm calls
    rw [hq] at hnil
    simp [he, hnil.symm.eq_nil]
  · have hcons := queue_perm calls
    rw [hq] at hcons
    constructor
    · intro h
      rw [he] at h
      cases h
    · intro h
      rw [h] at hcons
      cases hcons.eq_nil

/-- In every run: nothing is lost, nothing returned twice, and `next_job` has no answer exactly when nothing waits; where
    no priority is NaN, it answers the first submitted of those of the highest priority. -/
theorem serves_fairly (calls : List Call) :
    (submitted calls).Perm (returned calls ++ pending calls) ∧ ((after calls).nextJob.1 = none ↔ pending calls = []) ∧
      ((∀ r ∈ submitted calls, r.priority ≠ .nan) → Fair calls) := by
  refine ⟨kept_after calls, none_iff calls, fun h => ⟨kept_after calls, none_iff calls, ?_⟩⟩
  intro r hr
  have hpending : ∀ r ∈ pending calls, r.priority ≠ .nan :=
    fun r hr => h r ((kept_after calls).mem_iff.mpr (List.mem_append_right _ hr))
  rcases nextJob_cases (after calls) with ⟨-, he⟩ | ⟨r', queue, hq, he⟩
  · rw [he] at hr
    cases hr
  · rw [he] at hr
    obtain rfl := Option.some.inj hr
    obtain ⟨others, hserved, -⟩ := StableQueue.sorted_cons ranks hpending ((queue_sorted h).symm.trans hq)
    exact ⟨others, hserved⟩

/-- Two of one priority, and one of a higher. -/
theorem serves_fairly_ties :
    Fair [.submit ⟨"a", 1, .finite 1⟩, .submit ⟨"b", 1, .finite 2⟩, .submit ⟨"c", 1, .finite 2⟩, .nextJob] :=
  (serves_fairly _).2.2 (by decide +kernel)

/-- Three requests, the second of them without a priority to compare. -/
def incomparable : List TrainingRequest := [⟨"a", 1, .finite 1⟩, ⟨"b", 1, .nan⟩, ⟨"c", 1, .finite 2⟩]

/-- The first is served, though the third has a higher priority. -/
theorem nan_hides_priority : ¬∀ calls, Fair calls := by
  intro h
  obtain ⟨others, before, rest, hsplit, -, hbefore, hrest⟩ :=
    (h (incomparable.map .submit)).first ⟨"a", 1, .finite 1⟩ (by decide +kernel)
  have hpending : pending (incomparable.map .submit) = incomparable := by decide +kernel
  rw [hpending] at hsplit
  cases before with
  | nil =>
    obtain ⟨-, rfl⟩ := List.cons.inj hsplit
    exact absurd (hrest ⟨"c", 1, .finite 2⟩ (by decide)) (by decide +kernel)
  | cons b before =>
    obtain ⟨rfl, -⟩ := List.cons.inj hsplit
    exact absurd (hbefore _ List.mem_cons_self) (by decide +kernel)

end ComputeScheduler

end PyxelVM.Network
