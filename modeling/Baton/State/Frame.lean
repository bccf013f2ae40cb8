/-
# State.Frame — what a record does beside the ledger

The ledger says what a record means.  `Frame` says what it does to the rest: the
clocks, the options and the mode stay; the garbage-collection queues grow at their ends;
and a job that is ready has been made so by the clock, never in replay.
-/
import Baton.State.Ledger

namespace Baton

open Theory

set_option autoImplicit false

/-- The jobs a record is about. -/
def Record.touches : Record → List Nat
  | .jobEnqueued r => [r.id]
  | .jobLeased r => [r.id]
  | .leaseExtended r => [r.id]
  | .jobSucceeded r => [r.id]
  | .attemptFailed r => [r.id]
  | .jobCancelled r => [r.id]
  | .deadJobRetried r => [r.id]
  | .jobsPurged r => r.ids

/-- The references a record leaves for the collection of finished jobs. -/
def Record.finishes : Record → List FinishedRef
  | .jobSucceeded r => [⟨r.id, r.at_⟩]
  | .jobCancelled r => [⟨r.id, r.at_⟩]
  | _ => []

/-- The references a record leaves for the collection of dead jobs. -/
def Record.deaths : Record → List FinishedRef
  | .attemptFailed r => if r.dead then [⟨r.id, r.at_⟩] else []
  | _ => []

namespace State

/-- The idempotency list as an image has it. -/
def idemImages (s : State) : List IdemImage := s.idemOrder.map fun node => idemImage node.entry

/-- A job whose state follows the clock: it waits, or its time has come. -/
def Timely (s : State) (job : Job) : Prop :=
  (job.state = .kReady → s.replaying = false ∧ job.runAt ≤ s.wallNow) ∧
    (job.state = .kScheduled → s.replaying = true ∨ s.wallNow < job.runAt)

structure Frame (s : State) (r : Record) (s' : State) : Prop extends SameSetting s s' where
  finishedGc : s'.finishedGc = s.finishedGc ++ r.finishes
  deadGc : s'.deadGc = s.deadGc ++ r.deaths
  others : ∀ j, j ∉ r.touches → s'.findJob j = s.findJob j
  jobs : ∀ j job, s'.findJob j = some job → s.findJob j = some job ∨ s.Timely job

section Frames

variable {s s' t : State} {away : Nat → Prop} {id : Nat} {job : Job}

theorem timely_pendingJob (s : State) (job : Job) : s.Timely (s.pendingJob job) := by
  unfold Timely pendingJob pendingState
  split
  · rename_i waits
    refine ⟨?_, fun _ => waits⟩
    intro ready
    cases ready
  · rename_i due
    rw [not_or, Bool.not_eq_true, Int.not_lt] at due
    refine ⟨fun _ => due, ?_⟩
    intro scheduled
    cases scheduled

/-- A job that is neither ready nor scheduled. -/
theorem timely_of_ne (ready : job.state ≠ .kReady) (scheduled : job.state ≠ .kScheduled) :
    s.Timely job := ⟨fun is_ready => absurd is_ready ready, fun waits => absurd waits scheduled⟩

/-- What no record changes, with the jobs. -/
def still (s : State) : StateOptions × Platform × Int × Nat × Bool × (Nat → Option Job) :=
  (s.options, s.platform, s.wallNow, s.monoNow, s.replaying, s.findJob)

/-- A record that moves one job: what is done before the move concerns the queues only,
what is done after it the lists. -/
theorem Moved.frame {base u : State} {r : Record} {heap dead : Bool} {kind : Option Nat}
    (moved : Moved base t id job heap kind dead) (touches : r.touches = [id])
    (timely : s.Timely job) (first : base.still = s.still)
    (lists : (base.finishedGc, base.deadGc) = (s.finishedGc, s.deadGc)) (last : u.still = t.still)
    (finishedGc : u.finishedGc = t.finishedGc ++ r.finishes) (deadGc : u.deadGc = t.deadGc ++ r.deaths) :
    Frame s r u := by
  have kept := moved.kept
  simp only [still, Prod.mk.injEq] at first lists last
  obtain ⟨options, platform, wallNow, monoNow, replaying, jobs⟩ := first
  obtain ⟨finished, died⟩ := lists
  obtain ⟨options', platform', wallNow', monoNow', replaying', jobs'⟩ := last
  have update : u.findJob = Function.update base.findJob id (some job) := jobs'.trans moved.jobs
  have before : SameSetting s base := ⟨options, platform, wallNow, monoNow, replaying⟩
  have after : SameSetting t u := ⟨options', platform', wallNow', monoNow', replaying'⟩
  refine ⟨(before.trans kept.toSameSetting).trans after, ?_, ?_, ?_, ?_⟩
  · rw [finishedGc, kept.finishedGc, finished]
  · rw [deadGc, kept.deadGc, died]
  · intro j other
    rw [touches] at other
    rw [update, Function.update_of_ne (by simpa using other), jobs]
  · intro j job' found
    rw [update, Function.update_apply] at found
    split at found
    · cases found
      exact Or.inr timely
    · exact Or.inl (jobs ▸ found)

theorem apply_frame {r : Record} (inv : StateInv s away) (applied : s.apply r = .ok (some s')) :
    Frame s r s' := by
  have nothing {refs : List FinishedRef} : refs = refs ++ [] := (List.append_nil refs).symm
  cases r with
  | jobEnqueued r =>
    obtain ⟨-, -, -, t, placed, result⟩ := applyJobEnqueued_spec inv applied
    have timely := timely_pendingJob s (newJob s.platform r)
    rw [result]
    by_cases keyless : r.idemKey.isEmpty = true
    · rw [if_pos keyless]
      exact placed.frame rfl timely rfl rfl rfl nothing nothing
    · rw [if_neg keyless]
      obtain ⟨-, memory, keyed⟩ := placed.shape.upsertIdem r.idemKey r.id r.idemExpiresAt
      rw [keyed]
      exact placed.frame rfl timely rfl rfl rfl nothing nothing
  | jobLeased r =>
    obtain ⟨job, t, -, -, -, -, placed, result⟩ := applyJobLeased_spec inv applied
    rw [result]
    exact placed.frame rfl (timely_of_ne (by simp [leasedJob]) (by simp [leasedJob])) rfl rfl rfl
      nothing nothing
  | leaseExtended r =>
    obtain ⟨job, found, leased, -, placed⟩ := applyLeaseExtended_spec inv applied
    exact placed.frame rfl (timely_of_ne (by simp [leased]) (by simp [leased])) rfl rfl rfl
      nothing nothing
  | jobSucceeded r =>
    obtain ⟨job, t, -, -, -, placed, result⟩ := applyJobSucceeded_spec inv applied
    rw [result]
    exact placed.frame rfl (timely_of_ne (by simp [finishedJob]) (by simp [finishedJob])) rfl rfl rfl
      rfl nothing
  | attemptFailed r =>
    obtain ⟨job, t, -, -, -, outcome⟩ := applyAttemptFailed_spec inv applied
    by_cases dies : r.dead = true
    · rw [if_pos dies] at outcome
      obtain ⟨placed, result⟩ := outcome
      rw [result]
      refine placed.frame rfl (timely_of_ne (by simp [finishedJob]) (by simp [finishedJob])) rfl rfl rfl
        nothing ?_
      exact congrArg (t.deadGc ++ ·) (if_pos dies).symm
    · rw [if_neg dies] at outcome
      obtain ⟨placed, result⟩ := outcome
      rw [result]
      refine placed.frame rfl (timely_pendingJob s _) rfl rfl rfl nothing ?_
      exact nothing.trans (congrArg (t.deadGc ++ ·) (if_neg dies).symm)
  | jobCancelled r =>
    obtain ⟨job, t, -, -, placed, result⟩ := applyJobCancelled_spec inv applied
    rw [result]
    exact placed.frame rfl (timely_of_ne (by simp [finishedJob]) (by simp [finishedJob])) rfl rfl rfl
      rfl nothing
  | deadJobRetried r =>
    obtain ⟨job, -, -, placed⟩ := applyDeadJobRetried_spec inv applied
    exact placed.frame rfl (timely_pendingJob s _) rfl rfl rfl nothing nothing
  | jobsPurged r =>
    obtain ⟨-, -, kept, jobs⟩ := applyJobsPurged_spec inv applied
    refine ⟨kept.toSameSetting, kept.finishedGc.trans nothing, kept.deadGc.trans nothing, ?_, ?_⟩
    · intro j other
      exact (jobs j).trans (if_neg other)
    · intro j job found
      rw [jobs] at found
      split at found
      · cases found
      · exact Or.inl found

/-- In replay no job becomes ready. -/
theorem Frame.unready {r : Record} (frame : Frame s r s') (replaying : s.replaying = true)
    (unready : s.Unready) : s'.Unready := by
  intro j job found ready
  rcases frame.jobs j job found with old | timely
  · exact unready j job old ready
  · have live := (timely.1 ready).1
    rw [replaying] at live
    cases live

end Frames

end State

end Baton
