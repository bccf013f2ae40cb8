/-
# State.InPlace — `apply` as the statements the source runs

`State.apply` returns the next state and so cannot say what a refused record leaves
behind.  Here the same functions are sequences of statements on one state: an early
return keeps whatever the statements before it wrote, and a failed `BATON_CHECK` ends
the run.  `InPlace.apply_eq` says that the two agree: every handler completes its checks
before its first write, so that after an error the state is the one it was given.
-/
import Baton.State.State

namespace Baton

open Theory

set_option autoImplicit false

namespace State

/-- Statements on a state: `none` when a `BATON_CHECK` fails, otherwise what is returned
and the state at that point. -/
def InPlace (α : Type) : Type := State → Option (Result α × State)

namespace InPlace

variable {α β : Type}

/-- What follows a statement: nothing after a failed check or a return. -/
def andThen (f : α → InPlace β) : Option (Result α × State) → Option (Result β × State)
  | none => none
  | some (.error e, s) => some (.error e, s)
  | some (.ok a, s) => f a s

instance : Monad InPlace where
  pure a := fun s => some (.ok a, s)
  bind x f := fun s => andThen f (x s)

/-- The state the statement reads. -/
def read : InPlace State := fun s => some (.ok s, s)

/-- `return error` before the end. -/
def fail (e : Error) : InPlace α := fun s => some (.error e, s)

/-- A write. -/
def write (f : State → State) : InPlace Unit := fun s => some (.ok (), f s)

/-- A call that writes, and that may fail a `BATON_CHECK`. -/
def call (f : State → Option State) : InPlace Unit := fun s => (f s).map fun s' => (.ok (), s')

section Run

variable (s : State)

@[simp] theorem read_bind (f : State → InPlace β) : (read >>= f) s = f s s := rfl

@[simp] theorem write_bind (f : State → State) (g : Unit → InPlace β) : (write f >>= g) s = g () (f s) :=
  rfl

@[simp] theorem call_run (f : State → Option State) : call f s = (f s).map fun s' => (.ok (), s') := rfl

@[simp] theorem call_bind (f : State → Option State) (g : Unit → InPlace β) :
    (call f >>= g) s = (f s).bind (g ()) := by
  show andThen g (call f s) = _
  rw [call_run]
  cases f s <;> rfl

end Run

/-! ## The handlers -/

def applyJobEnqueued (r : JobEnqueued) : InPlace Unit := do
  let s ← read
  if r.id ≠ s.nextJobId then
    fail (mismatch s!"enqueue: record has job id {r.id}, expected {s.nextJobId}")
  else if r.queue.isEmpty then fail (mismatch "enqueue: empty queue name")
  else if r.maxAttempts = 0 then fail (mismatch "enqueue: max_attempts is 0")
  else do
    write (·.getOrCreateQueue r.queue)
    write fun s => { s with jobs := s.jobs.insert r.id (newJob s.platform r) }
    write (·.modifyQueue r.queue (Queue.incrCount .kScheduled))
    write fun s => { s with memoryBytes := s.memoryBytes + s.platform.jobBytes (newJob s.platform r) }
    call (·.enterPending r.id)
    if r.idemKey.isEmpty then pure () else write (·.upsertIdem r.idemKey r.id r.idemExpiresAt)
    write (·.addTotals r.queue fun t => { t with enqueued := t.enqueued + 1 })
    write fun s => { s with nextJobId := r.id + 1 }

def applyJobLeased (r : JobLeased) : InPlace Unit := do
  let s ← read
  match s.findJob r.id with
  | none => fail (mismatch s!"lease: job {r.id} does not exist")
  | some job =>
    if !job.state.isPending then fail (mismatch s!"lease: job {r.id} is {job.state.toString}")
    else if r.token ≠ s.nextToken then
      fail (mismatch s!"lease: record has token {r.token}, expected {s.nextToken}")
    else if job.maxAttempts ≤ job.attempts then
      fail (mismatch s!"lease: job {r.id} has no attempts left")
    else do
      call (·.leaveIndexes r.id)
      write (·.setState r.id .kLeased)
      write (·.modifyJob r.id fun job =>
        { job with
          attempts := job.attempts + 1
          leaseToken := r.token
          leaseExpiresAt := r.leaseExpiresAt })
      call (·.scheduleLeaseTimer r.id 0)
      write fun s => { s with nextToken := r.token + 1 }

/-- `BATON_ASSIGN_OR_RETURN(Job * job, require_leased(id, token, what))`. -/
def requireLeased (id token : Nat) (what : String) : InPlace Job := fun s =>
  some (s.requireLeased id token what, s)

def applyLeaseExtended (r : LeaseExtended) : InPlace Unit := do
  let _ ← requireLeased r.id r.token "heartbeat"
  call (·.leaveIndexes r.id)
  write (·.modifyJob r.id fun job => { job with leaseExpiresAt := r.leaseExpiresAt })
  call (·.scheduleLeaseTimer r.id 0)

def applyJobSucceeded (r : JobSucceeded) : InPlace Unit := do
  let job ← requireLeased r.id r.token "ack"
  call (·.finish r.id .kSucceeded r.at_)
  write (·.addTotals job.queue fun t => { t with succeeded := t.succeeded + 1 })

def applyAttemptFailed (r : AttemptFailed) : InPlace Unit := do
  let job ← requireLeased r.id r.token "fail"
  write (·.setLastError r.id r.error)
  write (·.addTotals job.queue fun t => { t with failedAttempts := t.failedAttempts + 1 })
  if r.dead then do
    call (·.finish r.id .kDead r.at_)
    write (·.addTotals job.queue fun t => { t with dead := t.dead + 1 })
  else do
    call (·.leaveIndexes r.id)
    write (·.modifyJob r.id fun job => { job with leaseToken := 0, runAt := r.retryAt })
    call (·.enterPending r.id)

def applyJobCancelled (r : JobCancelled) : InPlace Unit := do
  let s ← read
  match s.findJob r.id with
  | none => fail (mismatch s!"cancel: job {r.id} does not exist")
  | some job =>
    if job.state.isTerminal then
      fail (mismatch s!"cancel: job {r.id} is already {job.state.toString}")
    else do
      call (·.finish r.id .kCancelled r.at_)
      write (·.addTotals job.queue fun t => { t with cancelled := t.cancelled + 1 })

def applyDeadJobRetried (r : DeadJobRetried) : InPlace Unit := do
  let s ← read
  match s.findJob r.id with
  | none => fail (mismatch s!"dlq retry: job {r.id} does not exist")
  | some job =>
    if job.state ≠ .kDead then fail (mismatch s!"dlq retry: job {r.id} is {job.state.toString}")
    else do
      write (·.eraseDead job.queue r.id)
      write (·.modifyJob r.id fun job => { job with attempts := 0, finishedAt := 0, runAt := r.runAt })
      call (·.enterPending r.id)

/-- The first loop over the ids of a purge. -/
def checkPurge : List Nat → InPlace Unit
  | [] => pure ()
  | id :: ids => do
    let s ← read
    match s.findJob id with
    | none => fail (mismatch s!"purge: job {id} does not exist")
    | some job =>
      if !job.state.isTerminal then fail (mismatch s!"purge: job {id} is {job.state.toString}")
      else checkPurge ids

/-- The second loop, which erases. -/
def purge : List Nat → InPlace Unit
  | [] => pure ()
  | id :: ids => do
    let s ← read
    if (s.findJob id).isSome then do
      call (·.eraseJob id)
      purge ids
    else purge ids

def applyJobsPurged (r : JobsPurged) : InPlace Unit := do
  checkPurge r.ids
  purge r.ids

def apply : Record → InPlace Unit
  | .jobEnqueued r => applyJobEnqueued r
  | .jobLeased r => applyJobLeased r
  | .leaseExtended r => applyLeaseExtended r
  | .jobSucceeded r => applyJobSucceeded r
  | .attemptFailed r => applyAttemptFailed r
  | .jobCancelled r => applyJobCancelled r
  | .deadJobRetried r => applyDeadJobRetried r
  | .jobsPurged r => applyJobsPurged r

/-! ## The two readings agree -/

/-- What a caller of `State.apply` on `s` goes on with. -/
def outcome (s : State) : Result (Option State) → Option (Result Unit × State)
  | .error e => some (.error e, s)
  | .ok next => next.map fun s' => (.ok (), s')

section Agree

variable (s : State)

theorem applyJobEnqueued_eq (r : JobEnqueued) :
    applyJobEnqueued r s = outcome s (s.applyJobEnqueued r) := by
  unfold applyJobEnqueued State.applyJobEnqueued
  rw [read_bind]
  by_cases id : r.id ≠ s.nextJobId
  · rw [if_pos id, if_pos id]
    rfl
  rw [if_neg id, if_neg id]
  by_cases queue : r.queue.isEmpty
  · rw [if_pos queue, if_pos queue]
    rfl
  rw [if_neg queue, if_neg queue]
  by_cases budget : r.maxAttempts = 0
  · rw [if_pos budget, if_pos budget]
    rfl
  rw [if_neg budget, if_neg budget]
  show (call (·.enterPending r.id) >>= _) (s.enqueueJob r) = _
  rw [call_bind]
  cases (s.enqueueJob r).enterPending r.id with
  | none => rfl
  | some next => cases r.idemKey.isEmpty <;> rfl

theorem applyJobLeased_eq (r : JobLeased) : applyJobLeased r s = outcome s (s.applyJobLeased r) := by
  unfold applyJobLeased State.applyJobLeased
  rw [read_bind]
  cases s.findJob r.id with
  | none => rfl
  | some job =>
    dsimp only
    by_cases pending : (!job.state.isPending) = true
    · rw [if_pos pending, if_pos pending]
      rfl
    rw [if_neg pending, if_neg pending]
    by_cases token : r.token ≠ s.nextToken
    · rw [if_pos token, if_pos token]
      rfl
    rw [if_neg token, if_neg token]
    by_cases budget : job.maxAttempts ≤ job.attempts
    · rw [if_pos budget, if_pos budget]
      rfl
    rw [if_neg budget, if_neg budget, call_bind]
    cases s.leaveIndexes r.id with
    | none => rfl
    | some next =>
      show (call (·.scheduleLeaseTimer r.id 0) >>= _) _ = _
      rw [call_bind]
      dsimp only [outcome, Option.bind_eq_bind, Option.bind_some]
      cases State.scheduleLeaseTimer _ r.id 0 <;> rfl

theorem requireLeased_bind (id token : Nat) (what : String) (f : Job → InPlace β) :
    (requireLeased id token what >>= f) s =
      match s.requireLeased id token what with
      | .error e => some (.error e, s)
      | .ok job => f job s := by
  show andThen f (some (s.requireLeased id token what, s)) = _
  cases s.requireLeased id token what <;> rfl

theorem applyLeaseExtended_eq (r : LeaseExtended) :
    applyLeaseExtended r s = outcome s (s.applyLeaseExtended r) := by
  unfold applyLeaseExtended State.applyLeaseExtended
  rw [requireLeased_bind]
  cases s.requireLeased r.id r.token "heartbeat" with
  | error e => rfl
  | ok job =>
    rw [call_bind]
    cases s.leaveIndexes r.id <;> rfl

theorem applyJobSucceeded_eq (r : JobSucceeded) :
    applyJobSucceeded r s = outcome s (s.applyJobSucceeded r) := by
  unfold applyJobSucceeded State.applyJobSucceeded
  rw [requireLeased_bind]
  cases s.requireLeased r.id r.token "ack" with
  | error e => rfl
  | ok job =>
    dsimp only
    rw [call_bind]
    cases s.finish r.id .kSucceeded r.at_ <;> rfl

theorem applyAttemptFailed_eq (r : AttemptFailed) :
    applyAttemptFailed r s = outcome s (s.applyAttemptFailed r) := by
  unfold applyAttemptFailed State.applyAttemptFailed
  rw [requireLeased_bind]
  cases s.requireLeased r.id r.token "fail" with
  | error e => rfl
  | ok job =>
    dsimp only
    rw [write_bind, write_bind]
    cases r.dead with
    | true =>
      rw [if_pos rfl, if_pos rfl, call_bind]
      cases State.finish _ r.id .kDead r.at_ <;> rfl
    | false =>
      rw [if_neg Bool.false_ne_true, if_neg Bool.false_ne_true, call_bind]
      cases State.leaveIndexes _ r.id <;> rfl

theorem applyJobCancelled_eq (r : JobCancelled) :
    applyJobCancelled r s = outcome s (s.applyJobCancelled r) := by
  unfold applyJobCancelled State.applyJobCancelled
  rw [read_bind]
  cases s.findJob r.id with
  | none => rfl
  | some job =>
    dsimp only
    by_cases terminal : job.state.isTerminal = true
    · rw [if_pos terminal, if_pos terminal]
      rfl
    rw [if_neg terminal, if_neg terminal, call_bind]
    cases s.finish r.id .kCancelled r.at_ <;> rfl

theorem applyDeadJobRetried_eq (r : DeadJobRetried) :
    applyDeadJobRetried r s = outcome s (s.applyDeadJobRetried r) := by
  unfold applyDeadJobRetried State.applyDeadJobRetried
  rw [read_bind]
  cases s.findJob r.id with
  | none => rfl
  | some job =>
    dsimp only
    by_cases live : job.state ≠ .kDead
    · rw [if_pos live, if_pos live]
      rfl
    rw [if_neg live, if_neg live]
    rfl

/-- The first loop reads: it returns the check's result and the state it was given. -/
theorem checkPurge_eq (ids : List Nat) : checkPurge ids s = some (s.checkPurge ids, s) := by
  induction ids with
  | nil => rfl
  | cons id ids ih =>
    rw [checkPurge, State.checkPurge, read_bind]
    cases s.findJob id with
    | none => rfl
    | some job =>
      dsimp only
      split
      · rfl
      · exact ih

theorem purge_eq (ids : List Nat) : ∀ s : State,
    purge ids s = (State.purge ids s).map fun s' => (.ok (), s') := by
  induction ids with
  | nil => exact fun _ => rfl
  | cons id ids ih =>
    intro s
    rw [purge, State.purge, read_bind]
    split
    · rw [call_bind]
      cases s.eraseJob id with
      | none => rfl
      | some next => exact ih next
    · exact ih s

theorem applyJobsPurged_eq (r : JobsPurged) : applyJobsPurged r s = outcome s (s.applyJobsPurged r) := by
  unfold applyJobsPurged State.applyJobsPurged
  show andThen (fun _ => purge r.ids) (checkPurge r.ids s) = _
  rw [checkPurge_eq]
  cases s.checkPurge r.ids with
  | error e => rfl
  | ok => exact purge_eq r.ids s

/-- The statements do what `State.apply` says, and a refused record leaves the state it
was given. -/
theorem apply_eq (r : Record) : apply r s = outcome s (s.apply r) := by
  cases r with
  | jobEnqueued r => exact applyJobEnqueued_eq s r
  | jobLeased r => exact applyJobLeased_eq s r
  | leaseExtended r => exact applyLeaseExtended_eq s r
  | jobSucceeded r => exact applyJobSucceeded_eq s r
  | attemptFailed r => exact applyAttemptFailed_eq s r
  | jobCancelled r => exact applyJobCancelled_eq s r
  | deadJobRetried r => exact applyDeadJobRetried_eq s r
  | jobsPurged r => exact applyJobsPurged_eq s r

end Agree

end InPlace

end State

end Baton
