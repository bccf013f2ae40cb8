/-
# State.CheckInvariants — the structural check

`State::check_invariants`.  One loop over the jobs checks each of them and recounts
what the indexes hold; then the queues and the idempotency list are checked against
the recount.
-/
import Baton.State.State
import Mathlib.Data.Finset.Card

namespace Baton

open Theory Function

set_option autoImplicit false

def broken (what : String) : Error := ⟨.kInternal, "invariant violated: " ++ what⟩

/-- What the loop over the jobs counts. -/
structure Recount where
  counts : Bytes → JobState → Nat := fun _ _ => 0
  memory : Nat := 0
  timers : Nat := 0

namespace State

/-- `ReadyHeap::is_consistent` at one position. -/
def isConsistentAt (s : State) (ready : List Nat) (i : Nat) : Bool :=
  match ready[i]? with
  | none => true
  | some id =>
    s.heapIndex id = some i &&
      match ready[IndexedHeap.parent i]? with
      | none => true
      | some parent => !(decide (0 < i) && s.before id parent)

def isConsistent (s : State) (ready : List Nat) : Bool :=
  (List.range ready.length).all (s.isConsistentAt ready)

def checkJob (s : State) (id : Nat) (job : Job) : Result Unit :=
  if id ≠ job.id then .error (broken s!"job {job.id} is stored under id {id}")
  else if s.nextJobId ≤ id then .error (broken s!"job {id} >= next_job_id")
  else
    match s.findQueue job.queue with
    | none => .error (broken s!"job {id} has a dangling queue")
    | some queue =>
      let inHeap := (s.heapIndex id).isSome
      let inDead : Bool := id ∈ queue.dead
      let expectTimer : Bool := !s.replaying ∧ (job.state = .kScheduled ∨ job.state = .kLeased)
      if job.maxAttempts < job.attempts then .error (broken s!"job {id} over-attempted")
      else if inHeap ≠ decide (job.state = .kReady) then
        .error (broken s!"job {id} is {job.state.toString} but heap membership is {inHeap}")
      else if inHeap ∧ (s.heapIndex id).bind (queue.ready[·]?) ≠ some id then
        .error (broken s!"job {id} has a wrong heap index")
      else if (s.timer id).isSome ≠ expectTimer then
        .error (broken s!"job {id} is {job.state.toString} but timer presence is {(s.timer id).isSome}")
      else if inDead ≠ decide (job.state = .kDead) then
        .error (broken s!"job {id} is {job.state.toString} but DLQ membership is {inDead}")
      else if job.state.holdsToken ≠ decide (job.leaseToken ≠ 0) then
        .error (broken s!"job {id} is {job.state.toString} with lease token {job.leaseToken}")
      else if s.nextToken ≤ job.leaseToken then .error (broken s!"job {id} token too high")
      else if job.state = .kLeased ∧ job.attempts = 0 then
        .error (broken s!"job {id} is leased with zero attempts")
      else .ok ()

def recountJob (s : State) (recount : Recount) (id : Nat) (job : Job) : Recount where
  counts := update recount.counts job.queue
    (update (recount.counts job.queue) job.state
      (recount.counts job.queue job.state + 1))
  memory := recount.memory + s.platform.jobBytes job
  timers := if (s.timer id).isSome then recount.timers + 1 else recount.timers

def checkJobs (s : State) : List ((_ : Nat) × Job) → Recount → Result Recount
  | [], recount => .ok recount
  | ⟨id, job⟩ :: rest, recount =>
    match s.checkJob id job with
    | .error e => .error e
    | .ok () => checkJobs s rest (s.recountJob recount id job)

def bytesText (b : Bytes) : String := String.ofList (b.map fun c => Char.ofNat c.toNat)

def checkQueue (s : State) (recount : Recount) (name : Bytes) (queue : Queue) : Result Unit :=
  if name ≠ queue.name then .error (broken "queue stored under the wrong name")
  else if !s.isConsistent queue.ready then
    .error (broken s!"heap of {bytesText name} is broken")
  else if JobState.all.map (recount.counts name) ≠ JobState.all.map queue.counts then
    .error (broken s!"counts of queue {bytesText name} are off")
  else if queue.ready.length ≠ queue.counts .kReady then
    .error (broken s!"queue {bytesText name} heap size != ready count")
  else if queue.dead.card ≠ queue.counts .kDead then
    .error (broken s!"queue {bytesText name} DLQ size != dead count")
  else .ok ()

def checkQueues (s : State) (recount : Recount) : List ((_ : Bytes) × Queue) → Result Unit
  | [] => .ok ()
  | ⟨name, queue⟩ :: rest =>
    match s.checkQueue recount name queue with
    | .error e => .error e
    | .ok () => checkQueues s recount rest

def checkIdem (s : State) : List IdemNode → Nat → Result Nat
  | [], memory => .ok memory
  | n :: rest, memory =>
    if s.idemIndex.lookup n.entry.key.bytes ≠ some n.node then
      .error (broken s!"idempotency key {bytesText n.entry.key.bytes} is not indexed")
    else checkIdem s rest (memory + s.platform.idemBytes n.entry)

def checkInvariants (s : State) : Result Unit :=
  match s.checkJobs s.jobs.entries {} with
  | .error e => .error e
  | .ok recount =>
    if recount.timers ≠ s.wheel.size then
      .error (broken s!"{recount.timers} jobs hold timers but the wheel has {s.wheel.size}")
    else
      match s.checkQueues recount s.queues.entries with
      | .error e => .error e
      | .ok () =>
        if s.idemIndex.entries.length ≠ s.idemOrder.length then
          .error (broken "idempotency index size mismatch")
        else
          match s.checkIdem s.idemOrder recount.memory with
          | .error e => .error e
          | .ok memory =>
            if memory ≠ s.memoryBytes then
              .error (broken s!"memory estimate {s.memoryBytes} != recomputed {memory}")
            else .ok ()

end State

end Baton
