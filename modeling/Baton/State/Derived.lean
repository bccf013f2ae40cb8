/-
# State.Derived — replay, timers and garbage collection

The rest of `state/state.cpp` that changes the state: `rebuild_derived`, which makes
everything derived from the durable state and the current time, `advance_timers`
and `collect_garbage`.

The source walks the job table in the order of a hash map, which nothing
specifies.  `IterationOrder` stands for that order: it may list the keys in any
way, and a result holds for every one.
-/
import Baton.State.State
import Mathlib.Data.List.Sort

namespace Baton

open Theory Function

set_option autoImplicit false

/-- An order in which a hash map lists its keys. -/
structure IterationOrder where
  order : List Nat → List Nat
  perm : ∀ keys, (order keys).Perm keys

namespace IterationOrder

def asListed : IterationOrder := ⟨id, fun _ => List.Perm.refl _⟩

end IterationOrder

namespace State

def beginReplay (s : State) : State := { s with replaying := true }

/-! ## Rebuilding -/

def resetDerived (s : State) : State :=
  { s with
    wheel := { now := s.monoNow }
    finishedGc := []
    deadGc := []
    readyNotifications := []
    memoryBytes := 0
    queues := Table.mapValues (fun q => { q with ready := [], dead := ∅, counts := fun _ => 0 })
      s.queues }

/-- The body of the loop over the jobs. -/
def rebuildJob (leaseGraceMs : Int) (s : State) (id : Nat) : Option State :=
  match s.findJob id with
  | none => none
  | some job =>
    let s :=
      { s with
        heapIndex := update s.heapIndex id none
        timer := update s.timer id none
        memoryBytes := s.memoryBytes + s.platform.jobBytes job }
    let s := s.modifyQueue job.queue (Queue.incrCount job.state)
    if job.state.isPending then s.enterPending id
    else if job.state = .kLeased then s.scheduleLeaseTimer id leaseGraceMs
    else if job.state = .kDead then
      let s := s.insertDead job.queue id
      some { s with deadGc := s.deadGc ++ [⟨id, job.finishedAt⟩] }
    else some { s with finishedGc := s.finishedGc ++ [⟨id, job.finishedAt⟩] }

def rebuildJobs (leaseGraceMs : Int) : List Nat → State → Option State
  | [], s => some s
  | id :: ids, s => (s.rebuildJob leaseGraceMs id).bind (rebuildJobs leaseGraceMs ids)

/-- `std::ranges::sort(refs, {}, &FinishedRef::finished_at)`. -/
def sortRefs (refs : List FinishedRef) : List FinishedRef :=
  refs.insertionSort fun a b => a.finishedAt ≤ b.finishedAt

def idemMemory (s : State) : Nat := (s.idemOrder.map fun n => s.platform.idemBytes n.entry).sum

def rebuildDerived (s : State) (iteration : IterationOrder) (leaseGraceMs : Int) : Option State :=
  if s.replaying then none
  else
    (rebuildJobs leaseGraceMs (iteration.order s.jobs.keys) s.resetDerived).map fun s =>
      { s with
        finishedGc := sortRefs s.finishedGc
        deadGc := sortRefs s.deadGc
        memoryBytes := s.memoryBytes + s.idemMemory }

/-! ## Timers -/

/-- What a fired timer leads to: the job becomes ready, the timer is armed again
because the wall clock is behind, or the lease is reported as expired. -/
def handleEvent (s : State) (expired : List Nat) (event : TimerEvent) : Option (State × List Nat) :=
  match s.findJob event.id with
  | none => some (s, expired)
  | some job =>
    if s.timer event.id ≠ some event.handle then some (s, expired)
    else
      let s := { s with timer := update s.timer event.id none }
      if event.kind = kJobDue ∧ job.state = .kScheduled then
        if s.wallNow < job.runAt then
          (s.armTimer (s.monoDeadline job.runAt) kJobDue event.id).map (·, expired)
        else (s.enterPending event.id).map (·, expired)
      else if event.kind = kLeaseExpiry ∧ job.state = .kLeased then
        if s.wallNow < job.leaseExpiresAt then
          (s.armTimer (s.monoDeadline job.leaseExpiresAt) kLeaseExpiry event.id).map (·, expired)
        else some (s, expired ++ [event.id])
      else some (s, expired)

def handleEvents : List TimerEvent → State → List Nat → Option (State × List Nat)
  | [], s, expired => some (s, expired)
  | event :: events, s, expired =>
    (s.handleEvent expired event).bind fun r => handleEvents events r.1 r.2

def advanceTimers (s : State) : Option (State × List Nat) :=
  let (wheel, fired) := s.wheel.advance s.monoNow []
  handleEvents fired { s with wheel } []

/-! ## Garbage collection -/

/-- One reference past its retention: the job goes unless the reference is stale. -/
def collectRef (s : State) (dead : Bool) (ref : FinishedRef) : Option State :=
  match s.findJob ref.id with
  | none => some s
  | some job =>
    if job.finishedAt ≠ ref.finishedAt then some s
    else if (if dead then job.state ≠ .kDead else !job.state.isTerminal) then some s
    else s.eraseJob ref.id

def collect (retention : Int) (dead : Bool) :
    List FinishedRef → State → Option (List FinishedRef × State)
  | [], s => some ([], s)
  | ref :: refs, s =>
    if ref.finishedAt + retention ≤ s.wallNow then
      (s.collectRef dead ref).bind (collect retention dead refs)
    else some (ref :: refs, s)

/-- `while (!idem_order_.empty() && front().expires_at <= wall_now_) erase_idem_front()`. -/
def collectIdem : Nat → State → State
  | 0, s => s
  | fuel + 1, s =>
    match s.idemOrder with
    | [] => s
    | front :: _ => if front.entry.expiresAt ≤ s.wallNow then collectIdem fuel s.eraseIdemFront else s

def collectGarbage (s : State) : Option State :=
  if s.replaying then none
  else do
    let (refs, s) ← collect s.options.retainFinishedMs false s.finishedGc s
    let s := { s with finishedGc := refs }
    let (refs, s) ← collect s.options.retainDeadMs true s.deadGc s
    let s := { s with deadGc := refs }
    some (collectIdem s.idemOrder.length s)

def endReplay (s : State) (iteration : IterationOrder) (leaseGraceMs : Int) : Option State :=
  ({ s with replaying := false }.rebuildDerived iteration leaseGraceMs).bind collectGarbage

end State

end Baton
