/-
# State.State — every job, queue and index, mutated only by `apply`

`state/state.{h,cpp}`: the state, the helpers that keep the indexes in step, and
`apply`.  The source splits what it holds into durable state, a function of the
records applied so far, and derived state, which depends on the clock or exists
only for speed.

The job table and the queues are finite maps; `Job*` is the id and `Queue*` the
name.  `std::list` iterators of the idempotency list are node numbers.  The heap
index and the timer handle of a job are kept beside the table: `heapIndex` and
`timer` are `none` where the source has `kNotInHeap` and an invalid handle.

A mutation is `none` where a `BATON_CHECK` fails.  Counters do not wrap around.
-/
import Baton.State.Records
import Baton.Theory.IndexedHeap
import Baton.Theory.Table
import Mathlib.Data.Finset.Basic

namespace Baton

open Theory Function

set_option autoImplicit false

structure QueueTotals where
  enqueued : Nat := 0
  succeeded : Nat := 0
  failedAttempts : Nat := 0
  dead : Nat := 0
  cancelled : Nat := 0
  deriving DecidableEq, Repr

structure Queue where
  name : Bytes
  totals : QueueTotals := {}
  ready : List Nat := []
  dead : Finset Nat := ∅
  counts : JobState → Nat := fun _ => 0

structure StateOptions where
  retainFinishedMs : Int := 10 * 60 * 1000
  retainDeadMs : Int := 7 * 24 * 60 * 60 * 1000

structure FinishedRef where
  id : Nat
  finishedAt : Int
  deriving DecidableEq, Repr

/-- A node of the idempotency list. -/
structure IdemNode where
  node : Nat
  entry : IdemEntry
  deriving DecidableEq, Repr

structure State where
  options : StateOptions
  platform : Platform
  wallNow : Int := 0
  monoNow : Nat := 0
  replaying : Bool := false
  jobs : Table Nat Job := ∅
  queues : Table Bytes Queue := ∅
  nextJobId : Nat := 1
  nextToken : Nat := 1
  idemOrder : List IdemNode := []
  idemIndex : Table Bytes Nat := ∅
  nextNode : Nat := 0
  wheel : TimingWheel := { now := 0 }
  heapIndex : Nat → Option Nat := fun _ => none
  timer : Nat → Option TimerHandle := fun _ => none
  finishedGc : List FinishedRef := []
  deadGc : List FinishedRef := []
  readyNotifications : List Bytes := []
  memoryBytes : Nat := 0

/-- Timer kinds, as stored in the timing wheel. -/
def kJobDue : Nat := 1
def kLeaseExpiry : Nat := 2

def kNotInHeap : Nat := 2 ^ 32 - 1

def mismatch (what : String) : Error := ⟨.kFailedPrecondition, what⟩

namespace Queue

/-- `++counts[state]`. -/
def incrCount (state : JobState) (q : Queue) : Queue :=
  { q with counts := update q.counts state (q.counts state + 1) }

/-- `--counts[state]`. -/
def decrCount (state : JobState) (q : Queue) : Queue :=
  { q with counts := update q.counts state (q.counts state - 1) }

end Queue

namespace State

/-! ## Helpers -/

def setNow (s : State) (wall : Int) (mono : Nat) : State :=
  { s with wallNow := wall, monoNow := mono }

def findJob (s : State) (id : Nat) : Option Job := s.jobs.lookup id
def findQueue (s : State) (name : Bytes) : Option Queue := s.queues.lookup name

/-- What a mutation through `Job&` leaves in the table. -/
def modifyJob (s : State) (id : Nat) (f : Job → Job) : State :=
  { s with jobs := Table.modify id f s.jobs }

/-- What a mutation through `Queue*` leaves in the map. -/
def modifyQueue (s : State) (name : Bytes) (f : Queue → Queue) : State :=
  { s with queues := Table.modify name f s.queues }

def getOrCreateQueue (s : State) (name : Bytes) : State :=
  { s with
    queues := if (s.findQueue name).isSome then s.queues else s.queues.insert name { name } }

def findIdem (s : State) (key : Bytes) : Option IdemEntry :=
  match s.idemIndex.lookup key with
  | none => none
  | some node => (s.idemOrder.find? (·.node = node)).map IdemNode.entry

def requireLeased (s : State) (id token : Nat) (what : String) : Result Job :=
  match s.findJob id with
  | none => .error (mismatch s!"{what}: job {id} does not exist")
  | some job =>
    if job.state ≠ .kLeased ∨ job.leaseToken ≠ token then
      .error (mismatch (s!"{what}: job {id} is {job.state.toString} with token " ++
        s!"{job.leaseToken}, record has token {token}"))
    else .ok job

def setState (s : State) (id : Nat) (state : JobState) : State :=
  match s.findJob id with
  | none => s
  | some job =>
    (s.modifyQueue job.queue fun q => (q.decrCount job.state).incrCount state).modifyJob id
      fun job => { job with state }

def monoDeadline (s : State) (wallDeadline : Int) : Nat :=
  let delay := max 0 (wallDeadline - s.wallNow)
  s.monoNow + delay.toNat

def notifyReady (s : State) (queue : Bytes) : State :=
  { s with
    readyNotifications :=
      if queue ∈ s.readyNotifications then s.readyNotifications
      else s.readyNotifications ++ [queue] }

/-- What a lookup of a job that is not there would compare. -/
def noJob : Job where
  id := 0
  queue := []
  payload := []
  idemKey := ⟨[], 0⟩
  lastError := ⟨[], 0⟩

/-- `ReadyHeap::before(*a, *b)`. -/
def before (s : State) (a b : Nat) : Bool :=
  ((s.jobs.lookup a).getD noJob).before ((s.jobs.lookup b).getD noJob)

/-- `queue->ready.push(&job)`. -/
def pushReady (s : State) (name : Bytes) (id : Nat) : Option State :=
  match s.findQueue name with
  | none => none
  | some queue =>
    if s.heapIndex id = none ∧ queue.ready.length < kNotInHeap then
      let heap := IndexedHeap.push s.before id ⟨queue.ready, s.heapIndex⟩
      some ({ s with heapIndex := heap.index }.modifyQueue name
        fun q => { q with ready := heap.heap })
    else none

/-- `queue->ready.remove(&job)`. -/
def removeReady (s : State) (name : Bytes) (id : Nat) : Option State :=
  match s.findQueue name with
  | none => none
  | some queue =>
    (IndexedHeap.remove s.before id ⟨queue.ready, s.heapIndex⟩).map fun heap =>
      { s with heapIndex := heap.index }.modifyQueue name fun q => { q with ready := heap.heap }

/-- `job.timer = wheel_.schedule(deadline, kind, job.id)`. -/
def armTimer (s : State) (deadline kind id : Nat) : Option State :=
  (s.wheel.schedule deadline kind id).map fun (handle, wheel) =>
    { s with wheel, timer := update s.timer id (some handle) }

/-- A pending job is ready if its `run_at` has arrived and waits on a timer
otherwise; during replay it stays scheduled. -/
def enterPending (s : State) (id : Nat) : Option State :=
  match s.findJob id with
  | none => none
  | some job =>
    if s.replaying ∨ s.wallNow < job.runAt then
      let s := s.setState id .kScheduled
      if s.replaying then some s else s.armTimer (s.monoDeadline job.runAt) kJobDue id
    else
      ((s.setState id .kReady).pushReady job.queue id).map (·.notifyReady job.queue)

def cancelTimer (s : State) (id : Nat) : State :=
  match s.timer id with
  | none => s
  | some handle =>
    { s with wheel := (s.wheel.cancel handle).2, timer := update s.timer id none }

def leaveIndexes (s : State) (id : Nat) : Option State :=
  match s.findJob id with
  | none => none
  | some job =>
    if (s.heapIndex id).isSome then (s.removeReady job.queue id).map (·.cancelTimer id)
    else some (s.cancelTimer id)

def scheduleLeaseTimer (s : State) (id : Nat) (graceMs : Int) : Option State :=
  if s.replaying then some s
  else
    match s.findJob id with
    | none => none
    | some job =>
      let deadline := max job.leaseExpiresAt (s.wallNow + graceMs)
      s.armTimer (s.monoDeadline deadline) kLeaseExpiry id

def insertDead (s : State) (queue : Bytes) (id : Nat) : State :=
  s.modifyQueue queue fun q => { q with dead := insert id q.dead }

def eraseDead (s : State) (queue : Bytes) (id : Nat) : State :=
  s.modifyQueue queue fun q => { q with dead := q.dead.erase id }

def finish (s : State) (id : Nat) (terminal : JobState) (at_ : Int) : Option State :=
  match s.findJob id with
  | none => none
  | some job =>
    (s.leaveIndexes id).map fun s =>
      let s := (s.setState id terminal).modifyJob id fun job =>
        { job with
          finishedAt := at_
          leaseToken := if terminal ≠ .kSucceeded then 0 else job.leaseToken }
      if terminal = .kDead then
        let s := s.insertDead job.queue id
        { s with deadGc := s.deadGc ++ [⟨id, at_⟩] }
      else { s with finishedGc := s.finishedGc ++ [⟨id, at_⟩] }

def eraseJob (s : State) (id : Nat) : Option State :=
  match s.findJob id with
  | none => none
  | some job =>
    (s.leaveIndexes id).map fun s =>
      let s := if job.state = .kDead then s.eraseDead job.queue id else s
      let s := s.modifyQueue job.queue (Queue.decrCount job.state)
      { s with
        memoryBytes := s.memoryBytes - s.platform.jobBytes job
        jobs := s.jobs.erase id }

/-- The entry a key has is dropped, index entry first. -/
def dropIdem (s : State) (key : Bytes) : State :=
  match s.idemIndex.lookup key with
  | none => s
  | some node =>
    match s.idemOrder.find? (·.node = node) with
    | none => s
    | some existing =>
      { s with
        memoryBytes := s.memoryBytes - s.platform.idemBytes existing.entry
        idemIndex := s.idemIndex.erase key
        idemOrder := s.idemOrder.filter (·.node ≠ node) }

def upsertIdem (s : State) (key : Bytes) (jobId : Nat) (expiresAt : Int) : State :=
  let s := s.dropIdem key
  let entry : IdemEntry := ⟨s.platform.string key, jobId, expiresAt⟩
  { s with
    idemOrder := s.idemOrder ++ [⟨s.nextNode, entry⟩]
    idemIndex := s.idemIndex.insert key s.nextNode
    nextNode := s.nextNode + 1
    memoryBytes := s.memoryBytes + s.platform.idemBytes entry }

def eraseIdemFront (s : State) : State :=
  match s.idemOrder with
  | [] => s
  | front :: rest =>
    { s with
      memoryBytes := s.memoryBytes - s.platform.idemBytes front.entry
      idemIndex := s.idemIndex.erase front.entry.key.bytes
      idemOrder := rest }

/-! ## Apply

Every `apply` function validates first and mutates second: an error changes
nothing, and what follows the checks either succeeds or fails a `BATON_CHECK`. -/

def newJob (platform : Platform) (r : JobEnqueued) : Job where
  id := r.id
  queue := r.queue
  payload := r.payload
  priority := r.priority
  maxAttempts := r.maxAttempts
  backoffBaseMs := r.backoffBaseMs
  backoffCapMs := r.backoffCapMs
  runAt := r.runAt
  createdAt := r.at_
  idemKey := platform.string r.idemKey
  lastError := ⟨[], platform.inlineCapacity⟩

def addTotals (s : State) (queue : Bytes) (f : QueueTotals → QueueTotals) : State :=
  s.modifyQueue queue fun q => { q with totals := f q.totals }

def enqueueJob (s : State) (r : JobEnqueued) : State :=
  let s := s.getOrCreateQueue r.queue
  let job := newJob s.platform r
  let s := { s with jobs := s.jobs.insert r.id job }
  let s := s.modifyQueue r.queue (Queue.incrCount .kScheduled)
  { s with memoryBytes := s.memoryBytes + s.platform.jobBytes job }

def applyJobEnqueued (s : State) (r : JobEnqueued) : Result (Option State) :=
  if r.id ≠ s.nextJobId then
    .error (mismatch s!"enqueue: record has job id {r.id}, expected {s.nextJobId}")
  else if r.queue.isEmpty then .error (mismatch "enqueue: empty queue name")
  else if r.maxAttempts = 0 then .error (mismatch "enqueue: max_attempts is 0")
  else
    .ok (((s.enqueueJob r).enterPending r.id).map fun s =>
      let s := if r.idemKey.isEmpty then s else s.upsertIdem r.idemKey r.id r.idemExpiresAt
      let s := s.addTotals r.queue fun t => { t with enqueued := t.enqueued + 1 }
      { s with nextJobId := r.id + 1 })

def applyJobLeased (s : State) (r : JobLeased) : Result (Option State) :=
  match s.findJob r.id with
  | none => .error (mismatch s!"lease: job {r.id} does not exist")
  | some job =>
    if !job.state.isPending then
      .error (mismatch s!"lease: job {r.id} is {job.state.toString}")
    else if r.token ≠ s.nextToken then
      .error (mismatch s!"lease: record has token {r.token}, expected {s.nextToken}")
    else if job.maxAttempts ≤ job.attempts then
      .error (mismatch s!"lease: job {r.id} has no attempts left")
    else
      .ok do
        let s ← s.leaveIndexes r.id
        let s := (s.setState r.id .kLeased).modifyJob r.id fun job =>
          { job with
            attempts := job.attempts + 1
            leaseToken := r.token
            leaseExpiresAt := r.leaseExpiresAt }
        let s ← s.scheduleLeaseTimer r.id 0
        some { s with nextToken := r.token + 1 }

def applyLeaseExtended (s : State) (r : LeaseExtended) : Result (Option State) :=
  match s.requireLeased r.id r.token "heartbeat" with
  | .error e => .error e
  | .ok _ =>
    .ok do
      let s ← s.leaveIndexes r.id
      let s := s.modifyJob r.id fun job => { job with leaseExpiresAt := r.leaseExpiresAt }
      s.scheduleLeaseTimer r.id 0

def applyJobSucceeded (s : State) (r : JobSucceeded) : Result (Option State) :=
  match s.requireLeased r.id r.token "ack" with
  | .error e => .error e
  | .ok job =>
    .ok ((s.finish r.id .kSucceeded r.at_).map fun s =>
      s.addTotals job.queue fun t => { t with succeeded := t.succeeded + 1 })

/-- `last_error.assign(error)`, with the memory estimate kept in step. -/
def setLastError (s : State) (id : Nat) (error : Bytes) : State :=
  match s.findJob id with
  | none => s
  | some job =>
    let job' := { job with lastError := s.platform.assign job.lastError error }
    let s := { s with memoryBytes := s.memoryBytes - s.platform.jobBytes job }
    let s := { s with jobs := s.jobs.insert id job' }
    { s with memoryBytes := s.memoryBytes + s.platform.jobBytes job' }

def applyAttemptFailed (s : State) (r : AttemptFailed) : Result (Option State) :=
  match s.requireLeased r.id r.token "fail" with
  | .error e => .error e
  | .ok job =>
    let s := s.setLastError r.id r.error
    let s := s.addTotals job.queue fun t => { t with failedAttempts := t.failedAttempts + 1 }
    if r.dead then
      .ok ((s.finish r.id .kDead r.at_).map fun s =>
        s.addTotals job.queue fun t => { t with dead := t.dead + 1 })
    else
      .ok do
        let s ← s.leaveIndexes r.id
        let s := s.modifyJob r.id fun job => { job with leaseToken := 0, runAt := r.retryAt }
        s.enterPending r.id

def applyJobCancelled (s : State) (r : JobCancelled) : Result (Option State) :=
  match s.findJob r.id with
  | none => .error (mismatch s!"cancel: job {r.id} does not exist")
  | some job =>
    if job.state.isTerminal then
      .error (mismatch s!"cancel: job {r.id} is already {job.state.toString}")
    else
      .ok ((s.finish r.id .kCancelled r.at_).map fun s =>
        s.addTotals job.queue fun t => { t with cancelled := t.cancelled + 1 })

def applyDeadJobRetried (s : State) (r : DeadJobRetried) : Result (Option State) :=
  match s.findJob r.id with
  | none => .error (mismatch s!"dlq retry: job {r.id} does not exist")
  | some job =>
    if job.state ≠ .kDead then
      .error (mismatch s!"dlq retry: job {r.id} is {job.state.toString}")
    else
      let s := s.eraseDead job.queue r.id
      let s := s.modifyJob r.id fun job =>
        { job with attempts := 0, finishedAt := 0, runAt := r.runAt }
      .ok (s.enterPending r.id)

/-- Every id names a job in a terminal state. -/
def checkPurge (s : State) : List Nat → Result Unit
  | [] => .ok ()
  | id :: ids =>
    match s.findJob id with
    | none => .error (mismatch s!"purge: job {id} does not exist")
    | some job =>
      if !job.state.isTerminal then
        .error (mismatch s!"purge: job {id} is {job.state.toString}")
      else s.checkPurge ids

/-- A duplicate id in the record is tolerated. -/
def purge : List Nat → State → Option State
  | [], s => some s
  | id :: ids, s =>
    if (s.findJob id).isSome then (s.eraseJob id).bind (purge ids) else purge ids s

def applyJobsPurged (s : State) (r : JobsPurged) : Result (Option State) :=
  match s.checkPurge r.ids with
  | .error e => .error e
  | .ok () => .ok (purge r.ids s)

def apply (s : State) : Record → Result (Option State)
  | .jobEnqueued r => s.applyJobEnqueued r
  | .jobLeased r => s.applyJobLeased r
  | .leaseExtended r => s.applyLeaseExtended r
  | .jobSucceeded r => s.applyJobSucceeded r
  | .attemptFailed r => s.applyAttemptFailed r
  | .jobCancelled r => s.applyJobCancelled r
  | .deadJobRetried r => s.applyDeadJobRetried r
  | .jobsPurged r => s.applyJobsPurged r

end State

end Baton
