/-
# State.Engine — the command logic

`state/engine.{h,cpp}`.  Every mutating method validates the request, resolves all
nondeterminism into a record, applies it and appends it to the log.  The engine is
the only code that reads the clock or the random number generator.

The clock readings of a tick are its arguments; the generator is a stream of
numbers, a draw from `[0, ceiling]` being the next one modulo `ceiling + 1`.  The
sink is the list of the records appended, each with its type; an append fails when
the log sequence number would not fit in 64 bits or the payload in a frame
(`append_record` checks both).

A method is `none` where a `BATON_CHECK` fails, and otherwise returns its result and
the engine after it.
-/
import Baton.State.Derived
import Baton.Log.Format
import Mathlib.Data.Finset.Sort

namespace Baton

set_option autoImplicit false

structure EngineOptions where
  defaultMaxAttempts : UInt32 := 10
  defaultBackoffBaseMs : UInt32 := 1000
  defaultBackoffCapMs : UInt32 := 600000
  defaultLeaseMs : Int := 30000
  idempotencyWindowMs : Int := 24 * 60 * 60 * 1000
  maxPayloadBytes : Nat := 2 ^ 20
  maxMemoryBytes : Nat := 0
  minLeaseMs : Int := 100
  maxLeaseMs : Int := 24 * 60 * 60 * 1000
  maxDelayMs : Int := 366 * 24 * 60 * 60 * 1000
  maxMaxAttempts : UInt32 := 1000
  leaseGraceMs : Int := 5000
  clockJumpThresholdMs : Int := 1000
  deriving DecidableEq

def kMaxQueueNameBytes : Nat := 128
def kMaxIdemKeyBytes : Nat := 256
def kMaxErrorBytes : Nat := 1024

structure EnqueueRequest where
  queue : Bytes
  payload : Bytes
  priority : Int32 := 0
  delayMs : Int := 0
  runAt : Option Int := none
  maxAttempts : Option UInt32 := none
  backoffBaseMs : Option UInt32 := none
  backoffCapMs : Option UInt32 := none
  idemKey : Bytes := []

structure EnqueueResult where
  id : Nat
  created : Bool
  deriving DecidableEq, Repr

structure Reservation where
  id : Nat
  token : Nat
  queue : Bytes
  payload : Bytes
  attempt : UInt32
  maxAttempts : UInt32
  leaseExpiresAt : Int
  deriving DecidableEq, Repr

structure FailRequest where
  id : Nat
  token : Nat
  error : Bytes := []
  retryInMs : Option Int := none
  noRetry : Bool := false

structure FailResult where
  dead : Bool
  retryAt : Int
  deriving DecidableEq, Repr

structure Engine where
  state : State
  options : EngineOptions
  rng : Nat → Nat
  drawn : Nat := 0
  lastLsn : Nat := 0
  clockOffsetMs : Int := 0
  clockJumps : Nat := 0
  log : List (Nat × Bytes) := []

def invalid (what : String) : Error := ⟨.kInvalidArgument, what⟩
def limit (what : String) : Error := ⟨.kLimitExceeded, what⟩

def isQueueNameByte (c : UInt8) : Bool :=
  (97 ≤ c ∧ c ≤ 122) ∨ (65 ≤ c ∧ c ≤ 90) ∨ (48 ≤ c ∧ c ≤ 57) ∨ c = 46 ∨ c = 95 ∨ c = 58 ∨ c = 45

def isValidQueueName (name : Bytes) : Bool :=
  !name.isEmpty && decide (name.length ≤ kMaxQueueNameBytes) && name.all isQueueNameByte

def badQueueName : Error := invalid "queue name must match [A-Za-z0-9._:-]\x7b1,128\x7d"

/-- `Engine::backoff_ceiling`. -/
def backoffCeiling (attempts baseMs capMs : Nat) : Nat :=
  let doublings := attempts - 1
  if 32 ≤ doublings then capMs else min (baseMs <<< doublings) capMs

namespace Engine

/-- The constructor: it reads the clocks. -/
def create (state : State) (options : EngineOptions) (rng : Nat → Nat) (lastLsn : Nat)
    (log : List (Nat × Bytes)) (wall : Int) (mono : Nat) : Engine where
  state := state.setNow wall mono
  options := options
  rng := rng
  lastLsn := lastLsn
  clockOffsetMs := wall - mono
  log := log

/-- `sink_.append`. -/
def append (e : Engine) (type : Nat) (payload : Bytes) : Option Engine :=
  if e.lastLsn + 1 < 2 ^ 64 ∧ payload.length ≤ kMaxRecordPayload then
    some { e with lastLsn := e.lastLsn + 1, log := e.log ++ [(type, payload)] }
  else none

/-- Apply before append: a record that does not fit the state never reaches the log. -/
def logAndApply (e : Engine) (record : Record) : Option Engine :=
  match e.state.apply record with
  | .ok (some state) => { e with state }.append record.typeOf record.encode
  | .ok none => none
  | .error _ => none

/-- `detect_clock_jump`, which reads the monotonic clock again. -/
def detectClockJump (e : Engine) (iteration : IterationOrder) (mono : Nat) : Option Engine :=
  let offset := e.state.wallNow - mono
  let change := offset - e.clockOffsetMs
  let e := { e with clockOffsetMs := offset }
  if (change.natAbs : Int) ≤ e.options.clockJumpThresholdMs then some e
  else
    (e.state.rebuildDerived iteration e.options.leaseGraceMs).map fun state =>
      { e with state, clockJumps := e.clockJumps + 1 }

/-- What a failed attempt leads to; the retry time is resolved here. -/
def decideFailure (e : Engine) (job : Job) (reason : FailureReason) (error : Bytes)
    (retryInMs : Option Int) (noRetry : Bool) : AttemptFailed × Engine :=
  let now := e.state.wallNow
  let record : AttemptFailed :=
    { id := job.id, token := job.leaseToken, reason, error := error.take kMaxErrorBytes, at_ := now }
  if noRetry ∨ job.maxAttempts ≤ job.attempts then ({ record with dead := true }, e)
  else
    match retryInMs with
    | some delay => ({ record with retryAt := now + delay }, e)
    | none =>
      let ceiling := backoffCeiling job.attempts.toNat job.backoffBaseMs.toNat job.backoffCapMs.toNat
      let delay := e.rng e.drawn % (ceiling + 1)
      ({ record with retryAt := now + delay }, { e with drawn := e.drawn + 1 })

/-- The text `lease expired`. -/
def leaseExpired : Bytes := [108, 101, 97, 115, 101, 32, 101, 120, 112, 105, 114, 101, 100]

/-- The loop of `tick` over the leases that ran out. -/
def expireLeases : List Nat → Engine → Option Engine
  | [], e => some e
  | id :: ids, e =>
    match e.state.findJob id with
    | none => expireLeases ids e
    | some job =>
      if job.state ≠ .kLeased then expireLeases ids e
      else
        let (record, e) := e.decideFailure job .kLeaseExpired leaseExpired none false
        (e.logAndApply (.attemptFailed record)).bind (expireLeases ids)

/-- One tick, with the readings of the clocks: the wall clock and the monotonic
clock once, and the monotonic clock again to detect a jump. -/
def tick (e : Engine) (iteration : IterationOrder) (wall : Int) (mono monoAgain : Nat) :
    Option Engine := do
  let e := { e with state := e.state.setNow wall mono }
  let e ← e.detectClockJump iteration monoAgain
  let (state, expired) ← e.state.advanceTimers
  let e ← expireLeases expired { e with state }
  let state ← e.state.collectGarbage
  some { e with state }

/-! ## Commands -/

def estimatedJobBytes (e : Engine) (request : EnqueueRequest) : Nat :=
  e.state.platform.sizeofJob + 256 + request.payload.length + 2 * request.idemKey.length

/-- The checks of `enqueue`, in order, up to the idempotency key. -/
def checkEnqueue (e : Engine) (request : EnqueueRequest) : Result Unit :=
  let maxAttempts := request.maxAttempts.getD e.options.defaultMaxAttempts
  if !isValidQueueName request.queue then .error badQueueName
  else if e.options.maxPayloadBytes < request.payload.length then
    .error (limit (s!"payload of {request.payload.length} bytes exceeds max-payload of " ++
      s!"{e.options.maxPayloadBytes} bytes"))
  else if kMaxIdemKeyBytes < request.idemKey.length then
    .error (invalid s!"idempotency key longer than {kMaxIdemKeyBytes} bytes")
  else if request.delayMs < 0 ∨ e.options.maxDelayMs < request.delayMs then
    .error (invalid s!"delay must be between 0 and {e.options.maxDelayMs} ms")
  else if request.runAt.any fun runAt => decide (e.options.maxDelayMs < runAt - e.state.wallNow) then
    .error (invalid s!"run-at is more than {e.options.maxDelayMs} ms in the future")
  else if maxAttempts = 0 ∨ e.options.maxMaxAttempts < maxAttempts then
    .error (invalid s!"max attempts must be between 1 and {e.options.maxMaxAttempts}")
  else .ok ()

/-- The job a live idempotency key answers with. -/
def liveIdem (e : Engine) (request : EnqueueRequest) : Option Nat :=
  if request.idemKey.isEmpty then none
  else
    match e.state.findIdem request.idemKey with
    | none => none
    | some entry => if e.state.wallNow < entry.expiresAt then some entry.jobId else none

/-- The record `enqueue` logs. -/
def enqueueRecord (e : Engine) (request : EnqueueRequest) : JobEnqueued :=
  let now := e.state.wallNow
  let backoffBase := request.backoffBaseMs.getD e.options.defaultBackoffBaseMs
  { id := e.state.nextJobId
    queue := request.queue
    payload := request.payload
    priority := request.priority
    runAt := max now (request.runAt.getD (now + request.delayMs))
    maxAttempts := request.maxAttempts.getD e.options.defaultMaxAttempts
    backoffBaseMs := backoffBase
    backoffCapMs := max backoffBase (request.backoffCapMs.getD e.options.defaultBackoffCapMs)
    idemKey := request.idemKey
    idemExpiresAt := if request.idemKey.isEmpty then 0 else now + e.options.idempotencyWindowMs
    at_ := now }

def enqueue (e : Engine) (request : EnqueueRequest) : Option (Result EnqueueResult × Engine) :=
  match e.checkEnqueue request with
  | .error error => some (.error error, e)
  | .ok () =>
    match e.liveIdem request with
    | some id => some (.ok ⟨id, false⟩, e)
    | none =>
      if e.options.maxMemoryBytes ≠ 0 ∧
          e.options.maxMemoryBytes < e.state.memoryBytes + e.estimatedJobBytes request then
        some (.error (limit (s!"max-memory of {e.options.maxMemoryBytes} bytes reached; " ++
          "ACK or purge jobs, or raise the limit")), e)
      else
        let record := e.enqueueRecord request
        (e.logAndApply (.jobEnqueued record)).map (.ok ⟨record.id, true⟩, ·)

def badLease (e : Engine) : Error :=
  invalid s!"lease must be between {e.options.minLeaseMs} and {e.options.maxLeaseMs} ms"

/-- The first queue named that has a ready job, and the job. -/
def firstReady (e : Engine) : List Bytes → Option (Bytes × Nat)
  | [] => none
  | name :: names =>
    match e.state.findQueue name with
    | none => firstReady e names
    | some queue =>
      match queue.ready.head? with
      | none => firstReady e names
      | some id => some (name, id)

/-- The reservation, read from the job after the lease is applied. -/
def reservation (s : State) (queue : Bytes) (id : Nat) : Option Reservation :=
  (s.findJob id).map fun job =>
    ⟨job.id, job.leaseToken, queue, job.payload, job.attempts, job.maxAttempts, job.leaseExpiresAt⟩

def reserve (e : Engine) (queues : List Bytes) (leaseMs : Int) :
    Option (Result (Option Reservation) × Engine) :=
  if queues.isEmpty then some (.error (invalid "at least one queue is required"), e)
  else if !queues.all isValidQueueName then some (.error badQueueName, e)
  else if leaseMs < e.options.minLeaseMs ∨ e.options.maxLeaseMs < leaseMs then
    some (.error e.badLease, e)
  else
    match e.firstReady queues with
    | none => some (.ok none, e)
    | some (queue, id) =>
      let now := e.state.wallNow
      (e.logAndApply (.jobLeased ⟨id, e.state.nextToken, now + leaseMs, now⟩)).map fun e =>
        (.ok (reservation e.state queue id), e)

def noSuchJob (id : Nat) : Error := ⟨.kNotFound, s!"no such job: {id}"⟩

def findLeased (e : Engine) (id token : Nat) : Result Job :=
  match e.state.findJob id with
  | none => .error (noSuchJob id)
  | some job =>
    if job.state ≠ .kLeased then
      .error ⟨.kStaleToken, s!"job {id} is {job.state.toString}, not leased: the lease was lost"⟩
    else if job.leaseToken ≠ token then
      .error ⟨.kStaleToken,
        s!"token {token} is not the current lease of job {id}: it was leased again"⟩
    else .ok job

def heartbeat (e : Engine) (id token : Nat) (leaseMs : Int) : Option (Result Int × Engine) :=
  if leaseMs < e.options.minLeaseMs ∨ e.options.maxLeaseMs < leaseMs then
    some (.error e.badLease, e)
  else
    match e.findLeased id token with
    | .error error => some (.error error, e)
    | .ok job =>
      let now := e.state.wallNow
      (e.logAndApply (.leaseExtended ⟨job.id, token, now + leaseMs, now⟩)).map
        (.ok (now + leaseMs), ·)

/-- A succeeded job under the token that completed it: the repeated `ACK`. -/
def alreadyAcked (e : Engine) (id token : Nat) : Bool :=
  (e.state.findJob id).any fun job => job.state = .kSucceeded ∧ job.leaseToken = token

def ack (e : Engine) (id token : Nat) : Option (Result Unit × Engine) :=
  if e.alreadyAcked id token then some (.ok (), e)
  else
    match e.findLeased id token with
    | .error error => some (.error error, e)
    | .ok job =>
      (e.logAndApply (.jobSucceeded ⟨job.id, token, e.state.wallNow⟩)).map (.ok (), ·)

def fail (e : Engine) (request : FailRequest) : Option (Result FailResult × Engine) :=
  if request.retryInMs.any fun retry => decide (retry < 0 ∨ e.options.maxDelayMs < retry) then
    some (.error (invalid s!"retry-in must be between 0 and {e.options.maxDelayMs} ms"), e)
  else
    match e.findLeased request.id request.token with
    | .error error => some (.error error, e)
    | .ok job =>
      let (record, e) :=
        e.decideFailure job .kWorkerFailed request.error request.retryInMs request.noRetry
      (e.logAndApply (.attemptFailed record)).map (.ok ⟨record.dead, record.retryAt⟩, ·)

def cancel (e : Engine) (id : Nat) : Option (Result Unit × Engine) :=
  match e.state.findJob id with
  | none => some (.error (noSuchJob id), e)
  | some job =>
    if job.state.isTerminal then
      some (.error ⟨.kFailedPrecondition, s!"job {id} is already {job.state.toString}"⟩, e)
    else (e.logAndApply (.jobCancelled ⟨id, e.state.wallNow⟩)).map (.ok (), ·)

/-! ## The dead-letter queue -/

/-- Ids per `JobsPurged` record. -/
def kPurgeChunk : Nat := 10000

def findDead (e : Engine) (id : Nat) : Result Job :=
  match e.state.findJob id with
  | none => .error (noSuchJob id)
  | some job =>
    if job.state ≠ .kDead then
      .error ⟨.kFailedPrecondition, s!"job {id} is {job.state.toString}, not dead"⟩
    else .ok job

def dlqRetry (e : Engine) (id : Nat) : Option (Result Nat × Engine) :=
  match e.findDead id with
  | .error error => some (.error error, e)
  | .ok job =>
    let now := e.state.wallNow
    (e.logAndApply (.deadJobRetried ⟨job.id, now, now⟩)).map (.ok 1, ·)

def logRetries (now : Int) : List Nat → Engine → Option Engine
  | [], e => some e
  | id :: ids, e => (e.logAndApply (.deadJobRetried ⟨id, now, now⟩)).bind (logRetries now ids)

/-- The dead jobs of a queue, in the order of the set. -/
def deadIds (queue : Queue) : List Nat := queue.dead.sort (· ≤ ·)

def dlqRetryAll (e : Engine) (queue : Bytes) : Option (Result Nat × Engine) :=
  if !isValidQueueName queue then some (.error badQueueName, e)
  else
    match e.state.findQueue queue with
    | none => some (.ok 0, e)
    | some q =>
      (logRetries e.state.wallNow (deadIds q) e).map (.ok (deadIds q).length, ·)

def dlqPurge (e : Engine) (id : Nat) : Option (Result Nat × Engine) :=
  match e.findDead id with
  | .error error => some (.error error, e)
  | .ok job => (e.logAndApply (.jobsPurged ⟨[job.id]⟩)).map (.ok 1, ·)

/-- One record per chunk of ids.  There are no more chunks than ids. -/
def logPurges : Nat → List Nat → Engine → Option Engine
  | 0, _, e => some e
  | fuel + 1, ids, e =>
    if ids.isEmpty then some e
    else
      (e.logAndApply (.jobsPurged ⟨ids.take kPurgeChunk⟩)).bind
        (logPurges fuel (ids.drop kPurgeChunk))

def dlqPurgeAll (e : Engine) (queue : Bytes) : Option (Result Nat × Engine) :=
  if !isValidQueueName queue then some (.error badQueueName, e)
  else
    match e.state.findQueue queue with
    | none => some (.ok 0, e)
    | some q =>
      (logPurges (deadIds q).length (deadIds q) e).map (.ok (deadIds q).length, ·)

end Engine

end Baton
