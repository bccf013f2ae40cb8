/-
# State.Image — the durable part of a state, encoded and read back

`state/image.{h,cpp}` and the serialization in `state/state.cpp`.  An image is a copy
of everything durable; the capacity of a copied string is never asked for, so it is
its bytes.  The encoding comes in pieces: a meta piece, any number of jobs pieces
and any number of idempotency pieces.  `StateBuilder` consumes them in that order
and validates everything.

The queues of a state are an ordered map, and the jobs a hash map: an image lists
the queues by name and the jobs in any order.
-/
import Baton.State.Derived

namespace Baton

open Theory

set_option autoImplicit false

/-- The durable part of `JobState`: whether a pending job is scheduled or ready
depends on the clock. -/
inductive PersistedState where
  | kPending
  | kLeased
  | kSucceeded
  | kDead
  | kCancelled
  deriving DecidableEq, Repr

def toPersisted : JobState → PersistedState
  | .kScheduled => .kPending
  | .kReady => .kPending
  | .kLeased => .kLeased
  | .kSucceeded => .kSucceeded
  | .kDead => .kDead
  | .kCancelled => .kCancelled

def fromPersisted : PersistedState → JobState
  | .kPending => .kScheduled
  | .kLeased => .kLeased
  | .kSucceeded => .kSucceeded
  | .kDead => .kDead
  | .kCancelled => .kCancelled

namespace PersistedState

def toByte : PersistedState → Nat
  | kPending => 0
  | kLeased => 1
  | kSucceeded => 2
  | kDead => 3
  | kCancelled => 4

/-- `static_cast<PersistedState>` of a byte that is in range. -/
def ofByte : Nat → Option PersistedState
  | 0 => some kPending
  | 1 => some kLeased
  | 2 => some kSucceeded
  | 3 => some kDead
  | 4 => some kCancelled
  | _ => none

theorem ofByte_toByte (state : PersistedState) : ofByte state.toByte = some state := by
  cases state <;> rfl

end PersistedState

structure QueueImage where
  name : Bytes
  totals : QueueTotals
  deriving DecidableEq, Repr

structure JobImage where
  id : Nat
  /-- index into the queues of the image -/
  queue : Nat
  payload : Bytes
  priority : Int32
  attempts : UInt32
  maxAttempts : UInt32
  backoffBaseMs : UInt32
  backoffCapMs : UInt32
  state : PersistedState
  runAt : Int
  createdAt : Int
  finishedAt : Int
  leaseExpiresAt : Int
  leaseToken : Nat
  idemKey : Bytes
  lastError : Bytes
  deriving DecidableEq, Repr

structure IdemImage where
  key : Bytes
  jobId : Nat
  expiresAt : Int
  deriving DecidableEq, Repr

structure StateImage where
  nextJobId : Nat := 1
  nextToken : Nat := 1
  queues : List QueueImage := []
  /-- in no particular order -/
  jobs : List JobImage := []
  idem : List IdemImage := []
  deriving DecidableEq, Repr

/-! ## Capturing -/

namespace State

/-- The names of the queues, in the order of the map. -/
def queueNames (s : State) : List Bytes := s.queues.keys.insertionSort (· ≤ ·)

def queueImage (s : State) (name : Bytes) : QueueImage :=
  ⟨name, ((s.findQueue name).map Queue.totals).getD {}⟩

/-- `static_cast<uint32_t>` of the position of a queue in the map. -/
def queueIndex (s : State) (name : Bytes) : Nat := s.queueNames.idxOf name % 2 ^ 32

def jobImage (s : State) (job : Job) : JobImage where
  id := job.id
  queue := s.queueIndex job.queue
  payload := job.payload
  priority := job.priority
  attempts := job.attempts
  maxAttempts := job.maxAttempts
  backoffBaseMs := job.backoffBaseMs
  backoffCapMs := job.backoffCapMs
  state := toPersisted job.state
  runAt := job.runAt
  createdAt := job.createdAt
  finishedAt := job.finishedAt
  leaseExpiresAt := job.leaseExpiresAt
  leaseToken := job.leaseToken
  idemKey := job.idemKey.bytes
  lastError := job.lastError.bytes

def idemImage (entry : IdemEntry) : IdemImage := ⟨entry.key.bytes, entry.jobId, entry.expiresAt⟩

def captureImage (s : State) (iteration : IterationOrder) : StateImage where
  nextJobId := s.nextJobId
  nextToken := s.nextToken
  queues := s.queueNames.map s.queueImage
  jobs := (iteration.order s.jobs.keys).filterMap fun id => (s.findJob id).map s.jobImage
  idem := s.idemOrder.map fun node => idemImage node.entry

end State

/-! ## Encoding -/

def kPieceVersion : Nat := 1

section Encoding

open ByteWriter

def encodeQueue (queue : QueueImage) : Bytes :=
  bytes queue.name ++ varint queue.totals.enqueued ++ varint queue.totals.succeeded ++
    varint queue.totals.failedAttempts ++ varint queue.totals.dead ++ varint queue.totals.cancelled

def encodeImageMeta (image : StateImage) : Bytes :=
  u8 kPieceVersion ++ varint image.nextJobId ++ varint image.nextToken ++
    varint image.queues.length ++ (image.queues.map encodeQueue).flatten

/-- The fields of a job after its id and queue, up to its state. -/
def encodeHead (job : JobImage) : Bytes :=
  bytes job.payload ++ svarint job.priority.toInt ++ varint job.attempts.toNat ++
    varint job.maxAttempts.toNat ++ varint job.backoffBaseMs.toNat ++ varint job.backoffCapMs.toNat ++
    u8 job.state.toByte

/-- The fields after its state. -/
def encodeTail (job : JobImage) : Bytes :=
  svarint job.runAt ++ svarint job.createdAt ++ svarint job.finishedAt ++ svarint job.leaseExpiresAt ++
    varint job.leaseToken ++ bytes job.idemKey ++ bytes job.lastError

def encodeJob (job : JobImage) : Bytes :=
  varint job.id ++ varint job.queue ++ encodeHead job ++ encodeTail job

/-- A piece of jobs or of keys. -/
def encodeItems {α : Type} (encode : α → Bytes) (items : List α) : Bytes :=
  u8 kPieceVersion ++ varint items.length ++ (items.map encode).flatten

def encodeImageJobs (jobs : List JobImage) : Bytes := encodeItems encodeJob jobs

def encodeIdem (entry : IdemImage) : Bytes :=
  bytes entry.key ++ varint entry.jobId ++ svarint entry.expiresAt

def encodeImageIdem (entries : List IdemImage) : Bytes := encodeItems encodeIdem entries

end Encoding

/-! ## The builder -/

def corruptImage (what : String) : Error := ⟨.kCorruption, s!"state image: {what}"⟩

def timeInRange (t : Int) : Bool := decide (0 ≤ t ∧ t ≤ kMaxWallTimeMs)

structure StateBuilder where
  state : State
  queueByIndex : List Bytes := []
  haveMeta : Bool := false
  jobsAdded : Nat := 0
  idemAdded : Nat := 0

namespace StateBuilder

/-- The constructor: the state is in replay mode. -/
def new (options : StateOptions) (platform : Platform) : StateBuilder where
  state := { options, platform, replaying := true }

/-- The loop over the items of a piece. -/
def addLoop (add : StateBuilder → ByteReader → Result (StateBuilder × ByteReader)) :
    Nat → StateBuilder → ByteReader → Result (StateBuilder × ByteReader)
  | 0, b, r => .ok (b, r)
  | count + 1, b, r =>
    match add b r with
    | .error e => .error e
    | .ok (b, r) => addLoop add count b r

/-- One queue of a meta piece. -/
def addQueue (b : StateBuilder) (r : ByteReader) : Result (StateBuilder × ByteReader) :=
  let (name, r) := r.bytes
  if !r.ok ∨ name.isEmpty then .error (corruptImage "bad queue name")
  else if (b.state.findQueue name).isSome then .error (corruptImage "duplicate queue")
  else
    let (enqueued, r) := r.varint
    let (succeeded, r) := r.varint
    let (failedAttempts, r) := r.varint
    let (dead, r) := r.varint
    let (cancelled, r) := r.varint
    let state := (b.state.getOrCreateQueue name).modifyQueue name fun q =>
      { q with totals := ⟨enqueued, succeeded, failedAttempts, dead, cancelled⟩ }
    .ok ({ b with state, queueByIndex := b.queueByIndex ++ [name] }, r)

def addMeta (b : StateBuilder) (piece : Bytes) : Result StateBuilder :=
  if b.haveMeta then .error (corruptImage "more than one meta piece")
  else
    let (version, r) := ByteReader.u8 ⟨piece, true⟩
    if version ≠ kPieceVersion ∨ !r.ok then .error (corruptImage "unknown meta version")
    else
      let (nextJobId, r) := r.varint
      let (nextToken, r) := r.varint
      if !r.ok ∨ nextJobId = 0 ∨ nextToken = 0 then .error (corruptImage "bad counters")
      else
        let (count, r) := r.varint
        if r.remaining < count then .error (corruptImage "queue count exceeds input")
        else
          let counted := { b with state := { b.state with nextJobId, nextToken } }
          match addLoop addQueue count counted r with
          | .error e => .error e
          | .ok (b, r) =>
            if !r.ok then .error (corruptImage "truncated meta piece")
            else if !r.atEnd then .error (corruptImage "trailing bytes in meta piece")
            else .ok { b with haveMeta := true }

/-- The job goes into the table and the bookkeeping that `apply` maintains during
replay is kept in step. -/
def insertJob (b : StateBuilder) (job : Job) : StateBuilder :=
  let s := { b.state with jobs := b.state.jobs.insert job.id job }
  let s := s.modifyQueue job.queue (Queue.incrCount job.state)
  let s := if job.state = .kDead then s.insertDead job.queue job.id else s
  { b with
    state := { s with memoryBytes := s.memoryBytes + s.platform.jobBytes job }
    jobsAdded := b.jobsAdded + 1 }

/-- The fields of a job after its id and queue, up to its state. -/
structure JobHead where
  payload : Bytes
  priority : Int
  attempts : Nat
  maxAttempts : Nat
  backoffBase : Nat
  backoffCap : Nat
  persisted : Nat

def readHead (r : ByteReader) : JobHead × ByteReader :=
  let (payload, r) := r.bytes
  let (priority, r) := r.svarint
  let (attempts, r) := r.varint
  let (maxAttempts, r) := r.varint
  let (backoffBase, r) := r.varint
  let (backoffCap, r) := r.varint
  let (persisted, r) := r.u8
  (⟨payload, priority, attempts, maxAttempts, backoffBase, backoffCap, persisted⟩, r)

/-- The fields after its state. -/
structure JobTail where
  runAt : Int
  createdAt : Int
  finishedAt : Int
  leaseExpiresAt : Int
  leaseToken : Nat
  idemKey : Bytes
  lastError : Bytes

def readTail (r : ByteReader) : JobTail × ByteReader :=
  let (runAt, r) := r.svarint
  let (createdAt, r) := r.svarint
  let (finishedAt, r) := r.svarint
  let (leaseExpiresAt, r) := r.svarint
  let (leaseToken, r) := r.varint
  let (idemKey, r) := r.bytes
  let (lastError, r) := r.bytes
  (⟨runAt, createdAt, finishedAt, leaseExpiresAt, leaseToken, idemKey, lastError⟩, r)

/-- A field does not fit the type it is stored in. -/
def JobHead.outOfRange (head : JobHead) : Bool :=
  decide (head.priority < -2 ^ 31 ∨ 2 ^ 31 - 1 < head.priority ∨ 2 ^ 32 - 1 < head.attempts ∨
    2 ^ 32 - 1 < head.maxAttempts ∨ 2 ^ 32 - 1 < head.backoffBase ∨ 2 ^ 32 - 1 < head.backoffCap)

def jobOf (platform : Platform) (id : Nat) (name : Bytes) (head : JobHead)
    (state : PersistedState) (tail : JobTail) : Job where
  id := id
  queue := name
  payload := head.payload
  priority := Int32.ofInt head.priority
  attempts := UInt32.ofNat head.attempts
  maxAttempts := UInt32.ofNat head.maxAttempts
  backoffBaseMs := UInt32.ofNat head.backoffBase
  backoffCapMs := UInt32.ofNat head.backoffCap
  state := fromPersisted state
  runAt := tail.runAt
  createdAt := tail.createdAt
  finishedAt := tail.finishedAt
  leaseExpiresAt := tail.leaseExpiresAt
  leaseToken := tail.leaseToken
  idemKey := platform.string tail.idemKey
  lastError := platform.string tail.lastError

def badTimes (job : Job) : Bool :=
  !timeInRange job.runAt || !timeInRange job.createdAt || !timeInRange job.finishedAt ||
    !timeInRange job.leaseExpiresAt

/-- The checks on a job that is read. -/
def acceptJob (b : StateBuilder) (job : Job) : Result StateBuilder :=
  if badTimes job then .error (corruptImage "job timestamp out of range")
  else if b.state.nextToken ≤ job.leaseToken then .error (corruptImage "bad lease token")
  else if job.state.holdsToken ≠ decide (job.leaseToken ≠ 0) then
    .error (corruptImage "lease token does not match job state")
  else if job.maxAttempts < job.attempts then
    .error (corruptImage "job has more attempts than allowed")
  else .ok (b.insertJob job)

/-- The fields of a job after its id and queue. -/
def addFields (b : StateBuilder) (id : Nat) (name : Bytes) (r : ByteReader) :
    Result (StateBuilder × ByteReader) :=
  match readHead r with
  | (head, r) =>
    match head.outOfRange, PersistedState.ofByte head.persisted with
    | true, _ => .error (corruptImage "job field out of range")
    | false, none => .error (corruptImage "job field out of range")
    | false, some state =>
      match readTail r with
      | (tail, r) =>
        if !r.ok then .error (corruptImage "truncated job")
        else do
          let b ← b.acceptJob (jobOf b.state.platform id name head state tail)
          .ok (b, r)

/-- A job of the given id and queue index. -/
def addJobAt (b : StateBuilder) (id queue : Nat) (r : ByteReader) :
    Result (StateBuilder × ByteReader) :=
  if !r.ok ∨ id = 0 ∨ b.state.nextJobId ≤ id then .error (corruptImage "bad job id")
  else
    match b.queueByIndex[queue]? with
    | none => .error (corruptImage "job refers to an unknown queue")
    | some name =>
      if (b.state.findJob id).isSome then .error (corruptImage "duplicate job id")
      else b.addFields id name r

/-- One job: its fields in the order they are read, and the checks between them. -/
def addJob (b : StateBuilder) (r : ByteReader) : Result (StateBuilder × ByteReader) :=
  match r.varint with
  | (id, r) =>
    match r.varint with
    | (queue, r) => b.addJobAt id queue r

/-- A piece of jobs or of keys, with what its errors say. -/
def addItems (add : StateBuilder → ByteReader → Result (StateBuilder × ByteReader))
    (early unknown excess trailing : String) (b : StateBuilder) (piece : Bytes) : Result StateBuilder :=
  if !b.haveMeta then .error (corruptImage early)
  else
    let (version, r) := ByteReader.u8 ⟨piece, true⟩
    if version ≠ kPieceVersion ∨ !r.ok then .error (corruptImage unknown)
    else
      let (count, r) := r.varint
      if r.remaining < count then .error (corruptImage excess)
      else
        match addLoop add count b r with
        | .error e => .error e
        | .ok (b, r) => if !r.atEnd then .error (corruptImage trailing) else .ok b

def addJobs : StateBuilder → Bytes → Result StateBuilder :=
  addItems addJob "jobs before meta" "unknown jobs version" "job count exceeds input" "trailing bytes in jobs piece"

def addEntry (b : StateBuilder) (r : ByteReader) : Result (StateBuilder × ByteReader) :=
  let (key, r) := r.bytes
  let (jobId, r) := r.varint
  let (expiresAt, r) := r.svarint
  if !r.ok ∨ key.isEmpty then .error (corruptImage "bad idempotency entry")
  else if !timeInRange expiresAt then .error (corruptImage "idempotency expiry out of range")
  else if (b.state.findIdem key).isSome then .error (corruptImage "duplicate idempotency key")
  else .ok ({ b with state := b.state.upsertIdem key jobId expiresAt, idemAdded := b.idemAdded + 1 }, r)

def addIdem : StateBuilder → Bytes → Result StateBuilder :=
  addItems addEntry "idempotency keys before meta" "unknown idempotency version" "idempotency count exceeds input"
    "trailing bytes in idempotency piece"

/-- Collection pops from the front, so the list has to be in expiry order. -/
def finish (b : StateBuilder) : Result State :=
  if !b.haveMeta then .error (corruptImage "no meta piece")
  else
    .ok { b.state with
      idemOrder := b.state.idemOrder.insertionSort fun x y => x.entry.expiresAt ≤ y.entry.expiresAt }

end StateBuilder

/-! ## Serialization -/

namespace State

def kSerializationVersion : Nat := 1

/-- The image with jobs sorted by id and keys sorted by name. -/
def canonical (image : StateImage) : StateImage :=
  { image with
    jobs := image.jobs.insertionSort fun a b => a.id ≤ b.id
    idem := image.idem.insertionSort fun a b => a.key ≤ b.key }

def serializeImage (image : StateImage) : Bytes :=
  ByteWriter.u8 kSerializationVersion ++ ByteWriter.bytes (encodeImageMeta image) ++
    ByteWriter.bytes (encodeImageJobs image.jobs) ++ ByteWriter.bytes (encodeImageIdem image.idem)

def serialize (s : State) (iteration : IterationOrder) : Bytes :=
  serializeImage (canonical (s.captureImage iteration))

def corruptState (what : String) : Error := ⟨.kCorruption, s!"state: {what}"⟩

def deserialize (data : Bytes) (options : StateOptions) (platform : Platform) : Result State :=
  let (version, r) := ByteReader.u8 ⟨data, true⟩
  if version ≠ kSerializationVersion ∨ !r.ok then .error (corruptState "unknown version")
  else
    let (metaPiece, r) := r.bytes
    let (jobs, r) := r.bytes
    let (idem, r) := r.bytes
    if !r.ok then .error (corruptState "truncated")
    else if !r.atEnd then .error (corruptState "trailing bytes")
    else do
      let b ← (StateBuilder.new options platform).addMeta metaPiece
      let b ← b.addJobs jobs
      let b ← b.addIdem idem
      b.finish

end State

end Baton
