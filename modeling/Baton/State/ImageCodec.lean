/-
# State.ImageCodec — what the builder makes of the bytes of an image

`Typed` says that the numbers of an image fit the types the source gives them.  For
such an image every field is read back as it was written, so what is left of the
builder are its checks: `addQueue_encode`, `addJob_encode` and `addEntry_encode` say
what one queue, one job and one key come to.
-/
import Baton.State.Image
import Baton.State.RecordCodec

namespace Baton

open Theory

set_option autoImplicit false

open ByteReader (Signed64 bytes_append svarint_append u8_append varint_append)

instance (v : Int) : Decidable (Signed64 v) := inferInstanceAs (Decidable (_ ∧ _))

structure QueueImage.Typed (queue : QueueImage) : Prop where
  name : Word queue.name.length
  enqueued : Word queue.totals.enqueued
  succeeded : Word queue.totals.succeeded
  failedAttempts : Word queue.totals.failedAttempts
  dead : Word queue.totals.dead
  cancelled : Word queue.totals.cancelled

structure JobImage.Typed (job : JobImage) : Prop where
  id : Word job.id
  queue : Word job.queue
  payload : Word job.payload.length
  runAt : Signed64 job.runAt
  createdAt : Signed64 job.createdAt
  finishedAt : Signed64 job.finishedAt
  leaseExpiresAt : Signed64 job.leaseExpiresAt
  leaseToken : Word job.leaseToken
  idemKey : Word job.idemKey.length
  lastError : Word job.lastError.length

structure IdemImage.Typed (entry : IdemImage) : Prop where
  key : Word entry.key.length
  jobId : Word entry.jobId
  expiresAt : Signed64 entry.expiresAt

structure StateImage.Typed (image : StateImage) : Prop where
  nextJobId : Word image.nextJobId
  nextToken : Word image.nextToken
  queueCount : Word image.queues.length
  jobCount : Word image.jobs.length
  idemCount : Word image.idem.length
  queues : ∀ queue ∈ image.queues, queue.Typed
  jobs : ∀ job ∈ image.jobs, job.Typed
  idem : ∀ entry ∈ image.idem, entry.Typed

theorem timeInRange_iff {t : Int} : timeInRange t = true ↔ TimeInRange t := by
  simp [timeInRange, TimeInRange]

/-! ## One item -/

section Items

variable {b : StateBuilder} (rest : Bytes)

/-- The builder with one more queue. -/
def StateBuilder.withQueue (b : StateBuilder) (queue : QueueImage) : StateBuilder :=
  { b with
    state := (b.state.getOrCreateQueue queue.name).modifyQueue queue.name fun q =>
      { q with totals := queue.totals }
    queueByIndex := b.queueByIndex ++ [queue.name] }

/-- The checks on a queue, once its fields are read. -/
def StateBuilder.checkedQueue (b : StateBuilder) (queue : QueueImage) : Result StateBuilder :=
  if queue.name.isEmpty then .error (corruptImage "bad queue name")
  else if (b.state.findQueue queue.name).isSome then .error (corruptImage "duplicate queue")
  else .ok (b.withQueue queue)

theorem addQueue_encode {queue : QueueImage} (typed : queue.Typed) :
    b.addQueue ⟨encodeQueue queue ++ rest, true⟩ = (b.checkedQueue queue).map (·, ⟨rest, true⟩) := by
  simp only [StateBuilder.addQueue, encodeQueue, List.append_assoc,
    bytes_append typed.name, varint_append typed.enqueued,
    varint_append typed.succeeded, varint_append typed.failedAttempts,
    varint_append typed.dead, varint_append typed.cancelled,
    Bool.not_true, Bool.false_eq_true, false_or]
  unfold StateBuilder.checkedQueue
  split
  · rfl
  split
  · rfl
  · rfl

/-- The job a job image stands for, in the queue of the given name. -/
def JobImage.decoded (platform : Platform) (name : Bytes) (image : JobImage) : Job where
  id := image.id
  queue := name
  payload := image.payload
  priority := image.priority
  attempts := image.attempts
  maxAttempts := image.maxAttempts
  backoffBaseMs := image.backoffBaseMs
  backoffCapMs := image.backoffCapMs
  state := fromPersisted image.state
  runAt := image.runAt
  createdAt := image.createdAt
  finishedAt := image.finishedAt
  leaseExpiresAt := image.leaseExpiresAt
  leaseToken := image.leaseToken
  idemKey := platform.string image.idemKey
  lastError := platform.string image.lastError

/-- What the two groups of fields of a job image are. -/
def JobImage.head (job : JobImage) : StateBuilder.JobHead :=
  ⟨job.payload, job.priority.toInt, job.attempts.toNat, job.maxAttempts.toNat,
    job.backoffBaseMs.toNat, job.backoffCapMs.toNat, job.state.toByte⟩

def JobImage.tail (job : JobImage) : StateBuilder.JobTail :=
  ⟨job.runAt, job.createdAt, job.finishedAt, job.leaseExpiresAt, job.leaseToken, job.idemKey,
    job.lastError⟩

/-- The checks on a job, once its fields are read. -/
def StateBuilder.checkedJob (b : StateBuilder) (image : JobImage) : Result StateBuilder :=
  if image.id = 0 ∨ b.state.nextJobId ≤ image.id then .error (corruptImage "bad job id")
  else
    match b.queueByIndex[image.queue]? with
    | none => .error (corruptImage "job refers to an unknown queue")
    | some name =>
      if (b.state.findJob image.id).isSome then .error (corruptImage "duplicate job id")
      else b.acceptJob (image.decoded b.state.platform name)

theorem StateBuilder.acceptJob_ok {b' : StateBuilder} {job : Job} :
    b.acceptJob job = .ok b' ↔ (badTimes job = false ∧ job.leaseToken < b.state.nextToken ∧
      job.state.holdsToken = decide (job.leaseToken ≠ 0) ∧ job.attempts ≤ job.maxAttempts) ∧
      b.insertJob job = b' := by
  constructor
  · intro accepted
    obtain ⟨times, accepted⟩ := Result.check_ok accepted
    obtain ⟨token, accepted⟩ := Result.check_ok accepted
    obtain ⟨holds, accepted⟩ := Result.check_ok accepted
    obtain ⟨attempts, accepted⟩ := Result.check_ok accepted
    exact ⟨⟨eq_false_of_ne_true times, Nat.not_le.1 token, not_not.1 holds, UInt32.not_lt.1 attempts⟩,
      Except.ok.inj accepted⟩
  · rintro ⟨⟨times, token, holds, attempts⟩, rfl⟩
    unfold acceptJob
    rw [if_neg (by simp [times]), if_neg (Nat.not_le.2 token), if_neg (not_not.2 holds),
      if_neg (UInt32.not_lt.2 attempts)]

theorem word_toNat (v : UInt32) : Word v.toNat := by
  have := v.toNat_lt
  unfold Word
  omega

variable {job : JobImage}

theorem readHead_encode (typed : job.Typed) :
    StateBuilder.readHead ⟨encodeHead job ++ rest, true⟩ = (job.head, ⟨rest, true⟩) := by
  have lower : -2 ^ 31 ≤ job.priority.toInt := job.priority.le_toInt
  have upper : job.priority.toInt < 2 ^ 31 := job.priority.toInt_lt
  have priority : Signed64 job.priority.toInt := by unfold Signed64; omega
  have state : job.state.toByte % 256 = job.state.toByte := by cases job.state <;> rfl
  simp only [encodeHead, List.append_assoc]
  rw [StateBuilder.readHead, bytes_append typed.payload]
  dsimp only
  rw [svarint_append priority]
  rw [varint_append (word_toNat _)]
  rw [varint_append (word_toNat _)]
  rw [varint_append (word_toNat _)]
  rw [varint_append (word_toNat _)]
  rw [u8_append, state]
  rfl

theorem readTail_encode (typed : job.Typed) :
    StateBuilder.readTail ⟨encodeTail job ++ rest, true⟩ = (job.tail, ⟨rest, true⟩) := by
  simp only [encodeTail, List.append_assoc]
  rw [StateBuilder.readTail, svarint_append typed.runAt]
  dsimp only
  rw [svarint_append typed.createdAt]
  rw [svarint_append typed.finishedAt]
  rw [svarint_append typed.leaseExpiresAt]
  rw [varint_append typed.leaseToken]
  rw [bytes_append typed.idemKey]
  rw [bytes_append typed.lastError]
  rfl

theorem jobOf_image (platform : Platform) (name : Bytes) (job : JobImage) :
    StateBuilder.jobOf platform job.id name job.head job.state job.tail = job.decoded platform name := by
  unfold StateBuilder.jobOf JobImage.decoded JobImage.head JobImage.tail
  simp only [Int32.ofInt_toInt, UInt32.ofNat_toNat]

theorem outOfRange_image (job : JobImage) : job.head.outOfRange = false := by
  have := job.priority.le_toInt
  have := job.priority.toInt_lt
  have := job.attempts.toNat_lt
  have := job.maxAttempts.toNat_lt
  have := job.backoffBaseMs.toNat_lt
  have := job.backoffCapMs.toNat_lt
  apply decide_eq_false
  unfold JobImage.head
  dsimp only
  omega

theorem addFields_encode (typed : job.Typed) (name : Bytes) :
    b.addFields job.id name ⟨encodeHead job ++ (encodeTail job ++ rest), true⟩ =
      (b.acceptJob (job.decoded b.state.platform name)).map (·, ⟨rest, true⟩) := by
  have persisted : PersistedState.ofByte job.head.persisted = some job.state :=
    PersistedState.ofByte_toByte job.state
  rw [StateBuilder.addFields, readHead_encode _ typed]
  dsimp only
  rw [outOfRange_image, persisted]
  rw [readTail_encode _ typed]
  dsimp only
  rw [jobOf_image, if_neg (by decide)]
  cases b.acceptJob _ <;> rfl

theorem addJob_encode (typed : job.Typed) :
    b.addJob ⟨encodeJob job ++ rest, true⟩ = (b.checkedJob job).map (·, ⟨rest, true⟩) := by
  simp only [encodeJob, List.append_assoc]
  rw [StateBuilder.addJob, varint_append typed.id]
  dsimp only
  rw [varint_append typed.queue]
  unfold StateBuilder.addJobAt StateBuilder.checkedJob
  by_cases known : job.id = 0 ∨ b.state.nextJobId ≤ job.id
  · rw [if_pos known, if_pos (Or.inr known)]
    rfl
  rw [if_neg known, if_neg (by simpa using known)]
  cases b.queueByIndex[job.queue]? with
  | none => rfl
  | some name =>
    dsimp only
    rw [addFields_encode rest typed name]
    split <;> rfl

/-- The checks on a key, once it is read. -/
def StateBuilder.checkedEntry (b : StateBuilder) (entry : IdemImage) : Result StateBuilder :=
  if entry.key.isEmpty then .error (corruptImage "bad idempotency entry")
  else if !timeInRange entry.expiresAt then .error (corruptImage "idempotency expiry out of range")
  else if (b.state.findIdem entry.key).isSome then .error (corruptImage "duplicate idempotency key")
  else
    .ok { b with
      state := b.state.upsertIdem entry.key entry.jobId entry.expiresAt
      idemAdded := b.idemAdded + 1 }

theorem addEntry_encode {entry : IdemImage} (typed : entry.Typed) :
    b.addEntry ⟨encodeIdem entry ++ rest, true⟩ = (b.checkedEntry entry).map (·, ⟨rest, true⟩) := by
  simp only [StateBuilder.addEntry, encodeIdem, List.append_assoc,
    bytes_append typed.key, varint_append typed.jobId,
    svarint_append typed.expiresAt, Bool.not_true, Bool.false_eq_true, false_or]
  unfold StateBuilder.checkedEntry
  split
  · rfl
  split
  · rfl
  split
  · rfl
  · rfl

end Items

/-! ## The pieces -/

namespace StateBuilder

/-- What is read of an item that was encoded is the item, and it is checked. -/
structure Reads {α : Type} (add : StateBuilder → ByteReader → Result (StateBuilder × ByteReader))
    (encode : α → Bytes) (Typed : α → Prop) (check : StateBuilder → α → Result StateBuilder) : Prop where
  positive : ∀ x, 0 < (encode x).length
  item : ∀ b x rest, Typed x → add b ⟨encode x ++ rest, true⟩ = (check b x).map (·, ⟨rest, true⟩)

theorem reads_queues : Reads addQueue encodeQueue QueueImage.Typed checkedQueue where
  positive := by
    intro queue
    have := ByteWriter.bytes_length_pos queue.name
    simp only [encodeQueue, List.length_append]
    omega
  item := fun _ _ rest typed => addQueue_encode rest typed

theorem reads_jobs : Reads addJob encodeJob JobImage.Typed checkedJob where
  positive := by
    intro job
    have := ByteWriter.varint_length_pos job.id
    simp only [encodeJob, List.length_append]
    omega
  item := fun _ _ rest typed => addJob_encode rest typed

theorem reads_idem : Reads addEntry encodeIdem IdemImage.Typed checkedEntry where
  positive := by
    intro entry
    have := ByteWriter.bytes_length_pos entry.key
    simp only [encodeIdem, List.length_append]
    omega
  item := fun _ _ rest typed => addEntry_encode rest typed

section Reads

variable {α : Type} {add : StateBuilder → ByteReader → Result (StateBuilder × ByteReader)} {encode : α → Bytes}
  {Typed : α → Prop} {check : StateBuilder → α → Result StateBuilder}

/-- A list of items is never longer than the bytes they take. -/
theorem Reads.enough (reads : Reads add encode Typed check) (items : List α) :
    ¬ ByteReader.remaining ⟨(items.map encode).flatten, true⟩ < items.length := by
  apply Nat.not_lt.2
  show items.length ≤ (items.map encode).flatten.length
  induction items with
  | nil => exact Nat.zero_le _
  | cons x items ih =>
    have := reads.positive x
    simp only [List.length_cons, List.map_cons, List.flatten_cons, List.length_append]
    omega

theorem Reads.loop (reads : Reads add encode Typed check) : ∀ {items : List α} {b : StateBuilder},
    (∀ x ∈ items, Typed x) → addLoop add items.length b ⟨(items.map encode).flatten, true⟩ =
      (items.foldlM check b).map (·, ⟨[], true⟩)
  | [], _, _ => rfl
  | x :: items, b, typed => by
    rw [List.length_cons, List.map_cons, List.flatten_cons, addLoop,
      reads.item b x _ (typed x List.mem_cons_self), List.foldlM_cons]
    cases check b x with
    | error e => rfl
    | ok b => exact reads.loop fun y mem => typed y (List.mem_cons_of_mem _ mem)

theorem Reads.piece (reads : Reads add encode Typed check) {early unknown excess trailing : String}
    {b : StateBuilder} {items : List α} (ready : b.haveMeta = true) (count : Word items.length)
    (typed : ∀ x ∈ items, Typed x) :
    addItems add early unknown excess trailing b (encodeItems encode items) = items.foldlM check b := by
  have version : kPieceVersion % 256 = kPieceVersion := rfl
  unfold addItems encodeItems
  simp only [List.append_assoc, ready, Bool.not_true, Bool.false_eq_true, if_false, u8_append, version,
    ne_eq, not_true_eq_false, or_self, varint_append count]
  rw [if_neg (reads.enough items), reads.loop typed]
  cases items.foldlM check b with
  | error e => rfl
  | ok b => rfl

end Reads

/-- The checks on the jobs, one after the other. -/
def checkedJobs (b : StateBuilder) (jobs : List JobImage) : Result StateBuilder := jobs.foldlM checkedJob b

def checkedIdem (b : StateBuilder) (entries : List IdemImage) : Result StateBuilder := entries.foldlM checkedEntry b

def withCounters (b : StateBuilder) (nextJobId nextToken : Nat) : StateBuilder :=
  { b with state := { b.state with nextJobId, nextToken } }

def checkedMeta (b : StateBuilder) (image : StateImage) : Result StateBuilder :=
  if b.haveMeta then .error (corruptImage "more than one meta piece")
  else if image.nextJobId = 0 ∨ image.nextToken = 0 then .error (corruptImage "bad counters")
  else
    (image.queues.foldlM checkedQueue (b.withCounters image.nextJobId image.nextToken)).map
      fun b => { b with haveMeta := true }

theorem addMeta_encode {b : StateBuilder} {image : StateImage} (typed : image.Typed) :
    b.addMeta (encodeImageMeta image) = b.checkedMeta image := by
  have version : kPieceVersion % 256 = kPieceVersion := rfl
  have queues := @Reads.loop _ _ _ _ _ reads_queues image.queues (b.withCounters image.nextJobId image.nextToken)
    typed.queues
  unfold addMeta checkedMeta encodeImageMeta
  split
  · rfl
  simp only [List.append_assoc, u8_append, version, ne_eq, not_true_eq_false, Bool.not_true,
    Bool.false_eq_true, or_self, if_false, varint_append typed.nextJobId,
    varint_append typed.nextToken, varint_append typed.queueCount, false_or]
  split
  · rfl
  rw [if_neg (reads_queues.enough image.queues)]
  have queues' : addLoop addQueue image.queues.length
      { b with state := { b.state with nextJobId := image.nextJobId, nextToken := image.nextToken } }
      ⟨(image.queues.map encodeQueue).flatten, true⟩ = _ := queues
  rw [queues']
  cases image.queues.foldlM checkedQueue _ with
  | error e => rfl
  | ok b => rfl

end StateBuilder

end Baton
