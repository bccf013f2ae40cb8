/-
# State.Records — the vocabulary of logged facts

`state/records.{h,cpp}`.  A record describes something that happened, with every
nondeterministic input already resolved.  `encodeRecord` is its payload in the log
(the type travels in the log record header); `decodeRecord` is strict: a truncated
field, an unknown version or enum value, a field out of range or trailing bytes is
an error.
-/
import Baton.Common.Result
import Baton.State.Job

namespace Baton

set_option autoImplicit false

/-- The largest timestamp a record or a snapshot may carry. -/
def kMaxWallTimeMs : Int := 2 ^ 50

structure JobEnqueued where
  id : Nat
  queue : Bytes
  payload : Bytes
  priority : Int32
  runAt : Int
  maxAttempts : UInt32
  backoffBaseMs : UInt32
  backoffCapMs : UInt32
  idemKey : Bytes
  idemExpiresAt : Int
  at_ : Int
  deriving DecidableEq, Repr

structure JobLeased where
  id : Nat
  token : Nat
  leaseExpiresAt : Int
  at_ : Int
  deriving DecidableEq, Repr

structure LeaseExtended where
  id : Nat
  token : Nat
  leaseExpiresAt : Int
  at_ : Int
  deriving DecidableEq, Repr

structure JobSucceeded where
  id : Nat
  token : Nat
  at_ : Int
  deriving DecidableEq, Repr

structure AttemptFailed where
  id : Nat
  token : Nat
  reason : FailureReason
  error : Bytes
  at_ : Int
  dead : Bool := false
  retryAt : Int := 0
  deriving DecidableEq, Repr

structure JobCancelled where
  id : Nat
  at_ : Int
  deriving DecidableEq, Repr

structure DeadJobRetried where
  id : Nat
  runAt : Int
  at_ : Int
  deriving DecidableEq, Repr

structure JobsPurged where
  ids : List Nat
  deriving DecidableEq, Repr

inductive Record where
  | jobEnqueued (r : JobEnqueued)
  | jobLeased (r : JobLeased)
  | leaseExtended (r : LeaseExtended)
  | jobSucceeded (r : JobSucceeded)
  | attemptFailed (r : AttemptFailed)
  | jobCancelled (r : JobCancelled)
  | deadJobRetried (r : DeadJobRetried)
  | jobsPurged (r : JobsPurged)
  deriving DecidableEq, Repr

/-- `type_of`: the wire values. -/
def Record.typeOf : Record → Nat
  | .jobEnqueued _ => 1
  | .jobLeased _ => 2
  | .leaseExtended _ => 3
  | .jobSucceeded _ => 4
  | .attemptFailed _ => 5
  | .jobCancelled _ => 6
  | .deadJobRetried _ => 7
  | .jobsPurged _ => 8

/-! ## Encoding -/

/-- Every payload starts with this byte. -/
def kPayloadVersion : Nat := 1

open ByteWriter in
def putTime (t : Int) : Bytes := svarint t

def FailureReason.toByte : FailureReason → Nat
  | .kWorkerFailed => 0
  | .kLeaseExpired => 1

namespace Record

open ByteWriter

def encodeFields : Record → Bytes
  | .jobEnqueued r =>
    varint r.id ++ bytes r.queue ++ bytes r.payload ++ svarint r.priority.toInt ++
      putTime r.runAt ++ varint r.maxAttempts.toNat ++ varint r.backoffBaseMs.toNat ++
      varint r.backoffCapMs.toNat ++ bytes r.idemKey ++ putTime r.idemExpiresAt ++ putTime r.at_
  | .jobLeased r => varint r.id ++ varint r.token ++ putTime r.leaseExpiresAt ++ putTime r.at_
  | .leaseExtended r => varint r.id ++ varint r.token ++ putTime r.leaseExpiresAt ++ putTime r.at_
  | .jobSucceeded r => varint r.id ++ varint r.token ++ putTime r.at_
  | .attemptFailed r =>
    varint r.id ++ varint r.token ++ u8 r.reason.toByte ++ bytes r.error ++ putTime r.at_ ++
      u8 (if r.dead then 1 else 0) ++ putTime r.retryAt
  | .jobCancelled r => varint r.id ++ putTime r.at_
  | .deadJobRetried r => varint r.id ++ putTime r.runAt ++ putTime r.at_
  | .jobsPurged r => varint r.ids.length ++ (r.ids.map varint).flatten

def encode (record : Record) : Bytes := u8 kPayloadVersion ++ record.encodeFields

end Record

/-! ## Decoding -/

def badRecord (type : Nat) (what : String) : Error := ⟨.kCorruption, s!"record type {type}: {what}"⟩

/-- A reader and the flag `in_range` that the narrowing reads clear. -/
structure RecordReader where
  reader : ByteReader
  inRange : Bool := true

namespace RecordReader

def varint (r : RecordReader) : Nat × RecordReader :=
  (r.reader.varint.1, { r with reader := r.reader.varint.2 })

def bytes (r : RecordReader) : Bytes × RecordReader :=
  (r.reader.bytes.1, { r with reader := r.reader.bytes.2 })

def u8 (r : RecordReader) : Nat × RecordReader :=
  (r.reader.u8.1, { r with reader := r.reader.u8.2 })

/-- `get_time`. -/
def time (r : RecordReader) : Int × RecordReader :=
  let ms := r.reader.svarint.1
  (ms, ⟨r.reader.svarint.2, r.inRange && decide (0 ≤ ms ∧ ms ≤ kMaxWallTimeMs)⟩)

/-- `get_u32`. -/
def u32 (r : RecordReader) : UInt32 × RecordReader :=
  let v := r.reader.varint.1
  (UInt32.ofNat v, ⟨r.reader.varint.2, r.inRange && decide (v < 2 ^ 32)⟩)

/-- `get_i32`. -/
def i32 (r : RecordReader) : Int32 × RecordReader :=
  let v := r.reader.svarint.1
  (Int32.ofInt v, ⟨r.reader.svarint.2, r.inRange && decide (-2 ^ 31 ≤ v ∧ v < 2 ^ 31)⟩)

/-- `for (i = 0; i < count; ++i) ids.push_back(r.varint())`. -/
def ids : Nat → RecordReader → List Nat × RecordReader
  | 0, r => ([], r)
  | count + 1, r =>
    let (id, r) := r.varint
    let (rest, r) := ids count r
    (id :: rest, r)

end RecordReader

/-- The fields of a record of the given type, before the reader is checked. -/
def decodeFields (type : Nat) (r : RecordReader) : Result (Record × RecordReader) :=
  match type with
  | 1 =>
    let (id, r) := r.varint
    let (queue, r) := r.bytes
    let (payload, r) := r.bytes
    let (priority, r) := r.i32
    let (runAt, r) := r.time
    let (maxAttempts, r) := r.u32
    let (backoffBaseMs, r) := r.u32
    let (backoffCapMs, r) := r.u32
    let (idemKey, r) := r.bytes
    let (idemExpiresAt, r) := r.time
    let (at_, r) := r.time
    .ok (.jobEnqueued ⟨id, queue, payload, priority, runAt, maxAttempts, backoffBaseMs,
      backoffCapMs, idemKey, idemExpiresAt, at_⟩, r)
  | 2 =>
    let (id, r) := r.varint
    let (token, r) := r.varint
    let (leaseExpiresAt, r) := r.time
    let (at_, r) := r.time
    .ok (.jobLeased ⟨id, token, leaseExpiresAt, at_⟩, r)
  | 3 =>
    let (id, r) := r.varint
    let (token, r) := r.varint
    let (leaseExpiresAt, r) := r.time
    let (at_, r) := r.time
    .ok (.leaseExtended ⟨id, token, leaseExpiresAt, at_⟩, r)
  | 4 =>
    let (id, r) := r.varint
    let (token, r) := r.varint
    let (at_, r) := r.time
    .ok (.jobSucceeded ⟨id, token, at_⟩, r)
  | 5 =>
    let (id, r) := r.varint
    let (token, r) := r.varint
    let (reason, r) := r.u8
    if 1 < reason then .error (badRecord type "unknown failure reason")
    else
      let (error, r) := r.bytes
      let (at_, r) := r.time
      let (dead, r) := r.u8
      if 1 < dead then .error (badRecord type "invalid outcome")
      else
        let (retryAt, r) := r.time
        let reason := if reason = 0 then .kWorkerFailed else .kLeaseExpired
        .ok (.attemptFailed ⟨id, token, reason, error, at_, dead = 1, retryAt⟩, r)
  | 6 =>
    let (id, r) := r.varint
    let (at_, r) := r.time
    .ok (.jobCancelled ⟨id, at_⟩, r)
  | 7 =>
    let (id, r) := r.varint
    let (runAt, r) := r.time
    let (at_, r) := r.time
    .ok (.deadJobRetried ⟨id, runAt, at_⟩, r)
  | 8 =>
    let (count, r) := r.varint
    if r.reader.remaining < count then .error (badRecord type "id count exceeds payload")
    else
      let (ids, r) := RecordReader.ids count r
      .ok (.jobsPurged ⟨ids⟩, r)
  | _ => .error (badRecord type "unknown record type")

def decodeRecord (type : Nat) (payload : Bytes) : Result Record :=
  let (version, r) := ByteReader.u8 ⟨payload, true⟩
  if version ≠ kPayloadVersion ∨ !r.ok then .error (badRecord type "unknown payload version")
  else
    match decodeFields type ⟨r, true⟩ with
    | .error e => .error e
    | .ok (record, r) =>
      if !r.reader.ok then .error (badRecord type "truncated payload")
      else if !r.inRange then .error (badRecord type "field out of range")
      else if !r.reader.atEnd then .error (badRecord type "trailing bytes")
      else .ok record

end Baton
