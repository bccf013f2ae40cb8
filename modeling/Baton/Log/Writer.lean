/-
# Log.Writer — the write side of the log and its two threads

`LogWriter` of `log/log_writer.cpp`.  The owner encodes records into a pending
batch (`append`), hands it over (`flush`) and stops the writer (`stop`, which
returns once the log thread has ended).  The log thread takes what was handed
over, rolls to a new segment if the active one is full, writes, syncs as the
policy says, and publishes `committed_lsn`.

One step of the log thread is one file-system call, one critical section, or one
part of a `write` that the operating system cut short; the owner's steps fall
between any two of them.  A failed call aborts the process.  `stop` is one step:
its flush and the setting of its flag can be told apart by a `flush` before it.

`opening` is `LogWriter::open` while it creates the first segment; the thread is
started, and the owner gets its writer, when that is done.
-/
import Baton.Log.Recovery

namespace Baton

set_option autoImplicit false

inductive FsyncPolicy where
  /-- a record is committed once the fdatasync covering it has returned -/
  | kAlways
  /-- a record is committed once write() has returned; fdatasync runs on a timer -/
  | kInterval
  deriving DecidableEq, Repr

structure LogWriterOptions where
  fsyncPolicy : FsyncPolicy := .kAlways
  fsyncIntervalMs : Int := 100
  segmentSize : Nat := 64 * 2 ^ 20
  deriving DecidableEq, Repr

structure Batch where
  bytes : Bytes := []
  firstLsn : Nat := 0
  lastLsn : Nat := 0
  records : Nat := 0
  deriving DecidableEq, Repr

def Batch.empty (b : Batch) : Bool := b.records = 0

/-- Where `create_segment` is. -/
inductive CreateStage where
  | openNew
  | header (file : Nat) (rest : Bytes)
  | syncFile (file : Nat)
  | syncDir (file : Nat)
  deriving DecidableEq, Repr

/-- Where the log thread is.  `opening` is before it is started. -/
inductive LogThread where
  | opening (stage : CreateStage)
  /-- waiting, with nothing in hand -/
  | waiting
  /-- in `write_batch`: syncing the full segment before the roll -/
  | syncFull (batch : Batch)
  | creating (batch : Batch) (stage : CreateStage)
  | writing (batch : Batch) (rest : Bytes)
  | syncBatch (batch : Batch)
  | publishing (batch : Batch)
  /-- behind `write_batch` -/
  | written
  /-- syncing because the interval has passed or the writer stops -/
  | syncDue
  /-- behind that sync -/
  | synced
  | done
  | aborted
  deriving DecidableEq, Repr

/-- Where the owner is: `stop` joins the log thread before it returns. -/
inductive Owner where
  | running
  | joining
  | stopped
  deriving DecidableEq, Repr

structure LogWriter where
  -- owner
  pending : Batch := {}
  nextLsn : Nat
  appendedBytes : Nat := 0
  owner : Owner := .running
  -- hand-off
  inbox : Batch := {}
  stop : Bool := false
  -- log thread
  thread : LogThread
  active : Option Nat := none
  dirty : Bool := false
  committedLsn : Nat
  committedBytes : Nat := 0
  deriving DecidableEq, Repr

/-- The writer and the directory it writes to. -/
structure LogSystem where
  fs : SimFs
  writer : LogWriter

namespace LogWriter

/-! ## Opening -/

/-- `LogWriter::open`, up to the creation of the first segment. -/
def «open» (fs : SimFs) (options : LogWriterOptions) (recovered : RecoveredLog) :
    Result LogSystem :=
  if options.segmentSize < kSegmentHeaderSize + kRecordHeaderSize then
    .error ⟨.kInvalidArgument, "segment_size is too small to hold a record"⟩
  else if options.fsyncPolicy = .kInterval ∧ options.fsyncIntervalMs ≤ 0 then
    .error ⟨.kInvalidArgument, "fsync_interval_ms must be positive"⟩
  else
    let nextLsn := recovered.lastLsn + 1
    match recovered.segments.getLast? with
    | none =>
      .ok ⟨fs, { nextLsn, committedLsn := nextLsn - 1, thread := .opening .openNew }⟩
    | some newest =>
      match fs.openAppend newest.name .kAppendExisting with
      | .error e => .error e
      | .ok (file, fs) =>
        .ok ⟨fs,
          { nextLsn, committedLsn := nextLsn - 1, thread := .waiting, active := some file }⟩

/-- `open` has returned. -/
def opened (w : LogWriter) : Bool :=
  match w.thread with
  | .opening _ => false
  | _ => true

/-! ## The owner -/

/-- `none` is a failed check, which aborts. -/
def append (w : LogWriter) (type : UInt8) (payload : Bytes) : Option LogWriter :=
  let lsn := w.nextLsn
  match appendRecord w.pending.bytes lsn type payload with
  | none => none
  | some bytes => some { w with
      nextLsn := w.nextLsn + 1
      appendedBytes := w.appendedBytes + (bytes.length - w.pending.bytes.length)
      pending :=
        { bytes
          firstLsn := if w.pending.records = 0 then lsn else w.pending.firstLsn
          lastLsn := lsn
          records := w.pending.records + 1 } }

def flush (w : LogWriter) : LogWriter :=
  if w.pending.empty then w
  else if w.inbox.empty then { w with inbox := w.pending, pending := {} }
  else { w with
    inbox := { w.inbox with
      bytes := w.inbox.bytes ++ w.pending.bytes
      lastLsn := w.pending.lastLsn
      records := w.inbox.records + w.pending.records }
    pending := {} }

end LogWriter

/-! ## The log thread -/

section

variable (options : LogWriterOptions)

/-- What `create_segment` does next: on to its next stage, or to `after` with the
new file. -/
def createStep (firstLsn : Nat) (at_ : CreateStage → LogThread) (after : LogThread) (count : Nat)
    (s : LogSystem) : CreateStage → LogSystem
  | .openNew =>
    match s.fs.openAppend (segmentFileName firstLsn) .kCreateNew with
    | .error _ => { s with writer := { s.writer with thread := .aborted } }
    | .ok (file, fs) =>
      ⟨fs, { s.writer with thread := at_ (.header file (appendSegmentHeader [] firstLsn)) }⟩
  | .header file rest =>
    if rest = [] then { s with writer := { s.writer with thread := at_ (.syncFile file) } }
    else
      ⟨s.fs.append file (rest.take count),
        { s.writer with thread := at_ (.header file (rest.drop count)) }⟩
  | .syncFile file => ⟨s.fs.sync file, { s.writer with thread := at_ (.syncDir file) }⟩
  | .syncDir file =>
    ⟨s.fs.syncDir, { s.writer with thread := after, active := some file, dirty := false }⟩

/-- `write_batch` from its check of the active segment's size on. -/
def startBatch (s : LogSystem) (batch : Batch) : LogWriter :=
  let w := s.writer
  match w.active with
  | none => { w with thread := .aborted }
  | some file =>
    if options.segmentSize ≤ s.fs.size file then
      if w.dirty then { w with thread := .syncFull batch }
      else { w with thread := .creating batch .openNew, active := none }
    else { w with thread := .writing batch batch.bytes }

/-- `sync_active`. -/
def syncActive (s : LogSystem) (thread : LogThread) : LogSystem :=
  match s.writer.active with
  | none => { s with writer := { s.writer with thread := .aborted } }
  | some file => ⟨s.fs.sync file, { s.writer with thread, dirty := false }⟩

/-- The rest of the loop's body, in one critical section unless a sync is due. -/
def endOfLoop (timeout : Bool) (w : LogWriter) : LogWriter :=
  let stopping := w.stop && w.inbox.empty
  if w.dirty && (stopping || timeout) then { w with thread := .syncDue }
  else if stopping then { w with thread := .done }
  else { w with thread := .waiting }

/-- One step of the log thread.  `count` is how much of a write is done in it and
`timeout` says whether the next interval sync is due; `none` means that the thread
waits. -/
def threadStep (count : Nat) (timeout : Bool) (s : LogSystem) : Option LogSystem :=
  let w := s.writer
  match w.thread with
  | .opening stage => some (createStep w.nextLsn .opening .waiting count s stage)
  | .waiting =>
    if !w.inbox.empty then
      let taken := { s with writer := { w with inbox := {} } }
      some { s with writer := startBatch options taken w.inbox }
    else if w.stop ∨ (w.dirty ∧ timeout) then some { s with writer := endOfLoop timeout w }
    else none
  | .syncFull batch =>
    let synced := syncActive s (.creating batch .openNew)
    some { synced with writer := { synced.writer with active := none } }
  | .creating batch stage =>
    some (createStep batch.firstLsn (.creating batch) (.writing batch batch.bytes) count s stage)
  | .writing batch rest =>
    match w.active with
    | none => some { s with writer := { w with thread := .aborted } }
    | some file =>
      if rest = [] then
        let next := match options.fsyncPolicy with
          | .kAlways => .syncBatch batch
          | .kInterval => .publishing batch
        some { s with writer := { w with thread := next, dirty := true } }
      else
        some ⟨s.fs.append file (rest.take count),
          { w with thread := .writing batch (rest.drop count) }⟩
  | .syncBatch batch => some (syncActive s (.publishing batch))
  | .publishing batch =>
    some { s with writer := { w with
      thread := .written
      committedBytes := w.committedBytes + batch.bytes.length
      committedLsn := batch.lastLsn } }
  | .written => some { s with writer := endOfLoop timeout w }
  | .syncDue => some (syncActive s .synced)
  | .synced =>
    let next := if w.stop && w.inbox.empty then .done else .waiting
    some { s with writer := { w with thread := next } }
  | .done => none
  | .aborted => none

/-- A step of either party; `join` is the end of `stop`. -/
inductive LogStep where
  | append (type : UInt8) (payload : Bytes)
  | flush
  | stop
  | join
  | thread (count : Nat) (timeout : Bool)
  deriving DecidableEq, Repr

/-- The steps of the system; `none` if a step cannot be taken. -/
def logStep : LogStep → LogSystem → Option LogSystem
  | .append type payload, s =>
    if s.writer.opened ∧ s.writer.owner = .running then
      (s.writer.append type payload).map fun w => { s with writer := w }
    else none
  | .flush, s =>
    if s.writer.opened ∧ s.writer.owner = .running then
      some { s with writer := s.writer.flush }
    else none
  | .stop, s =>
    if s.writer.opened ∧ s.writer.owner = .running then
      some { s with writer := { s.writer.flush with stop := true, owner := .joining } }
    else none
  | .join, s =>
    if s.writer.owner = .joining ∧ s.writer.thread = .done then
      some { s with writer := { s.writer with owner := .stopped } }
    else none
  | .thread count timeout, s => threadStep options count timeout s

end

end Baton
