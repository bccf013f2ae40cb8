/-
# Log.WriterInvariant — what holds at every step of the log writer

The records appended so far are, in order: those in segments on disk, the batch
in the log thread's hands, the inbox, and the pending batch (`LogGhost`).
`WriterInv` ties this to the bytes in memory and on disk at every point of the
log thread's program, whatever the policy is; `logStep_inv` says that every step
of either party keeps it, and `runs_inv` that every run does.

`solo` is for a directory in which nothing else happens: then the only directory
change that can be waiting for a sync is the entry of a new segment.
-/
import Baton.Log.Disk
import Baton.Theory.Transition

namespace Baton

open Theory
open List (append_assoc append_nil length_append)

set_option autoImplicit false

variable {w : LogWriter} {solo : Prop} {fs : SimFs} {firstLsn : Nat} {chain : List Segment}

/-! ## Batches -/

/-- A batch of these records, the first of which has LSN `lsn`. -/
structure Batch.Holds (b : Batch) (lsn : Nat) (records : List LogRecordView) : Prop where
  bytes : b.bytes = framesOf records
  count : b.records = records.length
  first : records ≠ [] → b.firstLsn = lsn
  last : records ≠ [] → b.lastLsn + 1 = lsn + records.length

namespace Batch

theorem holds_nil (lsn : Nat) : Holds {} lsn [] := ⟨rfl, rfl, by simp, by simp⟩

variable {b c : Batch} {lsn : Nat} {records more : List LogRecordView}

theorem Holds.empty_iff (holds : b.Holds lsn records) : b.empty = true ↔ records = [] := by
  rw [Batch.empty, decide_eq_true_eq, holds.count, List.length_eq_zero_iff]

/-- What `flush` does to an inbox that has not been taken yet. -/
theorem Holds.merge (holds : b.Holds lsn records)
    (holds' : c.Holds (lsn + records.length) more) (some_ : records ≠ []) (some' : more ≠ []) :
    Holds { b with
      bytes := b.bytes ++ c.bytes
      lastLsn := c.lastLsn
      records := b.records + c.records } lsn (records ++ more) where
  bytes := by rw [framesOf_append, holds.bytes, holds'.bytes]
  count := by rw [length_append, holds.count, holds'.count]
  first := fun _ => holds.first some_
  last := fun _ => by
    have := holds'.last some'
    simp only [length_append]
    omega

/-- What `append` does to the pending batch. -/
theorem Holds.snoc (holds : b.Holds lsn records) {r : LogRecordView}
    (here : r.lsn = lsn + records.length) :
    Holds
      { bytes := b.bytes ++ r.bytes
        firstLsn := if b.records = 0 then r.lsn else b.firstLsn
        lastLsn := r.lsn
        records := b.records + 1 } lsn (records ++ [r]) where
  bytes := by simp [holds.bytes]
  count := by simp [holds.count]
  first := by
    intro _
    simp only [holds.count, List.length_eq_zero_iff]
    split
    · rename_i empty
      simpa [empty] using here
    · rename_i some_
      exact holds.first some_
  last := by
    intro _
    rw [length_append, List.length_singleton]
    simp only
    omega

end Batch

namespace LogWriter

variable (w : LogWriter)

@[simp] theorem flush_thread : w.flush.thread = w.thread := by
  unfold flush; split; · rfl
  split <;> rfl
@[simp] theorem flush_active : w.flush.active = w.active := by
  unfold flush; split; · rfl
  split <;> rfl
@[simp] theorem flush_dirty : w.flush.dirty = w.dirty := by
  unfold flush; split; · rfl
  split <;> rfl
@[simp] theorem flush_stop : w.flush.stop = w.stop := by
  unfold flush; split; · rfl
  split <;> rfl
@[simp] theorem flush_owner : w.flush.owner = w.owner := by
  unfold flush; split; · rfl
  split <;> rfl
@[simp] theorem flush_nextLsn : w.flush.nextLsn = w.nextLsn := by
  unfold flush; split; · rfl
  split <;> rfl
@[simp] theorem flush_committedLsn : w.flush.committedLsn = w.committedLsn := by
  unfold flush; split; · rfl
  split <;> rfl

variable {w} {lsn : Nat} {inboxed pended : List LogRecordView}

theorem flush_inbox (inbox : w.inbox.Holds lsn inboxed)
    (pending : w.pending.Holds (lsn + inboxed.length) pended) :
    w.flush.inbox.Holds lsn (inboxed ++ pended) := by
  unfold flush
  split
  · rename_i empty
    rw [pending.empty_iff.1 empty, append_nil]
    exact inbox
  · rename_i some_
    split
    · rename_i empty
      rw [inbox.empty_iff.1 empty] at pending ⊢
      exact pending
    · rename_i some'
      exact inbox.merge pending (mt inbox.empty_iff.2 some') (mt pending.empty_iff.2 some_)

theorem flush_pending (other : Nat) (pending : w.pending.Holds lsn pended) :
    w.flush.pending.Holds other [] := by
  unfold flush
  split
  · rename_i empty
    rw [pending.empty_iff.1 empty] at pending
    exact ⟨pending.bytes, pending.count, by simp, by simp⟩
  · split <;> exact Batch.holds_nil _

end LogWriter

/-! ## The invariant -/

/-- Where the records are.  `lost` are those of segments that were removed for good. -/
structure LogGhost where
  lost : List LogRecordView := []
  gone : List Segment := []
  chain : List Segment
  tail : LogTail
  hand : List LogRecordView := []
  inboxed : List LogRecordView := []
  pended : List LogRecordView := []

namespace LogGhost

/-- The records of complete and durable segments, removed or not. -/
def closed (g : LogGhost) : List LogRecordView := g.lost ++ recordsOf (g.gone ++ g.chain)
def written (g : LogGhost) : List LogRecordView := g.closed ++ g.tail.segment.records
def durable (g : LogGhost) : List LogRecordView := g.closed ++ g.tail.syncedRecords

end LogGhost

/-- The directory changes a new segment waits for. -/
def LogTail.links : LogTail → List DirOp
  | .creating firstLsn ino _ _ => [.kLink (segmentFileName firstLsn) ino]
  | _ => []

/-- `create_segment`, by its stage. -/
def Creates (firstLsn : Nat) (tail : LogTail) : CreateStage → Prop
  | .openNew => tail = .absent firstLsn
  | .header file rest => ∃ header, tail = .creating firstLsn file header false ∧
      segmentHeader firstLsn = header ++ rest
  | .syncFile file => tail = .creating firstLsn file (segmentHeader firstLsn) false
  | .syncDir file => tail = .creating firstLsn file (segmentHeader firstLsn) true

/-- The last segment is open for writing, with `begun` behind its records. -/
def Writes (w : LogWriter) (tail : LogTail) (begun : Bytes) : Prop :=
  ∃ firstLsn ino synced unsynced, tail = .active firstLsn ino synced unsynced begun ∧
    w.active = some ino ∧ (w.dirty = false → unsynced = [])

/-- The log thread's program, point by point. -/
def Phase (w : LogWriter) (g : LogGhost) : Prop :=
  match w.thread with
  | .opening stage => Creates w.nextLsn g.tail stage ∧ g.hand = [] ∧ g.inboxed = [] ∧
      g.pended = [] ∧ w.dirty = false
  | .syncFull batch => Writes w g.tail [] ∧ batch.Holds (g.written.length + 1) g.hand ∧
      g.hand ≠ [] ∧ g.tail.segment.records ≠ []
  | .creating batch stage => Creates batch.firstLsn g.tail stage ∧
      batch.Holds (g.written.length + 1) g.hand ∧ g.hand ≠ [] ∧ w.dirty = false
  | .writing batch rest => ∃ begun, Writes w g.tail begun ∧ framesOf g.hand = begun ++ rest ∧
      batch.Holds (g.written.length + 1) g.hand ∧ g.hand ≠ []
  | .syncBatch batch => Writes w g.tail [] ∧ g.hand = [] ∧ batch.lastLsn = g.written.length
  | .publishing batch => Writes w g.tail [] ∧ g.hand = [] ∧ batch.lastLsn = g.written.length
  | .done => Writes w g.tail [] ∧ g.hand = [] ∧ w.stop = true ∧ g.inboxed = [] ∧ w.dirty = false
  | .synced => Writes w g.tail [] ∧ g.hand = [] ∧ w.dirty = false
  | .aborted => False
  | _ => Writes w g.tail [] ∧ g.hand = []

structure WriterInv (options : LogWriterOptions) (solo : Prop) (appended : List LogRecordView)
    (g : LogGhost) (s : LogSystem) : Prop where
  disk : LogDisk s.fs g.gone g.chain g.tail
  links : solo → s.fs.pending = g.tail.links
  chain : Chain (g.lost.length + 1) (g.gone ++ g.chain ++ [g.tail.segment])
  nonempty : ∀ t ∈ g.gone ++ g.chain, t.records ≠ []
  records : appended = g.written ++ g.hand ++ g.inboxed ++ g.pended
  run : Run 1 appended
  nextLsn : s.writer.nextLsn = appended.length + 1
  inbox : s.writer.inbox.Holds ((g.written ++ g.hand).length + 1) g.inboxed
  pending : s.writer.pending.Holds ((g.written ++ g.hand ++ g.inboxed).length + 1) g.pended
  phase : Phase s.writer g
  clean : options.fsyncPolicy = .kAlways → (∀ batch, s.writer.thread ≠ .syncBatch batch) →
    s.writer.dirty = false
  committed : s.writer.committedLsn ≤ g.written.length
  committedDurable : options.fsyncPolicy = .kAlways → s.writer.committedLsn ≤ g.durable.length
  stopping : s.writer.stop = true ↔ s.writer.owner ≠ .running
  flushed : s.writer.stop = true → g.pended = []
  stopped : s.writer.owner = .stopped → s.writer.thread = .done

variable {records appended : List LogRecordView} {g : LogGhost} {options : LogWriterOptions}

theorem Run.length_lt (run : Run 1 records) : records.length < 2 ^ 64 := by
  rcases List.eq_nil_or_concat' records with rfl | ⟨front, last, rfl⟩
  · decide
  · have fits := (run.fits last (by simp)).2
    have lsn := (run_append.1 run).2.1
    rw [length_append, List.length_singleton]
    omega

/-- The phase of an open writer does not depend on the owner's side. -/
theorem Phase.congr {w' : LogWriter} {g' : LogGhost} (phase : Phase w g)
    (opened : w.opened = true) (thread : w'.thread = w.thread) (active : w'.active = w.active)
    (dirty : w'.dirty = w.dirty) (stop : w.stop = true → w'.stop = true) (tail : g'.tail = g.tail)
    (hand : g'.hand = g.hand) (written : g'.written = g.written)
    (inboxed : w.stop = true → g'.inboxed = g.inboxed) : Phase w' g' := by
  unfold Phase at phase ⊢
  rw [thread, tail, hand, written]
  have writes {begun : Bytes} (writes : Writes w g.tail begun) : Writes w' g.tail begun := by
    unfold Writes at writes ⊢
    rwa [active, dirty]
  cases at_ : w.thread with
  | opening stage => simp [LogWriter.opened, at_] at opened
  | waiting => rw [at_] at phase; exact ⟨writes phase.1, phase.2⟩
  | syncFull batch => rw [at_] at phase; exact ⟨writes phase.1, phase.2⟩
  | creating batch stage => rw [at_] at phase; rw [dirty]; exact phase
  | writing batch rest =>
    rw [at_] at phase
    obtain ⟨begun, on, rest⟩ := phase
    exact ⟨begun, writes on, rest⟩
  | syncBatch batch => rw [at_] at phase; exact ⟨writes phase.1, phase.2⟩
  | publishing batch => rw [at_] at phase; exact ⟨writes phase.1, phase.2⟩
  | written => rw [at_] at phase; exact ⟨writes phase.1, phase.2⟩
  | syncDue => rw [at_] at phase; exact ⟨writes phase.1, phase.2⟩
  | synced => rw [at_] at phase; rw [dirty]; exact ⟨writes phase.1, phase.2⟩
  | done =>
    rw [at_] at phase
    obtain ⟨on, none, stopped, empty, clean⟩ := phase
    rw [dirty, inboxed stopped]
    exact ⟨writes on, none, stop stopped, empty, clean⟩
  | aborted => rw [at_] at phase; exact phase

/-! ## The owner's steps -/

namespace WriterInv

variable {options : LogWriterOptions} {solo : Prop} {appended : List LogRecordView} {g : LogGhost}
  {s : LogSystem}

section

variable (inv : WriterInv options solo appended g s) (opened : s.writer.opened = true)
  (running : s.writer.owner = .running)

include inv opened running

theorem append {type : UInt8} {payload : Bytes} (taken : s.writer.append type payload = some w) :
    WriterInv options solo (appended ++ [⟨s.writer.nextLsn, type, payload⟩])
      { g with pended := g.pended ++ [⟨s.writer.nextLsn, type, payload⟩] }
      { s with writer := w } := by
  have notStopped : s.writer.stop ≠ true := by
    intro stopped
    exact inv.stopping.1 stopped running
  unfold LogWriter.append at taken
  cases encoded : appendRecord s.writer.pending.bytes s.writer.nextLsn type payload with
  | none => simp [encoded] at taken
  | some bytes =>
    simp only [encoded, Option.some.injEq] at taken
    subst taken
    obtain ⟨fits, nonzero, rfl⟩ := appendRecord_isSome encoded
    have length := inv.run.length_lt
    have small : s.writer.nextLsn < 2 ^ 64 := by
      rcases Nat.lt_or_ge s.writer.nextLsn (2 ^ 64) with lt | ge
      · exact lt
      · have : s.writer.nextLsn = 2 ^ 64 := by have := inv.nextLsn; omega
        simp [this] at nonzero
    have here : s.writer.nextLsn = 1 + appended.length := by rw [inv.nextLsn]; omega
    have pended := congrArg List.length inv.records
    rw [length_append] at pended
    exact
      { inv with
        records := by rw [inv.records, append_assoc]; rfl
        run := run_append.2 ⟨inv.run, here, ⟨fits, small⟩, trivial⟩
        nextLsn := by simp [inv.nextLsn]
        pending := inv.pending.snoc (r := ⟨s.writer.nextLsn, type, payload⟩)
          (by simp only; omega)
        phase := inv.phase.congr opened rfl rfl rfl id rfl rfl rfl fun _ => rfl
        flushed := fun stopped => absurd stopped notStopped }

/-- `flush`: what was pending is behind what is in the inbox. -/
theorem flush :
    WriterInv options solo appended
      { g with inboxed := g.inboxed ++ g.pended, pended := [] }
      { s with writer := s.writer.flush } where
  __ := inv
  records := by
    rw [inv.records]
    simp only [append_assoc, append_nil]
    rfl
  nextLsn := by simpa using inv.nextLsn
  inbox := by
    refine LogWriter.flush_inbox inv.inbox ?_
    have behind : (g.written ++ g.hand).length + 1 + g.inboxed.length =
        (g.written ++ g.hand ++ g.inboxed).length + 1 := by
      simp only [length_append]
      omega
    exact behind ▸ inv.pending
  pending := LogWriter.flush_pending _ inv.pending
  phase := inv.phase.congr opened (by simp) (by simp) (by simp) (by simp) rfl rfl rfl
    fun stopped => absurd running (inv.stopping.1 stopped)
  clean := by simpa using inv.clean
  committed := (LogWriter.flush_committedLsn s.writer).trans_le inv.committed
  committedDurable := fun always =>
    (LogWriter.flush_committedLsn s.writer).trans_le (inv.committedDurable always)
  stopping := by simpa using inv.stopping
  flushed := fun _ => rfl
  stopped := by simpa using inv.stopped

end

/-- `stop`, behind its flush. -/
theorem stop (inv : WriterInv options solo appended g s) (opened : s.writer.opened = true)
    (flushed : g.pended = []) :
    WriterInv options solo appended g
      { s with writer := { s.writer with stop := true, owner := .joining } } where
  __ := inv
  phase := inv.phase.congr opened rfl rfl rfl (fun _ => rfl) rfl rfl rfl fun _ => rfl
  stopping := by simp
  flushed := fun _ => flushed
  stopped := by simp

/-- `stop` returns. -/
theorem join (inv : WriterInv options solo appended g s) (joining : s.writer.owner = .joining)
    (done : s.writer.thread = .done) :
    WriterInv options solo appended g
      { s with writer := { s.writer with owner := .stopped } } where
  __ := inv
  phase := inv.phase.congr (by simp [LogWriter.opened, done]) rfl rfl rfl id rfl rfl rfl
    fun _ => rfl
  stopping := by simpa [joining] using inv.stopping
  stopped := fun _ => done

/-! ## The log thread's steps -/

/-- A step of the log thread leaves the owner's side alone and moves records only
between the inbox, its hands and the disk. -/
structure Moves (g g' : LogGhost) (w w' : LogWriter) : Prop where
  thread : w.thread ≠ .done
  pending : w'.pending = w.pending
  nextLsn : w'.nextLsn = w.nextLsn
  owner : w'.owner = w.owner
  stop : w'.stop = w.stop
  pended : g'.pended = g.pended
  records : g'.written ++ g'.hand ++ g'.inboxed = g.written ++ g.hand ++ g.inboxed

theorem ofMoves {g' : LogGhost} {s' : LogSystem} (inv : WriterInv options solo appended g s)
    (moves : Moves g g' s.writer s'.writer)
    (disk : LogDisk s'.fs g'.gone g'.chain g'.tail) (links : solo → s'.fs.pending = g'.tail.links)
    (chain : Chain (g'.lost.length + 1) (g'.gone ++ g'.chain ++ [g'.tail.segment]))
    (nonempty : ∀ t ∈ g'.gone ++ g'.chain, t.records ≠ [])
    (inbox : s'.writer.inbox.Holds ((g'.written ++ g'.hand).length + 1) g'.inboxed)
    (phase : Phase s'.writer g')
    (clean : options.fsyncPolicy = .kAlways → (∀ batch, s'.writer.thread ≠ .syncBatch batch) →
      s'.writer.dirty = false)
    (committed : s'.writer.committedLsn ≤ g'.written.length)
    (committedDurable : options.fsyncPolicy = .kAlways →
      s'.writer.committedLsn ≤ g'.durable.length) :
    WriterInv options solo appended g' s' where
  disk := disk
  links := links
  chain := chain
  nonempty := nonempty
  records := by rw [moves.records, moves.pended, inv.records]
  run := inv.run
  nextLsn := by rw [moves.nextLsn, inv.nextLsn]
  inbox := inbox
  pending := by
    rw [moves.pending, moves.records, moves.pended]
    exact inv.pending
  phase := phase
  clean := clean
  committed := committed
  committedDurable := committedDurable
  stopping := by rw [moves.stop, moves.owner, inv.stopping]
  flushed := by
    rw [moves.stop, moves.pended]
    exact inv.flushed
  stopped := by
    rw [moves.owner]
    intro stopped
    exact absurd (inv.stopped stopped) moves.thread

end WriterInv

/-- What a stage of `create_segment` does. -/
theorem createStep_cases {gone : List Segment} {tail : LogTail} {stage : CreateStage}
    (disk : LogDisk fs gone chain tail) (creates : Creates firstLsn tail stage)
    (small : firstLsn < 2 ^ 64) (fresh : firstLsn ∉ (gone ++ chain).map Segment.firstLsn)
    (at_ : CreateStage → LogThread) (after : LogThread) (count : Nat) :
    (∃ fs' tail' stage', createStep firstLsn at_ after count ⟨fs, w⟩ stage =
        ⟨fs', { w with thread := at_ stage' }⟩ ∧
      LogDisk fs' gone chain tail' ∧ Creates firstLsn tail' stage' ∧
      (fs.pending = tail.links → fs'.pending = tail'.links)) ∨
    ∃ fs' file, createStep firstLsn at_ after count ⟨fs, w⟩ stage =
        ⟨fs', { w with thread := after, active := some file, dirty := false }⟩ ∧
      LogDisk fs' [] chain (.active firstLsn file [] [] []) ∧ fs'.pending = [] := by
  cases stage with
  | openNew =>
    obtain rfl := creates
    obtain ⟨fs', opened, disk, pending, -⟩ := disk.openNew small fresh
    refine .inl ⟨fs', _, .header fs.files.length (segmentHeader firstLsn), ?_, disk,
      ⟨[], rfl, rfl⟩, ?_⟩
    · simp only [createStep, opened]
      rfl
    · intro none
      rw [pending, none]
      rfl
  | header file rest =>
    obtain ⟨header, rfl, split⟩ := creates
    by_cases complete : rest = []
    · refine .inl ⟨fs, _, .syncFile file, by simp only [createStep, complete, if_true], disk, ?_,
        id⟩
      rw [complete, append_nil] at split
      exact congrArg (fun header => LogTail.creating firstLsn file header false) split.symm
    · have cut : segmentHeader firstLsn = header ++ (rest.take count ++ rest.drop count) := by
        rw [List.take_append_drop, split]
      refine .inl ⟨_, _, .header file (rest.drop count), ?_, disk.appendHeader cut,
        ⟨_, rfl, by rw [append_assoc, ← cut]⟩, id⟩
      simp only [createStep, complete, if_false]
  | syncFile file =>
    obtain rfl := creates
    exact .inl ⟨_, _, .syncDir file, rfl, disk.syncHeader, rfl, id⟩
  | syncDir file =>
    obtain rfl := creates
    exact .inr ⟨_, file, rfl, disk.syncDir, rfl⟩

/-- The segments whose removal was not durable may have become so. -/
def LogGhost.Settles (g g' : LogGhost) : Prop :=
  g'.lost = g.lost ∧ g'.gone = g.gone ∨ g'.lost = g.lost ++ recordsOf g.gone ∧ g'.gone = []

theorem Creates.segment {firstLsn : Nat} {tail : LogTail} {stage : CreateStage}
    (creates : Creates firstLsn tail stage) :
    tail.segment = ⟨firstLsn, []⟩ ∧ tail.syncedRecords = [] := by
  cases stage with
  | openNew => obtain rfl := creates; exact ⟨rfl, rfl⟩
  | header file rest => obtain ⟨header, rfl, -⟩ := creates; exact ⟨rfl, rfl⟩
  | syncFile file => obtain rfl := creates; exact ⟨rfl, rfl⟩
  | syncDir file => obtain rfl := creates; exact ⟨rfl, rfl⟩

namespace WriterInv

variable {options : LogWriterOptions} {solo : Prop} {appended : List LogRecordView} {g : LogGhost}
  {s : LogSystem}

section

variable (inv : WriterInv options solo appended g s)

include inv

theorem firstLsn_eq : g.tail.segment.firstLsn = g.closed.length + 1 := by
  have first := (chain_append.1 inv.chain).2.1
  rw [first, LogGhost.closed, length_append]
  omega

theorem firstLsn_lt : g.tail.segment.firstLsn < 2 ^ 64 :=
  (inv.chain.mem g.tail.segment (by simp)).2.1

/-- The last segment has a name of its own. -/
theorem fresh : g.tail.segment.firstLsn ∉ (g.gone ++ g.chain).map Segment.firstLsn := by
  intro mem
  obtain ⟨t, mem, same⟩ := List.mem_map.1 mem
  obtain ⟨front, back, split⟩ := List.append_of_mem mem
  have chain := inv.chain
  have some_ := List.length_pos_iff.2 (inv.nonempty t mem)
  rw [split] at chain
  obtain ⟨chain, last, -⟩ := chain_append.1 chain
  have first := (chain_append.1 chain).2.1
  simp only [recordsOf_append, recordsOf_cons, length_append] at last
  omega

/-- A stage of `create_segment`, in `open` or in a roll. -/
theorem create {stage : CreateStage}
    (creates : Creates firstLsn g.tail stage) (at_ : CreateStage → LogThread) (after : LogThread)
    (count : Nat) (notDone : s.writer.thread ≠ .done)
    (goesOn : ∀ (tail : LogTail) (stage : CreateStage), Creates firstLsn tail stage →
      Phase { s.writer with thread := at_ stage } { g with tail }) (clean : s.writer.dirty = false)
    (ends : ∀ (g' : LogGhost) (file : Nat), g'.hand = g.hand → g'.written = g.written →
      g'.tail = .active firstLsn file [] [] [] →
      Phase { s.writer with thread := after, active := some file, dirty := false } g') :
    ∃ g', WriterInv options solo appended g'
        (createStep firstLsn at_ after count s stage) ∧ g.Settles g' := by
  obtain ⟨segment, synced⟩ := creates.segment
  have small := inv.firstLsn_lt
  have fresh := inv.fresh
  rw [segment] at small fresh
  rcases createStep_cases (w := s.writer) inv.disk creates small fresh at_ after count with
    ⟨fs', tail', stage', eq, disk, creates', links⟩ | ⟨fs', file, eq, disk, links⟩
  · obtain ⟨segment', synced'⟩ := creates'.segment
    refine ⟨{ g with tail := tail' }, ?_, .inl ⟨rfl, rfl⟩⟩
    have same : LogGhost.written { g with tail := tail' } = g.written := by
      simp only [LogGhost.written, LogGhost.closed, segment, segment']
    have same' : LogGhost.durable { g with tail := tail' } = g.durable := by
      simp only [LogGhost.durable, LogGhost.closed, synced, synced']
    rw [eq]
    refine inv.ofMoves ⟨notDone, rfl, rfl, rfl, rfl, rfl, by rw [same]⟩ disk
      (fun alone => links (inv.links alone)) ?_ inv.nonempty (by rw [same]; exact inv.inbox)
      (goesOn tail' stage' creates') (fun _ _ => clean) (by rw [same]; exact inv.committed)
      (by rw [same']; exact inv.committedDurable)
    have chain := inv.chain
    rw [segment] at chain
    simpa only [segment'] using chain
  · -- the directory was synced: what was removed is gone for good
    let g' : LogGhost := { g with
      lost := g.lost ++ recordsOf g.gone
      gone := []
      tail := .active firstLsn file [] [] [] }
    have closed : g'.closed = g.closed := by
      simp [g', LogGhost.closed]
    have same : g'.written = g.written := by
      rw [LogGhost.written, closed, LogGhost.written, segment]
      rfl
    have same' : g'.durable = g.durable := by
      rw [LogGhost.durable, closed, LogGhost.durable, synced]
      rfl
    refine ⟨g', ?_, .inr ⟨rfl, rfl⟩⟩
    rw [eq]
    refine inv.ofMoves ⟨notDone, rfl, rfl, rfl, rfl, rfl, by rw [same]⟩ disk
      (fun _ => links) ?_ (fun t mem => inv.nonempty t (List.mem_append_right _ mem))
      (by rw [same]; exact inv.inbox) (ends g' file rfl same rfl) (fun _ _ => rfl)
      (by rw [same]; exact inv.committed) (by rw [same']; exact inv.committedDurable)
    have chain := inv.chain
    rw [append_assoc, chain_append, segment] at chain
    have start : g.lost.length + 1 + (recordsOf g.gone).length = g'.lost.length + 1 := by
      simp only [g', length_append]
      omega
    exact start ▸ chain.2

/-- The full segment joins the chain, and the next one begins behind it. -/
theorem chain_roll {next : Nat} (behind : next = g.written.length + 1) (small : next < 2 ^ 64) :
    Chain (g.lost.length + 1) (g.gone ++ (g.chain ++ [g.tail.segment]) ++ [⟨next, []⟩]) := by
  rw [← append_assoc, chain_append]
  refine ⟨inv.chain, ?_, ?_, trivial, trivial⟩
  · rw [behind, LogGhost.written, LogGhost.closed, recordsOf_append _ [_], recordsOf_cons,
      recordsOf_nil]
    simp only [length_append, append_nil]
    omega
  · have : next = g.lost.length + 1 + (recordsOf (g.gone ++ g.chain ++ [g.tail.segment])).length := by
      rw [behind, LogGhost.written, LogGhost.closed, recordsOf_append _ [_], recordsOf_cons,
        recordsOf_nil]
      simp only [length_append, append_nil]
      omega
    omega

/-- There is room for the LSN of a record that waits to be written. -/
theorem next_lt (some_ : g.hand ++ g.inboxed ≠ []) : g.written.length + 1 < 2 ^ 64 := by
  have length := inv.run.length_lt
  have positive := List.length_pos_iff.2 some_
  rw [inv.records] at length
  simp only [length_append] at length positive
  omega

/-- A roll: the active segment, all of it synced, is closed. -/
theorem roll {ino : Nat}
    {synced hand inboxed : List LogRecordView} {batch : Batch}
    (disk : LogDisk fs g.gone g.chain (.active firstLsn ino synced [] []))
    (links : solo → fs.pending = []) (segment : g.tail.segment = ⟨firstLsn, synced⟩)
    (full : synced ≠ []) (holds : batch.Holds (g.written.length + 1) hand) (some_ : hand ≠ [])
    (records : hand ++ inboxed = g.hand ++ g.inboxed)
    (inbox : w.inbox.Holds ((g.written ++ hand).length + 1) inboxed)
    (thread : w.thread = .creating batch .openNew) (dirty : w.dirty = false)
    (same : w.pending = s.writer.pending ∧ w.nextLsn = s.writer.nextLsn ∧
      w.owner = s.writer.owner ∧ w.stop = s.writer.stop ∧ w.committedLsn = s.writer.committedLsn)
    (notDone : s.writer.thread ≠ .done) :
    ∃ g', WriterInv options solo appended g' ⟨fs, w⟩ ∧ g.Settles g' := by
  let g' : LogGhost := { g with
    chain := g.chain ++ [g.tail.segment]
    tail := .absent batch.firstLsn
    hand
    inboxed }
  have closed : g'.closed = g.written := by
    simp [g', LogGhost.closed, LogGhost.written]
  have written : g'.written = g.written := by
    rw [LogGhost.written, closed]
    exact append_nil _
  have durable : g'.durable = g.written := by
    rw [LogGhost.durable, closed]
    exact append_nil _
  have room := inv.next_lt (by simp [← records, some_])
  have first := holds.first some_
  obtain ⟨pending, nextLsn, owner, stop, committed⟩ := same
  refine ⟨g', ?_, .inl ⟨rfl, rfl⟩⟩
  refine inv.ofMoves ⟨notDone, pending, nextLsn, owner, stop, rfl, ?_⟩ ?_ links ?_ ?_ ?_ ?_
    (fun _ _ => dirty) ?_ (fun _ => ?_)
  · rw [written, append_assoc, append_assoc, ← records]
  · simp only [g', segment]
    exact disk.roll _
  · exact inv.chain_roll first (by omega)
  · intro t mem
    simp only [g', ← append_assoc] at mem
    rcases List.mem_append.1 mem with old | new
    · exact inv.nonempty t old
    · rw [List.mem_singleton.1 new, segment]
      exact full
  · rw [written]
    exact inbox
  · simp only [Phase, thread]
    exact ⟨rfl, written ▸ holds, some_, dirty⟩
  · rw [written, committed]
    exact inv.committed
  · rw [durable, committed]
    exact inv.committed

end

variable {file : Nat} {batch : Batch}

theorem startBatch_eq (active : w.active = some file) (batch : Batch) :
    startBatch options ⟨fs, w⟩ batch =
      if options.segmentSize ≤ fs.size file then
        if w.dirty then { w with thread := .syncFull batch }
        else { w with thread := .creating batch .openNew, active := none }
      else { w with thread := .writing batch batch.bytes } := by
  cases w
  obtain rfl := active
  rfl

theorem syncActive_eq (active : s.writer.active = some file) (thread : LogThread) :
    syncActive s thread = ⟨s.fs.sync file, { s.writer with thread, dirty := false }⟩ := by
  obtain ⟨fs, w⟩ := s
  cases w
  obtain rfl := active
  rfl

section

variable (inv : WriterInv options solo appended g s)

include inv

/-- What is in the inbox is taken. -/
theorem take (big : kSegmentHeaderSize + kRecordHeaderSize ≤ options.segmentSize)
    (waiting : s.writer.thread = .waiting) (some_ : s.writer.inbox.empty = false) :
    ∃ g', WriterInv options solo appended g'
        ⟨s.fs, startBatch options ⟨s.fs, { s.writer with inbox := {} }⟩ s.writer.inbox⟩ ∧
      g.Settles g' := by
  have phase := inv.phase
  unfold Phase at phase
  rw [waiting] at phase
  obtain ⟨⟨firstLsn, ino, synced, unsynced, tail, active, dirty⟩, none⟩ := phase
  have notDone : s.writer.thread ≠ .done := by simp [waiting]
  have inboxed : g.inboxed ≠ [] := by
    intro empty
    rw [inv.inbox.empty_iff.2 empty] at some_
    cases some_
  have holds : s.writer.inbox.Holds (g.written.length + 1) g.inboxed := by
    have := inv.inbox
    rwa [none, append_nil] at this
  have disk := inv.disk
  rw [tail] at disk
  have size : s.fs.size ino = kSegmentHeaderSize + (framesOf (synced ++ unsynced)).length := by
    obtain ⟨-, -, -, file⟩ := disk.last
    rw [SimFs.size, file, append_nil, Segment.bytes_length]
  have records : g.tail.segment.records = synced ++ unsynced := by rw [tail]; rfl
  have full (long : options.segmentSize ≤ s.fs.size ino) : synced ++ unsynced ≠ [] := by
    intro empty
    rw [size, empty] at long
    simp only [framesOf_nil, List.length_nil, kRecordHeaderSize] at long big
    omega
  have links (alone : solo) : s.fs.pending = [] := by
    rw [inv.links alone, tail]
    rfl
  let g' : LogGhost := { g with hand := g.inboxed, inboxed := [] }
  have moves : g'.written ++ g'.hand ++ g'.inboxed = g.written ++ g.hand ++ g.inboxed := by
    rw [none, append_nil, append_nil]
    rfl
  have always : options.fsyncPolicy = .kAlways → s.writer.dirty = false := fun always =>
    inv.clean always (by simp [waiting])
  have started : startBatch options ⟨s.fs, { s.writer with inbox := {} }⟩ s.writer.inbox = _ :=
    startBatch_eq (w := { s.writer with inbox := {} }) active s.writer.inbox
  rw [started]
  by_cases long : options.segmentSize ≤ s.fs.size ino
  · rw [if_pos long]
    by_cases clean : s.writer.dirty = true
    · rw [if_pos clean]
      refine ⟨g', inv.ofMoves ⟨notDone, rfl, rfl, rfl, rfl, rfl, moves⟩ inv.disk inv.links
        inv.chain inv.nonempty (Batch.holds_nil _) ?_ ?_ inv.committed inv.committedDurable,
        .inl ⟨rfl, rfl⟩⟩
      · exact ⟨⟨firstLsn, ino, synced, unsynced, tail, active, dirty⟩, holds, inboxed,
          records ▸ full long⟩
      · intro policy
        rw [always policy] at clean
        cases clean
    · rw [if_neg clean]
      rw [Bool.not_eq_true] at clean
      obtain rfl := dirty clean
      refine inv.roll disk links (by rw [tail]; simp [LogTail.segment])
        (by simpa using full long) holds inboxed ?_ (Batch.holds_nil _) rfl clean
        ⟨rfl, rfl, rfl, rfl, rfl⟩ notDone
      rw [none, append_nil]
      rfl
  · rw [if_neg long]
    refine ⟨g', inv.ofMoves ⟨notDone, rfl, rfl, rfl, rfl, rfl, moves⟩ inv.disk inv.links
      inv.chain inv.nonempty (Batch.holds_nil _) ?_ (fun policy _ => always policy) inv.committed
      inv.committedDurable, .inl ⟨rfl, rfl⟩⟩
    exact ⟨[], ⟨firstLsn, ino, synced, unsynced, tail, active, dirty⟩, holds.bytes.symm, holds,
      inboxed⟩

/-- `sync_active`: everything written is durable. -/
theorem sync (writes : Writes s.writer g.tail [])
    (notDone : s.writer.thread ≠ .done) (thread : LogThread)
    (phase : ∀ g' : LogGhost, g'.written = g.written → g'.hand = g.hand →
      Writes { s.writer with thread, dirty := false } g'.tail [] →
      Phase { s.writer with thread, dirty := false } g') :
    ∃ g', WriterInv options solo appended g' (syncActive s thread) ∧ g.Settles g' ∧
      g'.durable = g.written := by
  obtain ⟨firstLsn, ino, synced, unsynced, tail, active, dirty⟩ := writes
  let g' : LogGhost := { g with tail := .active firstLsn ino (synced ++ unsynced) [] [] }
  have segment : g'.tail.segment = g.tail.segment := by
    rw [tail]
    simp [g', LogTail.segment]
  have written : g'.written = g.written := by
    rw [LogGhost.written, segment]
    rfl
  have durable : g'.durable = g.written := by
    rw [LogGhost.durable, LogGhost.written, tail]
    rfl
  have disk := inv.disk
  rw [tail] at disk
  refine ⟨g', ?_, .inl ⟨rfl, rfl⟩, durable⟩
  rw [syncActive_eq active]
  refine inv.ofMoves ⟨notDone, rfl, rfl, rfl, rfl, rfl, by rw [written]⟩ disk.sync ?_ ?_
    inv.nonempty (by rw [written]; exact inv.inbox) (phase g' written rfl ?_) (fun _ _ => rfl)
    (by rw [written]; exact inv.committed) (fun _ => by rw [durable]; exact inv.committed)
  · intro alone
    rw [SimFs.sync_pending, inv.links alone, tail]
    rfl
  · rw [segment]
    exact inv.chain
  · exact ⟨firstLsn, ino, synced ++ unsynced, [], rfl, active, fun _ => rfl⟩

/-- The end of the loop's body. -/
theorem endOfLoop (writes : Writes s.writer g.tail [])
    (none : g.hand = []) (notDone : s.writer.thread ≠ .done)
    (notSync : ∀ batch, s.writer.thread ≠ .syncBatch batch) (timeout : Bool) :
    WriterInv options solo appended g ⟨s.fs, Baton.endOfLoop timeout s.writer⟩ := by
  have always : options.fsyncPolicy = .kAlways → s.writer.dirty = false := fun always =>
    inv.clean always notSync
  unfold Baton.endOfLoop
  simp only
  split
  · exact inv.ofMoves ⟨notDone, rfl, rfl, rfl, rfl, rfl, rfl⟩ inv.disk inv.links inv.chain
      inv.nonempty inv.inbox ⟨writes, none⟩ (fun policy _ => always policy) inv.committed
      inv.committedDurable
  · rename_i notDue
    split
    · rename_i stopping
      obtain ⟨stop, empty⟩ := Bool.and_eq_true_iff.1 stopping
      have clean : s.writer.dirty = false := by
        simpa [stopping] using notDue
      exact inv.ofMoves ⟨notDone, rfl, rfl, rfl, rfl, rfl, rfl⟩ inv.disk inv.links inv.chain
        inv.nonempty inv.inbox ⟨writes, none, stop, inv.inbox.empty_iff.1 empty, clean⟩
        (fun policy _ => always policy) inv.committed inv.committedDurable
    · exact inv.ofMoves ⟨notDone, rfl, rfl, rfl, rfl, rfl, rfl⟩ inv.disk inv.links inv.chain
        inv.nonempty inv.inbox ⟨writes, none⟩ (fun policy _ => always policy) inv.committed
        inv.committedDurable

/-- The full segment is synced before the log goes on elsewhere. -/
theorem syncFull (thread : s.writer.thread = .syncFull batch) :
    ∃ g', WriterInv options solo appended g'
        (let synced := syncActive s (.creating batch .openNew)
         { synced with writer := { synced.writer with active := none } }) ∧ g.Settles g' := by
  have phase := inv.phase
  unfold Phase at phase
  rw [thread] at phase
  obtain ⟨⟨firstLsn, ino, synced, unsynced, tail, active, -⟩, holds, some_, full⟩ := phase
  have disk := inv.disk
  rw [tail] at disk full
  have links (alone : solo) : (s.fs.sync ino).pending = [] := by
    rw [SimFs.sync_pending, inv.links alone, tail]
    rfl
  rw [syncActive_eq active]
  exact inv.roll disk.sync links (by rw [tail]; rfl) full holds some_ rfl inv.inbox rfl rfl
    ⟨rfl, rfl, rfl, rfl, rfl⟩ (by simp [thread])

/-- A part of a batch is written, or all of it has been. -/
theorem writing {rest : Bytes} (thread : s.writer.thread = .writing batch rest) (count : Nat)
    (timeout : Bool) {t : LogSystem} (taken : threadStep options count timeout s = some t) :
    ∃ g', WriterInv options solo appended g' t ∧ g.Settles g' := by
  have phase := inv.phase
  unfold Phase at phase
  rw [thread] at phase
  obtain ⟨begun, ⟨firstLsn, ino, synced, unsynced, tail, active, dirty⟩, split, holds, some_⟩ := phase
  have notDone : s.writer.thread ≠ .done := by simp [thread]
  have disk := inv.disk
  rw [tail] at disk
  have links (alone : solo) : s.fs.pending = [] := by
    rw [inv.links alone, tail]
    rfl
  simp only [threadStep, thread] at taken
  split at taken
  · rename_i none
    rw [active] at none
    cases none
  rename_i file same
  rw [active] at same
  cases same
  split at taken
  · rename_i complete
    rw [complete, append_nil] at split
    rw [← split] at disk
    let g' : LogGhost :=
      { g with tail := .active firstLsn ino synced (unsynced ++ g.hand) [], hand := [] }
    have written : g'.written = g.written ++ g.hand := by
      simp [g', LogGhost.written, LogGhost.closed, LogTail.segment, tail]
    have durable : g'.durable = g.durable := by
      simp [g', LogGhost.durable, LogGhost.closed, LogTail.syncedRecords, tail]
    have last : batch.lastLsn = g'.written.length := by
      have := holds.last some_
      rw [written, length_append]
      omega
    have writes {next : LogThread} :
        Writes { s.writer with thread := next, dirty := true } g'.tail [] :=
      ⟨firstLsn, ino, synced, unsynced ++ g.hand, rfl, active, by simp⟩
    have chain : Chain (g'.lost.length + 1) (g'.gone ++ g'.chain ++ [g'.tail.segment]) := by
      have chain := inv.chain
      have first := inv.firstLsn_eq
      have run := inv.run
      rw [inv.records, append_assoc, append_assoc, LogGhost.written] at run
      rw [tail] at chain first run
      obtain ⟨front, here, small, -⟩ := chain_append.1 chain
      refine chain_append.2 ⟨front, here, small, ?_, trivial⟩
      simp only [LogTail.segment] at first here run
      rw [append_assoc, ← append_assoc (_ ++ _) g.hand] at run
      have inner := (run_append.1 (run_append.1 run).2).1
      rw [← here, first, Nat.add_comm]
      simpa [g', LogTail.segment] using inner
    obtain rfl := Option.some.inj taken
    refine ⟨g', inv.ofMoves ⟨notDone, rfl, rfl, rfl, rfl, rfl, ?_⟩ disk.written links chain
      inv.nonempty ?_ ?_ ?_ ?_ ?_, .inl ⟨rfl, rfl⟩⟩
    · rw [written, append_nil]
    · rw [written, append_nil]
      exact inv.inbox
    · cases options.fsyncPolicy with
      | kAlways => exact ⟨writes, rfl, last⟩
      | kInterval => exact ⟨writes, rfl, last⟩
    · intro policy notSync
      rw [policy] at notSync
      exact absurd rfl (notSync batch)
    · rw [written, length_append]
      exact inv.committed.trans (Nat.le_add_right _ _)
    · rw [durable]
      exact inv.committedDurable
  · let g' : LogGhost :=
      { g with tail := .active firstLsn ino synced unsynced (begun ++ rest.take count) }
    have written : g'.written = g.written := by
      simp [g', LogGhost.written, LogGhost.closed, LogTail.segment, tail]
    have durable : g'.durable = g.durable := by
      simp [g', LogGhost.durable, LogGhost.closed, LogTail.syncedRecords, tail]
    have chain := inv.chain
    rw [tail] at chain
    obtain rfl := Option.some.inj taken
    refine ⟨g', inv.ofMoves ⟨notDone, rfl, rfl, rfl, rfl, rfl, by rw [written]⟩
      (disk.appendBatch _) links chain inv.nonempty (by rw [written]; exact inv.inbox) ?_
      (fun policy _ => inv.clean policy (by simp [thread])) (by rw [written]; exact inv.committed)
      (by rw [durable]; exact inv.committedDurable), .inl ⟨rfl, rfl⟩⟩
    refine ⟨begun ++ rest.take count, ⟨firstLsn, ino, synced, unsynced, rfl, active, dirty⟩, ?_,
      written ▸ holds, some_⟩
    rw [append_assoc, List.take_append_drop]
    exact split

/-- Every step of the log thread keeps the invariant. -/
theorem thread (big : kSegmentHeaderSize + kRecordHeaderSize ≤ options.segmentSize) (count : Nat)
    (timeout : Bool) {t : LogSystem} (taken : threadStep options count timeout s = some t) :
    ∃ g', WriterInv options solo appended g' t ∧ g.Settles g' := by
  have phase := inv.phase
  unfold Phase at phase
  cases at_ : s.writer.thread with
  | opening stage =>
    rw [at_] at phase
    obtain ⟨creates, hand, inboxed, pended, clean⟩ := phase
    simp only [threadStep, at_, Option.some.injEq] at taken
    subst taken
    refine inv.create creates .opening .waiting count (by simp [at_]) ?_ clean ?_
    · intro tail stage creates
      exact ⟨creates, hand, inboxed, pended, clean⟩
    · intro g' file same _ tail
      exact ⟨⟨_, file, [], [], tail, rfl, fun _ => rfl⟩, same.trans hand⟩
  | waiting =>
    rw [at_] at phase
    simp only [threadStep, at_] at taken
    split at taken
    · rename_i some_
      obtain rfl := Option.some.inj taken
      exact inv.take big at_ (by simpa using some_)
    · split at taken
      · obtain rfl := Option.some.inj taken
        exact ⟨g, inv.endOfLoop phase.1 phase.2 (by simp [at_]) (by simp [at_]) timeout,
          .inl ⟨rfl, rfl⟩⟩
      · cases taken
  | syncFull batch =>
    simp only [threadStep, at_, Option.some.injEq] at taken
    subst taken
    exact inv.syncFull at_
  | creating batch stage =>
    rw [at_] at phase
    obtain ⟨creates, holds, some_, clean⟩ := phase
    simp only [threadStep, at_, Option.some.injEq] at taken
    subst taken
    refine inv.create creates (.creating batch) (.writing batch batch.bytes) count
      (by simp [at_]) ?_ clean ?_
    · intro tail stage creates'
      refine ⟨creates', ?_, some_, clean⟩
      have same : LogGhost.written { g with tail } = g.written := by
        simp only [LogGhost.written, LogGhost.closed, creates.segment.1, creates'.segment.1]
      rw [same]
      exact holds
    · intro g' file same written tail
      rw [← same] at holds some_
      exact ⟨[], ⟨_, file, [], [], tail, rfl, fun _ => rfl⟩, holds.bytes.symm, written ▸ holds,
        some_⟩
  | writing batch rest => exact inv.writing at_ count timeout taken
  | syncBatch batch =>
    rw [at_] at phase
    obtain ⟨writes, none, last⟩ := phase
    simp only [threadStep, at_, Option.some.injEq] at taken
    subst taken
    obtain ⟨g', inv, settles, -⟩ := inv.sync writes (by simp [at_]) (.publishing batch)
      fun g' written hand writes => ⟨writes, hand.trans none, written ▸ last⟩
    exact ⟨g', inv, settles⟩
  | publishing batch =>
    rw [at_] at phase
    obtain ⟨writes, none, last⟩ := phase
    simp only [threadStep, at_, Option.some.injEq] at taken
    subst taken
    refine ⟨g, inv.ofMoves ⟨by simp [at_], rfl, rfl, rfl, rfl, rfl, rfl⟩ inv.disk inv.links
      inv.chain inv.nonempty inv.inbox ⟨writes, none⟩
      (fun policy _ => inv.clean policy (by simp [at_])) (Nat.le_of_eq last) ?_, .inl ⟨rfl, rfl⟩⟩
    intro policy
    obtain ⟨firstLsn, ino, synced, unsynced, tail, -, dirty⟩ := writes
    have all : g.durable = g.written := by
      rw [LogGhost.durable, LogGhost.written, tail, dirty (inv.clean policy (by simp [at_]))]
      simp [LogTail.syncedRecords, LogTail.segment]
    rw [all]
    exact Nat.le_of_eq last
  | written =>
    rw [at_] at phase
    simp only [threadStep, at_, Option.some.injEq] at taken
    subst taken
    exact ⟨g, inv.endOfLoop phase.1 phase.2 (by simp [at_]) (by simp [at_]) timeout,
      .inl ⟨rfl, rfl⟩⟩
  | syncDue =>
    rw [at_] at phase
    simp only [threadStep, at_, Option.some.injEq] at taken
    subst taken
    obtain ⟨g', inv, settles, -⟩ := inv.sync phase.1 (by simp [at_]) .synced
      fun g' _ hand writes => ⟨writes, hand.trans phase.2, rfl⟩
    exact ⟨g', inv, settles⟩
  | synced =>
    rw [at_] at phase
    obtain ⟨writes, none, clean⟩ := phase
    simp only [threadStep, at_, Option.some.injEq] at taken
    subst taken
    refine ⟨g, inv.ofMoves ⟨by simp [at_], rfl, rfl, rfl, rfl, rfl, rfl⟩ inv.disk inv.links
      inv.chain inv.nonempty inv.inbox ?_ (fun _ _ => clean) inv.committed inv.committedDurable,
      .inl ⟨rfl, rfl⟩⟩
    by_cases stopping : (s.writer.stop && s.writer.inbox.empty) = true
    · obtain ⟨stop, empty⟩ := Bool.and_eq_true_iff.1 stopping
      simp only [stopping, if_true]
      exact ⟨writes, none, stop, inv.inbox.empty_iff.1 empty, clean⟩
    · simp only [stopping]
      exact ⟨writes, none⟩
  | done => simp [threadStep, at_] at taken
  | aborted => simp [threadStep, at_] at taken

end

end WriterInv

/-- The records a step appends. -/
def LogStep.appends (nextLsn : Nat) : LogStep → List LogRecordView
  | .append type payload => [⟨nextLsn, type, payload⟩]
  | .flush => []
  | .stop => []
  | .join => []
  | .thread _ _ => []

/-- Every step of either party keeps the invariant. -/
theorem logStep_inv {s t : LogSystem} (inv : WriterInv options solo appended g s)
    (big : kSegmentHeaderSize + kRecordHeaderSize ≤ options.segmentSize) (step : LogStep)
    (taken : logStep options step s = some t) :
    ∃ g', WriterInv options solo (appended ++ step.appends s.writer.nextLsn) g' t ∧
      g.Settles g' := by
  cases step with
  | append type payload =>
    simp only [logStep] at taken
    split at taken
    · rename_i enabled
      obtain ⟨w, encoded, rfl⟩ := Option.map_eq_some_iff.1 taken
      exact ⟨_, inv.append enabled.1 enabled.2 encoded, .inl ⟨rfl, rfl⟩⟩
    · cases taken
  | flush =>
    simp only [logStep] at taken
    split at taken
    · rename_i enabled
      obtain rfl := Option.some.inj taken
      rw [LogStep.appends, append_nil]
      exact ⟨_, inv.flush enabled.1 enabled.2, .inl ⟨rfl, rfl⟩⟩
    · cases taken
  | stop =>
    simp only [logStep] at taken
    split at taken
    · rename_i enabled
      obtain rfl := Option.some.inj taken
      rw [LogStep.appends, append_nil]
      refine ⟨_, (inv.flush enabled.1 enabled.2).stop ?_ rfl, .inl ⟨rfl, rfl⟩⟩
      simpa [LogWriter.opened] using enabled.1
    · cases taken
  | join =>
    simp only [logStep] at taken
    split at taken
    · rename_i enabled
      obtain rfl := Option.some.inj taken
      rw [LogStep.appends, append_nil]
      exact ⟨_, inv.join enabled.1 enabled.2, .inl ⟨rfl, rfl⟩⟩
    · cases taken
  | thread count timeout =>
    rw [LogStep.appends, append_nil]
    exact inv.thread big count timeout taken

theorem LogGhost.Settles.trans {g h k : LogGhost} (first : g.Settles h) (second : h.Settles k) :
    g.Settles k := by
  rcases first with ⟨lost, gone⟩ | ⟨lost, gone⟩ <;> rcases second with ⟨lost', gone'⟩ | ⟨lost', gone'⟩
  · exact .inl ⟨lost'.trans lost, gone'.trans gone⟩
  · exact .inr ⟨by rw [lost', lost, gone], gone'⟩
  · exact .inr ⟨lost'.trans lost, gone'.trans gone⟩
  · exact .inr ⟨by rw [lost', lost, gone, recordsOf_nil, append_nil], gone'⟩

/-- `open` with no segment to go on with. -/
theorem WriterInv.openNew (options : LogWriterOptions) {next : Nat}
    (disk : LogDisk fs [] chain (.absent next)) (links : solo → fs.pending = [])
    (segments : Chain 1 (chain ++ [⟨next, []⟩])) (nonempty : ∀ t ∈ chain, t.records ≠ []) :
    WriterInv options solo (recordsOf chain) { chain, tail := .absent next }
      ⟨fs, { nextLsn := next, committedLsn := next - 1, thread := .opening .openNew }⟩ := by
  have first : next = 1 + (recordsOf chain).length := (chain_append.1 segments).2.1
  exact
    { disk
      links
      chain := segments
      nonempty
      records := by simp [LogGhost.written, LogGhost.closed, LogTail.segment]
      run := (chain_append.1 segments).1.run
      nextLsn := by simp only; omega
      inbox := Batch.holds_nil _
      pending := Batch.holds_nil _
      phase := ⟨rfl, rfl, rfl, rfl, rfl⟩
      clean := fun _ _ => rfl
      committed := by
        simp [LogGhost.written, LogGhost.closed]
        omega
      committedDurable := fun _ => by
        simp [LogGhost.durable, LogGhost.closed]
        omega
      stopping := by simp
      flushed := fun _ => rfl
      stopped := fun stopped => by cases stopped }

/-- `open` of the newest segment. -/
theorem WriterInv.openExisting (options : LogWriterOptions) {ino : Nat}
    (disk : LogDisk fs [] chain (.active firstLsn ino records [] []))
    (links : solo → fs.pending = []) (segments : Chain 1 (chain ++ [⟨firstLsn, records⟩]))
    (nonempty : ∀ t ∈ chain, t.records ≠ []) :
    WriterInv options solo (recordsOf chain ++ records)
      { chain, tail := .active firstLsn ino records [] [] }
      ⟨fs,
        { nextLsn := firstLsn + records.length
          committedLsn := firstLsn + records.length - 1
          thread := .waiting
          active := some ino }⟩ := by
  have first : firstLsn = 1 + (recordsOf chain).length := (chain_append.1 segments).2.1
  exact
    { disk
      links
      chain := by simpa [LogTail.segment] using segments
      nonempty
      records := by simp [LogGhost.written, LogGhost.closed, LogTail.segment]
      run := by simpa using segments.run
      nextLsn := by simp only [length_append]; omega
      inbox := Batch.holds_nil _
      pending := Batch.holds_nil _
      phase := ⟨⟨firstLsn, ino, records, [], rfl, rfl, fun _ => rfl⟩, rfl⟩
      clean := fun _ _ => rfl
      committed := by
        simp [LogGhost.written, LogGhost.closed, LogTail.segment]
        omega
      committedDurable := fun _ => by
        simp [LogGhost.durable, LogGhost.closed, LogTail.syncedRecords]
        omega
      stopping := by simp
      flushed := fun _ => rfl
      stopped := fun stopped => by cases stopped }

end Baton
