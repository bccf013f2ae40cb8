/-
# Log.WriterRestart — a process crash, and a power loss after the restart

When a process dies, the next one sees everything that was written, synced or
not.  `recover_log` reads it and `LogWriter::open` announces all of it as
committed, but neither of them syncs what it found.  So a record can be committed
in the second process and be lost by a power loss (`restart_loses_committed`).

`LogLife` is the life of one log through any number of processes.  If at every
process crash the newest segment is one of which recovery keeps only what is
durable (`Settled`), every committed record survives a power loss at any moment
(`committed_survives_restarts`).
-/
import Baton.Log.WriterCrash

namespace Baton

open Theory
open List (append_assoc append_nil mem_append mem_append_left nil_append prefix_append)

set_option autoImplicit false

variable {options : LogWriterOptions} {s : LogSystem} {appended : List LogRecordView}
  {ino firstLsn : Nat} {header : Bytes}

/-! ## Lives -/

/-- The bytes behind the header are whole records, the first with LSN `lsn`. -/
def EndsWithRecord (lsn : Nat) (data : Bytes) : Prop :=
  ∃ records, Run lsn records ∧ data.drop kSegmentHeaderSize = framesOf records

/-- Recovery keeps only what is durable: if the header of the newest segment is
complete, its entry is durable, and its bytes are synced unless it ends inside a
record, which is then cut off. -/
def Settled (fs : SimFs) : Prop :=
  ∀ file ino, (listSegments fs).getLast? = some file →
    fs.current.lookup file.name = some ino →
    segmentHeader file.nameLsn <+: (fs.file ino).data →
    fs.durable.lookup file.name = some ino ∧
      ((fs.file ino).synced = (fs.file ino).data.length ∨
        ¬ EndsWithRecord file.nameLsn (fs.file ino).data)

/-- The log of an empty directory through any number of processes: the records
recovered and appended by the last of them, and its state.  What a process leaves
when it crashes meets `left`. -/
inductive LogLife (left : SimFs → Prop) :
    LogWriterOptions → List LogRecordView → LogSystem → Prop
  | first {options : LogWriterOptions} {s : LogSystem}
      (opened : LogWriter.open {} options {} = .ok s) : LogLife left options [] s
  | step {options : LogWriterOptions} {appended : List LogRecordView} {s t : LogSystem}
      (life : LogLife left options appended s) (step : LogStep)
      (taken : logStep options step s = some t) :
      LogLife left options (appended ++ step.appends s.writer.nextLsn) t
  | restart {options options' : LogWriterOptions} {appended : List LogRecordView}
      {s t : LogSystem} {recovered : RecoveredLog}
      (life : LogLife left options appended s) (leaves : left s.fs)
      (ok : (recoverLog 0 collect s.fs []).result = .ok recovered)
      (opened : LogWriter.open (recoverLog 0 collect s.fs []).fs options' recovered = .ok t) :
      LogLife left options' (recoverLog 0 collect s.fs []).user t

/-! ## What the next process sees -/

namespace LogDisk

variable {fs : SimFs} {chain : List Segment}

/-- The visible directory. -/
theorem visible {tail : LogTail} (disk : LogDisk fs [] chain tail) :
    (∃ firstLsn, tail = .absent firstLsn ∧ LogImage fs chain none) ∨
    ∃ firstLsn ino, tail.names = [firstLsn] ∧ tail.segment.firstLsn = firstLsn ∧
      tail.ino = some ino ∧ ino < fs.files.length ∧
      fs.current.lookup (segmentFileName firstLsn) = some ino ∧
      LogImage fs chain (some (firstLsn, (fs.file ino).data)) ∧
      ((∃ header isSynced, tail = .creating firstLsn ino header isSynced) ∧
          (fs.file ino).data <+: segmentHeader firstLsn ∨
        segmentHeader firstLsn <+: (fs.file ino).data) := by
  have stored : ∀ t ∈ chain, fs.content t.name = some t.bytes := by
    intro t mem
    obtain ⟨ino, stored, -, entry⟩ := disk.stored t mem
    rw [SimFs.content, entry, Option.map_some, stored.file]
  have only (name : FileName) (lsn : Nat) (parsed : parseSegmentFileName name = some lsn)
      (present : (fs.content name).isSome) :
      lsn ∈ chain.map Segment.firstLsn ++ tail.names := by
    rw [SimFs.content, Option.isSome_map] at present
    exact disk.currentNames name lsn parsed present
  have content {lsn ino : Nat} (entry : fs.current.lookup (segmentFileName lsn) = some ino)
      (lsn' : Nat) (data : Bytes) (same : some (lsn, (fs.file ino).data) = some (lsn', data)) :
      fs.content (segmentFileName lsn') = some data := by
    obtain ⟨rfl, rfl⟩ := Prod.mk.inj (Option.some.inj same)
    rw [SimFs.content, entry, Option.map_some]
  cases tail with
  | absent firstLsn => exact .inl ⟨firstLsn, rfl, stored, by simp, only⟩
  | creating firstLsn ino header isSynced =>
    obtain ⟨entry, -, exists_, initial, file⟩ := disk.last
    refine .inr ⟨firstLsn, ino, rfl, rfl, rfl, exists_, entry, ⟨stored, content entry, only⟩,
      .inl ⟨⟨_, _, rfl⟩, ?_⟩⟩
    rw [file]
    exact initial
  | active firstLsn ino synced unsynced begun =>
    obtain ⟨entry, -, exists_, file⟩ := disk.last
    refine .inr ⟨firstLsn, ino, rfl, rfl, rfl, exists_, entry, ⟨stored, content entry, only⟩,
      .inr ?_⟩
    rw [file, Segment.bytes, append_assoc]
    exact prefix_append _ _

/-- Segments with different names are in different files. -/
theorem stored_inj {s t : Segment} (stored : Stored fs s ino) (stored' : Stored fs t ino)
    (positive : s.firstLsn ≠ 0) (small : s.firstLsn < 2 ^ 64) (positive' : t.firstLsn ≠ 0)
    (small' : t.firstLsn < 2 ^ 64) : s.firstLsn = t.firstLsn := by
  have same : s.bytes = t.bytes := congrArg SimFile.data (stored.file.symm.trans stored'.file)
  have parsed := parseSegmentHeader_header positive small (framesOf s.records)
  rw [← Segment.bytes, same, Segment.bytes, parseSegmentHeader_header positive' small'] at parsed
  exact (Except.ok.inj parsed).symm

/-- The last complete segment is opened again. -/
theorem reopen {front : List Segment} {newest : Segment} {next : Nat}
    (disk : LogDisk fs [] (front ++ [newest]) (.absent next)) (segments : Chain 1 (front ++ [newest]))
    (nonempty : ∀ t ∈ front, t.records ≠ []) :
    ∃ ino, fs.current.lookup newest.name = some ino ∧
      LogDisk fs [] front (.active newest.firstLsn ino newest.records [] []) := by
  obtain ⟨ino, stored, -, entry⟩ := disk.stored newest (by simp)
  refine ⟨ino, entry, by simp, ?_, ?_, ?_, ?_⟩
  · intro t mem
    obtain ⟨other, stored', -, entry'⟩ := disk.stored t (mem_append_left _ mem)
    refine ⟨other, stored', ?_, entry'⟩
    rintro ⟨rfl⟩
    obtain ⟨low, small, -⟩ := segments.mem t (mem_append_left _ mem)
    obtain ⟨low', small', -⟩ := segments.mem newest (by simp)
    have same := stored_inj stored' stored (by omega) small (by omega) small'
    have before := (List.pairwise_append.1 (segments.pairwise nonempty)).2.2 t mem newest (by simp)
    omega
  · refine ⟨entry, stored.durable, stored.exists_, ?_⟩
    rw [append_nil, append_nil]
    exact stored.file
  · intro name lsn parsed present
    simpa [LogTail.names] using disk.currentNames name lsn parsed present
  · intro name lsn parsed present
    simpa [LogTail.names] using disk.durableNames name lsn parsed present

/-- A segment whose creation was torn is removed. -/
theorem remove {isSynced : Bool}
    (disk : LogDisk fs [] chain (.creating firstLsn ino header isSynced))
    (fresh : firstLsn ∉ chain.map Segment.firstLsn) (low : firstLsn < 2 ^ 64)
    (small : ∀ t ∈ chain, t.firstLsn < 2 ^ 64) :
    LogDisk ((Repair.removed (segmentFileName firstLsn)).apply fs) [] chain (.absent firstLsn) := by
  have removed : (Repair.removed (segmentFileName firstLsn)).apply fs =
      ⟨fs.files, fs.current.erase (segmentFileName firstLsn),
        fs.current.erase (segmentFileName firstLsn), []⟩ := by
    simp [Repair.apply, SimFs.remove, disk.last.1, Except.toOption, SimFs.syncDir]
  have names (name : FileName) (lsn : Nat) (parsed : parseSegmentFileName name = some lsn)
      (present : ((fs.current.erase (segmentFileName firstLsn)).lookup name).isSome) :
      lsn ∈ chain.map Segment.firstLsn := by
    by_cases same : name = segmentFileName firstLsn
    · rw [same, AList.lookup_erase] at present
      cases present
    · rw [AList.lookup_erase_ne same] at present
      have mem := disk.currentNames name lsn parsed present
      rw [LogTail.names, mem_append, List.mem_singleton] at mem
      refine mem.resolve_right fun here => same ?_
      rw [(parseSegmentFileName_eq_some.1 parsed).2, here]
  rw [removed]
  refine ⟨by simp, ?_, trivial, ?_, ?_⟩
  · intro t mem
    obtain ⟨other, stored, -, entry⟩ := disk.stored t mem
    have apart : t.name ≠ segmentFileName firstLsn := by
      intro same
      refine fresh ?_
      rw [← segmentFileName_inj (small t mem) low same]
      exact List.mem_map_of_mem mem
    have entry' : (fs.current.erase (segmentFileName firstLsn)).lookup t.name = some other := by
      rw [AList.lookup_erase_ne apart, entry]
    exact ⟨other, ⟨entry', stored.exists_, stored.file⟩, by simp [LogTail.ino], entry'⟩
  · simpa [LogTail.names] using names
  · simpa [LogTail.names] using names

/-- The newest segment is durable with these records. -/
theorem settle {tail : LogTail} (records : List LogRecordView) (disk : LogDisk fs [] chain tail)
    (named : tail.names = [firstLsn]) (here : tail.ino = some ino) (exists_ : ino < fs.files.length)
    (current : fs.current.lookup (segmentFileName firstLsn) = some ino)
    (durable : fs.durable.lookup (segmentFileName firstLsn) = some ino) :
    LogDisk (fs.setFile ino
        ⟨Segment.bytes ⟨firstLsn, records⟩, (Segment.bytes ⟨firstLsn, records⟩).length⟩)
      [] chain (.active firstLsn ino records [] []) := by
  refine disk.setLast here rfl named.symm ⟨current, durable, by simpa using exists_, ?_⟩
  rw [SimFs.file_setFile_self _ _ exists_, append_nil, append_nil]

end LogDisk

/-! ## Opening what was recovered -/

section

variable {options : LogWriterOptions} {fs : SimFs} {recovered : RecoveredLog} {t : LogSystem}

theorem LogWriter.open_none (opened : LogWriter.open fs options recovered = .ok t)
    (none : recovered.segments = []) :
    t = ⟨fs,
      { nextLsn := recovered.lastLsn + 1
        committedLsn := recovered.lastLsn + 1 - 1
        thread := .opening .openNew }⟩ := by
  simp only [LogWriter.open, none, List.getLast?_nil] at opened
  split at opened
  · cases opened
  · split at opened
    · cases opened
    · exact (Except.ok.inj opened).symm

theorem LogWriter.open_some {newest : SegmentInfo}
    (opened : LogWriter.open fs options recovered = .ok t)
    (last : recovered.segments.getLast? = some newest)
    (entry : fs.current.lookup newest.name = some ino) :
    t = ⟨fs,
      { nextLsn := recovered.lastLsn + 1
        committedLsn := recovered.lastLsn + 1 - 1
        thread := .waiting
        active := some ino }⟩ := by
  simp only [LogWriter.open, last, SimFs.openAppend, entry] at opened
  split at opened
  · cases opened
  · split at opened
    · cases opened
    · exact (Except.ok.inj opened).symm

/-- The chain is complete, and its last segment is opened if it was read. -/
theorem open_chain_inv {skipped kept : List Segment} {next : Nat}
    (disk : LogDisk fs [] (skipped ++ kept) (.absent next))
    (segments : Chain 1 (skipped ++ kept ++ [⟨next, []⟩]))
    (nonempty : ∀ t ∈ skipped ++ kept, t.records ≠ []) (last : recovered.lastLsn + 1 = next)
    (read : recovered.segments = kept.map fun s => s.file.info s.records)
    (opened : LogWriter.open fs options recovered = .ok t) :
    ∃ g, WriterInv options False (recordsOf (skipped ++ kept)) g t ∧ g.lost = [] ∧ g.gone = [] := by
  rcases List.eq_nil_or_concat' kept with rfl | ⟨kept, newest, rfl⟩
  · rw [LogWriter.open_none opened read, last]
    exact ⟨_, WriterInv.openNew options disk False.elim segments nonempty, rfl, rfl⟩
  · rw [← append_assoc] at disk segments nonempty ⊢
    have chain := (chain_append.1 segments).1
    have front : ∀ t ∈ skipped ++ kept, t.records ≠ [] := fun t mem =>
      nonempty t (mem_append_left _ mem)
    obtain ⟨ino, entry, disk⟩ := disk.reopen chain front
    have newest_ : recovered.segments.getLast? = some (newest.file.info newest.records) := by
      simp [read]
    have here : newest.firstLsn + newest.records.length = recovered.lastLsn + 1 := by
      have first := (chain_append.1 chain).2.1
      have behind := (chain_append.1 segments).2.1
      simp only [recordsOf_append, recordsOf_cons, recordsOf_nil, append_nil,
        List.length_append] at first behind
      omega
    rw [LogWriter.open_some opened newest_ entry, ← here]
    have inv := WriterInv.openExisting options disk False.elim chain front
    rw [recordsOf_append, recordsOf_cons, recordsOf_nil, append_nil]
    exact ⟨_, inv, rfl, rfl⟩

/-- The newest segment is durable and is opened. -/
theorem open_newest_inv {chain kept : List Segment} {records : List LogRecordView}
    (disk : LogDisk fs [] chain (.active firstLsn ino records [] []))
    (segments : Chain 1 (chain ++ [⟨firstLsn, records⟩])) (nonempty : ∀ t ∈ chain, t.records ≠ [])
    (last : recovered.lastLsn + 1 = firstLsn + records.length)
    (read : recovered.segments = (kept ++ [Segment.mk firstLsn records]).map fun s =>
      s.file.info s.records) (opened : LogWriter.open fs options recovered = .ok t) :
    ∃ g, WriterInv options False (recordsOf chain ++ records) g t ∧ g.lost = [] ∧ g.gone = [] := by
  have newest : recovered.segments.getLast? =
      some ((Segment.mk firstLsn records).file.info records) := by
    simp [read]
  rw [LogWriter.open_some opened newest disk.last.1, last]
  exact ⟨_, WriterInv.openExisting options disk False.elim segments nonempty, rfl, rfl⟩

end

/-! ## The restart -/

theorem SimFs.setFile_file (fs : SimFs) (ino : Nat) : fs.setFile ino (fs.file ino) = fs := by
  by_cases exists_ : ino < fs.files.length
  · simp [SimFs.setFile, SimFs.file, exists_]
  · simp [SimFs.setFile, List.set_eq_of_length_le (Nat.le_of_not_lt exists_)]

section

variable {options : LogWriterOptions} {fs : SimFs} {chain : List Segment} {tail : LogTail}

/-- What the next process opens after the recovery is in step, with nothing lost. -/
def Restarts (options : LogWriterOptions) (fs : SimFs) : Prop :=
  ∀ recovered t, (recoverLog 0 collect fs []).result = .ok recovered →
    LogWriter.open (recoverLog 0 collect fs []).fs options recovered = .ok t →
    ∃ g, WriterInv options False (recoverLog 0 collect fs []).user g t ∧ g.lost = [] ∧ g.gone = []

/-- No file was being written. -/
theorem restart_absent {next : Nat} (disk : LogDisk fs [] chain (.absent next))
    (log : LogImage fs chain none) (segments : Chain 1 (chain ++ [⟨next, []⟩]))
    (nonempty : ∀ t ∈ chain, t.records ≠ []) : Restarts options fs := by
  intro recovered t ok opened
  have next_ : next = 1 + (recordsOf chain).length := (chain_append.1 segments).2.1
  rcases List.eq_nil_or_concat' chain with rfl | ⟨front, newest, rfl⟩
  · rw [log.recoverLog_nil] at ok opened ⊢
    obtain rfl := Except.ok.inj ok
    rw [← append_nil []] at disk segments nonempty
    exact open_chain_inv disk segments nonempty next_.symm rfl opened
  · have chain := (chain_append.1 segments).1
    have front_ : ∀ t ∈ front, t.records ≠ [] := fun t mem =>
      nonempty t (mem_append_left _ mem)
    have last : newest.nextLsn = next := by
      have first := (chain_append.1 chain).2.1
      simp only [recordsOf_append, recordsOf_cons, recordsOf_nil, append_nil,
        List.length_append] at next_
      rw [Segment.nextLsn]
      omega
    obtain ⟨skipped, kept, split, outcome⟩ := recoverLog_written collect
      (log.listed_chain chain front_) chain log.intact (by decide) (show 1 ≤ 0 + 1 by decide)
      (by omega) []
    rw [deliver_collect, nil_append, replayed_all chain.run] at outcome
    rw [outcome] at ok opened ⊢
    obtain rfl := Except.ok.inj ok
    rw [split] at disk segments nonempty ⊢
    exact open_chain_inv disk segments nonempty (by simp only; omega) rfl opened

/-- The creation of a segment is taken back. -/
theorem restart_creating {isSynced : Bool}
    (disk : LogDisk fs [] chain (.creating firstLsn ino header isSynced))
    (log : LogImage fs chain (some (firstLsn, (fs.file ino).data)))
    (segments : Chain 1 (chain ++ [⟨firstLsn, []⟩])) (nonempty : ∀ t ∈ chain, t.records ≠ [])
    (fresh : firstLsn ∉ chain.map Segment.firstLsn)
    (torn : TornCreation (fs.file ino).data firstLsn) : Restarts options fs := by
  intro recovered t ok opened
  have next_ : firstLsn = 1 + (recordsOf chain).length := (chain_append.1 segments).2.1
  have low : firstLsn < 2 ^ 64 := (segments.mem ⟨firstLsn, []⟩ (by simp)).2.1
  have small : ∀ t ∈ chain, t.firstLsn < 2 ^ 64 := fun t mem =>
    (segments.mem t (mem_append_left _ mem)).2.1
  have listed : listSegments fs = (chain ++ [Segment.mk firstLsn []]).map Segment.file :=
    log.listed segments nonempty
  obtain ⟨skipped, kept, split, outcome⟩ := recoverLog_written_torn collect listed segments
    log.intact (log.last _ _ rfl) torn (by decide) (show 1 ≤ 0 + 1 by decide) (by omega) []
  rw [deliver_collect, nil_append, replayed_all (chain_append.1 segments).1.run] at outcome
  rw [outcome] at ok opened ⊢
  obtain rfl := Except.ok.inj ok
  have disk := disk.remove fresh low small
  rw [split] at disk segments nonempty ⊢
  exact open_chain_inv disk segments nonempty (by simp only; omega) rfl opened

/-- The newest segment is kept, up to its last complete record. -/
theorem restart_newest {records : List LogRecordView} {torn : Bytes}
    (disk : LogDisk fs [] chain tail) (named : tail.names = [firstLsn])
    (here : tail.ino = some ino) (exists_ : ino < fs.files.length)
    (current : fs.current.lookup (segmentFileName firstLsn) = some ino)
    (log : LogImage fs chain (some (firstLsn, (fs.file ino).data)))
    (segments : Chain 1 (chain ++ [⟨firstLsn, records⟩])) (nonempty : ∀ t ∈ chain, t.records ≠ [])
    (data : (fs.file ino).data = Segment.bytes ⟨firstLsn, records⟩ ++ torn)
    (ends : torn = [] ∨ TornAt (fs.file ino).data (Segment.bytes ⟨firstLsn, records⟩).length
      (firstLsn + records.length))
    (durable : fs.durable.lookup (segmentFileName firstLsn) = some ino)
    (synced : torn = [] → (fs.file ino).synced = (fs.file ino).data.length) :
    Restarts options fs := by
  intro recovered t ok opened
  have listed : listSegments fs = (chain ++ [Segment.mk firstLsn records]).map Segment.file :=
    log.listed segments nonempty
  have intact : Intact fs (chain ++ [⟨firstLsn, records⟩]) torn := by
    refine intact_append.2 ⟨log.stored, ?_, data ▸ ends⟩
    rw [← data]
    exact log.last _ _ rfl
  have positive : 1 ≤ firstLsn := (segments.mem ⟨firstLsn, records⟩ (by simp)).1
  obtain ⟨skipped, kept, split, outcome⟩ := recoverLog_written collect listed segments intact
    (by decide) (show 1 ≤ 0 + 1 by decide) (by simp only [Segment.nextLsn]; omega) []
  rw [deliver_collect, nil_append, replayed_all segments.run] at outcome
  rw [outcome] at ok opened ⊢
  obtain rfl := Except.ok.inj ok
  have repaired : (tailRepair ⟨firstLsn, records⟩ torn).apply fs = fs.setFile ino
      ⟨Segment.bytes ⟨firstLsn, records⟩, (Segment.bytes ⟨firstLsn, records⟩).length⟩ := by
    by_cases empty : torn = []
    · rw [tailRepair, if_pos empty, Repair.apply]
      conv_lhs => rw [← fs.setFile_file ino]
      rw [empty, append_nil] at data
      rw [← data, ← synced empty]
    · have cut : (fs.file ino).data.take (Segment.bytes ⟨firstLsn, records⟩).length =
          Segment.bytes ⟨firstLsn, records⟩ := by
        rw [data, List.take_left]
      simp only [tailRepair, if_neg empty, Repair.apply, Segment.name, SimFs.truncate, current, cut]
      rfl
  simp only [repaired] at opened
  have disk := disk.settle records named here exists_ current durable
  simpa using open_newest_inv disk segments nonempty (by simp [Segment.nextLsn]; omega) rfl opened

/-- What the next process opens is durable. -/
theorem restart_inv {before : LogWriterOptions} {g : LogGhost}
    (inv : WriterInv before False appended g s) (lost : g.lost = []) (gone : g.gone = [])
    (settled : Settled s.fs) : Restarts options s.fs := by
  have segments := inv.chain
  have disk := inv.disk
  have nonempty := inv.nonempty
  have fresh := inv.fresh
  rw [lost, gone] at segments
  rw [gone] at disk nonempty fresh
  rcases disk.visible with ⟨next, at_, log⟩ |
    ⟨firstLsn, ino, named, first, here, exists_, current, log, begins⟩
  · rw [at_] at disk segments
    exact restart_absent disk log segments nonempty
  · have lsn := (chain_append.1 segments).2.1
    have low := (segments.mem g.tail.segment (by simp)).2.1
    rw [first] at lsn low fresh
    have withRecords {records : List LogRecordView} (run : Run firstLsn records) :
        Chain 1 (g.chain ++ [⟨firstLsn, records⟩]) :=
      chain_append.2 ⟨(chain_append.1 segments).1, lsn, lsn ▸ low, lsn ▸ run, trivial⟩
    have empty : Chain 1 (g.chain ++ [⟨firstLsn, []⟩]) := withRecords trivial
    intro recovered t ok opened
    -- how the scan has read the newest file
    have listed : listSegments s.fs = (g.chain ++ [Segment.mk firstLsn []]).map Segment.file :=
      log.listed empty nonempty
    obtain ⟨-, kept, -, -, -, -, -, needed, -⟩ :=
      neededSegments_chain listed empty (show 1 ≤ 0 + 1 by decide)
    obtain ⟨scan, scanned, -⟩ := recoverLog_ok ok
    obtain ⟨data, content, read⟩ := scanned.read ⟨segmentFileName firstLsn, firstLsn⟩
      (by simp [needed, Segment.file, Segment.name])
    obtain rfl : data = (s.fs.file ino).data :=
      Option.some.inj (content.symm.trans (log.last _ _ rfl))
    rcases read with torn | ⟨header, records, torn, split, run, ends⟩
    · rcases begins with ⟨⟨header, isSynced, at_⟩, -⟩ | ⟨rest, whole⟩
      · rw [at_] at disk
        exact restart_creating disk log empty nonempty fresh torn recovered t ok opened
      · obtain ⟨⟨e, error, -⟩, -⟩ := torn
        rw [← whole, parseSegmentHeader_header (by omega) low] at error
        cases error
    · have whole : segmentHeader firstLsn <+: (s.fs.file ino).data := by
        rcases begins with ⟨-, short⟩ | whole
        · have long := (parseSegmentHeader_pos header).1
          have same := short.eq_of_length_le (by simpa using long)
          exact same ▸ List.prefix_rfl
        · exact whole
      have bytes : (s.fs.file ino).data = Segment.bytes ⟨firstLsn, records⟩ ++ torn := by
        have cut := List.prefix_iff_eq_append.1 whole
        rw [segmentHeader_length, split] at cut
        rw [Segment.bytes, append_assoc, cut]
      have newest := log.getLast_listed empty nonempty
      obtain ⟨durable, synced⟩ := settled _ ino newest current whole
      rw [← Segment.bytes_length ⟨firstLsn, records⟩] at ends
      refine restart_newest disk named here exists_ current log (withRecords run) nonempty bytes
        ends durable (fun none => synced.resolve_right ?_) recovered t ok opened
      rw [not_not]
      exact ⟨records, run, by rw [split, none, append_nil]⟩

end

/-! ## Power loss -/

namespace LogDisk

variable {fs : SimFs} {gone chain : List Segment} {tail : LogTail}

end LogDisk

theorem LogWriter.open_big {fs : SimFs} {recovered : RecoveredLog}
    (opened : LogWriter.open fs options recovered = .ok s) :
    kSegmentHeaderSize + kRecordHeaderSize ≤ options.segmentSize := by
  by_contra small
  rw [LogWriter.open, if_pos (by omega)] at opened
  cases opened

/-- The invariant, through any number of processes. -/
theorem LogLife.inv {options : LogWriterOptions} {appended : List LogRecordView} {s : LogSystem}
    (life : LogLife Settled options appended s) :
    kSegmentHeaderSize + kRecordHeaderSize ≤ options.segmentSize ∧
      ∃ g, WriterInv options False appended g s ∧ g.lost = [] ∧ g.gone = [] := by
  induction life with
  | first opened =>
    refine ⟨LogWriter.open_big opened, ?_⟩
    rw [LogWriter.open_none opened rfl]
    exact ⟨_, WriterInv.openNew _ LogDisk.empty False.elim (by decide) (by simp), rfl, rfl⟩
  | step life step taken ih =>
    obtain ⟨big, g, inv, lost, gone⟩ := ih
    obtain ⟨g', inv, settles⟩ := logStep_inv inv big step taken
    refine ⟨big, g', inv, ?_⟩
    rcases settles with ⟨lost', gone'⟩ | ⟨lost', gone'⟩
    · exact ⟨lost'.trans lost, gone'.trans gone⟩
    · exact ⟨by rw [lost', lost, gone]; rfl, gone'⟩
  | restart life leaves ok opened ih =>
    obtain ⟨-, g, inv, lost, gone⟩ := ih
    exact ⟨LogWriter.open_big opened, restart_inv inv lost gone leaves _ _ ok opened⟩

theorem LogLife.runs {left : SimFs → Prop} {t : LogSystem} {steps : List LogStep}
    (life : LogLife left options appended s) (run : Theory.runs (logStep options) steps s = some t) :
    ∃ appended', LogLife left options appended' t := by
  induction steps generalizing appended s with
  | nil =>
    obtain rfl := Option.some.inj run
    exact ⟨_, life⟩
  | cons step steps ih =>
    obtain ⟨next, taken, rest⟩ := Option.bind_eq_some_iff.1 run
    exact ih (life.step step taken) rest

/-- The next process, if it starts. -/
def nextProcess (fs : SimFs) : Option LogSystem :=
  let outcome := recoverLog 0 collect fs []
  outcome.result.toOption.bind fun recovered =>
    (LogWriter.open outcome.fs {} recovered).toOption

/-- The next process, which does start. -/
def restarted (fs : SimFs) : LogSystem := (nextProcess fs).getD openedEmpty

theorem LogLife.restarted {left : SimFs → Prop} {appended : List LogRecordView} {s : LogSystem}
    (life : LogLife left {} appended s) (leaves : left s.fs) (starts : (nextProcess s.fs).isSome) :
    LogLife left {} (recoverLog 0 collect s.fs []).user (restarted s.fs) := by
  have result {α : Type} {r : Result α} {a : α} (some_ : r.toOption = some a) : r = .ok a := by
    cases r with
    | error e => cases some_
    | ok b => rw [Option.some.inj some_]
  obtain ⟨t, started⟩ := Option.isSome_iff_exists.1 starts
  rw [Baton.restarted, started, Option.getD_some]
  obtain ⟨recovered, ok, opened⟩ := Option.bind_eq_some_iff.1 started
  exact life.restart leaves (result ok) (result opened)

theorem LogLife.openedEmpty (left : SimFs → Prop) : LogLife left {} [] openedEmpty := .first rfl

end Baton
