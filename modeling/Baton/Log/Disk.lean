/-
# Log.Disk — the log's files while it is being written

`LogDisk` describes the part of a directory that belongs to the log: a chain of
segments that are complete and durable, and at its end either the segment being
written (`LogTail.active`) or one being created.  Only this last file can have
bytes that are not synced, and only it can have an entry that is not durable.

`gone` are segments whose removal is visible but not durable yet.

Each file-system call of the log thread takes one such description to another;
these are the lemmas of this module.
-/
import Baton.Log.Written
import Baton.Log.Writer

namespace Baton

set_option autoImplicit false

/-! ## The calls, one entry and one file at a time -/

namespace SimFs

variable {fs : SimFs} {name : FileName} {ino : Nat}

theorem openAppend_new (absent : fs.current.lookup name = none) :
    fs.openAppend name .kCreateNew = .ok (fs.files.length, { fs with
      files := fs.files ++ [{}]
      current := fs.current.insert name fs.files.length
      pending := fs.pending ++ [.kLink name fs.files.length] }) := by
  simp only [openAppend, absent]

theorem file_append_files {files : List SimFile} (exists_ : ino < files.length) (more : List SimFile)
    (current durable : Entries) (pending : List DirOp) :
    SimFs.file ⟨files ++ more, current, durable, pending⟩ ino = files.getD ino {} := by
  simp [file, List.getElem?_append_left exists_]

@[simp] theorem sync_pending : (fs.sync ino).pending = fs.pending := rfl

end SimFs

/-! ## What is on disk -/

/-- A segment that is complete and durable, in file `ino`. -/
structure Stored (fs : SimFs) (s : Segment) (ino : Nat) : Prop where
  durable : fs.durable.lookup s.name = some ino
  exists_ : ino < fs.files.length
  file : fs.file ino = ⟨s.bytes, s.bytes.length⟩

/-- The last segment of the log: not there yet, being created, or being written.
`header` and `begun` are what has been written of the header and of the next
batch. -/
inductive LogTail where
  | absent (firstLsn : Nat)
  | creating (firstLsn ino : Nat) (header : Bytes) (isSynced : Bool)
  | active (firstLsn ino : Nat) (synced unsynced : List LogRecordView) (begun : Bytes)

namespace LogTail

def segment : LogTail → Segment
  | .absent firstLsn => ⟨firstLsn, []⟩
  | .creating firstLsn _ _ _ => ⟨firstLsn, []⟩
  | .active firstLsn _ synced unsynced _ => ⟨firstLsn, synced ++ unsynced⟩

/-- The records a sync has covered. -/
def syncedRecords : LogTail → List LogRecordView
  | .active _ _ synced _ _ => synced
  | _ => []

def ino : LogTail → Option Nat
  | .absent _ => none
  | .creating _ ino _ _ => some ino
  | .active _ ino _ _ _ => some ino

/-- What the last file is named for, if it exists. -/
def names : LogTail → List Nat
  | .absent _ => []
  | .creating firstLsn _ _ _ => [firstLsn]
  | .active firstLsn _ _ _ _ => [firstLsn]

/-- The last file and its entry. -/
def On (fs : SimFs) : LogTail → Prop
  | .absent _ => True
  | .creating firstLsn ino header isSynced =>
    fs.current.lookup (segmentFileName firstLsn) = some ino ∧
      (fs.durable.lookup (segmentFileName firstLsn) = none ∨
        fs.durable.lookup (segmentFileName firstLsn) = some ino) ∧
      ino < fs.files.length ∧ header <+: segmentHeader firstLsn ∧
      fs.file ino = ⟨header, if isSynced then header.length else 0⟩
  | .active firstLsn ino synced unsynced begun =>
    fs.current.lookup (segmentFileName firstLsn) = some ino ∧
      fs.durable.lookup (segmentFileName firstLsn) = some ino ∧ ino < fs.files.length ∧
      fs.file ino = ⟨Segment.bytes ⟨firstLsn, synced ++ unsynced⟩ ++ begun,
        (Segment.bytes ⟨firstLsn, synced⟩).length⟩

end LogTail

structure LogDisk (fs : SimFs) (gone chain : List Segment) (tail : LogTail) : Prop where
  removed : ∀ s ∈ gone, ∃ ino, Stored fs s ino ∧ tail.ino ≠ some ino
  stored : ∀ s ∈ chain, ∃ ino, Stored fs s ino ∧ tail.ino ≠ some ino ∧
    fs.current.lookup s.name = some ino
  last : tail.On fs
  currentNames : ∀ name lsn, parseSegmentFileName name = some lsn →
    (fs.current.lookup name).isSome → lsn ∈ chain.map Segment.firstLsn ++ tail.names
  durableNames : ∀ name lsn, parseSegmentFileName name = some lsn →
    (fs.durable.lookup name).isSome →
      lsn ∈ (gone ++ chain).map Segment.firstLsn ++ tail.names

namespace LogDisk

variable {fs : SimFs} {gone chain : List Segment} {firstLsn ino : Nat}

/-- A change of the last file leaves the others alone. -/
theorem setLast {tail tail' : LogTail} {f : SimFile} (disk : LogDisk fs gone chain tail)
    (here : tail.ino = some ino) (here' : tail'.ino = some ino) (same : tail'.names = tail.names)
    (last : tail'.On (fs.setFile ino f)) : LogDisk (fs.setFile ino f) gone chain tail' := by
  have keeps {s : Segment} {other : Nat} (stored : Stored fs s other)
      (ne : tail.ino ≠ some other) :
      Stored (fs.setFile ino f) s other ∧ tail'.ino ≠ some other := by
    have apart : other ≠ ino := by
      rintro rfl
      exact ne here
    refine ⟨⟨stored.durable, by simpa using stored.exists_, ?_⟩, here'.trans here.symm ▸ ne⟩
    rw [SimFs.file_setFile_ne _ _ apart, stored.file]
  refine ⟨?_, ?_, last, ?_, ?_⟩
  · intro s mem
    obtain ⟨other, stored, ne⟩ := disk.removed s mem
    exact ⟨other, keeps stored ne⟩
  · intro s mem
    obtain ⟨other, stored, ne, entry⟩ := disk.stored s mem
    obtain ⟨stored, ne⟩ := keeps stored ne
    exact ⟨other, stored, ne, entry⟩
  · rw [same]
    exact disk.currentNames
  · rw [same]
    exact disk.durableNames

/-- `open_append` of a new segment. -/
theorem openNew (disk : LogDisk fs gone chain (.absent firstLsn)) (small : firstLsn < 2 ^ 64)
    (fresh : firstLsn ∉ (gone ++ chain).map Segment.firstLsn) :
    ∃ fs', fs.openAppend (segmentFileName firstLsn) .kCreateNew = .ok (fs.files.length, fs') ∧
      LogDisk fs' gone chain (.creating firstLsn fs.files.length [] false) ∧
      fs'.pending = fs.pending ++ [.kLink (segmentFileName firstLsn) fs.files.length] ∧
      fs'.durable = fs.durable := by
  have named := parseSegmentFileName_segmentFileName small
  rw [List.map_append, List.mem_append, not_or] at fresh
  have absent : fs.current.lookup (segmentFileName firstLsn) = none := by
    by_contra present
    have mem := disk.currentNames _ _ named (Option.isSome_iff_ne_none.2 present)
    rw [LogTail.names, List.append_nil] at mem
    exact fresh.2 mem
  have absent' : fs.durable.lookup (segmentFileName firstLsn) = none := by
    by_contra present
    have mem := disk.durableNames _ _ named (Option.isSome_iff_ne_none.2 present)
    rw [LogTail.names, List.append_nil, List.map_append] at mem
    exact (List.mem_append.1 mem).elim fresh.1 fresh.2
  have keeps {s : Segment} {ino : Nat} (stored : Stored fs s ino) (current : Entries)
      (pending : List DirOp) :
      Stored ⟨fs.files ++ [({} : SimFile)], current, fs.durable, pending⟩ s ino ∧
        fs.files.length ≠ ino := by
    have exists_ := stored.exists_
    refine ⟨⟨stored.durable, ?_, ?_⟩, by omega⟩
    · simp only [List.length_append, List.length_singleton]
      omega
    · exact (SimFs.file_append_files exists_ _ _ _ _).trans stored.file
  refine ⟨_, SimFs.openAppend_new absent, ⟨?_, ?_, ?_, ?_, ?_⟩, rfl, rfl⟩
  · intro s mem
    obtain ⟨ino, stored, -⟩ := disk.removed s mem
    obtain ⟨stored, ne⟩ := keeps stored _ _
    exact ⟨ino, stored, by simpa [LogTail.ino] using ne⟩
  · intro s mem
    obtain ⟨ino, stored, -, entry⟩ := disk.stored s mem
    obtain ⟨stored, ne⟩ := keeps stored _ _
    refine ⟨ino, stored, by simpa [LogTail.ino] using ne, ?_⟩
    have apart : s.name ≠ segmentFileName firstLsn := by
      intro same
      rw [← same, entry] at absent
      cases absent
    rw [AList.lookup_insert_ne apart]
    exact entry
  · exact ⟨AList.lookup_insert _, .inl absent', by simp, List.nil_prefix, by simp [SimFs.file]⟩
  · intro name lsn parsed present
    by_cases same : name = segmentFileName firstLsn
    · rw [same, named, Option.some.injEq] at parsed
      simp [LogTail.names, parsed]
    · rw [AList.lookup_insert_ne same] at present
      have mem := disk.currentNames name lsn parsed present
      rw [LogTail.names, List.append_nil] at mem
      exact List.mem_append_left _ mem
  · intro name lsn parsed present
    have mem := disk.durableNames name lsn parsed present
    rw [LogTail.names, List.append_nil] at mem
    exact List.mem_append_left _ mem

/-- `append` to the header of the new segment. -/
theorem appendHeader {header more rest : Bytes}
    (disk : LogDisk fs gone chain (.creating firstLsn ino header false))
    (split : segmentHeader firstLsn = header ++ (more ++ rest)) :
    LogDisk (fs.append ino more) gone chain (.creating firstLsn ino (header ++ more) false) := by
  obtain ⟨current, durable, exists_, -, file⟩ := disk.last
  refine disk.setLast rfl rfl rfl ⟨current, durable, by simpa using exists_, ?_, ?_⟩
  · rw [split, ← List.append_assoc]
    exact List.prefix_append _ _
  · rw [SimFs.file_setFile_self _ _ exists_, file]
    rfl

/-- `sync` of the new segment. -/
theorem syncHeader {header : Bytes}
    (disk : LogDisk fs gone chain (.creating firstLsn ino header false)) :
    LogDisk (fs.sync ino) gone chain (.creating firstLsn ino header true) := by
  obtain ⟨current, durable, exists_, initial, file⟩ := disk.last
  refine disk.setLast rfl rfl rfl ⟨current, durable, by simpa using exists_, initial, ?_⟩
  rw [SimFs.file_setFile_self _ _ exists_, file]
  rfl

/-- `sync_dir`: what was removed is gone, and the new segment can be written to. -/
theorem syncDir
    (disk : LogDisk fs gone chain (.creating firstLsn ino (segmentHeader firstLsn) true)) :
    LogDisk fs.syncDir [] chain (.active firstLsn ino [] [] []) where
  removed := by simp
  stored := by
    intro s mem
    obtain ⟨other, stored, ne, entry⟩ := disk.stored s mem
    exact ⟨other, ⟨entry, stored.exists_, stored.file⟩, ne, entry⟩
  last := by
    obtain ⟨current, -, exists_, -, file⟩ := disk.last
    refine ⟨current, current, exists_, ?_⟩
    simpa [Segment.bytes, SimFs.syncDir, SimFs.file] using file
  currentNames := disk.currentNames
  durableNames := disk.currentNames

/-- `append` of a part of a batch. -/
theorem appendBatch {synced unsynced : List LogRecordView} {begun : Bytes} (more : Bytes)
    (disk : LogDisk fs gone chain (.active firstLsn ino synced unsynced begun)) :
    LogDisk (fs.append ino more) gone chain
      (.active firstLsn ino synced unsynced (begun ++ more)) := by
  obtain ⟨current, durable, exists_, file⟩ := disk.last
  refine disk.setLast rfl rfl rfl ⟨current, durable, by simpa using exists_, ?_⟩
  rw [SimFs.file_setFile_self _ _ exists_, file, List.append_assoc]

/-- The whole batch has been written. -/
theorem written {synced unsynced records : List LogRecordView}
    (disk : LogDisk fs gone chain (.active firstLsn ino synced unsynced (framesOf records))) :
    LogDisk fs gone chain (.active firstLsn ino synced (unsynced ++ records) []) where
  __ := disk
  last := by
    obtain ⟨current, durable, exists_, file⟩ := disk.last
    refine ⟨current, durable, exists_, ?_⟩
    rw [file]
    simp [Segment.bytes]

/-- `sync` of the active segment. -/
theorem sync {synced unsynced : List LogRecordView}
    (disk : LogDisk fs gone chain (.active firstLsn ino synced unsynced [])) :
    LogDisk (fs.sync ino) gone chain (.active firstLsn ino (synced ++ unsynced) [] []) := by
  obtain ⟨current, durable, exists_, file⟩ := disk.last
  refine disk.setLast rfl rfl rfl ⟨current, durable, by simpa using exists_, ?_⟩
  rw [SimFs.file_setFile_self _ _ exists_, file]
  simp only [List.append_nil]

/-- The active segment is full and durable, and the next one comes behind it. -/
theorem roll {synced : List LogRecordView} (next : Nat)
    (disk : LogDisk fs gone chain (.active firstLsn ino synced [] [])) :
    LogDisk fs gone (chain ++ [⟨firstLsn, synced⟩]) (.absent next) where
  removed := by
    intro s mem
    obtain ⟨other, stored, -⟩ := disk.removed s mem
    exact ⟨other, stored, by simp [LogTail.ino]⟩
  stored := by
    intro s mem
    obtain ⟨current, durable, exists_, file⟩ := disk.last
    rcases List.mem_append.1 mem with old | new
    · obtain ⟨other, stored, -, entry⟩ := disk.stored s old
      exact ⟨other, stored, by simp [LogTail.ino], entry⟩
    · obtain rfl := List.mem_singleton.1 new
      refine ⟨ino, ⟨durable, exists_, ?_⟩, by simp [LogTail.ino], current⟩
      simpa using file
  last := trivial
  currentNames := by
    intro name lsn parsed present
    simpa [LogTail.names] using disk.currentNames name lsn parsed present
  durableNames := by
    intro name lsn parsed present
    simpa [LogTail.names] using disk.durableNames name lsn parsed present

end LogDisk

end Baton
