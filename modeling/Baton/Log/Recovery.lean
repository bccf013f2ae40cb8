/-
# Log.Recovery — the startup scan of the log

`recover_log` of `log/recovery.cpp`: it reads every segment that can hold a
needed record, hands each record after `replay_after` to the caller, repairs a
torn tail or a torn segment creation at the very end, and refuses anything else.

The scan changes the file system only by its two repairs.  What it leaves behind
is an `Outcome`: the result, the directory, and what the caller's callback has
accumulated -- the last two also when the result is an error.

LSNs are natural numbers here, and the source adds to them in 64 bits.  A file has room
for one LSN in every `kRecordHeaderSize` bytes, so no sum of the scan wraps around in a
directory that is not that close to the last LSN (`LsnsFit`).
-/
import Baton.Log.Format
import Mathlib.Data.List.Sort

namespace Baton

set_option autoImplicit false

structure SegmentInfo where
  name : FileName
  firstLsn : Nat
  /-- `firstLsn - 1` if the segment holds no records -/
  lastLsn : Nat
  size : Nat
  deriving DecidableEq, Repr

structure RecoveredLog where
  lastLsn : Nat := 0
  segments : List SegmentInfo := []
  recordsReplayed : Nat := 0
  tornBytesTruncated : Nat := 0
  removedTornSegment : Bool := false
  deriving DecidableEq, Repr

/-- The callback and what it captures: an error aborts recovery. -/
abbrev RecordCallback (σ : Type) := LogRecordView → σ → Result Unit × σ

/-- A result, with the directory and the callback's state it was reached in. -/
structure Outcome (σ α : Type) where
  result : Result α
  fs : SimFs
  user : σ

structure SegmentFile where
  name : FileName
  nameLsn : Nat
  deriving DecidableEq, Repr

def corruption (segment : FileName) (offset : Nat) (what : String) : Error :=
  ⟨.kCorruption, s!"log segment {String.ofList segment} at offset {offset}: {what}"⟩

/-- A plausible header at `offset` (length within the data, LSN within bounds) in
front of a frame that parses. -/
def validRecordAt (data : Bytes) (minLsn maxLsn : Nat) (offset : Nat) : Bool :=
  if data.length - offset - kRecordHeaderSize < loadU32 data offset then false
  else
    let lsn := loadU64 data (offset + 9)
    if lsn < minLsn ∨ maxLsn < lsn then false
    else decide ((parseRecord (data.drop offset)).status = .kOk)

/-- True if a structurally valid record with an LSN of at least `minLsn` starts
anywhere in `data[start, end)`.  Every byte offset is a candidate. -/
def validRecordFollows (data : Bytes) (start : Nat) (minLsn : Nat) : Bool :=
  if data.length < kRecordHeaderSize then false
  else
    let maxLsn := minLsn + (data.length - min start data.length) / kRecordHeaderSize
    (List.range' start (data.length + 1 - kRecordHeaderSize - start)).any
      (validRecordAt data minLsn maxLsn)

def segmentFile? (name : FileName) : Option SegmentFile :=
  (parseSegmentFileName name).map fun lsn => ⟨name, lsn⟩

def listSegments (fs : SimFs) : List SegmentFile :=
  (fs.listDir.filterMap segmentFile?).insertionSort fun a b => a.nameLsn ≤ b.nameLsn

/-- Every LSN that the scan counts up to or looks for in a file is one of 64 bits. -/
def LsnsFit (fs : SimFs) : Prop :=
  ∀ file ∈ listSegments fs, ∀ data ∈ fs.content file.name,
    file.nameLsn + data.length / kRecordHeaderSize < 2 ^ 64

instance (fs : SimFs) : Decidable (LsnsFit fs) := List.decidableBAll _ _

/-- The index of the last segment that begins at or before the first LSN needed,
`index` being the index of the head of the list. -/
def firstNeeded (replayAfter : Nat) : List SegmentFile → Nat → Nat → Nat
  | [], _, needed => needed
  | file :: rest, index, needed =>
    firstNeeded replayAfter rest (index + 1)
      (if file.nameLsn ≤ replayAfter + 1 then index else needed)

/-- What reading the records of one segment yields. -/
structure SegmentScan where
  expectedLsn : Nat
  recordsReplayed : Nat
  size : Nat
  tornBytesTruncated : Nat
  deriving DecidableEq, Repr

section

variable {σ : Type} (replayAfter : Nat) (onRecord : RecordCallback σ)

/-- The record loop of one segment.  A record takes at least one byte, so a fuel
of more than the bytes left is never used up (`recoverRecords_eq`). -/
def recoverRecords (file : SegmentFile) (isLast : Bool) (data : Bytes) :
    Nat → Nat → SegmentScan → SimFs → σ → Outcome σ SegmentScan
  | 0, _, scan, fs, user => ⟨.ok scan, fs, user⟩
  | fuel + 1, offset, scan, fs, user =>
    let parsed := parseRecord (data.drop offset)
    match parsed.status with
    | .kEndOfData => ⟨.ok scan, fs, user⟩
    | .kOk =>
      if parsed.record.lsn ≠ scan.expectedLsn then
        ⟨.error (corruption file.name offset
          s!"expected LSN {scan.expectedLsn} but found {parsed.record.lsn}"), fs, user⟩
      else if replayAfter < parsed.record.lsn then
        match onRecord parsed.record user with
        | (.error e, user) => ⟨.error e, fs, user⟩
        | (.ok (), user) =>
          recoverRecords file isLast data fuel (offset + parsed.size)
            { scan with
              recordsReplayed := scan.recordsReplayed + 1
              expectedLsn := scan.expectedLsn + 1 } fs user
      else
        recoverRecords file isLast data fuel (offset + parsed.size)
          { scan with expectedLsn := scan.expectedLsn + 1 } fs user
    | status =>
      if !isLast then ⟨.error (corruption file.name offset status.toString), fs, user⟩
      else if validRecordFollows data (offset + 1) scan.expectedLsn then
        ⟨.error (corruption file.name offset
          (status.toString ++ " followed by valid records: the log is damaged in " ++
            "the middle, refusing to drop acknowledged data")), fs, user⟩
      else
        match fs.truncate file.name offset with
        | .error e => ⟨.error e, fs, user⟩
        | .ok fs =>
          ⟨.ok { scan with size := offset, tornBytesTruncated := data.length - offset },
            fs, user⟩

/-- The segment loop; `expectedLsn` is 0 until the first segment is read. -/
def recoverSegments :
    List SegmentFile → Nat → RecoveredLog → SimFs → σ → Outcome σ (Nat × RecoveredLog)
  | [], expectedLsn, recovered, fs, user => ⟨.ok (expectedLsn, recovered), fs, user⟩
  | file :: rest, expectedLsn, recovered, fs, user =>
    let isLast := rest.isEmpty
    match fs.readFile file.name with
    | .error e => ⟨.error e, fs, user⟩
    | .ok data =>
      if expectedLsn ≠ 0 ∧ file.nameLsn ≠ expectedLsn then
        ⟨.error ⟨.kCorruption,
          s!"log segment {String.ofList file.name} should start at LSN {expectedLsn}: a " ++
            "segment is missing or segments overlap"⟩, fs, user⟩
      else
        match parseSegmentHeader data with
        | .error e =>
          -- a crash while creating the newest segment; anything else is damage
          if isLast ∧ e.code = .kCorruption ∧ !validRecordFollows data 0 file.nameLsn then
            match fs.remove file.name with
            | .error e => ⟨.error e, fs, user⟩
            | .ok fs =>
              ⟨.ok (expectedLsn, { recovered with removedTornSegment := true }),
                fs.syncDir, user⟩
          else
            ⟨.error ⟨e.code, s!"log segment {String.ofList file.name}: {e.message}"⟩,
              fs, user⟩
        | .ok header =>
          if header ≠ file.nameLsn then
            ⟨.error ⟨.kCorruption,
              s!"log segment {String.ofList file.name}: header says first LSN {header}"⟩,
              fs, user⟩
          else if expectedLsn = 0 ∧ replayAfter + 1 < file.nameLsn then
            ⟨.error ⟨.kCorruption,
              s!"log starts at LSN {file.nameLsn} but records after LSN {replayAfter} " ++
                "are needed: segments are missing"⟩, fs, user⟩
          else
            let scan : SegmentScan :=
              { expectedLsn := if expectedLsn = 0 then file.nameLsn else expectedLsn
                recordsReplayed := recovered.recordsReplayed
                size := data.length
                tornBytesTruncated := recovered.tornBytesTruncated }
            match recoverRecords replayAfter onRecord file isLast data (data.length + 1)
                kSegmentHeaderSize scan fs user with
            | ⟨.error e, fs, user⟩ => ⟨.error e, fs, user⟩
            | ⟨.ok scan, fs, user⟩ =>
              recoverSegments rest scan.expectedLsn
                { recovered with
                  segments := recovered.segments ++
                    [⟨file.name, file.nameLsn, scan.expectedLsn - 1, scan.size⟩]
                  recordsReplayed := scan.recordsReplayed
                  tornBytesTruncated := scan.tornBytesTruncated } fs user

/-- Every segment before the first needed one lies within what the snapshot
covers: garbage that compaction has not removed yet. -/
def neededSegments (fs : SimFs) : List SegmentFile :=
  (listSegments fs).drop (firstNeeded replayAfter (listSegments fs) 0 0)

def logTooShort (lastLsn : Nat) : Error :=
  ⟨.kCorruption,
    s!"log ends at LSN {lastLsn} but the snapshot covers LSN {replayAfter}: the log lost " ++
      "acknowledged records"⟩

def recoverLog (fs : SimFs) (user : σ) : Outcome σ RecoveredLog :=
  match recoverSegments replayAfter onRecord (neededSegments replayAfter fs) 0 {} fs user with
  | ⟨.error e, fs, user⟩ => ⟨.error e, fs, user⟩
  | ⟨.ok (expectedLsn, recovered), fs, user⟩ =>
    let lastLsn := if expectedLsn = 0 then replayAfter else expectedLsn - 1
    if lastLsn < replayAfter then ⟨.error (logTooShort replayAfter lastLsn), fs, user⟩
    else ⟨.ok { recovered with lastLsn := lastLsn }, fs, user⟩

end

/-! ## The choice of segments -/

variable {file : SegmentFile} {fs : SimFs}

theorem segmentFile?_eq_some {name : FileName} :
    segmentFile? name = some file ↔
      file.name = name ∧ parseSegmentFileName name = some file.nameLsn := by
  rw [segmentFile?, Option.map_eq_some_iff]
  constructor
  · rintro ⟨lsn, parsed, rfl⟩
    exact ⟨rfl, parsed⟩
  · rintro ⟨rfl, parsed⟩
    exact ⟨file.nameLsn, parsed, rfl⟩

theorem mem_listSegments :
    file ∈ listSegments fs ↔
      (fs.content file.name).isSome ∧ parseSegmentFileName file.name = some file.nameLsn := by
  rw [listSegments, List.mem_insertionSort, List.mem_filterMap]
  constructor
  · rintro ⟨name, mem, parsed⟩
    obtain ⟨rfl, parsed⟩ := segmentFile?_eq_some.1 parsed
    exact ⟨SimFs.mem_listDir.1 mem, parsed⟩
  · rintro ⟨present, parsed⟩
    exact ⟨file.name, SimFs.mem_listDir.2 present, segmentFile?_eq_some.2 ⟨rfl, parsed⟩⟩

/-- The segments are listed in the order of their first LSNs, which differ. -/
theorem listSegments_sorted (fs : SimFs) :
    (listSegments fs).Pairwise fun a b => a.nameLsn < b.nameLsn := by
  have sorted : (listSegments fs).Pairwise fun a b => a.nameLsn ≤ b.nameLsn :=
    List.pairwise_insertionSort _ _
  have distinct : (listSegments fs).Nodup := by
    refine (List.perm_insertionSort _ _).nodup_iff.2 (fs.current.keys_nodup.filterMap ?_)
    intro a b file parsedA parsedB
    exact (segmentFile?_eq_some.1 parsedA).1.symm.trans (segmentFile?_eq_some.1 parsedB).1
  refine (sorted.and distinct).imp_of_mem ?_
  intro a b memA memB ⟨le, ne⟩
  refine Nat.lt_of_le_of_ne le fun same => ne ?_
  obtain ⟨-, nameA⟩ := parseSegmentFileName_eq_some.1 (mem_listSegments.1 memA).2
  obtain ⟨-, nameB⟩ := parseSegmentFileName_eq_some.1 (mem_listSegments.1 memB).2
  obtain ⟨name, lsn⟩ := a
  obtain ⟨name', lsn'⟩ := b
  simp_all

theorem firstNeeded_cases (replayAfter : Nat) (files : List SegmentFile) (index needed : Nat) :
    (∀ file ∈ files, replayAfter + 1 < file.nameLsn) ∧
        firstNeeded replayAfter files index needed = needed ∨
      ∃ front file back, files = front ++ file :: back ∧ file.nameLsn ≤ replayAfter + 1 ∧
        (∀ later ∈ back, replayAfter + 1 < later.nameLsn) ∧
        firstNeeded replayAfter files index needed = index + front.length := by
  induction files generalizing index needed with
  | nil => exact .inl ⟨by simp, rfl⟩
  | cons file rest ih =>
    rw [firstNeeded]
    rcases ih (index + 1) (if file.nameLsn ≤ replayAfter + 1 then index else needed) with
      ⟨late, found⟩ | ⟨front, other, back, rfl, early, late, found⟩
    · rw [found]
      split
      · exact .inr ⟨[], file, rest, rfl, ‹_›, late, rfl⟩
      · exact .inl ⟨List.forall_mem_cons.2 ⟨by omega, late⟩, rfl⟩
    · refine .inr ⟨file :: front, other, back, rfl, early, late, ?_⟩
      rw [found, List.length_cons]
      omega

/-- The scan starts at the last segment that begins at or before the first LSN
needed, and at the first segment if there is none. -/
theorem neededSegments_cases (replayAfter : Nat) (fs : SimFs) :
    (∀ file ∈ listSegments fs, replayAfter + 1 < file.nameLsn) ∧
        neededSegments replayAfter fs = listSegments fs ∨
      ∃ front file back, listSegments fs = front ++ file :: back ∧
        file.nameLsn ≤ replayAfter + 1 ∧ (∀ later ∈ back, replayAfter + 1 < later.nameLsn) ∧
        neededSegments replayAfter fs = file :: back := by
  rw [neededSegments]
  rcases firstNeeded_cases replayAfter (listSegments fs) 0 0 with
    ⟨late, found⟩ | ⟨front, file, back, split, early, late, found⟩
  · exact .inl ⟨late, by rw [found, List.drop_zero]⟩
  · refine .inr ⟨front, file, back, split, early, late, ?_⟩
    rw [found, Nat.zero_add, split, List.drop_left]

/-- What is skipped begins at or before the first LSN needed. -/
theorem mem_neededSegments_or (replayAfter : Nat) (mem : file ∈ listSegments fs) :
    file ∈ neededSegments replayAfter fs ∨ file.nameLsn ≤ replayAfter + 1 := by
  have sorted := listSegments_sorted fs
  rcases neededSegments_cases replayAfter fs with
    ⟨-, all⟩ | ⟨front, first, back, split, early, -, needed⟩
  · exact .inl (all ▸ mem)
  · rw [split] at mem sorted
    rcases List.mem_append.1 mem with skipped | later
    · have := (List.pairwise_append.1 sorted).2.2 file skipped first (by simp)
      exact .inr (by omega)
    · exact .inl (needed ▸ later)

theorem neededSegments_sublist (replayAfter : Nat) (fs : SimFs) :
    (neededSegments replayAfter fs).Sublist (listSegments fs) := List.drop_sublist ..

theorem neededSegments_present (replayAfter : Nat) (fs : SimFs) :
    ∀ file ∈ neededSegments replayAfter fs, (fs.content file.name).isSome := fun _ mem =>
  (mem_listSegments.1 ((neededSegments_sublist replayAfter fs).mem mem)).1

end Baton
