/-
# Log.Refusal — what a refused recovery leaves, and what an accepted one covers

Two promises of `recover_log` about directories it did not write itself (`LogDir`).

* Refusing modifies nothing.  The scan repairs a torn tail before the last check,
  the one that compares the end of the log with the snapshot, has run; so a log
  that is both torn and too short is cut and then refused (`ShortTornLog`), and
  that is the only such directory.
* An accepted log leaves no segment behind a gap.  A torn creation ends the scan
  before the check for missing segments, so a directory whose only segment is torn
  and starts too late is accepted as an empty log (`LoneTornSegment`), and that
  is the only such directory.
-/
import Baton.Log.Scan

namespace Baton

set_option autoImplicit false

/-- Any directory and any snapshot, but that no LSN of theirs is so close to the last one
that a sum of the scan wraps around. -/
structure LogDir where
  fs : SimFs
  replayAfter : Nat
  snapshot : replayAfter + 1 < 2 ^ 64
  segments : LsnsFit fs

/-! ## A refusal modifies nothing, but for one kind of directory -/

/-- The newest segment is all that is needed, holds no record the snapshot lacks,
and is torn behind its last record. -/
def ShortTornLog (replayAfter : Nat) (fs : SimFs) : Prop :=
  ∃ (file : SegmentFile) (data : Bytes) (records : List LogRecordView) (tail : Bytes),
    (listSegments fs).getLast? = some file ∧ file.nameLsn ≤ replayAfter + 1 ∧
    fs.content file.name = some data ∧ parseSegmentHeader data = .ok file.nameLsn ∧
    data.drop kSegmentHeaderSize = framesOf records ++ tail ∧ Run file.nameLsn records ∧
    TornAt data (kSegmentHeaderSize + (framesOf records).length)
      (file.nameLsn + records.length) ∧
    file.nameLsn + records.length ≤ replayAfter

variable {σ : Type} {replayAfter : Nat} {fs : SimFs}

/-- If recovery refuses, every file is what it was. -/
def RefusalModifiesNothing (replayAfter : Nat) (onRecord : RecordCallback σ)
    (fs : SimFs) (user : σ) : Prop :=
  (∃ e, (recoverLog replayAfter onRecord fs user).result = .error e) →
    ∀ name, (recoverLog replayAfter onRecord fs user).fs.content name = fs.content name

/-- The newest segment is the only one needed if it starts early enough. -/
theorem neededSegments_eq_newest {file : SegmentFile} :
    neededSegments replayAfter fs = [file] ∧ file.nameLsn ≤ replayAfter + 1 ↔
      (listSegments fs).getLast? = some file ∧ file.nameLsn ≤ replayAfter + 1 := by
  rcases neededSegments_cases replayAfter fs with
    ⟨late, all⟩ | ⟨front, first, back, split, early, late, needed⟩
  · have absurd_ (mem : file ∈ listSegments fs) : ¬ file.nameLsn ≤ replayAfter + 1 := by
      have := late file mem
      omega
    rw [all]
    constructor
    · rintro ⟨single, small⟩
      exact absurd small (absurd_ (by simp [single]))
    · rintro ⟨newest, small⟩
      exact absurd small (absurd_ (List.mem_of_getLast? newest))
  · rw [needed, split, List.getLast?_append]
    constructor
    · rintro ⟨single, small⟩
      obtain ⟨rfl, rfl⟩ := List.cons.inj single
      exact ⟨by simp, small⟩
    · rintro ⟨newest, small⟩
      cases back using List.reverseRecOn with
      | nil => simpa using ⟨by simpa using newest, small⟩
      | append_singleton back last =>
        have := late last (by simp)
        rw [← List.cons_append, List.getLast?_concat] at newest
        obtain rfl : last = file := by simpa using newest
        omega

theorem ShortTornLog.scanned (short : ShortTornLog replayAfter fs) :
    ∃ (file : SegmentFile) (data : Bytes) (scan : LogScan) (size : Nat),
      Scanned replayAfter fs (neededSegments replayAfter fs) 0 scan ∧
      fs.content file.name = some data ∧ size < data.length ∧
      scan.repair = .truncated file.name size ∧ scan.lastLsn replayAfter < replayAfter ∧
      replayed replayAfter scan.records = [] := by
  obtain ⟨file, data, records, tail, newest, early, content, header, split, run, torn, short⟩ :=
    short
  rw [(neededSegments_eq_newest.2 ⟨newest, early⟩).1]
  have positive := (parseSegmentHeader_pos header).2
  refine ⟨file, data, _, kSegmentHeaderSize + (framesOf records).length,
    .tornTail content ⟨header, by simp, fun _ => early⟩ split run torn, content, ?_, rfl, ?_, ?_⟩
  · by_contra outside
    exact torn.2.1 (parseRecord_endOfData.2 (List.drop_eq_nil_of_le (by omega)))
  · simp only [LogScan.lastLsn]
    split <;> omega
  · exact replayed_eq_nil run (show file.nameLsn + records.length ≤ _ by omega)

/-- A log that ends before the snapshot, and was not cut there, is as it was. -/
theorem Scanned.repair_none_of_refused {scan : LogScan}
    (scanned : Scanned replayAfter fs (neededSegments replayAfter fs) 0 scan)
    (notShort : ¬ ShortTornLog replayAfter fs)
    (early : scan.lastLsn replayAfter < replayAfter) : scan.repair = .none := by
  unfold LogScan.lastLsn at early
  rcases scanned.first_cases with ⟨-, rfl⟩ | ⟨file, data, -, -, -, rfl⟩ | ⟨read, names⟩
  · rfl
  · simp at early
  rw [if_neg read] at early
  rcases neededSegments_cases replayAfter fs with
    ⟨late, all⟩ | ⟨front, first, back, -, reaches, late, needed⟩
  · rw [all] at scanned names
    cases files : listSegments fs with
    | nil =>
      rw [files] at scanned
      cases scanned
      rfl
    | cons file rest =>
      have := late file (by simp [files])
      have := names file (by simp [files])
      omega
  · obtain rfl : back = [] := by
      refine List.eq_nil_iff_forall_not_mem.2 fun file mem => ?_
      have := late file mem
      have := names file (by simp [needed, mem])
      omega
    have newest := (neededSegments_eq_newest.1 ⟨needed, reaches⟩).1
    rw [needed] at scanned
    cases scanned with
    | tornSegment => simp at read
    | tornTail content starts split run torn =>
      exact absurd ⟨first, _, _, _, newest, reaches, content, starts.header, split, run, torn,
        by simp only at early; omega⟩ notShort
    | segment content starts split run more =>
      cases more
      rfl

/-- Refusing modifies nothing exactly if the log is not both torn and too short
for the snapshot. -/
theorem recoverLog_refusal_modifies_nothing_iff {σ : Type} (dir : LogDir) (onRecord : RecordCallback σ)
    (user : σ) :
    RefusalModifiesNothing dir.replayAfter onRecord dir.fs user ↔ ¬ ShortTornLog dir.replayAfter dir.fs := by
  obtain ⟨fs, replayAfter, -, -⟩ := dir
  constructor
  · intro promise short
    obtain ⟨file, data, scan, size, scanned, content, shorter, repair, early, none⟩ := short.scanned
    have outcome : recoverLog replayAfter onRecord fs user = _ := recoverLog_eq scanned user
    rw [← deliver_replayed, none] at outcome
    simp only [deliver, early, if_true, repair] at outcome
    have nonempty : data ≠ [] := by
      rintro rfl
      simp at shorter
    have same := promise ⟨_, by rw [outcome]⟩ file.name
    rw [outcome, content_truncated content nonempty, content, Option.some.injEq] at same
    have := congrArg List.length same
    rw [List.length_take] at this
    omega
  · rintro notShort ⟨e, refused⟩ name
    rcases recoverLog_cases onRecord fs with ⟨scan, scanned⟩ | refusedAtOnce
    · rw [recoverLog_eq scanned] at refused ⊢
      revert refused
      rcases deliver replayAfter onRecord scan.records user with ⟨_ | _, user⟩ <;> intro refused
      · rfl
      · by_cases early : scan.lastLsn replayAfter < replayAfter
        · simp only [early, if_true]
          rw [scanned.repair_none_of_refused notShort early]
          rfl
        · simp [early] at refused
    · obtain ⟨e, user', outcome⟩ := refusedAtOnce user
      rw [outcome]

/-- The first segment, torn behind its header, under a snapshot that covers LSN 5:
recovery cuts the segment and then refuses. -/
theorem recoverLog_refusal_truncates :
    let fs := SimFs.single (segmentFileName 1) (segmentHeader 1 ++ [0])
    let outcome := recoverLog 5 collect fs []
    (∃ e, outcome.result = .error e) ∧
      outcome.fs.content (segmentFileName 1) ≠ fs.content (segmentFileName 1) :=
  ⟨Result.exists_error (by decide +kernel), by decide +kernel⟩

/-! ## No segment lies behind a gap, but for one kind of directory -/

/-- The only segment file is torn and starts after the first LSN needed. -/
def LoneTornSegment (replayAfter : Nat) (fs : SimFs) : Prop :=
  ∃ (file : SegmentFile) (data : Bytes),
    listSegments fs = [file] ∧ replayAfter + 1 < file.nameLsn ∧
    fs.content file.name = some data ∧ TornCreation data file.nameLsn

/-- If recovery succeeds, every segment starts within what it has recovered, or
right behind it. -/
def NoSilentGap (replayAfter : Nat) (onRecord : RecordCallback σ) (fs : SimFs) (user : σ) : Prop :=
  ∀ recovered, (recoverLog replayAfter onRecord fs user).result = .ok recovered →
    ∀ file ∈ listSegments fs, file.nameLsn ≤ recovered.lastLsn + 1

theorem LoneTornSegment.accepted
    (lone : LoneTornSegment replayAfter fs) (onRecord : RecordCallback σ) (user : σ) :
    ∃ recovered file, (recoverLog replayAfter onRecord fs user).result = .ok recovered ∧
      recovered.lastLsn = replayAfter ∧ file ∈ listSegments fs ∧
      replayAfter + 1 < file.nameLsn := by
  obtain ⟨file, data, single, late, content, torn⟩ := lone
  have needed : neededSegments replayAfter fs = [file] := by
    rcases neededSegments_cases replayAfter fs with
      ⟨-, all⟩ | ⟨front, first, back, split, early, -, -⟩
    · rw [all, single]
    · have : first ∈ [file] := by rw [← single, split]; simp
      obtain rfl := List.mem_singleton.1 this
      omega
  have scanned : Scanned replayAfter fs (neededSegments replayAfter fs) 0
      { expectedLsn := 0, repair := .removed file.name } := by
    rw [needed]
    exact .tornSegment content (by simp) torn
  rw [recoverLog_eq scanned]
  simp only [deliver, LogScan.lastLsn, if_true, lt_irrefl, if_false]
  exact ⟨_, file, rfl, rfl, by simp [single], late⟩

/-- A successful recovery leaves no segment behind a gap exactly if the directory
does not hold a torn segment alone that starts too late. -/
theorem recoverLog_no_silent_gap_iff {σ : Type} (dir : LogDir) (onRecord : RecordCallback σ) (user : σ) :
    NoSilentGap dir.replayAfter onRecord dir.fs user ↔ ¬ LoneTornSegment dir.replayAfter dir.fs := by
  obtain ⟨fs, replayAfter, -, -⟩ := dir
  dsimp only
  constructor
  · intro covered lone
    obtain ⟨recovered, file, ok, last, mem, late⟩ := lone.accepted onRecord user
    have := covered recovered ok file mem
    omega
  · intro notLone recovered ok file mem
    obtain ⟨scan, scanned, -, reached, rfl, -⟩ := recoverLog_ok ok
    rcases mem_neededSegments_or replayAfter mem with needed | skipped
    · simp only [LogScan.lastLsn]
      rcases scanned.first_cases with ⟨none, -⟩ | ⟨lone, data, single, content, torn, rfl⟩ |
        ⟨read, names⟩
      · simp [none] at needed
      · simp only [if_true]
        obtain rfl : file = lone := by simpa [single] using needed
        by_contra late
        refine notLone ⟨file, data, ?_, by omega, content, torn⟩
        rcases neededSegments_cases replayAfter fs with
          ⟨-, all⟩ | ⟨front, first, back, -, early, -, needed⟩
        · rw [← all, single]
        · rw [needed, List.cons.injEq] at single
          rw [single.1] at early
          omega
      · have := names file needed
        rw [if_neg read]
        omega
    · exact skipped.trans (Nat.succ_le_succ reached)

/-- An empty file named for LSN 5 is taken for the whole of an empty log. -/
theorem recoverLog_accepts_a_gap :
    let fs := SimFs.single (segmentFileName 5) []
    ∃ recovered, (recoverLog 0 collect fs []).result = .ok recovered ∧
      ∃ file ∈ listSegments fs, recovered.lastLsn + 1 < file.nameLsn :=
  ⟨{ removedTornSegment := true }, by decide +kernel⟩

end Baton
