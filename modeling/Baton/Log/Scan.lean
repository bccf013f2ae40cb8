/-
# Log.Scan — what a scan of the log means

`recover_log` interleaves parsing, the caller's callback and the repairs.  This
module separates them.  A `Run` is a list of records with consecutive LSNs;
`Scanned` says, of the segment files and their bytes alone, which records a scan
accepts and which repair it makes.  Then

* a scan that succeeds is a `Scanned` one (`recoverSegments_ok`), and conversely
  a `Scanned` directory is read as it says, the callback being the only thing
  that can still refuse (`recoverSegments_eq`);
* a scan that fails has repaired nothing (`recoverSegments_error`).

Everything about recovery is proved from these three, never from the loops.
-/
import Baton.Log.Recovery

namespace Baton

open List (append_assoc append_nil cons_append drop_drop filter_cons forall_mem_cons length_append
  length_cons length_drop)

set_option autoImplicit false

variable {r : LogRecordView} {lsn replayAfter expectedLsn : Nat} {rs records : List LogRecordView}
  {data : Bytes} {file : SegmentFile} {fs : SimFs} {files : List SegmentFile} {name : FileName}

/-! ## Runs of records -/

namespace LogRecordView

def bytes (r : LogRecordView) : Bytes := frame r.lsn r.type r.payload

/-- What `append_record` accepts, of an LSN that fits its field. -/
def Fits (r : LogRecordView) : Prop := r.payload.length ≤ kMaxRecordPayload ∧ r.lsn < 2 ^ 64

instance (r : LogRecordView) : Decidable r.Fits := inferInstanceAs (Decidable (_ ∧ _))

theorem bytes_length (r : LogRecordView) :
    r.bytes.length = kRecordHeaderSize + r.payload.length := frame_length ..

theorem parseRecord_bytes (fits : r.Fits) (rest : Bytes) :
    parseRecord (r.bytes ++ rest) = .accepted r := parseRecord_frame r.type fits.1 fits.2 rest

end LogRecordView

def framesOf (records : List LogRecordView) : Bytes := records.flatMap LogRecordView.bytes

@[simp] theorem framesOf_nil : framesOf [] = [] := rfl
@[simp] theorem framesOf_cons (r : LogRecordView) (rs : List LogRecordView) :
    framesOf (r :: rs) = r.bytes ++ framesOf rs := by simp [framesOf]
@[simp] theorem framesOf_append (rs ss : List LogRecordView) :
    framesOf (rs ++ ss) = framesOf rs ++ framesOf ss := by simp [framesOf]

theorem length_le_framesOf (records : List LogRecordView) :
    kRecordHeaderSize * records.length ≤ (framesOf records).length := by
  induction records with
  | nil => simp
  | cons r rs ih =>
    simp only [framesOf_cons, length_append, length_cons, r.bytes_length]
    rw [Nat.mul_add]
    omega

/-- Records that fit, with the LSNs `lsn`, `lsn + 1`, ... -/
def Run : Nat → List LogRecordView → Prop
  | _, [] => True
  | lsn, r :: rs => r.lsn = lsn ∧ r.Fits ∧ Run (lsn + 1) rs

instance Run.decidable : (lsn : Nat) → (records : List LogRecordView) → Decidable (Run lsn records)
  | _, [] => isTrue trivial
  | lsn, _ :: rs =>
    have := Run.decidable (lsn + 1) rs
    inferInstanceAs (Decidable (_ ∧ _ ∧ _))

@[simp] theorem run_nil (lsn : Nat) : Run lsn [] := trivial

theorem run_cons : Run lsn (r :: rs) ↔ r.lsn = lsn ∧ r.Fits ∧ Run (lsn + 1) rs := Iff.rfl

variable {ss : List LogRecordView}

theorem run_append : Run lsn (rs ++ ss) ↔ Run lsn rs ∧ Run (lsn + rs.length) ss := by
  induction rs generalizing lsn with
  | nil => simp
  | cons r rs ih =>
    rw [cons_append, run_cons, run_cons, ih, length_cons,
      show lsn + 1 + rs.length = lsn + (rs.length + 1) by omega]
    tauto

theorem Run.getElem (run : Run lsn rs) {i : Nat} (h : i < rs.length) : rs[i].lsn = lsn + i := by
  induction rs generalizing lsn i with
  | nil => simp at h
  | cons r rs ih =>
    cases i with
    | zero => exact run.1
    | succ i =>
      simp only [List.getElem_cons_succ, ih run.2.2 (Nat.lt_of_succ_lt_succ h)]
      omega

theorem Run.fits (run : Run lsn rs) : ∀ r ∈ rs, r.Fits := by
  induction rs generalizing lsn with
  | nil => simp
  | cons r rs ih => exact forall_mem_cons.2 ⟨run.2.1, ih run.2.2⟩

theorem Run.lsn_bounds (run : Run lsn rs) : ∀ r ∈ rs, lsn ≤ r.lsn ∧ r.lsn < lsn + rs.length := by
  intro r mem
  obtain ⟨i, h, rfl⟩ := List.getElem_of_mem mem
  rw [run.getElem h]
  omega

/-- A parse that yields the record the scan waits for. -/
def Continues (data : Bytes) (lsn : Nat) : Prop :=
  (parseRecord data).status = .kOk ∧ (parseRecord data).record.lsn = lsn

/-- Any bytes are a run of records, as long as possible, and the rest. -/
theorem exists_run (lsn : Nat) (data : Bytes) :
    ∃ records tail, data = framesOf records ++ tail ∧ Run lsn records ∧
      ¬ Continues tail (lsn + records.length) := by
  -- by induction on the number of bytes: an accepted record takes at least 17 of them
  induction size : data.length using Nat.strong_induction_on generalizing data lsn with
  | _ n ih =>
    by_cases more : Continues data lsn
    · obtain ⟨r, rest, split, fits, small, parsed⟩ := parseRecord_sound more.1
      have here : r.lsn = lsn := by
        have := more.2
        rwa [parsed] at this
      have shorter : rest.length < n := by
        rw [← size, split, length_append, frame_length]
        simp only [kRecordHeaderSize]
        omega
      obtain ⟨records, tail, rfl, run, stops⟩ := ih _ shorter (lsn + 1) rest rfl
      refine ⟨r :: records, tail, ?_, ⟨here, ⟨fits, small⟩, run⟩, ?_⟩
      · rw [split, framesOf_cons, append_assoc]
        rfl
      · rwa [length_cons, show lsn + (records.length + 1) = lsn + 1 + records.length by omega]
    · exact ⟨[], data, rfl, trivial, more⟩

theorem not_continues_nil (lsn : Nat) : ¬ Continues [] lsn := fun more => nomatch more.1

theorem continues_bytes (fits : r.Fits) (rest : Bytes) : Continues (r.bytes ++ rest) r.lsn := by
  rw [Continues, LogRecordView.parseRecord_bytes fits]
  exact ⟨rfl, rfl⟩

/-- There is only one way to read bytes as a longest run. -/
theorem Run.unique {tail other : Bytes} (run : Run lsn rs) (run' : Run lsn ss)
    (stops : ¬ Continues tail (lsn + rs.length)) (stops' : ¬ Continues other (lsn + ss.length))
    (same : framesOf rs ++ tail = framesOf ss ++ other) : rs = ss ∧ tail = other := by
  induction rs generalizing lsn ss with
  | nil =>
    cases ss with
    | nil => exact ⟨rfl, by simpa using same⟩
    | cons s ss =>
      obtain ⟨rfl, fits, -⟩ := run'
      rw [framesOf_nil, List.nil_append, framesOf_cons, append_assoc] at same
      exact absurd (same ▸ continues_bytes fits _) stops
  | cons r rs ih =>
    obtain ⟨rfl, fits, run⟩ := run
    rw [framesOf_cons, append_assoc] at same
    cases ss with
    | nil =>
      rw [framesOf_nil, List.nil_append] at same
      exact absurd (same ▸ continues_bytes fits _) stops'
    | cons s ss =>
      obtain ⟨here, fits', run'⟩ := run'
      rw [framesOf_cons, append_assoc] at same
      obtain rfl : r = s := by
        have := congrArg parseRecord same
        rw [LogRecordView.parseRecord_bytes fits, LogRecordView.parseRecord_bytes fits'] at this
        exact congrArg RecordParseResult.record this
      rw [length_cons, Nat.add_comm _ 1, ← Nat.add_assoc] at stops stops'
      obtain ⟨rfl, rest⟩ := ih run run' stops stops' (List.append_cancel_left same)
      exact ⟨rfl, rest⟩

/-- A run read from the frames of another is an initial part of it. -/
theorem Run.initial {tail : Bytes} (run : Run lsn rs) (run' : Run lsn ss)
    (same : framesOf rs ++ tail = framesOf ss) : rs <+: ss := by
  obtain ⟨more, rest, rfl, goesOn, stops⟩ := exists_run (lsn + rs.length) tail
  have stops : ¬ Continues rest (lsn + (rs ++ more).length) := by
    rwa [length_append, ← Nat.add_assoc]
  have whole : framesOf (rs ++ more) ++ rest = framesOf ss ++ [] := by
    rw [framesOf_append, append_assoc, same, append_nil]
  obtain ⟨rfl, -⟩ := Run.unique (run_append.2 ⟨run, goesOn⟩) run' stops (not_continues_nil _) whole
  exact List.prefix_append rs more

/-! ## The callback -/

section

variable {σ : Type} (replayAfter : Nat) (onRecord : RecordCallback σ)

/-- The records after `replayAfter` are handed over, until one is refused. -/
def deliver : List LogRecordView → σ → Result Unit × σ
  | [], user => (.ok (), user)
  | r :: rs, user =>
    if replayAfter < r.lsn then
      match onRecord r user with
      | (.error e, user) => (.error e, user)
      | (.ok (), user) => deliver rs user
    else deliver rs user

theorem deliver_append (rs ss : List LogRecordView) (user : σ) :
    deliver replayAfter onRecord (rs ++ ss) user =
      match deliver replayAfter onRecord rs user with
      | (.error e, user) => (.error e, user)
      | (.ok (), user) => deliver replayAfter onRecord ss user := by
  induction rs generalizing user with
  | nil => rfl
  | cons r rs ih =>
    simp only [cons_append, deliver]
    split
    · split
      · rfl
      · exact ih _
    · exact ih _

end

/-- The records that are replayed. -/
def replayed (replayAfter : Nat) (records : List LogRecordView) : List LogRecordView :=
  records.filter fun r => replayAfter < r.lsn

@[simp] theorem replayed_append (replayAfter : Nat) (rs ss : List LogRecordView) :
    replayed replayAfter (rs ++ ss) = replayed replayAfter rs ++ replayed replayAfter ss :=
  List.filter_append ..

theorem replayed_eq_nil (run : Run lsn records) (old : lsn + records.length ≤ replayAfter + 1) :
    replayed replayAfter records = [] := by
  refine List.filter_eq_nil_iff.2 fun r mem => ?_
  have := (run.lsn_bounds r mem).2
  simp only [decide_eq_true_eq]
  omega

/-- The other records do not count. -/
theorem deliver_replayed {σ : Type} (replayAfter : Nat) (onRecord : RecordCallback σ)
    (records : List LogRecordView) (user : σ) :
    deliver replayAfter onRecord (replayed replayAfter records) user =
      deliver replayAfter onRecord records user := by
  induction records generalizing user with
  | nil => rfl
  | cons r rs ih =>
    by_cases needed : replayAfter < r.lsn
    · simp only [replayed, filter_cons, needed, decide_true, if_true, deliver]
      split
      · rfl
      · exact ih _
    · simp only [replayed, filter_cons, needed, decide_false, Bool.false_eq_true, if_false,
        deliver]
      exact ih _

/-- A callback that accepts every record and keeps it. -/
def collect : RecordCallback (List LogRecordView) := fun r seen => (.ok (), seen ++ [r])

theorem deliver_collect (replayAfter : Nat) (records seen : List LogRecordView) :
    deliver replayAfter collect records seen = (.ok (), seen ++ replayed replayAfter records) := by
  induction records generalizing seen with
  | nil => simp [deliver, replayed]
  | cons r rs ih =>
    by_cases needed : replayAfter < r.lsn
    · simp only [deliver, needed, if_true, collect, replayed, filter_cons, decide_true]
      rw [ih, append_assoc]
      rfl
    · simp only [deliver, needed, if_false, replayed, filter_cons, decide_false,
        Bool.false_eq_true]
      exact ih _

/-! ## One segment -/

/-- Bytes that are no record, with no record behind them: a torn tail. -/
def TornAt (data : Bytes) (offset lsn : Nat) : Prop :=
  (parseRecord (data.drop offset)).status ≠ .kOk ∧
    (parseRecord (data.drop offset)).status ≠ .kEndOfData ∧
    validRecordFollows data (offset + 1) lsn = false

instance (data : Bytes) (offset lsn : Nat) : Decidable (TornAt data offset lsn) :=
  inferInstanceAs (Decidable (_ ∧ _ ∧ _))

theorem TornAt.not_continues {offset : Nat} (torn : TornAt data offset lsn) (other : Nat) :
    ¬ Continues (data.drop offset) other := fun more => torn.1 more.1

theorem parseRecord_nil : (parseRecord []).status = .kEndOfData := rfl

theorem parseRecord_endOfData : (parseRecord data).status = .kEndOfData ↔ data = [] := by
  refine ⟨fun ended => ?_, fun empty => empty ▸ parseRecord_nil⟩
  by_contra nonempty
  simp only [parseRecord, nonempty, if_false] at ended
  split at ended
  · cases ended
  · split at ended
    · cases ended
    · split at ended
      · cases ended
      · split at ended <;> cases ended

/-- A record in the data, from `start` on, with an LSN the bytes left can reach. -/
theorem validRecordFollows_iff {start : Nat} :
    validRecordFollows data start lsn = true ↔
      ∃ (offset : Nat) (r : LogRecordView) (rest : Bytes), start ≤ offset ∧
        data.drop offset = r.bytes ++ rest ∧ r.Fits ∧
        lsn ≤ r.lsn ∧ r.lsn ≤ lsn + (data.length - start) / kRecordHeaderSize := by
  have window : data.length - min start data.length = data.length - start := by omega
  rw [validRecordFollows, window]
  constructor
  · intro found
    split at found
    · cases found
    obtain ⟨offset, mem, valid⟩ := List.any_eq_true.1 found
    simp only [validRecordAt] at valid
    split at valid
    · cases valid
    split at valid
    · cases valid
    rename_i inWindow
    obtain ⟨r, rest, split, fits, small, -⟩ := parseRecord_sound (of_decide_eq_true valid)
    have field : loadU64 data (offset + 9) = r.lsn := by
      rw [loadU64, ← drop_drop, split]
      exact loadU64_frame r.type r.payload small rest
    exact ⟨offset, r, rest, (List.mem_range'_1.1 mem).1, split, ⟨fits, small⟩, by omega, by omega⟩
  · rintro ⟨offset, r, rest, from_, split, fits, low, high⟩
    have size : kRecordHeaderSize + r.payload.length + rest.length = data.length - offset := by
      rw [← r.bytes_length, ← length_append, ← split, length_drop]
    have header : 0 < kRecordHeaderSize := by decide
    rw [if_neg (by omega), List.any_eq_true]
    refine ⟨offset, List.mem_range'_1.2 ⟨from_, by omega⟩, ?_⟩
    have length : loadU32 data offset = r.payload.length := by
      have := loadU32_frame r.lsn r.type fits.1 rest
      rwa [loadU32, List.drop_zero, ← LogRecordView.bytes, ← split] at this
    have field : loadU64 data (offset + 9) = r.lsn := by
      rw [loadU64, ← drop_drop, split]
      exact loadU64_frame r.type r.payload fits.2 rest
    rw [validRecordAt, if_neg (by omega), field, if_neg (by omega), split,
      LogRecordView.parseRecord_bytes fits]
    rfl

def SegmentScan.after (scan : SegmentScan) (replayAfter : Nat) (records : List LogRecordView) :
    SegmentScan :=
  { scan with
    expectedLsn := scan.expectedLsn + records.length
    recordsReplayed := scan.recordsReplayed + (replayed replayAfter records).length }

section

variable {σ : Type} {replayAfter : Nat} {onRecord : RecordCallback σ} {file : SegmentFile}
  {isLast : Bool} {data : Bytes}

/-- The record loop over a run: its records are delivered and the loop goes on
behind them. -/
theorem recoverRecords_run (records : List LogRecordView) (tail : Bytes) (fuel offset : Nat)
    (scan : SegmentScan) (fs : SimFs) (user : σ)
    (split : data.drop offset = framesOf records ++ tail) (run : Run scan.expectedLsn records) :
    recoverRecords replayAfter onRecord file isLast data (fuel + records.length) offset scan fs
        user =
      match deliver replayAfter onRecord records user with
      | (.error e, user) => ⟨.error e, fs, user⟩
      | (.ok (), user) =>
        recoverRecords replayAfter onRecord file isLast data fuel
          (offset + (framesOf records).length) (scan.after replayAfter records) fs user := by
  induction records generalizing offset scan user with
  | nil => simp [deliver, SegmentScan.after, replayed]
  | cons r rs ih =>
    obtain ⟨here, fits, rest⟩ := run
    have parsed : parseRecord (data.drop offset) = .accepted r := by
      rw [split, framesOf_cons, append_assoc]
      exact LogRecordView.parseRecord_bytes fits _
    have behind : data.drop (offset + (kRecordHeaderSize + r.payload.length)) =
        framesOf rs ++ tail := by
      rw [← drop_drop, split, framesOf_cons, append_assoc, ← r.bytes_length,
        List.drop_left]
    have size : offset + (framesOf (r :: rs)).length =
        offset + (kRecordHeaderSize + r.payload.length) + (framesOf rs).length := by
      rw [framesOf_cons, length_append, r.bytes_length]
      omega
    rw [length_cons, ← Nat.add_assoc, size]
    simp only [recoverRecords, parsed, RecordParseResult.accepted, here, ne_eq,
      not_true_eq_false, if_false, deliver]
    by_cases needed : replayAfter < scan.expectedLsn
    · have next : SegmentScan.after
          { scan with
            recordsReplayed := scan.recordsReplayed + 1
            expectedLsn := scan.expectedLsn + 1 } replayAfter rs =
          scan.after replayAfter (r :: rs) := by
        simp [SegmentScan.after, replayed, here, needed]
        omega
      simp only [needed, if_true]
      rcases onRecord r user with ⟨_ | _, user⟩
      · rfl
      · simp only
        rw [ih _ _ user behind rest, next]
    · have next : SegmentScan.after { scan with expectedLsn := scan.expectedLsn + 1 }
          replayAfter rs = scan.after replayAfter (r :: rs) := by
        simp [SegmentScan.after, replayed, here, needed]
        omega
      simp only [needed, if_false]
      rw [ih _ _ user behind rest, next]

/-- The loop at the end of the data. -/
theorem recoverRecords_end (fuel offset : Nat) (scan : SegmentScan) (fs : SimFs) (user : σ)
    (ended : data.drop offset = []) :
    recoverRecords replayAfter onRecord file isLast data (fuel + 1) offset scan fs user =
      ⟨.ok scan, fs, user⟩ := by
  simp only [recoverRecords, ended, parseRecord_nil]

/-- The loop at a torn tail of the newest segment. -/
theorem recoverRecords_torn (fuel offset : Nat) (scan : SegmentScan) (fs : SimFs) (user : σ)
    (torn : TornAt data offset scan.expectedLsn) :
    recoverRecords replayAfter onRecord file true data (fuel + 1) offset scan fs user =
      match fs.truncate file.name offset with
      | .error e => ⟨.error e, fs, user⟩
      | .ok fs =>
        ⟨.ok { scan with size := offset, tornBytesTruncated := data.length - offset },
          fs, user⟩ := by
  obtain ⟨notOk, notEnd, none⟩ := torn
  cases truncated : fs.truncate file.name offset <;>
    simp only [recoverRecords, none, truncated, Bool.not_true, Bool.false_eq_true, if_false]

/-- The loop where it can neither go on nor stop. -/
theorem recoverRecords_stuck (fuel offset : Nat) (scan : SegmentScan) (fs : SimFs) (user : σ)
    (stops : ¬ Continues (data.drop offset) scan.expectedLsn) (more : data.drop offset ≠ [])
    (notTorn : ¬ (isLast ∧ TornAt data offset scan.expectedLsn)) :
    ∃ e, recoverRecords replayAfter onRecord file isLast data (fuel + 1) offset scan fs user =
      ⟨.error e, fs, user⟩ := by
  simp only [recoverRecords]
  split
  · exact absurd (parseRecord_endOfData.1 ‹_›) more
  · rename_i ok
    rw [if_pos fun same => stops ⟨ok, same⟩]
    exact ⟨_, rfl⟩
  · rename_i notEnd notOk
    cases isLast with
    | false => exact ⟨_, rfl⟩
    | true =>
      have follows : validRecordFollows data (offset + 1) scan.expectedLsn = true := by
        by_contra none
        exact notTorn ⟨rfl, notOk, notEnd, Bool.eq_false_iff.2 none⟩
      simp only [follows, if_true, Bool.not_true, Bool.false_eq_true, if_false]
      exact ⟨_, rfl⟩

end

/-! ## The directory -/

/-- What a scan does to the directory. -/
inductive Repair where
  | none
  | truncated (name : FileName) (size : Nat)
  | removed (name : FileName)
  deriving DecidableEq, Repr

/-- The repairs are made on a file that exists, so neither call fails. -/
def Repair.apply (fs : SimFs) : Repair → SimFs
  | .none => fs
  | .truncated name size => (fs.truncate name size).toOption.getD fs
  | .removed name => ((fs.remove name).toOption.getD fs).syncDir

/-- What a scan accepts. -/
structure LogScan where
  records : List LogRecordView := []
  /-- 0 if no segment was read -/
  expectedLsn : Nat
  segments : List SegmentInfo := []
  tornBytes : Nat := 0
  repair : Repair := .none

variable {scan : LogScan}

/-- A newest segment that was still being created. -/
def TornCreation (data : Bytes) (nameLsn : Nat) : Prop :=
  (∃ e, parseSegmentHeader data = .error e ∧ e.code = .kCorruption) ∧
    validRecordFollows data 0 nameLsn = false

/-- The checks a segment must pass before its records are read. -/
structure Starts (replayAfter expectedLsn : Nat) (file : SegmentFile) (data : Bytes) : Prop where
  header : parseSegmentHeader data = .ok file.nameLsn
  consecutive : expectedLsn ≠ 0 → file.nameLsn = expectedLsn
  reaches : expectedLsn = 0 → file.nameLsn ≤ replayAfter + 1

theorem Starts.checks (starts : Starts replayAfter expectedLsn file data) :
    (if expectedLsn = 0 then file.nameLsn else expectedLsn) = file.nameLsn ∧
      ¬ (expectedLsn ≠ 0 ∧ file.nameLsn ≠ expectedLsn) ∧
      ¬ (expectedLsn = 0 ∧ replayAfter + 1 < file.nameLsn) := by
  refine ⟨?_, fun other => other.2 (starts.consecutive other.1), fun late => ?_⟩
  · split
    · rfl
    · exact (starts.consecutive ‹_›).symm
  · exact absurd (starts.reaches late.1) (by omega)

def SegmentFile.info (file : SegmentFile) (records : List LogRecordView) : SegmentInfo :=
  ⟨file.name, file.nameLsn, file.nameLsn + records.length - 1,
    kSegmentHeaderSize + (framesOf records).length⟩

/-- The segment files, read in order from the expected LSN on, and what the scan
accepts of them.  Only the last may be torn. -/
inductive Scanned (replayAfter : Nat) (fs : SimFs) : List SegmentFile → Nat → LogScan → Prop
  | nil (expectedLsn : Nat) : Scanned replayAfter fs [] expectedLsn { expectedLsn }
  | tornSegment {file : SegmentFile} {expectedLsn : Nat} {data : Bytes}
      (content : fs.content file.name = some data)
      (consecutive : expectedLsn ≠ 0 → file.nameLsn = expectedLsn)
      (torn : TornCreation data file.nameLsn) :
      Scanned replayAfter fs [file] expectedLsn
        { expectedLsn, repair := .removed file.name }
  | tornTail {file : SegmentFile} {expectedLsn : Nat} {data tail : Bytes}
      {records : List LogRecordView}
      (content : fs.content file.name = some data)
      (starts : Starts replayAfter expectedLsn file data)
      (split : data.drop kSegmentHeaderSize = framesOf records ++ tail)
      (run : Run file.nameLsn records)
      (torn : TornAt data (kSegmentHeaderSize + (framesOf records).length)
        (file.nameLsn + records.length)) :
      Scanned replayAfter fs [file] expectedLsn
        { records
          expectedLsn := file.nameLsn + records.length
          segments := [file.info records]
          tornBytes := tail.length
          repair := .truncated file.name (kSegmentHeaderSize + (framesOf records).length) }
  | segment {file : SegmentFile} {rest : List SegmentFile} {expectedLsn : Nat} {data : Bytes}
      {records : List LogRecordView} {scan : LogScan}
      (content : fs.content file.name = some data)
      (starts : Starts replayAfter expectedLsn file data)
      (split : data.drop kSegmentHeaderSize = framesOf records)
      (run : Run file.nameLsn records)
      (more : Scanned replayAfter fs rest (file.nameLsn + records.length) scan) :
      Scanned replayAfter fs (file :: rest) expectedLsn
        { scan with
          records := records ++ scan.records
          segments := file.info records :: scan.segments }

/-- A scan that needed no repair goes on with the files behind it. -/
theorem Scanned.append {more : List SegmentFile} {later : LogScan}
    (scanned : Scanned replayAfter fs files expectedLsn scan) (clean : scan.repair = .none)
    (goesOn : Scanned replayAfter fs more scan.expectedLsn later) :
    Scanned replayAfter fs (files ++ more) expectedLsn
      { later with
        records := scan.records ++ later.records
        segments := scan.segments ++ later.segments } := by
  induction scanned with
  | nil => exact goesOn
  | tornSegment => cases clean
  | tornTail => cases clean
  | segment content starts split run _ ih =>
    simpa using Scanned.segment content starts split run (ih clean goesOn)

/-- The first segment that is read pins the LSN. -/
theorem Scanned.pin (scanned : Scanned replayAfter fs files 0 scan) (read : scan.expectedLsn ≠ 0) :
    ∃ file rest, files = file :: rest ∧ file.nameLsn ≠ 0 ∧ file.nameLsn ≤ replayAfter + 1 ∧
      Scanned replayAfter fs files file.nameLsn scan := by
  have pinned {file : SegmentFile} {data : Bytes} (starts : Starts replayAfter 0 file data) :
      file.nameLsn ≠ 0 ∧ file.nameLsn ≤ replayAfter + 1 ∧
        Starts replayAfter file.nameLsn file data :=
    have positive := (parseSegmentHeader_pos starts.header).2
    ⟨positive, starts.reaches rfl, starts.header, fun _ => rfl, fun zero => absurd zero positive⟩
  cases scanned with
  | nil => exact absurd rfl read
  | tornSegment => exact absurd rfl read
  | tornTail content starts split run torn =>
    obtain ⟨positive, reaches, starts⟩ := pinned starts
    exact ⟨_, _, rfl, positive, reaches, .tornTail content starts split run torn⟩
  | segment content starts split run more =>
    obtain ⟨positive, reaches, starts⟩ := pinned starts
    exact ⟨_, _, rfl, positive, reaches, .segment content starts split run more⟩

/-- How a file is read that has another behind it. -/
theorem Scanned.read_inner {front back : List SegmentFile} {next : SegmentFile}
    (scanned : Scanned replayAfter fs (front ++ file :: next :: back) expectedLsn scan) :
    ∃ data records, fs.content file.name = some data ∧
      data.drop kSegmentHeaderSize = framesOf records ∧ Run file.nameLsn records ∧
      next.nameLsn = file.nameLsn + records.length := by
  induction front generalizing expectedLsn scan with
  | nil =>
    cases scanned with
    | segment content starts split run more =>
      have positive := (parseSegmentHeader_pos starts.header).2
      refine ⟨_, _, content, split, run, ?_⟩
      cases more with
      | tornSegment content consecutive torn => exact consecutive (by omega)
      | tornTail content starts split run torn => exact starts.consecutive (by omega)
      | segment content starts split run more => exact starts.consecutive (by omega)
  | cons first front ih =>
    rw [cons_append] at scanned
    generalize rest : front ++ file :: next :: back = files at scanned
    cases scanned with
    | tornSegment => simp at rest
    | tornTail => simp at rest
    | segment content starts split run more => exact ih (rest ▸ more)

/-- How each file of a scan was read. -/
theorem Scanned.read (scanned : Scanned replayAfter fs files expectedLsn scan) :
    ∀ file ∈ files, ∃ data, fs.content file.name = some data ∧
      (TornCreation data file.nameLsn ∨
        parseSegmentHeader data = .ok file.nameLsn ∧
        ∃ records tail, data.drop kSegmentHeaderSize = framesOf records ++ tail ∧
          Run file.nameLsn records ∧
          (tail = [] ∨ TornAt data (kSegmentHeaderSize + (framesOf records).length)
            (file.nameLsn + records.length))) := by
  induction scanned with
  | nil => simp
  | tornSegment content consecutive torn =>
    simpa using ⟨_, content, .inl torn⟩
  | tornTail content starts split run torn =>
    simpa using ⟨_, content, .inr ⟨starts.header, _, _, split, run, .inr torn⟩⟩
  | segment content starts split run more ih =>
    refine forall_mem_cons.2 ⟨⟨_, content, .inr ⟨starts.header, _, [], ?_, run, .inl rfl⟩⟩, ih⟩
    rw [split, append_nil]

section

variable {replayAfter : Nat} {fs : SimFs} {files : List SegmentFile} {expectedLsn : Nat}
  {scan : LogScan}

/-- From a pinned LSN on, every segment starts at or before the LSN reached. -/
theorem Scanned.names_le (scanned : Scanned replayAfter fs files expectedLsn scan)
    (pinned : expectedLsn ≠ 0) :
    expectedLsn ≤ scan.expectedLsn ∧ ∀ file ∈ files, file.nameLsn ≤ scan.expectedLsn := by
  induction scanned with
  | nil => simp
  | tornSegment content consecutive torn => simp [consecutive pinned]
  | tornTail content starts split run torn => simp [starts.consecutive pinned]
  | segment content starts split run more ih =>
    have here := starts.consecutive pinned
    obtain ⟨reached, later⟩ := ih (by omega)
    exact ⟨by simp only; omega, forall_mem_cons.2 ⟨by simp only; omega, later⟩⟩

/-- The first segment read pins the LSN, unless there is none or it is the newest
and torn. -/
theorem Scanned.first_cases (scanned : Scanned replayAfter fs files 0 scan) :
    files = [] ∧ scan = { expectedLsn := 0 } ∨
    (∃ file data, files = [file] ∧ fs.content file.name = some data ∧
      TornCreation data file.nameLsn ∧
      scan = { expectedLsn := 0, repair := .removed file.name }) ∨
    (scan.expectedLsn ≠ 0 ∧ ∀ file ∈ files, file.nameLsn ≤ scan.expectedLsn) := by
  cases scanned with
  | nil => exact .inl ⟨rfl, rfl⟩
  | tornSegment content consecutive torn => exact .inr (.inl ⟨_, _, rfl, content, torn, rfl⟩)
  | tornTail content starts split run torn =>
    have positive := (parseSegmentHeader_pos starts.header).2
    exact .inr (.inr ⟨by simp; omega, by simp⟩)
  | segment content starts split run more =>
    have positive := (parseSegmentHeader_pos starts.header).2
    obtain ⟨reached, later⟩ := more.names_le (by omega)
    exact .inr (.inr ⟨by simp; omega, forall_mem_cons.2 ⟨by simp; omega, later⟩⟩)

end

/-- The bookkeeping of a scan, added to what was recovered before it. -/
def LogScan.extend (scan : LogScan) (replayAfter : Nat) (recovered : RecoveredLog) : RecoveredLog :=
  { recovered with
    segments := recovered.segments ++ scan.segments
    recordsReplayed := recovered.recordsReplayed + (replayed replayAfter scan.records).length
    tornBytesTruncated := match scan.repair with
      | .truncated _ _ => scan.tornBytes
      | _ => recovered.tornBytesTruncated
    removedTornSegment := match scan.repair with
      | .removed _ => true
      | _ => recovered.removedTornSegment }

/-- The last LSN a scan leaves recovered. -/
def LogScan.lastLsn (scan : LogScan) (replayAfter : Nat) : Nat :=
  if scan.expectedLsn = 0 then replayAfter else scan.expectedLsn - 1

section

variable {σ : Type} {replayAfter : Nat} {onRecord : RecordCallback σ}

theorem SimFs.remove_of_content (content : fs.content name = some data) :
    fs.remove name = .ok { fs with
      current := fs.current.erase name
      pending := fs.pending ++ [.kUnlink name] } := by
  obtain ⟨ino, found, -⟩ := Option.map_eq_some_iff.1 content
  simp only [SimFs.remove, found]

theorem SimFs.truncate_of_content (size : Nat) (content : fs.content name = some data) :
    ∃ fs', fs.truncate name size = .ok fs' := by
  obtain ⟨ino, found, -⟩ := Option.map_eq_some_iff.1 content
  exact ⟨_, by simp only [SimFs.truncate, found]; rfl⟩

theorem content_truncated {size : Nat} (content : fs.content name = some data)
    (nonempty : data ≠ []) :
    ((Repair.truncated name size).apply fs).content name = some (data.take size) := by
  obtain ⟨ino, found, rfl⟩ := Option.map_eq_some_iff.1 content
  have exists_ : ino < fs.files.length := by
    by_contra outside
    exact nonempty (by simp [SimFs.file, List.getElem?_eq_none (Nat.le_of_not_lt outside)])
  simp [Repair.apply, SimFs.truncate, found, Except.toOption, SimFs.content,
    SimFs.file_setFile_self _ _ exists_]

/-- The whole record loop of a segment that ends with its last record. -/
theorem recoverRecords_complete {isLast : Bool} (scan : SegmentScan) (fs : SimFs) (user : σ)
    (split : data.drop kSegmentHeaderSize = framesOf records) (run : Run scan.expectedLsn records) :
    recoverRecords replayAfter onRecord file isLast data (data.length + 1) kSegmentHeaderSize
        scan fs user =
      match deliver replayAfter onRecord records user with
      | (.error e, user) => ⟨.error e, fs, user⟩
      | (.ok (), user) => ⟨.ok (scan.after replayAfter records), fs, user⟩ := by
  have few := length_le_framesOf records
  have bytes : (framesOf records).length = data.length - kSegmentHeaderSize := by
    rw [← split, length_drop]
  simp only [kRecordHeaderSize] at few
  rw [show data.length + 1 = (data.length - records.length + 1) + records.length by omega,
    recoverRecords_run records [] _ _ scan fs user (by simpa using split) run]
  have ended : data.drop (kSegmentHeaderSize + (framesOf records).length) = [] := by
    rw [← drop_drop, split, List.drop_length]
  simp only [recoverRecords_end _ _ _ _ _ ended]

/-- The whole record loop of a newest segment that is torn behind its last record. -/
theorem recoverRecords_tornTail {tail : Bytes} (scan : SegmentScan) (fs : SimFs) (user : σ)
    (content : fs.content file.name = some data)
    (split : data.drop kSegmentHeaderSize = framesOf records ++ tail)
    (run : Run scan.expectedLsn records)
    (torn : TornAt data (kSegmentHeaderSize + (framesOf records).length)
      (scan.expectedLsn + records.length)) :
    recoverRecords replayAfter onRecord file true data (data.length + 1) kSegmentHeaderSize
        scan fs user =
      match deliver replayAfter onRecord records user with
      | (.error e, user) => ⟨.error e, fs, user⟩
      | (.ok (), user) =>
        ⟨.ok { scan.after replayAfter records with
            size := kSegmentHeaderSize + (framesOf records).length
            tornBytesTruncated := tail.length },
          (Repair.truncated file.name (kSegmentHeaderSize + (framesOf records).length)).apply fs,
          user⟩ := by
  have few := length_le_framesOf records
  have bytes : (framesOf records).length + tail.length = data.length - kSegmentHeaderSize := by
    rw [← length_append, ← split, length_drop]
  have nonempty : data.drop (kSegmentHeaderSize + (framesOf records).length) ≠ [] :=
    fun empty => torn.2.1 (parseRecord_endOfData.2 empty)
  simp only [kRecordHeaderSize] at few
  rw [show data.length + 1 = (data.length - records.length + 1) + records.length by omega,
    recoverRecords_run records tail _ _ scan fs user split run]
  obtain ⟨fs', truncated⟩ := SimFs.truncate_of_content
    (kSegmentHeaderSize + (framesOf records).length) content
  have size : data.length - (kSegmentHeaderSize + (framesOf records).length) = tail.length := by
    omega
  rcases deliver replayAfter onRecord records user with ⟨_ | _, user⟩
  · rfl
  · simp only [recoverRecords_torn _ _ (scan.after replayAfter records) fs user torn, truncated,
      size, Repair.apply, Except.toOption, Option.getD]

/-- A segment whose records are neither complete nor torn is refused. -/
theorem recoverRecords_cases (file : SegmentFile) (isLast : Bool) (data : Bytes) (lsn : Nat) :
    (∃ records, data.drop kSegmentHeaderSize = framesOf records ∧ Run lsn records) ∨
    (isLast ∧ ∃ records tail, data.drop kSegmentHeaderSize = framesOf records ++ tail ∧
      Run lsn records ∧
      TornAt data (kSegmentHeaderSize + (framesOf records).length) (lsn + records.length)) ∨
    ∀ (scan : SegmentScan) (fs : SimFs) (user : σ), scan.expectedLsn = lsn →
      ∃ e user', recoverRecords replayAfter onRecord file isLast data (data.length + 1)
        kSegmentHeaderSize scan fs user = ⟨.error e, fs, user'⟩ := by
  obtain ⟨records, tail, split, run, stops⟩ := exists_run lsn (data.drop kSegmentHeaderSize)
  by_cases empty : tail = []
  · subst empty
    exact .inl ⟨records, by simpa using split, run⟩
  by_cases torn : isLast ∧
      TornAt data (kSegmentHeaderSize + (framesOf records).length) (lsn + records.length)
  · exact .inr (.inl ⟨torn.1, records, tail, split, run, torn.2⟩)
  refine .inr (.inr fun scan fs user here => ?_)
  subst here
  have behind : data.drop (kSegmentHeaderSize + (framesOf records).length) = tail := by
    rw [← drop_drop, split, List.drop_left]
  have few := length_le_framesOf records
  have bytes : (framesOf records).length + tail.length = data.length - kSegmentHeaderSize := by
    rw [← length_append, ← split, length_drop]
  simp only [kRecordHeaderSize] at few
  rw [show data.length + 1 = (data.length - records.length + 1) + records.length by omega,
    recoverRecords_run records tail _ _ scan fs user split run]
  rcases deliver replayAfter onRecord records user with ⟨e | _, user⟩
  · exact ⟨e, user, rfl⟩
  · have stuck : ∃ e, recoverRecords replayAfter onRecord file isLast data _ _ _ fs user = _ :=
      recoverRecords_stuck (data.length - records.length) _ (scan.after replayAfter records) fs
        user (behind ▸ stops) (behind ▸ empty) torn
    exact stuck.imp fun e refused => ⟨user, refused⟩

/-- A scanned directory is read as the scan says: the callback sees its records,
and if it refuses none of them the repair is made. -/
theorem recoverSegments_eq (scanned : Scanned replayAfter fs files expectedLsn scan)
    (recovered : RecoveredLog) (user : σ) :
    recoverSegments replayAfter onRecord files expectedLsn recovered fs user =
      match deliver replayAfter onRecord scan.records user with
      | (.error e, user) => ⟨.error e, fs, user⟩
      | (.ok (), user) =>
        ⟨.ok (scan.expectedLsn, scan.extend replayAfter recovered), scan.repair.apply fs,
          user⟩ := by
  induction scanned generalizing recovered user with
  | nil => simp [recoverSegments, deliver, LogScan.extend, replayed, Repair.apply]
  | @tornSegment file expectedLsn data content consecutive torn =>
    obtain ⟨⟨e, header, code⟩, none⟩ := torn
    have names : ¬ (expectedLsn ≠ 0 ∧ file.nameLsn ≠ expectedLsn) :=
      fun other => other.2 (consecutive other.1)
    simp only [recoverSegments, SimFs.readFile_ok.2 content, names, if_false, header, code,
      none, List.isEmpty_nil, Bool.not_false, and_self, if_true, SimFs.remove_of_content content,
      deliver, LogScan.extend, replayed, Repair.apply, Except.toOption, Option.getD,
      List.filter_nil, List.length_nil, Nat.add_zero, append_nil]
  | @tornTail file expectedLsn data tail records content starts split run torn =>
    obtain ⟨first, names, early⟩ := starts.checks
    simp only [recoverSegments, SimFs.readFile_ok.2 content, names, if_false, starts.header,
      ne_eq, not_true_eq_false, early, first, List.isEmpty_nil]
    rw [recoverRecords_tornTail _ fs user content split run torn]
    rcases deliver replayAfter onRecord records user with ⟨_ | _, user⟩
    · rfl
    · rfl
  | @segment file rest expectedLsn data records scan content starts split run more ih =>
    obtain ⟨first, names, early⟩ := starts.checks
    simp only [recoverSegments, SimFs.readFile_ok.2 content, names, if_false, starts.header,
      ne_eq, not_true_eq_false, early, first]
    rw [recoverRecords_complete _ fs user split run, deliver_append]
    rcases deliver replayAfter onRecord records user with ⟨_ | _, user⟩
    · rfl
    · have size : data.length = kSegmentHeaderSize + (framesOf records).length := by
        have long := (parseSegmentHeader_pos starts.header).1
        rw [← split, length_drop]
        omega
      simp only [SegmentScan.after, ih]
      rcases deliver replayAfter onRecord scan.records user with ⟨_ | _, user⟩
      · rfl
      · simp only [LogScan.extend, SegmentFile.info, size, replayed, List.filter_append,
          length_append, append_assoc, List.singleton_append, Nat.add_assoc]

variable (onRecord) in
/-- A directory that is not a scanned one is refused, and nothing has happened to
it. -/
theorem recoverSegments_cases (fs : SimFs) (files : List SegmentFile)
    (present : ∀ file ∈ files, (fs.content file.name).isSome) (expectedLsn : Nat) :
    (∃ scan, Scanned replayAfter fs files expectedLsn scan) ∨
      ∀ (recovered : RecoveredLog) (user : σ), ∃ e user',
        recoverSegments replayAfter onRecord files expectedLsn recovered fs user =
          ⟨.error e, fs, user'⟩ := by
  induction files generalizing expectedLsn with
  | nil => exact .inl ⟨_, .nil expectedLsn⟩
  | cons file rest ih =>
    obtain ⟨here, later⟩ := forall_mem_cons.1 present
    obtain ⟨data, content⟩ := Option.isSome_iff_exists.1 here
    have read := SimFs.readFile_ok.2 content
    by_cases names : expectedLsn ≠ 0 ∧ file.nameLsn ≠ expectedLsn
    · refine .inr fun recovered user => ?_
      simp only [recoverSegments, read, if_pos names]
      exact ⟨_, _, rfl⟩
    have consecutive : expectedLsn ≠ 0 → file.nameLsn = expectedLsn :=
      fun pinned => by_contra fun other => names ⟨pinned, other⟩
    cases header : parseSegmentHeader data with
    | error e =>
      by_cases torn : rest.isEmpty ∧ e.code = .kCorruption ∧
          !validRecordFollows data 0 file.nameLsn
      · obtain ⟨last, code, none⟩ := torn
        rw [List.isEmpty_iff.1 last]
        exact .inl ⟨_, .tornSegment content consecutive ⟨⟨e, header, code⟩, by simpa using none⟩⟩
      · refine .inr fun recovered user => ?_
        simp only [recoverSegments, read, if_neg names, header, if_neg torn]
        exact ⟨_, _, rfl⟩
    | ok first =>
      by_cases other : first ≠ file.nameLsn
      · refine .inr fun recovered user => ?_
        simp only [recoverSegments, read, if_neg names, header, if_pos other]
        exact ⟨_, _, rfl⟩
      by_cases early : expectedLsn = 0 ∧ replayAfter + 1 < file.nameLsn
      · refine .inr fun recovered user => ?_
        simp only [recoverSegments, read, if_neg names, header, if_neg other, if_pos early]
        exact ⟨_, _, rfl⟩
      obtain rfl : first = file.nameLsn := not_not.1 other
      have starts : Starts replayAfter expectedLsn file data :=
        ⟨header, consecutive, fun zero => by_contra fun late => early ⟨zero, by omega⟩⟩
      have first := starts.checks.1
      rcases recoverRecords_cases file rest.isEmpty data file.nameLsn with
        ⟨records, split, run⟩ | ⟨last, records, tail, split, run, torn⟩ | refused
      · rcases ih later (file.nameLsn + records.length) with ⟨scan, more⟩ | refused
        · exact .inl ⟨_, .segment content starts split run more⟩
        · refine .inr fun recovered user => ?_
          simp only [recoverSegments, read, if_neg names, header, if_neg other, if_neg early,
            first]
          rw [recoverRecords_complete _ fs user split run]
          rcases deliver replayAfter onRecord records user with ⟨_ | _, user⟩
          · exact ⟨_, _, rfl⟩
          · exact refused _ user
      · rw [List.isEmpty_iff.1 last]
        exact .inl ⟨_, .tornTail content starts split run torn⟩
      · refine .inr fun recovered user => ?_
        simp only [recoverSegments, read, if_neg names, header, if_neg other, if_neg early,
          first]
        obtain ⟨e, user', error⟩ := refused
          { expectedLsn := file.nameLsn
            recordsReplayed := recovered.recordsReplayed
            size := data.length
            tornBytesTruncated := recovered.tornBytesTruncated } fs user rfl
        rw [error]
        exact ⟨_, _, rfl⟩

/-- Recovery of a scanned directory. -/
theorem recoverLog_eq (scanned : Scanned replayAfter fs (neededSegments replayAfter fs) 0 scan)
    (user : σ) :
    recoverLog replayAfter onRecord fs user =
      match deliver replayAfter onRecord scan.records user with
      | (.error e, user) => ⟨.error e, fs, user⟩
      | (.ok (), user) =>
        if scan.lastLsn replayAfter < replayAfter then
          ⟨.error (logTooShort replayAfter (scan.lastLsn replayAfter)), scan.repair.apply fs,
            user⟩
        else
          ⟨.ok { scan.extend replayAfter {} with lastLsn := scan.lastLsn replayAfter },
            scan.repair.apply fs, user⟩ := by
  rw [recoverLog, recoverSegments_eq scanned]
  rcases deliver replayAfter onRecord scan.records user with ⟨_ | _, user⟩ <;> rfl

variable (onRecord) in
/-- Recovery of any other directory. -/
theorem recoverLog_cases (fs : SimFs) :
    (∃ scan, Scanned replayAfter fs (neededSegments replayAfter fs) 0 scan) ∨
      ∀ user : σ, ∃ e user', recoverLog replayAfter onRecord fs user = ⟨.error e, fs, user'⟩ := by
  refine (recoverSegments_cases onRecord fs _ (neededSegments_present replayAfter fs) 0).imp_right ?_
  intro refused user
  obtain ⟨e, user', error⟩ := refused {} user
  exact ⟨e, user', by rw [recoverLog, error]⟩

/-- What a successful recovery has read. -/
theorem recoverLog_ok {recovered : RecoveredLog} {user : σ}
    (ok : (recoverLog replayAfter onRecord fs user).result = .ok recovered) :
    ∃ scan, Scanned replayAfter fs (neededSegments replayAfter fs) 0 scan ∧
      deliver replayAfter onRecord scan.records user =
        (.ok (), (recoverLog replayAfter onRecord fs user).user) ∧
      replayAfter ≤ scan.lastLsn replayAfter ∧
      recovered = { scan.extend replayAfter {} with lastLsn := scan.lastLsn replayAfter } ∧
      (recoverLog replayAfter onRecord fs user).fs = scan.repair.apply fs := by
  rcases recoverLog_cases onRecord fs with ⟨scan, scanned⟩ | refused
  · rw [recoverLog_eq scanned] at ok ⊢
    refine ⟨scan, scanned, ?_⟩
    revert ok
    rcases deliver replayAfter onRecord scan.records user with ⟨_ | _, user⟩ <;> intro ok
    · cases ok
    · by_cases early : scan.lastLsn replayAfter < replayAfter
      · simp [early] at ok
      · simp only [early, if_false, Except.ok.injEq] at ok ⊢
        exact ⟨trivial, by omega, ok.symm, trivial⟩
  · obtain ⟨e, user', error⟩ := refused user
    simp [error] at ok

end

end Baton
