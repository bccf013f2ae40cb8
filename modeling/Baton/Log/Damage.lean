/-
# Log.Damage — recovery of a damaged log

A log of records 1..N was written, split into segments; then files were changed
in any way or deleted.  The one assumption is that the checksum is not fooled:
where a changed file parses, it holds the frame that was written there
(`NotFooled`).

From it, whatever a scan accepts of one file is an initial part of that segment's
records (`DamagedLog.read`), and whatever it accepts of the directory is a
stretch of the log (`DamagedLog.scanned_stretch`).  The search for a record
behind damage never overlooks one: the LSN of an intact frame is within the
bound that the bytes before it allow (`Segment.follows`).

Damage within four bytes of a frame needs no assumption: the checksum always
shows it (`parseRecord_damaged`).
-/
import Baton.Common.Crc32cTables
import Baton.Log.Written

namespace Baton

open List (append_assoc append_nil append_of_mem drop_drop drop_left length_append length_drop
  length_take mem_append take_append_drop)

set_option autoImplicit false

variable {s : Segment} {data : Bytes} {i replayAfter : Nat} {records : List LogRecordView}

namespace Segment

/-- Where the `i`-th record was written. -/
def offset (s : Segment) (i : Nat) : Nat :=
  kSegmentHeaderSize + (framesOf (s.records.take i)).length

/-- The `i`-th record still parses where it was written. -/
def FrameParses (s : Segment) (data : Bytes) (i : Nat) : Prop :=
  ∃ r, s.records[i]? = some r ∧ parseRecord (data.drop (s.offset i)) = .accepted r

instance (s : Segment) (data : Bytes) (i : Nat) : Decidable (s.FrameParses data i) :=
  decidable_of_iff
    (s.records[i]?.any fun r => parseRecord (data.drop (s.offset i)) = .accepted r)
    (by simp [FrameParses, Option.any_eq_true])

/-- Where `data` parses, it holds an original frame at its original offset. -/
def NotFooled (s : Segment) (data : Bytes) : Prop :=
  ∀ offset, (parseRecord (data.drop offset)).status = .kOk →
    ∃ i, offset = s.offset i ∧ s.FrameParses data i

theorem notFooled_of_forall_lt
    (checked : ∀ offset < data.length, (parseRecord (data.drop offset)).status = .kOk →
      ∃ i < s.records.length, offset = s.offset i ∧ s.FrameParses data i) : s.NotFooled data := by
  intro offset ok
  by_cases inside : offset < data.length
  · obtain ⟨i, -, found⟩ := checked offset inside ok
    exact ⟨i, found⟩
  · rw [List.drop_eq_nil_of_le (by omega)] at ok
    cases ok

variable {j : Nat}

/-- Every record in between takes at least a header. -/
theorem offset_le (s : Segment) (le : i ≤ j) (inside : j ≤ s.records.length) :
    s.offset i + kRecordHeaderSize * (j - i) ≤ s.offset j := by
  have split : s.records.take j = s.records.take i ++ (s.records.take j).drop i := by
    have cut := take_append_drop i (s.records.take j)
    rw [List.take_take, Nat.min_eq_left le] at cut
    exact cut.symm
  have few := length_le_framesOf ((s.records.take j).drop i)
  rw [length_drop, length_take, Nat.min_eq_left inside] at few
  rw [offset, offset, split, framesOf_append, length_append]
  omega

theorem offset_injective (s : Segment) (hi : i ≤ s.records.length)
    (hj : j ≤ s.records.length) (same : s.offset i = s.offset j) : i = j := by
  rcases Nat.le_total i j with le | le
  · have := s.offset_le le hj
    simp only [kRecordHeaderSize] at this
    omega
  · have := s.offset_le le hi
    simp only [kRecordHeaderSize] at this
    omega

variable {s : Segment} {data : Bytes}

theorem FrameParses.lt (parses : s.FrameParses data i) : i < s.records.length := by
  obtain ⟨r, at_, -⟩ := parses
  exact (List.getElem?_eq_some_iff.1 at_).1

/-- A file that begins as it was written still parses there. -/
theorem frameParses_of_split {tail : Bytes}
    (split : data.drop kSegmentHeaderSize = framesOf records ++ tail)
    (initial : records <+: s.records) (fits : ∀ r ∈ s.records, r.Fits)
    (inside : i < records.length) : s.FrameParses data i := by
  obtain ⟨more, whole⟩ := initial
  refine ⟨records[i], ?_, ?_⟩
  · rw [← whole, List.getElem?_append_left inside, List.getElem?_eq_getElem inside]
  · have cut : framesOf records = framesOf (records.take i) ++
        (records[i].bytes ++ framesOf (records.drop (i + 1))) := by
      rw [← framesOf_cons, ← framesOf_append]
      exact congrArg framesOf (by simp)
    have front : s.records.take i = records.take i := by
      rw [← whole, List.take_append_of_le_length (by omega)]
    rw [offset, front, ← drop_drop, split, cut, append_assoc, drop_left,
      append_assoc]
    exact LogRecordView.parseRecord_bytes (fits _ (by rw [← whole]; simp)) _

/-- An intact frame lies within reach of any scan for records behind the LSN and
the offset of an earlier one. -/
theorem follows {start : Nat} (run : Run s.firstLsn s.records) (parses : s.FrameParses data j)
    (le : i ≤ j) (before : start ≤ s.offset j) (near : start < s.offset i + kRecordHeaderSize) :
    validRecordFollows data start (s.firstLsn + i) = true := by
  have inside := parses.lt
  have between := s.offset_le le (Nat.le_of_lt inside)
  obtain ⟨r, at_, parsed⟩ := parses
  have ok : (parseRecord (data.drop (s.offset j))).status = .kOk := by rw [parsed]; rfl
  obtain ⟨r', rest, split, fits, small, parsed'⟩ := parseRecord_sound ok
  obtain rfl : r = r' := congrArg RecordParseResult.record (parsed.symm.trans parsed')
  have lsn : r.lsn = s.firstLsn + j := by
    obtain ⟨h, rfl⟩ := List.getElem?_eq_some_iff.1 at_
    exact run.getElem h
  have size := congrArg List.length split
  rw [length_drop, length_append, frame_length] at size
  refine validRecordFollows_iff.2 ⟨s.offset j, r, rest, before, split, ⟨fits, small⟩, by omega, ?_⟩
  have room : j - i ≤ (data.length - start) / kRecordHeaderSize := by
    simp only [kRecordHeaderSize] at between near size ⊢
    omega
  omega

/-- What a scan reads of a file that does not fool the checksum is what was
written, as far as it goes. -/
theorem NotFooled.read (notFooled : s.NotFooled data) {records : List LogRecordView} {tail : Bytes}
    (split : data.drop kSegmentHeaderSize = framesOf records ++ tail)
    (fits : ∀ r ∈ records, r.Fits) : records <+: s.records := by
  -- each record read parses, so it is the one that was written at that offset
  suffices same : ∀ k ≤ records.length, k ≤ s.records.length ∧
      records.take k = s.records.take k by
    obtain ⟨-, eq⟩ := same records.length (Nat.le_refl _)
    rw [List.take_length] at eq
    exact eq ▸ List.take_prefix _ _
  intro k
  induction k with
  | zero => simp
  | succ k ih =>
    intro inside
    obtain ⟨short, front⟩ := ih (by omega)
    have cut : framesOf records = framesOf (records.take k) ++
        (records[k].bytes ++ framesOf (records.drop (k + 1))) := by
      rw [← framesOf_cons, ← framesOf_append]
      exact congrArg framesOf (by simp)
    have parsed : parseRecord (data.drop (s.offset k)) = .accepted records[k] := by
      rw [offset, ← front, ← drop_drop, split, cut, append_assoc, drop_left,
        append_assoc]
      exact LogRecordView.parseRecord_bytes (fits _ (List.getElem_mem _)) _
    obtain ⟨i, same, written⟩ := notFooled (s.offset k) (by rw [parsed]; rfl)
    have inside := written.lt
    obtain rfl := s.offset_injective short (Nat.le_of_lt inside) same
    obtain ⟨r, at_, parsed'⟩ := written
    obtain rfl : records[k] = r := congrArg RecordParseResult.record (parsed.symm.trans parsed')
    refine ⟨inside, ?_⟩
    rw [List.take_add_one, List.take_add_one, front, at_, List.getElem?_eq_getElem]

end Segment

/-- Records 1..N, split into segments, and a directory of some of their files with
any bytes in them that do not fool the checksum. -/
structure DamagedLog (segments : List Segment) (fs : SimFs) : Prop where
  chain : Chain 1 segments
  names : (segments.map Segment.firstLsn).Nodup
  files : ∀ file ∈ listSegments fs, ∃ s ∈ segments, file = s.file
  contents : ∀ s ∈ segments, ∀ data, fs.content s.name = some data →
    writeSegment s = some data ∨ s.NotFooled data
  lsnsFit : LsnsFit fs

variable {lsn : Nat}

/-- A later segment begins behind the last record of an earlier one. -/
theorem Chain.nextLsn_le {segments : List Segment} (chain : Chain lsn segments)
    {t : Segment} (memS : s ∈ segments) (memT : t ∈ segments) (lt : s.firstLsn < t.firstLsn) :
    s.nextLsn ≤ t.firstLsn := by
  obtain ⟨front, back, rfl⟩ := append_of_mem memT
  obtain ⟨before, first, -, -, after⟩ := chain_append.1 chain
  rcases mem_append.1 memS with earlier | later
  · obtain ⟨a, b, rfl⟩ := append_of_mem earlier
    obtain ⟨-, first', -⟩ := chain_append.1 before
    simp only [recordsOf_append, recordsOf_cons, length_append] at first
    rw [Segment.nextLsn]
    omega
  · rcases List.mem_cons.1 later with rfl | later
    · omega
    · have := (after.mem s later).1
      rw [Segment.nextLsn] at this
      omega

/-- The records with the LSNs `low + 1` to `high`. -/
def recordsBetween (low high : Nat) (records : List LogRecordView) : List LogRecordView :=
  records.filter fun r => low < r.lsn ∧ r.lsn ≤ high

theorem recordsBetween_append (low high : Nat) (rs ss : List LogRecordView) :
    recordsBetween low high (rs ++ ss) = recordsBetween low high rs ++ recordsBetween low high ss :=
  List.filter_append ..

theorem recordsBetween_eq_nil {low high : Nat}
    (none : ∀ r ∈ records, ¬ (low < r.lsn ∧ r.lsn ≤ high)) : recordsBetween low high records = [] :=
  List.filter_eq_nil_iff.2 fun r mem => by simpa using none r mem

namespace DamagedLog

variable {segments : List Segment} {fs : SimFs}

/-- What a scan reads of a file is what was written, as far as it goes. -/
theorem read (log : DamagedLog segments fs) (mem : s ∈ segments) {tail : Bytes}
    (content : fs.content s.name = some data)
    (split : data.drop kSegmentHeaderSize = framesOf records ++ tail)
    (run : Run s.firstLsn records) : records <+: s.records := by
  obtain ⟨first, -, written⟩ := log.chain.mem s mem
  rcases log.contents s mem data content with same | notFooled
  · rw [writeSegment_eq written (by omega), Option.some.injEq] at same
    have whole := s.drop_header []
    rw [append_nil, append_nil, same, split] at whole
    exact run.initial written whole
  · exact notFooled.read split run.fits

/-- The place of a segment in the log. -/
theorem records_at (log : DamagedLog segments fs) (mem : s ∈ segments) :
    s.records <+: (recordsOf segments).drop (s.firstLsn - 1) := by
  obtain ⟨front, back, rfl⟩ := append_of_mem mem
  obtain ⟨-, first, -⟩ := chain_append.1 log.chain
  rw [first, Nat.add_sub_cancel_left, recordsOf_append, drop_left, recordsOf_cons]
  exact List.prefix_append _ _

variable {expectedLsn : Nat} {files : List SegmentFile} {scan : LogScan}

/-- What a scan accepts is a stretch of the log. -/
theorem scanned_stretch (log : DamagedLog segments fs)
    (scanned : Scanned replayAfter fs files expectedLsn scan)
    (originals : ∀ file ∈ files, ∃ s ∈ segments, file = s.file) (pinned : expectedLsn ≠ 0) :
    scan.records <+: (recordsOf segments).drop (expectedLsn - 1) ∧
      scan.expectedLsn = expectedLsn + scan.records.length := by
  induction scanned with
  | nil => simp
  | tornSegment => simp
  | tornTail content starts split run torn =>
    obtain ⟨s, mem, rfl⟩ := originals _ (List.mem_singleton_self _)
    obtain rfl := starts.consecutive pinned
    exact ⟨(log.read mem content split run).trans (log.records_at mem), rfl⟩
  | @segment file rest expectedLsn data records scan content starts split run more ih =>
    obtain ⟨⟨s, mem, rfl⟩, others⟩ := List.forall_mem_cons.1 originals
    obtain rfl := starts.consecutive pinned
    have positive : s.firstLsn ≠ 0 := pinned
    have split' : data.drop kSegmentHeaderSize = framesOf records ++ [] := by simpa using split
    obtain ⟨behind, whole⟩ := (log.read mem content split' run).trans (log.records_at mem)
    obtain ⟨later, reached⟩ := ih others (by omega)
    refine ⟨?_, ?_⟩
    · have rest : s.file.nameLsn + records.length - 1 = s.firstLsn - 1 + records.length := by
        simp only [Segment.file]
        omega
      rw [rest, ← drop_drop, ← whole, drop_left] at later
      rw [show s.file.nameLsn = s.firstLsn from rfl, ← whole]
      exact (List.prefix_append_right_inj records).2 later
    · simp only [length_append]
      omega

/-- The files a scan is given. -/
theorem originals (log : DamagedLog segments fs) (replayAfter : Nat) :
    ∀ file ∈ neededSegments replayAfter fs, ∃ s ∈ segments, file = s.file := fun file mem =>
  log.files file ((neededSegments_sublist replayAfter fs).mem mem)

/-- The records after `replayAfter`, of a stretch that begins early enough. -/
theorem replayed_stretch {all : List LogRecordView} {first : Nat} (run : Run 1 all)
    (stretch : records <+: all.drop (first - 1)) (positive : first ≠ 0)
    (early : first ≤ replayAfter + 1) :
    replayed replayAfter records =
        recordsBetween replayAfter (first + records.length - 1) all ∧
      (first + records.length - 1 ≤ all.length ∨ records = []) := by
  obtain ⟨behind, whole⟩ := stretch
  have cut := take_append_drop (first - 1) all
  rw [← whole] at cut
  have size := congrArg List.length cut
  rw [← cut] at run
  obtain ⟨before, run⟩ := run_append.1 run
  obtain ⟨here, after⟩ := run_append.1 run
  simp only [length_append, length_take] at size here after
  have old : recordsBetween replayAfter (first + records.length - 1) (all.take (first - 1)) = [] :=
    recordsBetween_eq_nil fun r mem => by
      have := (before.lsn_bounds r mem).2
      rw [length_take] at this
      omega
  have new : recordsBetween replayAfter (first + records.length - 1) behind = [] :=
    recordsBetween_eq_nil fun r mem => by
      have := (after.lsn_bounds r mem).1
      omega
  refine ⟨?_, ?_⟩
  · rw [← cut, recordsBetween_append, recordsBetween_append, old, new, List.nil_append,
      append_nil]
    refine List.filter_congr fun r mem => ?_
    have := (here.lsn_bounds r mem).2
    simp only [decide_eq_decide]
    omega
  · rcases records with _ | ⟨r, rs⟩
    · exact .inr rfl
    · simp only [List.length_cons] at size ⊢
      omega

/-- The first law: what is delivered is what was written. -/
theorem delivers (log : DamagedLog segments fs) {recovered : RecoveredLog}
    (ok : (recoverLog replayAfter collect fs []).result = .ok recovered) :
    replayAfter ≤ recovered.lastLsn ∧
      (recovered.lastLsn ≤ (recordsOf segments).length ∨ recovered.lastLsn = replayAfter) ∧
      (recoverLog replayAfter collect fs []).user =
        recordsBetween replayAfter recovered.lastLsn (recordsOf segments) := by
  obtain ⟨scan, scanned, delivered, covers, rfl, -⟩ := recoverLog_ok ok
  rw [deliver_collect, List.nil_append, Prod.mk.injEq] at delivered
  rw [← delivered.2]
  refine ⟨covers, ?_⟩
  simp only [LogScan.lastLsn] at covers ⊢
  by_cases read : scan.expectedLsn = 0
  · rw [if_pos read]
    have none : scan.records = [] := by
      rcases scanned.first_cases with ⟨-, rfl⟩ | ⟨_, _, -, -, -, rfl⟩ | ⟨nonzero, -⟩
      · rfl
      · rfl
      · exact absurd read nonzero
    refine ⟨.inr rfl, ?_⟩
    rw [none, recordsBetween_eq_nil fun r _ => by omega]
    rfl
  · obtain ⟨file, rest, split, positive, early, pinned⟩ := scanned.pin read
    obtain ⟨stretch, reached⟩ := log.scanned_stretch pinned (log.originals replayAfter) positive
    obtain ⟨same, inside⟩ := replayed_stretch log.chain.run stretch positive early
    rw [if_neg read] at covers ⊢
    rw [reached] at covers ⊢
    refine ⟨?_, same⟩
    rcases inside with inside | empty
    · exact .inl inside
    · rw [empty] at covers ⊢
      simp only [List.length_nil] at covers ⊢
      omega

/-- A segment that holds a record to be replayed is read. -/
theorem file_needed (log : DamagedLog segments fs) (mem : s ∈ segments)
    (present : (fs.content s.name).isSome) (needed : replayAfter + 1 < s.nextLsn) :
    s.file ∈ neededSegments replayAfter fs := by
  have listed : s.file ∈ listSegments fs := mem_listSegments.2
    ⟨present, parseSegmentFileName_segmentFileName (log.chain.mem s mem).2.1⟩
  have sorted := listSegments_sorted fs
  rcases neededSegments_cases replayAfter fs with
    ⟨-, all⟩ | ⟨front, first, back, split, early, -, eq⟩
  · rwa [all]
  · rw [split] at listed sorted
    rcases mem_append.1 listed with skipped | read
    · obtain ⟨t, memT, rfl⟩ := log.files first (by simp [split])
      have lt : s.firstLsn < t.firstLsn :=
        (List.pairwise_append.1 sorted).2.2 _ skipped _ (List.mem_cons_self ..)
      have := log.chain.nextLsn_le mem memT lt
      simp only [Segment.file] at early
      omega
    · rwa [eq]

section

variable (log : DamagedLog segments fs) (mem : s ∈ segments)
  (content : fs.content s.name = some data)

include log mem content

/-- A file with another behind it is read as a whole. -/
theorem read_inner {expectedLsn : Nat}
    {front back : List SegmentFile} {next : SegmentFile} {scan : LogScan}
    (scanned : Scanned replayAfter fs (front ++ s.file :: next :: back) expectedLsn scan)
    (later : ∃ t ∈ segments, next = t.file ∧ s.firstLsn < t.firstLsn)
    (inside : i < s.records.length) : s.FrameParses data i := by
  obtain ⟨data', records, content', split, run, goesOn⟩ := scanned.read_inner
  obtain rfl : data' = data := Option.some.inj (content'.symm.trans content)
  obtain ⟨t, memT, rfl, lt⟩ := later
  have behind := log.chain.nextLsn_le mem memT lt
  rw [← append_nil (framesOf records)] at split
  have initial := log.read mem content split run
  refine Segment.frameParses_of_split split initial (log.chain.mem s mem).2.2.fits ?_
  simp only [Segment.file, Segment.nextLsn] at goesOn behind
  omega

/-- The newest file is refused if it holds an intact frame behind a damaged one. -/
theorem read_newest
    (scanned : Scanned replayAfter fs files expectedLsn scan) (read : s.file ∈ files) {j : Nat}
    (lt : i < j) (intact : s.FrameParses data j) : s.FrameParses data i := by
  have written := (log.chain.mem s mem).2.2
  have inside := intact.lt
  obtain ⟨data', content', tornCreation | ⟨-, records, tail, split, run, ends⟩⟩ :=
    scanned.read s.file read
  · obtain rfl : data' = data := Option.some.inj (content'.symm.trans content)
    have found := Segment.follows written intact (Nat.zero_le j) (Nat.zero_le _)
      (Nat.lt_of_lt_of_le (by decide) (Nat.le_add_left _ _))
    exact absurd (found.symm.trans tornCreation.2) (by decide)
  obtain rfl : data' = data := Option.some.inj (content'.symm.trans content)
  have initial := log.read mem content split run
  by_cases reached : i < records.length
  · exact Segment.frameParses_of_split split initial written.fits reached
  have here : kSegmentHeaderSize + (framesOf records).length = s.offset records.length := by
    rw [Segment.offset, ← List.prefix_iff_eq_take.1 initial]
  have before := s.offset_le (show records.length ≤ j by omega) (Nat.le_of_lt inside)
  simp only [kRecordHeaderSize] at before
  rcases ends with rfl | torn
  · -- the file ends where the frame would begin
    obtain ⟨r, -, parsed⟩ := intact
    have size := congrArg List.length split
    rw [length_drop, append_nil] at size
    rw [List.drop_eq_nil_of_le (by omega)] at parsed
    have status := congrArg RecordParseResult.status parsed
    cases status
  · rw [here] at torn
    have found := Segment.follows written intact (show records.length ≤ j by omega)
      (show s.offset records.length + 1 ≤ s.offset j by omega)
      (by simp only [kRecordHeaderSize]; omega)
    exact absurd (found.symm.trans torn.2.2) (by decide)

/-- The second law: damage with something intact behind it is refused. -/
theorem refuses (inside : i < s.records.length)
    (needed : replayAfter < s.firstLsn + i) (damaged : ¬ s.FrameParses data i)
    (behind : (∃ j, i < j ∧ s.FrameParses data j) ∨
      ∃ file ∈ listSegments fs, s.firstLsn < file.nameLsn) :
    ∃ e, (recoverLog replayAfter collect fs []).result = .error e := by
  cases result : (recoverLog replayAfter collect fs []).result with
  | error e => exact ⟨e, rfl⟩
  | ok recovered =>
    exfalso
    obtain ⟨scan, scanned, -⟩ := recoverLog_ok result
    have read := log.file_needed mem (by simp [content])
      (show replayAfter + 1 < s.firstLsn + s.records.length by omega)
    obtain ⟨front, back, split⟩ := append_of_mem read
    rcases back with _ | ⟨next, back⟩
    · rcases behind with ⟨j, lt, intact⟩ | ⟨file, listed, later⟩
      · exact damaged (log.read_newest mem content scanned read lt intact)
      · -- nothing is listed behind the last file read
        have sorted := listSegments_sorted fs
        rw [← take_append_drop (firstNeeded replayAfter (listSegments fs) 0 0)
          (listSegments fs), ← neededSegments, split, ← append_assoc] at sorted listed
        rcases mem_append.1 listed with earlier | here
        · have : file.nameLsn < s.firstLsn :=
            (List.pairwise_append.1 sorted).2.2 _ earlier _ (List.mem_singleton_self _)
          omega
        · rw [List.mem_singleton.1 here] at later
          exact Nat.lt_irrefl _ later
    · have sorted := (listSegments_sorted fs).sublist (neededSegments_sublist replayAfter fs)
      obtain ⟨t, memT, same⟩ := log.originals replayAfter next (by simp [split])
      rw [split] at sorted scanned
      have lt : s.firstLsn < next.nameLsn :=
        (List.pairwise_cons.1 (List.pairwise_append.1 sorted).2.1).1 next (List.mem_cons_self ..)
      rw [same] at lt
      exact damaged (log.read_inner mem content scanned ⟨t, memT, same, lt⟩ inside)

end

end DamagedLog

/-- Damage is never papered over: recovery of a damaged log fails, or delivers
exactly the records that follow `replayAfter`, up to the LSN it reports; and it
fails if a record to be replayed no longer parses while something behind it is
left -- an intact record of its file, or a later file. -/
theorem recoverLog_damaged {segments : List Segment} {fs : SimFs} (log : DamagedLog segments fs)
    (replayAfter : Nat) :
    let outcome := recoverLog replayAfter collect fs []
    ((∃ e, outcome.result = .error e) ∨
      ∃ recovered, outcome.result = .ok recovered ∧ replayAfter ≤ recovered.lastLsn ∧
        (recovered.lastLsn ≤ (recordsOf segments).length ∨ recovered.lastLsn = replayAfter) ∧
        outcome.user = recordsBetween replayAfter recovered.lastLsn (recordsOf segments)) ∧
    ∀ s ∈ segments, ∀ data, fs.content s.name = some data →
      ∀ i < s.records.length, replayAfter < s.firstLsn + i → ¬ s.FrameParses data i →
        ((∃ j, i < j ∧ s.FrameParses data j) ∨
          ∃ file ∈ listSegments fs, s.firstLsn < file.nameLsn) →
        ∃ e, outcome.result = .error e := by
  intro outcome
  refine ⟨?_, fun s mem data content i inside needed damaged behind =>
    log.refuses mem content inside needed damaged behind⟩
  cases result : outcome.result with
  | error e => exact .inl ⟨e, rfl⟩
  | ok recovered => exact .inr ⟨recovered, rfl, log.delivers result⟩

/-- Two records, the first with a changed byte. -/
theorem recoverLog_damaged_refuses :
    let s : Segment := ⟨1, [⟨1, 0, [7]⟩, ⟨2, 0, []⟩]⟩
    let fs := SimFs.single s.name (s.bytes.set 49 8)
    DamagedLog [s] fs ∧ ∃ e, (recoverLog 0 collect fs []).result = .error e := by
  intro s fs
  have log : DamagedLog [s] fs := by
    refine ⟨by decide +kernel, by decide, by decide +kernel, fun t mem data content => ?_, by decide +kernel⟩
    obtain rfl := List.mem_singleton.1 mem
    obtain rfl : s.bytes.set 49 8 = data := by
      rw [show fs.content s.name = some (s.bytes.set 49 8) by decide +kernel] at content
      exact Option.some.inj content
    exact .inr (Segment.notFooled_of_forall_lt (by decide +kernel))
  exact ⟨log, (recoverLog_damaged log 0).2 s (by simp) (s.bytes.set 49 8) (by decide +kernel)
    0 (by decide) (by decide) (by decide +kernel) (.inl ⟨1, by decide +kernel⟩)⟩

/-! ## Damage within four bytes -/

open Theory

/-- `damaged` is `encoded` but for the four bytes from `k` on. -/
structure DamagedAt (k : Nat) (encoded damaged : Bytes) : Prop where
  size : damaged.length = encoded.length
  before : damaged.take k = encoded.take k
  after : damaged.drop (k + 4) = encoded.drop (k + 4)
  changed : damaged ≠ encoded

theorem DamagedAt.unchanged {k m : Nat} {encoded damaged : Bytes}
    (damage : DamagedAt k encoded damaged) (n : Nat) (le : m ≤ k) :
    (damaged.drop n).take (m - n) = (encoded.drop n).take (m - n) := by
  have cut := congrArg (fun l => (l.take m).drop n) damage.before
  simpa only [List.take_take, Nat.min_eq_left le, List.drop_take] using cut

/-- The checksum of a frame damaged within four bytes does not fit it. -/
theorem recordCrc_of_damaged {type : UInt8} {payload damaged : Bytes} {k : Nat}
    (damage : DamagedAt k (frame lsn type payload) damaged) (place : k = 4 ∨ 8 ≤ k) :
    loadU32 damaged 4 ≠ (recordCrc (damaged.take 4) (damaged.drop 8)).toNat := by
  intro fits
  obtain ⟨lengthField, body, crc⟩ := frame_parts lsn type payload
  have front : damaged.take 4 = (frame lsn type payload).take 4 :=
    damage.unchanged (m := 4) 0 (by omega)
  rw [front, lengthField] at fits
  apply damage.changed
  rcases place with rfl | behind
  · -- only the stored checksum differs, and it has one right value
    rw [damage.after, body, ← crc] at fits
    have widths : ((damaged.drop 4).take 4).length =
        (((frame lsn type payload).drop 4).take 4).length := by simp [damage.size]
    have fields : (damaged.drop 4).take 4 = ((frame lsn type payload).drop 4).take 4 := by
      rw [← leBytes_leNat ((damaged.drop 4).take 4), widths]
      exact (congrArg _ fits).trans (leBytes_leNat _)
    rw [← take_append_drop 4 damaged, ← take_append_drop 4 (damaged.drop 4), fields,
      drop_drop, damage.after, front, ← drop_drop, take_append_drop,
      take_append_drop]
  · have stored : loadU32 damaged 4 = loadU32 (frame lsn type payload) 4 :=
      congrArg leNat (damage.unchanged 4 behind)
    rw [stored, crc, recordCrc, recordCrc, ← body] at fits
    have rest : (damaged.drop 8).drop (k - 8 + 4) =
        ((frame lsn type payload).drop 8).drop (k - 8 + 4) := by
      rw [drop_drop, drop_drop, show 8 + (k - 8 + 4) = k + 4 by omega, damage.after]
    have bodies := crc32cExtend_window (k - 8) (by simp [damage.size])
      (damage.unchanged 8 (Nat.le_refl k)) rest (UInt32.toNat_inj.1 fits).symm
    have header : damaged.take 8 = (frame lsn type payload).take 8 := damage.unchanged 0 behind
    rw [← take_append_drop 8 damaged, bodies, header, take_append_drop]

/-- A frame changed within four bytes of its body, or in its checksum, is reported,
whatever follows it. -/
theorem parseRecord_damaged {out encoded damaged : Bytes} {lsn : Nat} {type : UInt8}
    {payload : Bytes} (written : appendRecord out lsn type payload = some (out ++ encoded)) {k : Nat}
    (damage : DamagedAt k encoded damaged) (place : k = 4 ∨ 8 ≤ k) (rest : Bytes) :
    (parseRecord (damaged ++ rest)).status = .kBadCrc := by
  obtain ⟨fits, -, same⟩ := appendRecord_isSome written
  obtain rfl := List.append_cancel_left same
  have size : damaged.length = kRecordHeaderSize + payload.length :=
    damage.size.trans (frame_length lsn type payload)
  have length : loadU32 (damaged ++ rest) 0 = payload.length := by
    have field := loadU32_frame lsn type fits []
    have front : damaged.take 4 = (frame lsn type payload).take 4 :=
      damage.unchanged (m := 4) 0 (by omega)
    rw [append_nil, loadU32, List.drop_zero, ← front] at field
    have enough : 4 ≤ damaged.length := by rw [size, kRecordHeaderSize]; omega
    rw [loadU32, List.drop_zero, List.take_append_of_le_length enough, field]
  have nonempty : damaged ++ rest ≠ [] := by
    intro empty
    have := congrArg List.length empty
    simp [size, kRecordHeaderSize] at this
  have long : ¬ (damaged ++ rest).length < kRecordHeaderSize := by simp [size]; omega
  have whole : ¬ (damaged ++ rest).length < kRecordHeaderSize + payload.length := by simp [size]
  have encoded : (damaged ++ rest).take (kRecordHeaderSize + payload.length) = damaged :=
    List.take_left' size
  simp only [parseRecord, nonempty, if_false, long, length, not_lt.2 fits, whole, encoded,
    recordCrc_of_damaged damage place, ne_eq, not_false_eq_true, if_true]

/-- One byte of the payload of a record changed. -/
theorem parseRecord_damaged_byte :
    (parseRecord ((frame 1 2 [3]).set 17 4 ++ [5])).status = .kBadCrc :=
  @parseRecord_damaged [] (frame 1 2 [3]) _ 1 2 [3] (by decide +kernel) 17
    ⟨by decide +kernel, by decide +kernel, by decide +kernel, by decide +kernel⟩ (Or.inr (by decide)) [5]

end Baton
