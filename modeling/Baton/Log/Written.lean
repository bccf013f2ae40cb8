/-
# Log.Written — a log as it was written

A `Segment` is what the writer puts into one file: the header and the records,
back to back.  Segments form a `Chain` if each begins where the one before ends.

`recoverLog_written` is what recovery does with a chain: every record after
`replay_after` is delivered in order, whatever the split into files is, and
segments the snapshot covers are skipped.  The newest file may carry a torn tail
(`tail`), and behind the chain there may be a segment whose creation was torn.
-/
import Baton.Log.Scan

namespace Baton

set_option autoImplicit false

structure Segment where
  firstLsn : Nat
  records : List LogRecordView
  deriving DecidableEq, Repr

variable {lsn : Nat} {segments : List Segment} {newest : Segment}

namespace Segment

def name (s : Segment) : FileName := segmentFileName s.firstLsn
def file (s : Segment) : SegmentFile := ⟨s.name, s.firstLsn⟩
def bytes (s : Segment) : Bytes := segmentHeader s.firstLsn ++ framesOf s.records
/-- The LSN behind the last record. -/
def nextLsn (s : Segment) : Nat := s.firstLsn + s.records.length

theorem bytes_length (s : Segment) :
    s.bytes.length = kSegmentHeaderSize + (framesOf s.records).length := by simp [bytes]

theorem drop_header (s : Segment) (tail : Bytes) :
    (s.bytes ++ tail).drop kSegmentHeaderSize = framesOf s.records ++ tail := by
  rw [bytes, List.append_assoc, List.drop_left' (segmentHeader_length s.firstLsn)]

theorem bytes_append (firstLsn : Nat) (records more : List LogRecordView) :
    bytes ⟨firstLsn, records ++ more⟩ = bytes ⟨firstLsn, records⟩ ++ framesOf more := by
  simp [bytes]

end Segment

/-- A segment file, written record by record; `none` if `append_record` aborts. -/
def writeSegment (s : Segment) : Option Bytes :=
  s.records.foldlM (fun out r => appendRecord out r.lsn r.type r.payload)
    (appendSegmentHeader [] s.firstLsn)

theorem appendRecords_eq {records : List LogRecordView} (run : Run lsn records)
    (positive : lsn ≠ 0) (out : Bytes) :
    records.foldlM (fun out r => appendRecord out r.lsn r.type r.payload) out =
      some (out ++ framesOf records) := by
  induction records generalizing lsn out with
  | nil => simp
  | cons r rs ih =>
    obtain ⟨rfl, fits, run⟩ := run
    have nonzero : r.lsn % 2 ^ 64 ≠ 0 := by rwa [Nat.mod_eq_of_lt fits.2]
    rw [List.foldlM_cons, appendRecord_eq out r.type fits.1 nonzero, Option.bind_eq_bind,
      Option.bind_some, ih run (by omega), framesOf_cons, List.append_assoc]
    rfl

variable {s : Segment} {fs : SimFs} {tail : Bytes}

theorem writeSegment_eq (run : Run s.firstLsn s.records)
    (positive : s.firstLsn ≠ 0) : writeSegment s = some s.bytes :=
  appendRecords_eq run positive _

/-- The records of all segments. -/
def recordsOf (segments : List Segment) : List LogRecordView := segments.flatMap Segment.records

@[simp] theorem recordsOf_nil : recordsOf [] = [] := rfl
@[simp] theorem recordsOf_cons (s : Segment) (rest : List Segment) :
    recordsOf (s :: rest) = s.records ++ recordsOf rest := by simp [recordsOf]
@[simp] theorem recordsOf_append (segments more : List Segment) :
    recordsOf (segments ++ more) = recordsOf segments ++ recordsOf more := by simp [recordsOf]

/-- Each segment begins at the LSN behind the one before it; the first at `lsn`. -/
def Chain : Nat → List Segment → Prop
  | _, [] => True
  | lsn, s :: rest =>
    s.firstLsn = lsn ∧ lsn < 2 ^ 64 ∧ Run lsn s.records ∧ Chain s.nextLsn rest

instance Chain.decidable : (lsn : Nat) → (segments : List Segment) → Decidable (Chain lsn segments)
  | _, [] => isTrue trivial
  | _, s :: rest =>
    have := Chain.decidable s.nextLsn rest
    inferInstanceAs (Decidable (_ ∧ _ ∧ _ ∧ _))

theorem Chain.run {lsn : Nat} {segments : List Segment} (chain : Chain lsn segments) :
    Run lsn (recordsOf segments) := by
  induction segments generalizing lsn with
  | nil => trivial
  | cons s rest ih =>
    obtain ⟨rfl, -, run, more⟩ := chain
    exact recordsOf_cons s rest ▸ run_append.2 ⟨run, ih more⟩

theorem chain_append {more : List Segment} :
    Chain lsn (segments ++ more) ↔
      Chain lsn segments ∧ Chain (lsn + (recordsOf segments).length) more := by
  induction segments generalizing lsn with
  | nil => simp [Chain]
  | cons s rest ih =>
    simp only [List.cons_append, Chain, ih, recordsOf_cons, List.length_append, Segment.nextLsn]
    constructor
    · rintro ⟨rfl, small, run, front, back⟩
      exact ⟨⟨rfl, small, run, front⟩, by rwa [← Nat.add_assoc]⟩
    · rintro ⟨⟨rfl, small, run, front⟩, back⟩
      exact ⟨rfl, small, run, front, by rwa [Nat.add_assoc]⟩

theorem Chain.mem {lsn : Nat} {segments : List Segment} (chain : Chain lsn segments) :
    ∀ s ∈ segments, lsn ≤ s.firstLsn ∧ s.firstLsn < 2 ^ 64 ∧ Run s.firstLsn s.records := by
  induction segments generalizing lsn with
  | nil => simp
  | cons s rest ih =>
    obtain ⟨rfl, small, run, more⟩ := chain
    refine List.forall_mem_cons.2 ⟨⟨Nat.le_refl _, small, run⟩, fun t mem => ?_⟩
    obtain ⟨later, rest⟩ := ih more t mem
    exact ⟨(Nat.le_add_right _ _).trans later, rest⟩

/-- The segments are in the directory as they were written, the newest with
`tail` behind its records: nothing, or bytes that a scan takes for torn. -/
def Intact (fs : SimFs) : List Segment → Bytes → Prop
  | [], _ => True
  | [s], tail =>
    fs.content s.name = some (s.bytes ++ tail) ∧
      (tail = [] ∨ TornAt (s.bytes ++ tail) s.bytes.length s.nextLsn)
  | s :: t :: rest, tail => fs.content s.name = some s.bytes ∧ Intact fs (t :: rest) tail

theorem intact_cons {rest : List Segment} :
    Intact fs (s :: (rest ++ [newest])) tail ↔
      fs.content s.name = some s.bytes ∧ Intact fs (rest ++ [newest]) tail := by
  cases rest <;> rfl

theorem intact_append :
    Intact fs (segments ++ [newest]) tail ↔
      (∀ s ∈ segments, fs.content s.name = some s.bytes) ∧
        fs.content newest.name = some (newest.bytes ++ tail) ∧
        (tail = [] ∨ TornAt (newest.bytes ++ tail) newest.bytes.length newest.nextLsn) := by
  induction segments with
  | nil => simp [Intact]
  | cons s rest ih => rw [List.cons_append, intact_cons, ih, List.forall_mem_cons, and_assoc]

theorem Intact.suffix {skipped kept : List Segment}
    (intact : Intact fs (skipped ++ (kept ++ [newest])) tail) :
    Intact fs (kept ++ [newest]) tail := by
  rw [← List.append_assoc, intact_append] at intact
  exact intact_append.2 ⟨fun s mem => intact.1 s (List.mem_append_right _ mem), intact.2⟩

/-- What a scan does about the tail. -/
def tailRepair (newest : Segment) (tail : Bytes) : Repair :=
  if tail = [] then .none else .truncated newest.name newest.bytes.length

section

variable {replayAfter : Nat} {fs : SimFs} {tail : Bytes}

variable (replayAfter) in
theorem Segment.starts {s : Segment} {expectedLsn : Nat} (tail : Bytes) (positive : s.firstLsn ≠ 0)
    (small : s.firstLsn < 2 ^ 64)
    (expected : expectedLsn = s.firstLsn ∨ expectedLsn = 0 ∧ s.firstLsn ≤ replayAfter + 1) :
    Starts replayAfter expectedLsn s.file (s.bytes ++ tail) where
  header := by
    rw [Segment.bytes, List.append_assoc]
    exact parseSegmentHeader_header positive small _
  consecutive := fun pinned => by
    rcases expected with rfl | ⟨zero, -⟩
    · rfl
    · exact absurd zero pinned
  reaches := fun zero => by
    rcases expected with rfl | ⟨-, reaches⟩
    · exact absurd zero positive
    · exact reaches

/-- A scan of an intact chain accepts all of it. -/
theorem Intact.scanned {expectedLsn : Nat} (chain : Chain lsn (segments ++ [newest]))
    (intact : Intact fs (segments ++ [newest]) tail) (positive : lsn ≠ 0)
    (expected : expectedLsn = lsn ∨ expectedLsn = 0 ∧ lsn ≤ replayAfter + 1) :
    Scanned replayAfter fs ((segments ++ [newest]).map Segment.file) expectedLsn
      { records := recordsOf (segments ++ [newest])
        expectedLsn := newest.nextLsn
        segments := (segments ++ [newest]).map fun s => s.file.info s.records
        tornBytes := tail.length
        repair := tailRepair newest tail } := by
  induction segments generalizing lsn expectedLsn with
  | nil =>
    obtain ⟨rfl, small, run, -⟩ := chain
    have starts := Segment.starts replayAfter tail positive small expected
    have split := newest.drop_header tail
    obtain ⟨content, empty | torn⟩ := intact
    · subst empty
      simp only [List.append_nil] at content starts split
      simpa [tailRepair, Segment.nextLsn, Segment.file] using
        Scanned.segment content starts split run (.nil _)
    · have nonempty : tail ≠ [] := by
        rintro rfl
        exact torn.2.1 (parseRecord_endOfData.2 (by simp))
      rw [newest.bytes_length] at torn
      simpa [tailRepair, nonempty, newest.bytes_length, Segment.nextLsn, Segment.file] using
        Scanned.tornTail content starts split run torn
  | cons s rest ih =>
    obtain ⟨rfl, small, run, more⟩ := chain
    have starts := Segment.starts replayAfter [] positive small expected
    have split := s.drop_header []
    simp only [List.append_nil] at starts split
    obtain ⟨content, intact⟩ := intact_cons.1 intact
    have later := ih more intact (by simp [Segment.nextLsn]; omega) (.inl rfl)
    simpa [Segment.nextLsn, Segment.file] using Scanned.segment content starts split run later

/-- The newest segment that begins at or before the first LSN needed is read, and
those behind it.  What is skipped holds no record that is replayed. -/
theorem neededSegments_chain (listed : listSegments fs = (segments ++ [newest]).map Segment.file)
    (chain : Chain lsn (segments ++ [newest])) (reaches : lsn ≤ replayAfter + 1) :
    ∃ skipped kept first, segments ++ [newest] = skipped ++ (kept ++ [newest]) ∧
      lsn ≤ first ∧ first ≤ replayAfter + 1 ∧ Chain first (kept ++ [newest]) ∧
      neededSegments replayAfter fs = (kept ++ [newest]).map Segment.file ∧
      replayed replayAfter (recordsOf (segments ++ [newest])) =
        replayed replayAfter (recordsOf (kept ++ [newest])) := by
  rcases neededSegments_cases replayAfter fs with
    ⟨late, -⟩ | ⟨front, file, back, split, early, -, needed⟩
  · obtain ⟨s, rest, cut⟩ := List.exists_cons_of_ne_nil (List.append_ne_nil_of_right_ne_nil
      segments (List.cons_ne_nil newest []))
    rw [cut] at chain listed
    have first : s.firstLsn = lsn := chain.1
    have : replayAfter + 1 < s.firstLsn := late s.file (by simp [listed])
    omega
  · rw [listed] at split
    obtain ⟨skipped, rest, cut, -, others⟩ := List.map_eq_append_iff.1 split
    obtain ⟨s, tail, rfl, rfl, rfl⟩ := List.map_eq_cons_iff.1 others
    obtain ⟨kept, same⟩ : ∃ kept, s :: tail = kept ++ [newest] := by
      rcases List.eq_nil_or_concat' (s :: tail) with none | ⟨kept, last, same⟩
      · cases none
      · rw [same, ← List.append_assoc] at cut
        rw [same, List.singleton_inj.1 (List.append_inj' cut rfl).2]
        exact ⟨kept, rfl⟩
    rw [cut] at chain
    obtain ⟨front, back⟩ := chain_append.1 chain
    have first : s.firstLsn = lsn + (recordsOf skipped).length := back.1
    have early : s.firstLsn ≤ replayAfter + 1 := early
    refine ⟨skipped, kept, s.firstLsn, same ▸ cut, by omega, early, ?_, same ▸ needed, ?_⟩
    · rwa [← same, first]
    · rw [cut, same, recordsOf_append, replayed_append, replayed_eq_nil front.run (by omega),
        List.nil_append]

variable {σ : Type} (onRecord : RecordCallback σ)

/-- Recovery of an intact log that reaches past the snapshot. -/
theorem recoverLog_written (listed : listSegments fs = (segments ++ [newest]).map Segment.file)
    (chain : Chain lsn (segments ++ [newest])) (intact : Intact fs (segments ++ [newest]) tail)
    (positive : lsn ≠ 0) (reaches : lsn ≤ replayAfter + 1) (covers : replayAfter < newest.nextLsn)
    (user : σ) :
    ∃ skipped kept, segments ++ [newest] = skipped ++ (kept ++ [newest]) ∧
      recoverLog replayAfter onRecord fs user =
        match deliver replayAfter onRecord (recordsOf (segments ++ [newest])) user with
        | (.error e, user) => ⟨.error e, fs, user⟩
        | (.ok (), user) =>
          ⟨.ok
            { lastLsn := newest.nextLsn - 1
              segments := (kept ++ [newest]).map fun s => s.file.info s.records
              recordsReplayed :=
                (replayed replayAfter (recordsOf (segments ++ [newest]))).length
              tornBytesTruncated := tail.length },
            (tailRepair newest tail).apply fs, user⟩ := by
  obtain ⟨skipped, kept, first, split, later, early, back, needed, same⟩ :=
    neededSegments_chain listed chain reaches
  have scanned := (split ▸ intact).suffix.scanned back (by omega) (.inr ⟨rfl, early⟩)
  rw [← needed] at scanned
  refine ⟨skipped, kept, split, ?_⟩
  rw [recoverLog_eq scanned, ← deliver_replayed, ← deliver_replayed _ _ (recordsOf _), same]
  rcases deliver replayAfter onRecord _ user with ⟨_ | _, user⟩
  · rfl
  · have nonzero : newest.nextLsn ≠ 0 := by omega
    have reached : ¬ newest.nextLsn - 1 < replayAfter := by omega
    by_cases empty : tail = [] <;>
      simp [LogScan.lastLsn, LogScan.extend, nonzero, reached, tailRepair, empty]

variable {next : Nat} {data : Bytes}

/-- A scan of a chain that is intact but for the file behind it, in which nothing has been
written yet. -/
theorem Intact.scanned_behind {later : Nat → LogScan}
    (listed : listSegments fs = (segments ++ [Segment.mk next []]).map Segment.file)
    (chain : Chain lsn (segments ++ [⟨next, []⟩])) (intact : Intact fs segments [])
    (positive : lsn ≠ 0) (reaches : lsn ≤ replayAfter + 1)
    (last : ∀ e, (e ≠ 0 → next = e) → (e = 0 → next ≤ replayAfter + 1) →
      Scanned replayAfter fs [(Segment.mk next []).file] e (later e)) :
    ∃ skipped kept e, segments = skipped ++ kept ∧ (e = 0 → next ≤ replayAfter + 1) ∧ (e ≠ 0 → next = e) ∧
      replayed replayAfter (recordsOf segments) = replayed replayAfter (recordsOf kept) ∧
      Scanned replayAfter fs (neededSegments replayAfter fs) 0
        { later e with
          records := recordsOf kept ++ (later e).records
          segments := (kept.map fun s => s.file.info s.records) ++ (later e).segments } := by
  obtain ⟨skipped, kept, first, split, _, early, back, needed, same⟩ :=
    neededSegments_chain listed chain reaches
  rw [← List.append_assoc] at split
  obtain rfl : segments = skipped ++ kept := (List.append_inj' split rfl).1
  simp only [recordsOf_append, recordsOf_cons, recordsOf_nil, List.append_nil] at same
  have here : next = first + (recordsOf kept).length := (chain_append.1 back).2.1
  rw [needed, List.map_append]
  rcases List.eq_nil_or_concat' kept with rfl | ⟨kept, newest, rfl⟩
  · have begins : next ≤ replayAfter + 1 := by simpa [here] using early
    exact ⟨skipped, [], 0, rfl, fun _ => begins, by simp, by simpa using same,
      last 0 (by simp) fun _ => begins⟩
  · have goesOn : next = newest.nextLsn := by
      rw [here, recordsOf_append, List.length_append, ← Nat.add_assoc,
        ← (chain_append.1 (chain_append.1 back).1).2.1]
      simp [Segment.nextLsn]
    have nonzero : newest.nextLsn ≠ 0 := by omega
    have scanned := intact.suffix.scanned (chain_append.1 back).1 (by omega) (.inr ⟨rfl, early⟩)
    refine ⟨skipped, kept ++ [newest], newest.nextLsn, rfl, fun zero => absurd zero nonzero, fun _ => goesOn,
      by simpa using same, ?_⟩
    exact scanned.append rfl (last _ (fun _ => goesOn) fun zero => absurd zero nonzero)

section

variable (listed : listSegments fs = (segments ++ [Segment.mk next []]).map Segment.file)
  (chain : Chain lsn (segments ++ [⟨next, []⟩])) (intact : Intact fs segments [])
  (content : fs.content (segmentFileName next) = some data)

include listed chain intact content

/-- A segment behind the chain, whose creation was torn, is removed. -/
theorem recoverLog_written_torn (torn : TornCreation data next)
    (positive : lsn ≠ 0) (reaches : lsn ≤ replayAfter + 1) (covers : replayAfter < next) (user : σ) :
    ∃ skipped kept, segments = skipped ++ kept ∧
      recoverLog replayAfter onRecord fs user =
        match deliver replayAfter onRecord (recordsOf segments) user with
        | (.error e, user) => ⟨.error e, fs, user⟩
        | (.ok (), user) =>
          ⟨.ok
            { lastLsn := next - 1
              segments := kept.map fun s => s.file.info s.records
              recordsReplayed := (replayed replayAfter (recordsOf segments)).length
              removedTornSegment := true },
            (Repair.removed (segmentFileName next)).apply fs, user⟩ := by
  obtain ⟨skipped, kept, e, split, first, goesOn, same, scanned⟩ := intact.scanned_behind listed chain positive
    reaches fun e consecutive _ => .tornSegment content consecutive torn
  refine ⟨skipped, kept, split, ?_⟩
  have last : (if e = 0 then replayAfter else e - 1) = next - 1 := by
    split <;> omega
  rw [recoverLog_eq scanned, ← deliver_replayed, ← deliver_replayed _ _ (recordsOf segments), same]
  simp only [List.append_nil]
  rcases deliver replayAfter onRecord _ user with ⟨_ | _, user⟩
  · rfl
  · have reached : ¬ next - 1 < replayAfter := by omega
    simp only [LogScan.lastLsn, last, reached, if_false, LogScan.extend]
    simp [Segment.file, Segment.name]

end

end

end Baton
