/-
# Log.TornTail — a cut inside the final record

The newest segment ends somewhere inside its last record.  Recovery is to drop
exactly that record.  Before it does, it looks for a record behind the tear at
every byte offset, and the bytes of a torn payload are bytes the client chose:
a payload that holds a whole frame with a plausible LSN stops the repair
(`recoverLog_cut_refused`).  Without one the repair is made
(`recoverLog_cut_repaired_iff`).
-/
import Baton.Log.Written

namespace Baton

set_option autoImplicit false

/-- A log as it was written, from LSN `lsn` on, but for its last record, which is
cut: `newest` is the newest segment without it. -/
structure CutInFinalRecord (replayAfter lsn : Nat) (fs : SimFs) (earlier : List Segment)
    (newest : Segment) (final : LogRecordView) (cut : Nat) : Prop where
  listed : listSegments fs = (earlier ++ [newest]).map Segment.file
  chain : Chain lsn (earlier ++ [⟨newest.firstLsn, newest.records ++ [final]⟩])
  intact : ∀ s ∈ earlier, fs.content s.name = writeSegment s
  content : fs.content newest.name =
    (writeSegment ⟨newest.firstLsn, newest.records ++ [final]⟩).map (List.take cut)
  behind : newest.bytes.length < cut
  inside : cut < newest.bytes.length + final.bytes.length
  positive : lsn ≠ 0
  reaches : lsn ≤ replayAfter + 1
  below : replayAfter < final.lsn
  lsnsFit : LsnsFit fs

/-- The records before the torn one are delivered and the file is cut behind them. -/
def TornTailRepaired (replayAfter : Nat) (fs : SimFs) (earlier : List Segment)
    (newest : Segment) (final : LogRecordView) : Prop :=
  let outcome := recoverLog replayAfter collect fs []
  ∃ recovered, outcome.result = .ok recovered ∧ recovered.lastLsn + 1 = final.lsn ∧
    outcome.user = replayed replayAfter (recordsOf (earlier ++ [newest])) ∧
    outcome.fs.content newest.name = some newest.bytes

/-- The bytes of the cut file. -/
def cutBytes (newest : Segment) (final : LogRecordView) (cut : Nat) : Bytes :=
  newest.bytes ++ final.bytes.take (cut - newest.bytes.length)

namespace CutInFinalRecord

variable {replayAfter lsn : Nat} {fs : SimFs} {earlier : List Segment} {newest : Segment}
  {final : LogRecordView} {cut : Nat}

section

variable (log : CutInFinalRecord replayAfter lsn fs earlier newest final cut)

include log

theorem chain_newest :
    Chain lsn (earlier ++ [newest]) ∧ final.lsn = newest.nextLsn ∧ final.Fits := by
  obtain ⟨front, first, small, run, -⟩ := chain_append.1 log.chain
  obtain ⟨run, here, fits, -⟩ := run_append.1 run
  refine ⟨chain_append.2 ⟨front, first, small, run, trivial⟩, ?_, fits⟩
  rw [here, Segment.nextLsn, first]

theorem content_eq : fs.content newest.name = some (cutBytes newest final cut) := by
  obtain ⟨front, first, small, run, -⟩ := chain_append.1 log.chain
  have behind := log.behind
  have nonzero : newest.firstLsn ≠ 0 := by
    have := log.positive
    simp only at first
    omega
  have written := writeSegment_eq (s := ⟨newest.firstLsn, newest.records ++ [final]⟩)
    (first ▸ run) nonzero
  rw [log.content, written, Option.map_some]
  have whole : Segment.bytes ⟨newest.firstLsn, newest.records ++ [final]⟩ =
      newest.bytes ++ final.bytes := by simp [Segment.bytes]
  rw [whole, List.take_append, List.take_of_length_le (by omega), cutBytes]

theorem status :
    (parseRecord ((cutBytes newest final cut).drop newest.bytes.length)).status = .kTruncated := by
  have inside := log.inside
  have behind := log.behind
  rw [final.bytes_length] at inside
  rw [cutBytes, List.drop_left]
  exact parseRecord_cut log.chain_newest.2.2.1 (by omega) (by omega)

theorem tornAt
    (none : validRecordFollows (cutBytes newest final cut) (newest.bytes.length + 1) final.lsn =
      false) :
    TornAt (cutBytes newest final cut) newest.bytes.length newest.nextLsn := by
  refine ⟨?_, ?_, log.chain_newest.2.1 ▸ none⟩ <;> rw [log.status] <;> decide

theorem intact_newest
    (none : validRecordFollows (cutBytes newest final cut) (newest.bytes.length + 1) final.lsn =
      false) :
    Intact fs (earlier ++ [newest]) (final.bytes.take (cut - newest.bytes.length)) := by
  refine intact_append.2 ⟨fun s mem => ?_, log.content_eq, .inr (log.tornAt none)⟩
  obtain ⟨front, -⟩ := chain_append.1 log.chain
  rw [log.intact s mem]
  obtain ⟨later, -, run⟩ := front.mem s mem
  have := log.positive
  exact writeSegment_eq run (by omega)

/-- A scan that gets through the cut file has found nothing behind the cut. -/
theorem none_of_scanned {files : List SegmentFile} {scan : LogScan} {expectedLsn : Nat}
    (scanned : Scanned replayAfter fs files expectedLsn scan) (mem : newest.file ∈ files) :
    validRecordFollows (cutBytes newest final cut) (newest.bytes.length + 1) final.lsn = false := by
  obtain ⟨chain, here, -⟩ := log.chain_newest
  obtain ⟨later, small, run⟩ := chain.mem newest (by simp)
  have positive := log.positive
  have stops : ¬ Continues (final.bytes.take (cut - newest.bytes.length))
      (newest.firstLsn + newest.records.length) := by
    have status := log.status
    rw [cutBytes, List.drop_left] at status
    rintro ⟨ok, -⟩
    rw [status] at ok
    cases ok
  obtain ⟨data, content, read⟩ := scanned.read newest.file mem
  obtain rfl : data = cutBytes newest final cut :=
    Option.some.inj (content.symm.trans log.content_eq)
  rcases read with ⟨⟨e, header, -⟩, -⟩ | ⟨-, records, tail, split, run', ends⟩
  · have ok : parseSegmentHeader (cutBytes newest final cut) = .ok newest.firstLsn := by
      rw [cutBytes, Segment.bytes, List.append_assoc]
      exact parseSegmentHeader_header (by omega) small _
    rw [ok] at header
    cases header
  · have stops' : ¬ Continues tail (newest.firstLsn + records.length) := by
      rcases ends with rfl | torn
      · exact not_continues_nil _
      · have := torn.not_continues (newest.firstLsn + records.length)
        rwa [← List.drop_drop, split, List.drop_left] at this
    obtain ⟨rfl, rfl⟩ := Run.unique run run' stops stops' split
    rcases ends with empty | torn
    · have status := log.status
      rw [cutBytes, List.drop_left, empty] at status
      cases status
    · rw [← newest.bytes_length] at torn
      exact here ▸ torn.2.2

end

end CutInFinalRecord

/-- A cut inside the final record is repaired exactly if what is left of it holds
no frame with a plausible LSN. -/
theorem recoverLog_cut_repaired_iff {replayAfter lsn : Nat} {fs : SimFs} {earlier : List Segment}
    {newest : Segment} {final : LogRecordView} {cut : Nat}
    (log : CutInFinalRecord replayAfter lsn fs earlier newest final cut) :
    TornTailRepaired replayAfter fs earlier newest final ↔
      validRecordFollows (cutBytes newest final cut) (newest.bytes.length + 1) final.lsn = false := by
  obtain ⟨chain, here, -⟩ := log.chain_newest
  constructor
  · rintro ⟨recovered, ok, -⟩
    obtain ⟨scan, scanned, -⟩ := recoverLog_ok ok
    obtain ⟨skipped, kept, first, -, -, -, -, needed, -⟩ :=
      neededSegments_chain log.listed chain log.reaches
    exact log.none_of_scanned scanned (by simp [needed])
  · intro none
    have below := log.below
    have behind := log.behind
    have inside := log.inside
    have nonempty : final.bytes.take (cut - newest.bytes.length) ≠ [] := by
      rw [ne_eq, List.take_eq_nil_iff]
      rintro (zero | empty)
      · omega
      · simp [empty] at inside
        omega
    obtain ⟨-, kept, -, outcome⟩ := recoverLog_written collect log.listed chain
      (log.intact_newest none) log.positive log.reaches (by omega) []
    rw [deliver_collect] at outcome
    simp only [TornTailRepaired, outcome]
    refine ⟨_, rfl, by simp only; omega, List.nil_append _, ?_⟩
    rw [tailRepair, if_neg nonempty, content_truncated log.content_eq (by simp [cutBytes, nonempty]),
      cutBytes, List.take_left]

/-- An empty record, cut in its header. -/
theorem recoverLog_cut_repaired :
    let newest : Segment := ⟨1, []⟩
    let final : LogRecordView := ⟨1, 0, []⟩
    let fs := SimFs.single newest.name ((newest.bytes ++ final.bytes).take 40)
    CutInFinalRecord 0 1 fs [] newest final 40 ∧ TornTailRepaired 0 fs [] newest final := by
  intro newest final fs
  have log : CutInFinalRecord 0 1 fs [] newest final 40 := by
    constructor <;> decide +kernel
  exact ⟨log, (recoverLog_cut_repaired_iff log).2 (by decide +kernel)⟩

/-- A record whose payload is a frame of LSN 1 and one byte more, cut before its
last byte: the payload's frame is taken for a record behind the damage. -/
theorem recoverLog_cut_refused :
    let newest : Segment := ⟨1, []⟩
    let final : LogRecordView := ⟨1, 0, frame 1 0 [] ++ [0]⟩
    let fs := SimFs.single newest.name ((newest.bytes ++ final.bytes).take 66)
    CutInFinalRecord 0 1 fs [] newest final 66 ∧ ¬ TornTailRepaired 0 fs [] newest final := by
  intro newest final fs
  have refused : (recoverLog 0 collect fs []).result.ok? = false := by decide +kernel
  refine ⟨by constructor <;> decide +kernel, ?_⟩
  rintro ⟨recovered, ok, -⟩
  rw [ok] at refused
  cases refused

end Baton
