/-
# Snapshot.Load — what is loaded from a snapshot file is what was written to it

Three independent facts meet here.  The bounded window of the loader shows the file
as it is, whatever the reads return (`ensure_spec`).  The buffered writer writes the
header and then the frames of the chunks (`snapshotFile_eq`).  And the chunks, put
together again, are the image they were cut from (`feedChunks_image`).

`loadSnapshot_image` is the result: a file written from the image of a state, if it
loads, loads to a state with the same ledger, and it does load if the times and
names of the state are what the builder accepts.
-/
import Baton.Snapshot.File
import Baton.State.Serialize

namespace Baton

open Theory
open SnapshotChunk (kEnd kIdem kJobs kMeta)
open ByteWriter (u32 u64 varint)
open List (append_assoc append_nil cons_append flatten_cons length_append length_cons length_drop
  map_cons mem_cons mem_cons_of_mem mem_cons_self mem_map take_left')

set_option autoImplicit false

variable {r : ChunkReader} {type : UInt8} {payload file : Bytes} {image : StateImage} {lsn : Nat}
  {createdAt : Int} {b b' : StateBuilder}

/-! ## The window -/

namespace ChunkReader

/-- What is still to be consumed. -/
def unread (r : ChunkReader) : Bytes := r.buffer.drop r.pos ++ r.file

/-- The position is within the buffer. -/
def Sound (r : ChunkReader) : Prop := r.pos ≤ r.buffer.length

theorem trim_spec (sound : r.Sound) :
    r.trim.Sound ∧ r.trim.unread = r.unread ∧ r.trim.file = r.file := by
  unfold trim
  split
  · refine ⟨Nat.zero_le _, ?_, rfl⟩
    simp [unread]
  · exact ⟨sound, rfl, rfl⟩

variable {n : Nat}

theorem read_spec (sound : r.Sound) :
    (r.read n).2.Sound ∧ (r.read n).2.unread = r.unread ∧
      (r.read n).2.file.length = r.file.length - (r.read n).1 ∧
      ((r.read n).1 = 0 → 0 < n → r.file = []) := by
  unfold Sound at sound
  refine ⟨?_, ?_, ?_, ?_⟩
  · unfold Sound read
    simp only [length_append]
    omega
  · unfold unread read
    rw [List.drop_append_of_le_length sound, append_assoc, List.take_append_drop]
  · simp [read]
  · intro nothing positive
    unfold read at nothing
    dsimp only at nothing
    have : r.file.length = 0 := by omega
    exact List.length_eq_zero_iff.1 this

theorem ensureLoop_spec : ∀ (fuel : Nat) {r : ChunkReader}, r.Sound →
    r.file.length + 2 ≤ fuel →
      (ensureLoop n fuel r).1 = decide (n ≤ r.unread.length) ∧ (ensureLoop n fuel r).2.Sound ∧
        (ensureLoop n fuel r).2.unread = r.unread ∧
        ((ensureLoop n fuel r).1 = true →
          n ≤ (ensureLoop n fuel r).2.buffer.length - (ensureLoop n fuel r).2.pos) := by
  intro fuel
  induction fuel with
  | zero =>
    intro r _ enough
    omega
  | succ fuel ih =>
    intro r sound enough
    rw [ensureLoop]
    split
    · rename_i short
      obtain ⟨sound', same, file⟩ := trim_spec sound
      obtain ⟨sound'', same', left, ended⟩ := read_spec (n := max kReadBytes n) sound'
      dsimp only
      split
      · rename_i nothing
        have positive : 0 < max kReadBytes n := by
          omega
        have empty := ended nothing positive
        rw [file] at empty
        have few : ¬ n ≤ r.unread.length := by
          simp only [unread, empty, append_nil, length_drop]
          omega
        exact ⟨by rw [decide_eq_false few], sound'', same'.trans same, by simp⟩
      · rename_i some_bytes
        have shorter : (r.trim.read (max kReadBytes n)).2.file.length + 2 ≤ fuel := by
          rw [left, file]
          have read_le : (r.trim.read (max kReadBytes n)).1 ≤ r.trim.file.length := by
            unfold read
            dsimp only
            omega
          rw [file] at read_le
          omega
        obtain ⟨found, sound''', same'', window⟩ := ih sound'' shorter
        have all := same'.trans same
        exact ⟨by rw [found, all], sound''', same''.trans all, window⟩
    · rename_i long
      refine ⟨?_, sound, rfl, fun _ => Nat.le_of_not_lt long⟩
      have enough : n ≤ r.unread.length := by
        simp only [unread, length_append, length_drop]
        omega
      exact (decide_eq_true enough).symm

/-- `ensure` finds `n` bytes if the file has them, and consumes nothing. -/
theorem ensure_spec (sound : r.Sound) (n : Nat) :
    (r.ensure n).1 = decide (n ≤ r.unread.length) ∧ (r.ensure n).2.Sound ∧
      (r.ensure n).2.unread = r.unread ∧
      ((r.ensure n).1 = true → n ≤ (r.ensure n).2.buffer.length - (r.ensure n).2.pos) :=
  ensureLoop_spec _ sound (Nat.le_refl _)

theorem peek_eq {m : Nat} (enough : n ≤ r.buffer.length - r.pos) (le : m ≤ n) :
    r.peek m = r.unread.take m := by
  unfold peek unread
  rw [List.take_append_of_le_length]
  rw [length_drop]
  omega

theorem consume_spec (sound : r.Sound) (enough : n ≤ r.buffer.length - r.pos) :
    (r.consume n).Sound ∧ (r.consume n).unread = r.unread.drop n := by
  unfold Sound at sound
  constructor
  · unfold Sound consume
    dsimp only
    omega
  · unfold unread consume
    rw [List.drop_append_of_le_length (by rw [length_drop]; omega), List.drop_drop]

end ChunkReader

/-! ## The writer -/

/-- The frames of the chunks, numbered from `sequence + 1`. -/
def chunkFrames (sequence : Nat) : List (UInt8 × Bytes) → Bytes
  | [] => []
  | (type, payload) :: chunks => frame (sequence + 1) type payload ++ chunkFrames (sequence + 1) chunks

namespace ChunkWriter

/-- Everything that has been given to the writer. -/
def written (w : ChunkWriter) : Bytes := w.appended.flatten ++ w.buffer

theorem written_flush (w : ChunkWriter) : w.flush.written = w.written := by
  simp [written, flush]

theorem add_spec {w w' : ChunkWriter} (added : w.add type payload = some w') :
    payload.length ≤ kMaxRecordPayload ∧ (w.sequence + 1) % 2 ^ 64 ≠ 0 ∧
      w'.sequence = w.sequence + 1 ∧
      w'.written = w.written ++ frame (w.sequence + 1) type payload := by
  obtain ⟨buffer, appended, result⟩ := Option.map_eq_some_iff.1 added
  obtain ⟨fits, positive, rfl⟩ := appendRecord_isSome appended
  refine ⟨fits, positive, ?_, ?_⟩
  · rw [← result]
    dsimp only
    split <;> rfl
  · rw [← result]
    dsimp only
    split
    · rw [written_flush]
      simp [written]
    · simp [written]

theorem addAll_spec {chunks : List (UInt8 × Bytes)} {w w' : ChunkWriter}
    (added : addAll chunks w = some w') (small : w.sequence < 2 ^ 64) :
    (∀ chunk ∈ chunks, chunk.2.length ≤ kMaxRecordPayload) ∧
      w'.sequence = w.sequence + chunks.length ∧ w'.sequence < 2 ^ 64 ∧
      w'.written = w.written ++ chunkFrames w.sequence chunks := by
  induction chunks generalizing w with
  | nil =>
    cases added
    exact ⟨by simp, rfl, small, by simp [chunkFrames]⟩
  | cons chunk chunks ih =>
    obtain ⟨type, payload⟩ := chunk
    obtain ⟨next, first, rest⟩ := Option.bind_eq_some_iff.1 added
    obtain ⟨fits, positive, sequence, written⟩ := add_spec first
    have small' : next.sequence < 2 ^ 64 := by omega
    obtain ⟨fits', sequence', small'', written'⟩ := ih rest small'
    refine ⟨?_, ?_, small'', ?_⟩
    · intro chunk mem
      rcases mem_cons.1 mem with rfl | mem
      · exact fits
      · exact fits' chunk mem
    · rw [sequence', sequence, length_cons]
      omega
    · rw [written', written, sequence, chunkFrames, append_assoc]

end ChunkWriter

/-- What a finished snapshot consists of. -/
structure SnapshotWritten (image : StateImage) (lsn : Nat) (createdAt : Int) (file : Bytes) : Prop where
  fits : ∀ chunk ∈ imageChunks image, chunk.2.length ≤ kMaxRecordPayload
  fitsEnd : (endChunk (imageChunks image).length image).length ≤ kMaxRecordPayload
  count : (imageChunks image).length + 1 < 2 ^ 64
  bytes : file = snapshotHeader lsn createdAt ++ (chunkFrames 0 (imageChunks image) ++
    frame ((imageChunks image).length + 1) kEnd
      (endChunk (imageChunks image).length image))

theorem written_of_snapshotFile (made : snapshotFile image lsn createdAt = some file) :
    SnapshotWritten image lsn createdAt file := by
  unfold snapshotFile snapshotAppends at made
  rw [Option.map_map] at made
  obtain ⟨w, chunks, rfl⟩ := Option.map_eq_some_iff.1 made
  obtain ⟨body, added, rest⟩ := Option.bind_eq_some_iff.1 chunks
  obtain ⟨last, ended, result⟩ := Option.bind_eq_some_iff.1 rest
  cases result
  obtain ⟨fits, sequence, small, written⟩ := ChunkWriter.addAll_spec added (Nat.two_pow_pos 64)
  have sequence' : body.sequence = (imageChunks image).length := by
    rw [sequence]
    exact Nat.zero_add _
  obtain ⟨fitsEnd, positive, -, written'⟩ := ChunkWriter.add_spec ended
  rw [sequence'] at fitsEnd positive written' small
  refine ⟨fits, fitsEnd, by omega, ?_⟩
  have flushed : last.flush.appended.flatten = last.written := by
    simp [ChunkWriter.flush, ChunkWriter.written]
  show last.flush.appended.flatten = _
  rw [flushed, written', written]
  have start : (ChunkWriter.addRaw {} (snapshotHeader lsn createdAt)).written =
      snapshotHeader lsn createdAt := by
    simp [ChunkWriter.addRaw, ChunkWriter.written]
  rw [start, append_assoc]
  rfl

/-! ## The header -/

@[simp] theorem snapshotHeaderFields_length (lsn : Nat) (createdAt : Int) :
    (snapshotHeaderFields lsn createdAt).length = 32 := by
  simp [snapshotHeaderFields, kSnapshotMagic, u32, u64]

@[simp] theorem snapshotHeader_length (lsn : Nat) (createdAt : Int) :
    (snapshotHeader lsn createdAt).length = kSnapshotHeaderSize := by
  simp [snapshotHeader, u32, kSnapshotHeaderSize]

theorem parseSnapshotHeader_header (small : lsn < 2 ^ 64) (createdAt : Int) :
    parseSnapshotHeader (snapshotFileName lsn) (snapshotHeader lsn createdAt) =
      .ok (lsn, ofU64 (toU64 createdAt % 2 ^ 64)) := by
  have fields : (snapshotHeader lsn createdAt).take 32 = snapshotHeaderFields lsn createdAt :=
    take_left' (snapshotHeaderFields_length lsn createdAt)
  have crc : (crc32c (snapshotHeaderFields lsn createdAt)).toNat % 2 ^ 32 =
      (crc32c (snapshotHeaderFields lsn createdAt)).toNat := Nat.mod_eq_of_lt (UInt32.toNat_lt _)
  have stored : lsn % 2 ^ 64 = lsn := Nat.mod_eq_of_lt small
  have name : parseSnapshotFileName (snapshotFileName lsn) = some lsn :=
    parseSnapshotFileName_eq_some.2 ⟨small, rfl⟩
  have layout : snapshotHeader lsn createdAt = kSnapshotMagic ++
      (u32 kSnapshotFormatVersion ++ (u32 0 ++ (u64 lsn ++
        (u64 (toU64 createdAt) ++
          (u32 (crc32c (snapshotHeaderFields lsn createdAt)).toNat ++
            (u32 0 ++ [])))))) := by
    simp [snapshotHeader, snapshotHeaderFields]
  unfold parseSnapshotHeader
  rw [fields, layout]
  simp only [ByteReader.raw_append, ByteReader.u32_append, ByteReader.u64_append, crc, stored, name]
  simp [kSnapshotFormatVersion]

/-! ## The chunk loop -/

/-- The chunks go to the builder one after the other, the first one being number
`sequence + 1`. -/
def feedChunks (name : FileName) :
    Nat → List (UInt8 × Bytes) → StateBuilder → Result StateBuilder
  | _, [], b => .ok b
  | sequence, (type, payload) :: chunks, b =>
    match addChunk name (sequence + 1) b type payload with
    | .error e => .error e
    | .ok b => feedChunks name (sequence + 1) chunks b

/-- What the loop finds where a frame begins. -/
theorem frame_found {reader : ChunkReader} (sound : reader.Sound) {rest : Bytes}
    (fits : payload.length ≤ kMaxRecordPayload) (small : lsn < 2 ^ 64)
    (unread : reader.unread = frame lsn type payload ++ rest) :
    (reader.ensure kRecordHeaderSize).1 = true ∧
      leNat ((reader.ensure kRecordHeaderSize).2.peek 4) = payload.length ∧
      ((reader.ensure kRecordHeaderSize).2.ensure (kRecordHeaderSize + payload.length)).1 = true ∧
      let found := ((reader.ensure kRecordHeaderSize).2.ensure (kRecordHeaderSize + payload.length)).2
      parseRecord (found.peek (kRecordHeaderSize + payload.length)) = .accepted ⟨lsn, type, payload⟩ ∧
      (found.consume (kRecordHeaderSize + payload.length)).Sound ∧
      (found.consume (kRecordHeaderSize + payload.length)).unread = rest := by
  have size : reader.unread.length = kRecordHeaderSize + payload.length + rest.length := by
    rw [unread, length_append, frame_length]
  obtain ⟨have₁, sound₁, same₁, window₁⟩ := ChunkReader.ensure_spec sound kRecordHeaderSize
  have found₁ : (reader.ensure kRecordHeaderSize).1 = true := by
    rw [have₁]
    exact decide_eq_true (by omega)
  obtain ⟨have₂, sound₂, same₂, window₂⟩ :=
    ChunkReader.ensure_spec sound₁ (kRecordHeaderSize + payload.length)
  have found₂ : ((reader.ensure kRecordHeaderSize).2.ensure
      (kRecordHeaderSize + payload.length)).1 = true := by
    rw [have₂, same₁]
    exact decide_eq_true (by omega)
  have all := same₂.trans (same₁.trans unread)
  refine ⟨found₁, ?_, found₂, ?_, ?_⟩
  · have header : 4 ≤ kRecordHeaderSize := by decide
    rw [ChunkReader.peek_eq (window₁ found₁) header, same₁, unread]
    have length := loadU32_frame lsn type fits rest
    rwa [loadU32, List.drop_zero] at length
  · rw [ChunkReader.peek_eq (window₂ found₂) (Nat.le_refl _), all,
      take_left' (frame_length lsn type payload), ← append_nil (frame lsn type payload)]
    exact parseRecord_frame type fits small []
  · obtain ⟨sound₃, same₃⟩ := ChunkReader.consume_spec sound₂ (window₂ found₂)
    refine ⟨sound₃, ?_⟩
    rw [same₃, all]
    exact List.drop_left' (frame_length lsn type payload)

/-- The end of the loop: the totals are checked and nothing may follow. -/
def finishLoad (name : FileName) (sequence : Nat) (info : SnapshotInfo) (b : StateBuilder)
    (payload : Bytes) : Result (SnapshotInfo × State) :=
  match checkEnd name sequence b payload with
  | .error e => .error e
  | .ok (jobs, keys) =>
    match b.finish with
    | .error e => .error e
    | .ok state =>
      .ok ({ info with
        bytes := info.bytes + (kRecordHeaderSize + payload.length)
        chunks := sequence
        jobs := jobs
        idemKeys := keys }, state)

/-- The loop over frames that are all there. -/
theorem loadChunks_frames {name : FileName} {last : Bytes} (fitsEnd : last.length ≤ kMaxRecordPayload) :
    ∀ (chunks : List (UInt8 × Bytes)) {fuel sequence : Nat} {reader : ChunkReader} (b : StateBuilder)
      (info : SnapshotInfo), reader.Sound → chunks.length < fuel →
      sequence + chunks.length + 1 < 2 ^ 64 →
      (∀ chunk ∈ chunks, chunk.2.length ≤ kMaxRecordPayload ∧ chunk.1 ≠ kEnd) →
      reader.unread = chunkFrames sequence chunks ++
        frame (sequence + chunks.length + 1) kEnd last →
      ∃ bytes, loadChunks name fuel reader b (sequence + 1) info =
        match feedChunks name sequence chunks b with
        | .error e => .error e
        | .ok b => finishLoad name (sequence + chunks.length + 1) { info with bytes := bytes } b last := by
  intro chunks
  induction chunks with
  | nil =>
    intro fuel sequence reader b info sound enough small fits unread
    obtain ⟨fuel, rfl⟩ : ∃ f, fuel = f + 1 := ⟨fuel - 1, by simp at enough; omega⟩
    simp only [List.length_nil, Nat.add_zero] at small unread
    rw [chunkFrames, List.nil_append, ← append_nil (frame _ _ _)] at unread
    obtain ⟨found, length, whole, parsed, sound', rest⟩ := frame_found sound fitsEnd small unread
    refine ⟨info.bytes, ?_⟩
    rw [loadChunks]
    dsimp only
    rw [found, length, if_neg (by simp), if_neg (Nat.not_lt.2 fitsEnd), whole, if_neg (by simp),
      parsed]
    simp only [RecordParseResult.accepted, ne_eq, not_true_eq_false, if_false, if_true]
    have nothing : ((((reader.ensure kRecordHeaderSize).2.ensure
        (kRecordHeaderSize + last.length)).2.consume (kRecordHeaderSize + last.length)).ensure 1).1 =
        false := by
      rw [(ChunkReader.ensure_spec sound' 1).1, rest]
      rfl
    rw [nothing]
    rfl
  | cons chunk chunks ih =>
    intro fuel sequence reader b info sound enough small fits unread
    obtain ⟨type, payload⟩ := chunk
    obtain ⟨fuel, rfl⟩ : ∃ f, fuel = f + 1 := ⟨fuel - 1, by simp at enough; omega⟩
    obtain ⟨fits₁, notEnd⟩ := fits (type, payload) mem_cons_self
    simp only [length_cons] at small unread enough
    rw [chunkFrames, append_assoc] at unread
    obtain ⟨found, length, whole, parsed, sound', rest⟩ := frame_found sound fits₁ (by omega) unread
    have lengths : sequence + (chunks.length + 1) + 1 = sequence + 1 + chunks.length + 1 := by omega
    rw [lengths] at rest small
    rw [loadChunks]
    dsimp only
    rw [found, length, if_neg (by simp), if_neg (Nat.not_lt.2 fits₁), whole, if_neg (by simp),
      parsed]
    simp only [RecordParseResult.accepted, ne_eq, not_true_eq_false, if_false, notEnd, feedChunks,
      length_cons, lengths]
    cases fed : addChunk name (sequence + 1) b type payload with
    | error e => exact ⟨0, rfl⟩
    | ok next =>
      have fewer : chunks.length < fuel := by omega
      exact ih next { info with bytes := info.bytes + (kRecordHeaderSize + payload.length) }
        sound' fewer small (fun c mem => fits c (mem_cons_of_mem _ mem)) rest

/-! ## Cutting and joining -/

theorem le_chunkEnd : ∀ (jobs : List JobImage) (taken bytes : Nat), taken ≤ chunkEnd jobs taken bytes
  | [], taken, _ => Nat.le_refl taken
  | job :: jobs, taken, bytes => by
    rw [chunkEnd]
    split
    · exact Nat.le_of_succ_le (le_chunkEnd jobs (taken + 1) _)
    · exact Nat.le_refl taken

/-- A chunk takes at least one job. -/
theorem chunkEnd_pos {jobs : List JobImage} (some_ : jobs ≠ []) : 0 < chunkEnd jobs 0 0 := by
  cases jobs with
  | nil => exact absurd rfl some_
  | cons job jobs =>
    rw [chunkEnd, if_pos ⟨by decide, by decide⟩]
    exact le_chunkEnd jobs 1 _

namespace StateBuilder

theorem haveMeta_checkedJob {job : JobImage} (added : b.checkedJob job = .ok b') :
    b'.haveMeta = b.haveMeta := by
  unfold checkedJob at added
  split at added
  · cases added
  split at added
  · cases added
  split at added
  · cases added
  · obtain ⟨-, rfl⟩ := acceptJob_ok.1 added
    rfl

theorem haveMeta_checkedEntry {entry : IdemImage} (added : b.checkedEntry entry = .ok b') :
    b'.haveMeta = b.haveMeta := by
  unfold checkedEntry at added
  split at added
  · cases added
  split at added
  · cases added
  split at added
  · cases added
  · cases added
    rfl

theorem haveMeta_checkedJobs {jobs : List JobImage} (added : b.checkedJobs jobs = .ok b')
    (ready : b.haveMeta = true) : b'.haveMeta = true :=
  foldlM_keeps (P := fun b => b.haveMeta = true) (fun _ _ _ added => (haveMeta_checkedJob added).trans)
    added ready

theorem haveMeta_checkedMeta (named : b.checkedMeta image = .ok b') : b'.haveMeta = true := by
  unfold checkedMeta at named
  split at named
  · cases named
  split at named
  · cases named
  obtain ⟨queues, -, named⟩ := Result.bind_ok named
  cases named
  rfl

/-- Reading the three pieces of an image comes to checking it. -/
theorem addImage_encode {α : Type} (typed : image.Typed) (rest : StateBuilder → Result α) :
    (do
      let b ← b.addMeta (encodeImageMeta image)
      let b ← b.addJobs (encodeImageJobs image.jobs)
      let b ← b.addIdem (encodeImageIdem image.idem)
      rest b) = b.checkedImage image >>= rest := by
  rw [addMeta_encode typed, checkedImage]
  cases meta_ok : b.checkedMeta image with
  | error e => rfl
  | ok named =>
    have ready := haveMeta_checkedMeta meta_ok
    have jobs : named.addJobs (encodeImageJobs image.jobs) = named.checkedJobs image.jobs :=
      reads_jobs.piece ready typed.jobCount typed.jobs
    show named.addJobs _ >>= _ = (named.checkedJobs _ >>= _) >>= _
    rw [jobs]
    cases jobs_ok : named.checkedJobs image.jobs with
    | error e => rfl
    | ok next =>
      have idem : next.addIdem (encodeImageIdem image.idem) = next.checkedIdem image.idem :=
        reads_idem.piece (haveMeta_checkedJobs jobs_ok ready) typed.idemCount typed.idem
      show next.addIdem _ >>= _ = next.checkedIdem _ >>= _
      rw [idem]

end StateBuilder

section Feeding

variable {name : FileName} {sequence : Nat} {b : StateBuilder}

theorem addChunk_ok :
    addChunk name sequence b type payload = .ok b' ↔
      (type = kMeta ∧ b.addMeta payload = .ok b') ∨
        (type = kJobs ∧ b.addJobs payload = .ok b') ∨
        (type = kIdem ∧ b.addIdem payload = .ok b') := by
  unfold addChunk
  by_cases isMeta : type = kMeta
  · subst isMeta
    cases b.addMeta payload <;> simp [kMeta, kJobs, kIdem]
  by_cases isJobs : type = kJobs
  · subst isJobs
    cases b.addJobs payload <;> simp [kMeta, kJobs, kIdem]
  by_cases isIdem : type = kIdem
  · subst isIdem
    cases b.addIdem payload <;> simp [kMeta, kJobs, kIdem]
  simp [isMeta, isJobs, isIdem]

theorem feedChunks_cons {chunks : List (UInt8 × Bytes)} :
    feedChunks name sequence ((type, payload) :: chunks) b = .ok b' ↔
      ∃ next, addChunk name (sequence + 1) b type payload = .ok next ∧
        feedChunks name (sequence + 1) chunks next = .ok b' := by
  rw [feedChunks]
  cases addChunk name (sequence + 1) b type payload with
  | error e => simp
  | ok next => simp

theorem feedChunks_append {xs ys : List (UInt8 × Bytes)} :
    feedChunks name sequence (xs ++ ys) b = .ok b' ↔
      ∃ next, feedChunks name sequence xs b = .ok next ∧
        feedChunks name (sequence + xs.length) ys next = .ok b' := by
  induction xs generalizing sequence b with
  | nil =>
    constructor
    · intro fed
      exact ⟨b, rfl, fed⟩
    · rintro ⟨next, first, rest⟩
      cases first
      exact rest
  | cons chunk xs ih =>
    obtain ⟨type, payload⟩ := chunk
    rw [cons_append, feedChunks_cons]
    simp only [ih, feedChunks_cons, length_cons]
    constructor
    · rintro ⟨one, added, two, fed, rest⟩
      exact ⟨two, ⟨one, added, fed⟩, by rwa [Nat.add_right_comm] at rest⟩
    · rintro ⟨two, ⟨one, added, fed⟩, rest⟩
      exact ⟨one, added, two, fed, by rwa [Nat.add_right_comm]⟩

/-- A chunk is read as its items are checked, and so are the chunks. -/
theorem feed_items {α : Type} {encode : List α → Bytes} {Typed : α → Prop}
    {check : StateBuilder → α → Result StateBuilder} {chunks : List (List α)}
    (keeps : ∀ b x b', check b x = .ok b' → b'.haveMeta = b.haveMeta)
    (chunk : ∀ {sequence b items next}, b.haveMeta = true → Word items.length → (∀ x ∈ items, Typed x) →
      (addChunk name sequence b type (encode items) = .ok next ↔ items.foldlM check b = .ok next))
    (ready : b.haveMeta = true) (count : Word chunks.flatten.length) (typed : ∀ x ∈ chunks.flatten, Typed x) :
    feedChunks name sequence (chunks.map fun items => (type, encode items)) b = .ok b' ↔
      chunks.flatten.foldlM check b = .ok b' := by
  induction chunks generalizing sequence b with
  | nil => rfl
  | cons items chunks ih =>
    rw [flatten_cons] at count typed ⊢
    rw [length_append] at count
    have bound : items.length + chunks.flatten.length < 2 ^ 64 := count
    rw [map_cons, feedChunks_cons, foldlM_append_ok]
    refine exists_congr fun next => ?_
    rw [chunk ready (show Word items.length by unfold Word; omega) fun x mem =>
      typed x (List.mem_append_left _ mem)]
    refine and_congr_right fun first => ih ?_ (by unfold Word; omega) fun x mem =>
      typed x (List.mem_append_right _ mem)
    exact foldlM_keeps (P := fun b => b.haveMeta = true) (fun b x b' done => (keeps b x b' done).trans)
      first ready

theorem feed_jobs (ready : b.haveMeta = true) (typed : image.Typed) :
    feedChunks name sequence ((jobChunks image.jobs.length image.jobs).map fun jobs =>
      (kJobs, encodeImageJobs jobs)) b = .ok b' ↔ b.checkedJobs image.jobs = .ok b' := by
  have whole : (jobChunks image.jobs.length image.jobs).flatten = image.jobs :=
    chunksOf_flatten (fun _ => chunkEnd_pos) _ (Nat.le_refl _)
  have fed := @feed_items kJobs b' name sequence b _ encodeImageJobs JobImage.Typed
    StateBuilder.checkedJob (jobChunks image.jobs.length image.jobs)
    (fun _ _ _ => StateBuilder.haveMeta_checkedJob) ?_ ready
  · rw [whole] at fed
    exact fed typed.jobCount typed.jobs
  · intro sequence b jobs next ready count typed
    have added : b.addJobs (encodeImageJobs jobs) = jobs.foldlM StateBuilder.checkedJob b :=
      StateBuilder.reads_jobs.piece ready count typed
    rw [addChunk_ok, added]
    simp [kMeta, kJobs, kIdem]

theorem feed_idem (ready : b.haveMeta = true) (typed : image.Typed) :
    feedChunks name sequence ((idemChunks image.idem.length image.idem).map fun keys =>
      (kIdem, encodeImageIdem keys)) b = .ok b' ↔ b.checkedIdem image.idem = .ok b' := by
  have whole : (idemChunks image.idem.length image.idem).flatten = image.idem :=
    chunksOf_flatten (fun _ _ => by decide) _ (Nat.le_refl _)
  have fed := @feed_items kIdem b' name sequence b _ encodeImageIdem IdemImage.Typed
    StateBuilder.checkedEntry (idemChunks image.idem.length image.idem)
    (fun _ _ _ => StateBuilder.haveMeta_checkedEntry) ?_ ready
  · rw [whole] at fed
    exact fed typed.idemCount typed.idem
  · intro sequence b keys next ready count typed
    have added : b.addIdem (encodeImageIdem keys) = keys.foldlM StateBuilder.checkedEntry b :=
      StateBuilder.reads_idem.piece ready count typed
    rw [addChunk_ok, added]
    simp [kMeta, kJobs, kIdem]

/-- The chunks of an image come to the image. -/
theorem feedChunks_image (typed : image.Typed) :
    feedChunks name sequence (imageChunks image) b = .ok b' ↔ b.checkedImage image = .ok b' := by
  have chunk : ∀ next, addChunk name (sequence + 1) b kMeta (encodeImageMeta image) =
      .ok next ↔ b.checkedMeta image = .ok next := by
    intro next
    rw [addChunk_ok, StateBuilder.addMeta_encode typed]
    simp [kMeta, kJobs, kIdem]
  rw [imageChunks, feedChunks_append, StateBuilder.checkedImage_ok]
  constructor
  · rintro ⟨next, fed, rest⟩
    obtain ⟨named, first, second⟩ := feedChunks_cons.1 fed
    have named_ok := (chunk named).1 first
    have ready := StateBuilder.haveMeta_checkedMeta named_ok
    have jobs_ok := (feed_jobs ready typed).1 second
    have ready' := StateBuilder.haveMeta_checkedJobs jobs_ok ready
    exact ⟨named, named_ok, next, jobs_ok, (feed_idem ready' typed).1 rest⟩
  · rintro ⟨named, named_ok, next, jobs_ok, keys_ok⟩
    have ready := StateBuilder.haveMeta_checkedMeta named_ok
    have ready' := StateBuilder.haveMeta_checkedJobs jobs_ok ready
    exact ⟨next, feedChunks_cons.2 ⟨named, (chunk named).2 named_ok, (feed_jobs ready typed).2 jobs_ok⟩,
      (feed_idem ready' typed).2 keys_ok⟩

end Feeding

/-! ## A state and its snapshot -/

theorem checkEnd_totals {name : FileName} {b : StateBuilder} {image : StateImage} {chunks : Nat}
    (count : Word chunks) (jobCount : Word image.jobs.length) (idemCount : Word image.idem.length)
    (jobs : b.jobsAdded = image.jobs.length) (keys : b.idemAdded = image.idem.length) :
    checkEnd name (chunks + 1) b (endChunk chunks image) =
      .ok (image.jobs.length, image.idem.length) := by
  unfold checkEnd endChunk
  rw [append_assoc, ByteReader.varint_append count]
  dsimp only
  rw [ByteReader.varint_append jobCount]
  rw [← append_nil (varint image.idem.length), ByteReader.varint_append idemCount]
  simp [ByteReader.atEnd, jobs, keys]

/-- No chunk of an image looks like the end. -/
theorem imageChunks_type : ∀ chunk ∈ imageChunks image, chunk.1 ≠ kEnd := by
  intro chunk mem
  rcases List.mem_append.1 mem with front | back
  · rcases mem_cons.1 front with rfl | jobs
    · show kMeta ≠ kEnd
      decide
    · obtain ⟨-, -, rfl⟩ := mem_map.1 jobs
      show kJobs ≠ kEnd
      decide
  · obtain ⟨-, -, rfl⟩ := mem_map.1 back
    show kIdem ≠ kEnd
    decide

/-- Reading a finished snapshot comes to building its image. -/
theorem loadSnapshot_written (written : SnapshotWritten image lsn createdAt file)
    (small : lsn < 2 ^ 64) (sizes : ReadSizes) (options : StateOptions) (platform : Platform) :
    ∃ info : SnapshotInfo, info.lsn = lsn ∧
      loadSnapshot (snapshotFileName lsn) file sizes options platform =
        match feedChunks (snapshotFileName lsn) 0 (imageChunks image)
            (StateBuilder.new options platform) with
        | .error e => .error e
        | .ok b => finishLoad (snapshotFileName lsn) ((imageChunks image).length + 1) info b
            (endChunk (imageChunks image).length image) := by
  have start : (ChunkReader.mk file sizes 0 [] 0).Sound := Nat.zero_le _
  have unread : (ChunkReader.mk file sizes 0 [] 0).unread = file := rfl
  obtain ⟨have_, sound, same, window⟩ := ChunkReader.ensure_spec start kSnapshotHeaderSize
  have size : kSnapshotHeaderSize ≤ file.length := by
    rw [written.bytes, length_append, snapshotHeader_length]
    omega
  have found : ((ChunkReader.mk file sizes 0 [] 0).ensure kSnapshotHeaderSize).1 = true := by
    rw [have_, unread]
    exact decide_eq_true size
  have header : ((ChunkReader.mk file sizes 0 [] 0).ensure kSnapshotHeaderSize).2.peek
      kSnapshotHeaderSize = snapshotHeader lsn createdAt := by
    rw [ChunkReader.peek_eq (window found) (Nat.le_refl _), same, unread, written.bytes]
    exact take_left' (snapshotHeader_length lsn createdAt)
  obtain ⟨sound', rest⟩ := ChunkReader.consume_spec sound (window found)
  rw [same, unread] at rest
  have body : file.drop kSnapshotHeaderSize = chunkFrames 0 (imageChunks image) ++
      frame (0 + (imageChunks image).length + 1) kEnd
        (endChunk (imageChunks image).length image) := by
    rw [written.bytes, Nat.zero_add]
    exact List.drop_left' (snapshotHeader_length lsn createdAt)
  -- a chunk takes more than a byte
  have room : ∀ (chunks : List (UInt8 × Bytes)) (sequence : Nat),
      chunks.length ≤ (chunkFrames sequence chunks).length := by
    intro chunks
    induction chunks with
    | nil => intro _; exact Nat.zero_le _
    | cons chunk chunks ih =>
      intro sequence
      have := ih (sequence + 1)
      have : 0 < kRecordHeaderSize := by decide
      simp only [chunkFrames, length_cons, length_append, frame_length]
      omega
  have fuel : (imageChunks image).length < file.length + 1 := by
    have := room (imageChunks image) 0
    rw [written.bytes]
    simp only [length_append]
    omega
  have count := written.count
  have frames := @loadChunks_frames (snapshotFileName lsn) _ written.fitsEnd
  obtain ⟨bytes, loaded⟩ := frames (imageChunks image) (StateBuilder.new options platform)
    { lsn := lsn, createdAt := ofU64 (toU64 createdAt % 2 ^ 64), bytes := kSnapshotHeaderSize }
    sound' fuel (by omega) (fun chunk mem => ⟨written.fits chunk mem, imageChunks_type chunk mem⟩)
    (rest.trans body)
  refine ⟨{ lsn := lsn, createdAt := ofU64 (toU64 createdAt % 2 ^ 64), bytes := bytes }, rfl, ?_⟩
  unfold loadSnapshot
  dsimp only
  rw [found, header, parseSnapshotHeader_header small]
  simp only [Nat.zero_add] at loaded
  exact loaded

variable {s : State} {iteration : IterationOrder}

/-- The meta chunk fits a frame, so there are fewer queues than an index can name. -/
theorem queueNames_few (made : snapshotFile (s.captureImage iteration) lsn createdAt = some file) :
    s.queueNames.length ≤ 2 ^ 32 := by
  have written := written_of_snapshotFile made
  have fits := written.fits (kMeta, encodeImageMeta (s.captureImage iteration)) (by
    exact List.mem_append_left _ mem_cons_self)
  have each : ¬ (((s.captureImage iteration).queues.map encodeQueue).flatten).length < _ :=
    StateBuilder.reads_queues.enough (s.captureImage iteration).queues
  have whole : (((s.captureImage iteration).queues.map encodeQueue).flatten).length ≤
      (encodeImageMeta (s.captureImage iteration)).length := by
    unfold encodeImageMeta
    simp only [length_append]
    omega
  have count : (s.captureImage iteration).queues.length = s.queueNames.length := List.length_map _
  have limit := kMaxRecordPayload_lt
  dsimp only at fits
  omega

/-- A snapshot that loads gives back the state it was taken of; and it loads if the
values of the state are in range. -/
theorem loadSnapshot_image (inv : s.StateInv State.nobody)
    (typed : (s.captureImage iteration).Typed) (small : lsn < 2 ^ 64)
    (made : snapshotFile (s.captureImage iteration) lsn createdAt = some file) (sizes : ReadSizes)
    (options : StateOptions) (platform : Platform) :
    (∀ info s', loadSnapshot (snapshotFileName lsn) file sizes options platform = .ok (info, s') →
        info.lsn = lsn ∧ StateBuilder.Restored s s') ∧
      (s.InRange → ∃ info s',
        loadSnapshot (snapshotFileName lsn) file sizes options platform = .ok (info, s')) := by
  have written := written_of_snapshotFile made
  have few := queueNames_few made
  have depicts := @State.depicts_captured s iteration inv.shape
  obtain ⟨info, info_lsn, loaded⟩ := loadSnapshot_written written small sizes options platform
  obtain ⟨sound, complete⟩ := StateBuilder.checkedImage_spec depicts inv few options platform
  -- the builder that has the whole image finishes with the state
  have ending : ∀ b, (StateBuilder.new options platform).checkedImage (s.captureImage iteration) = .ok b →
      ∃ info' s', finishLoad (snapshotFileName lsn) ((imageChunks (s.captureImage iteration)).length + 1)
          info b (endChunk (imageChunks (s.captureImage iteration)).length (s.captureImage iteration)) =
        .ok (info', s') ∧ info'.lsn = lsn ∧ StateBuilder.Restored s s' := by
    intro b image_ok
    have building := sound b image_ok
    obtain ⟨s', finished, restored⟩ := building.finish depicts inv
    have count : Word (imageChunks (s.captureImage iteration)).length := by
      have := written.count
      unfold Word
      omega
    have totals := @checkEnd_totals (snapshotFileName lsn) _ _ _ count typed.jobCount typed.idemCount
      building.jobsAdded building.idemAdded
    unfold finishLoad
    rw [totals]
    rw [finished]
    exact ⟨_, s', rfl, info_lsn, restored⟩
  constructor
  · intro info' s' load_ok
    rw [loaded] at load_ok
    cases fed : feedChunks (snapshotFileName lsn) 0 (imageChunks (s.captureImage iteration))
        (StateBuilder.new options platform) with
    | error e =>
      rw [fed] at load_ok
      cases load_ok
    | ok b =>
      rw [fed] at load_ok
      obtain ⟨info'', s'', finished, lsn_eq, restored⟩ := ending b ((feedChunks_image typed).1 fed)
      cases finished.symm.trans load_ok
      exact ⟨lsn_eq, restored⟩
  · intro inRange
    obtain ⟨b, image_ok⟩ := complete inRange
    obtain ⟨info', s', finished, -, -⟩ := ending b image_ok
    refine ⟨info', s', ?_⟩
    rw [loaded, (feedChunks_image typed).2 image_ok]
    exact finished

end Baton
