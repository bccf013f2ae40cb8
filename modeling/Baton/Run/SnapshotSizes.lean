/-
# Run.SnapshotSizes — whether a snapshot can be taken

The order of the jobs in an image is that of an unordered map, so a state is safe to
capture if every group of its jobs fits a frame, and its meta piece does (`ChunksFit`).
In every state a run can reach this is exact (`chunks_fit_iff`): keys are short, so their
chunks always fit, and every group of jobs can come first.

With the largest payloads the command line allows it fails: `oversized_chunk` is a state
of two jobs.  Payloads of 54 MiB and 2^18 queues are still safe (`chunksFit_of_small`).
-/
import Baton.Run.Totality
import Baton.Server.Config
import Baton.Snapshot.ChunkSizes
import Baton.State.Produced

namespace Baton

open Theory Function
open List (flatten_cons length_append length_cons length_map map_cons mem_cons mem_cons_of_mem
  mem_cons_self mem_map)
open ByteWriter (bytes_length_le length_le_bytes varint_length_le)

set_option autoImplicit false

/-! ## The jobs that come first -/

/-- The order that begins with the given keys, where they are among the keys. -/
def IterationOrder.first (ids : List Nat) : IterationOrder where
  order keys := if ids.Subperm keys then ids ++ keys.diff ids else keys
  perm keys := by
    split
    · rename_i among
      exact List.subperm_append_diff_self_of_count_le (List.subperm_ext_iff.1 among)
    · exact List.Perm.refl _

namespace State

variable {s : State}

/-- Images of different jobs of the state. -/
structure ImagesOf (s : State) (images : List JobImage) : Prop where
  apart : (images.map JobImage.id).Nodup
  listed : ∀ image ∈ images, image ∈ (s.captureImage .asListed).jobs

/-- The meta piece, and every group of jobs, fits a frame. -/
structure ChunksFit (s : State) : Prop where
  queues : (encodeImageMeta (s.captureImage .asListed)).length ≤ kMaxRecordPayload
  jobs : ∀ group, s.ImagesOf group → Group group → (encodeImageJobs group).length ≤ kMaxRecordPayload

theorem imagesOf_sublist {iteration : IterationOrder} {group : List JobImage} (shape : s.Shape)
    (sub : group.Sublist (s.captureImage iteration).jobs) : s.ImagesOf group where
  apart := (sub.map JobImage.id).nodup (captured_ids_nodup shape)
  listed := fun _ mem => (mem_captured_jobs shape).2 ((mem_captured_jobs shape).1 (sub.subset mem))

theorem ImagesOf.found {images : List JobImage} {image : JobImage} (shape : s.Shape)
    (these : s.ImagesOf images) (mem : image ∈ images) :
    ∃ job, s.findJob image.id = some job ∧ s.jobImage job = image := by
  obtain ⟨id, job, in_ledger, rfl⟩ := (mem_captured_jobs shape).1 (these.listed image mem)
  obtain ⟨job, found, rfl⟩ := Option.map_eq_some_iff.1 in_ledger
  exact ⟨job, found, jobImage_ledger shape found⟩

/-- There is an order in which the given jobs come first. -/
theorem ImagesOf.first {images : List JobImage} (shape : s.Shape) (these : s.ImagesOf images) :
    ∃ more, (s.captureImage (.first (images.map JobImage.id))).jobs = images ++ more := by
  have among : (images.map JobImage.id).Subperm s.jobs.keys := by
    apply List.subperm_of_subset these.apart
    intro id mem
    obtain ⟨image, listed, rfl⟩ := mem_map.1 mem
    obtain ⟨job, found, -⟩ := these.found shape listed
    exact mem_keys.2 (Option.isSome_of_eq_some found)
  have same : (images.map JobImage.id).filterMap (fun id => (s.findJob id).map s.jobImage) = images := by
    rw [List.filterMap_map]
    refine (List.filterMap_congr ?_).trans List.filterMap_some
    intro image mem
    obtain ⟨job, found, image_eq⟩ := these.found shape mem
    exact (congrArg (Option.map s.jobImage) found).trans (congrArg some image_eq)
  have order : (IterationOrder.first (images.map JobImage.id)).order s.jobs.keys = images.map JobImage.id ++ _ :=
    if_pos among
  show ∃ more, ((IterationOrder.first _).order s.jobs.keys).filterMap _ = _
  rw [order, List.filterMap_append, same]
  exact ⟨_, rfl⟩

end State

/-! ## Short texts -/

/-- The texts of a ledger are no longer than the engine allows. -/
structure Ledger.Short (l : Ledger) : Prop where
  jobs : ∀ id job, l.jobs id = some job →
    job.idemKey.length ≤ kMaxIdemKeyBytes ∧ job.lastError.length ≤ kMaxErrorBytes
  idem : ∀ key entry, l.idem key = some entry → key.length ≤ kMaxIdemKeyBytes
  queues : ∀ name totals, l.totals name = some totals → name.length ≤ kMaxQueueNameBytes

namespace Ledger

variable {l l' live full : Ledger} {id : Nat} {job : LedgerJob} {r : Record} {rs : List Record}

theorem short_empty : Short {} where
  jobs := by
    intro id job found
    cases found
  idem := by
    intro key entry found
    cases found
  queues := by
    intro name totals found
    cases found

theorem Short.setJob (short : l.Short)
    (texts : job.idemKey.length ≤ kMaxIdemKeyBytes ∧ job.lastError.length ≤ kMaxErrorBytes) :
    (l.setJob id job).Short where
  __ := short
  jobs := by
    intro j other found
    have found : update l.jobs id (some job) j = some other := found
    by_cases here : j = id
    · rw [here, update_self] at found
      cases found
      exact texts
    · rw [update_of_ne here] at found
      exact short.jobs j other found

/-- A job that keeps its texts. -/
theorem Short.keepTexts {old : LedgerJob} (short : l.Short) (found : l.jobs id = some old)
    (key : job.idemKey = old.idemKey) (error : job.lastError = old.lastError) : (l.setJob id job).Short := by
  apply short.setJob
  rw [key, error]
  exact short.jobs id old found

theorem Short.addTotals (short : l.Short) (queue : Bytes) (f : QueueTotals → QueueTotals) :
    (l.addTotals queue f).Short where
  __ := short
  queues := by
    intro name totals found
    have found : update l.totals queue ((l.totals queue).map f) name = some totals := found
    by_cases here : name = queue
    · rw [here, update_self] at found
      obtain ⟨before, known, -⟩ := Option.map_eq_some_iff.1 found
      rw [here]
      exact short.queues queue before known
    · rw [update_of_ne here] at found
      exact short.queues name totals found

theorem Short.enqueued {r : JobEnqueued} {n : Nat} (short : l.Short) (sized : (Record.jobEnqueued r).Sized n) :
    (l.enqueued r).Short where
  jobs := by
    have texts : (LedgerJob.enqueued r).idemKey.length ≤ kMaxIdemKeyBytes ∧
        (LedgerJob.enqueued r).lastError.length ≤ kMaxErrorBytes := ⟨sized.2.2, Nat.zero_le _⟩
    exact (short.setJob texts).jobs
  idem := by
    intro key entry found
    have found : (if r.idemKey.isEmpty then l.idem
      else update l.idem r.idemKey (some (r.id, r.idemExpiresAt))) key = some entry := found
    split at found
    · exact short.idem key entry found
    by_cases here : key = r.idemKey
    · rw [here]
      exact sized.2.2
    · rw [update_of_ne here] at found
      exact short.idem key entry found
  queues := by
    intro name totals found
    by_cases here : name = r.queue
    · rw [here]
      exact sized.1
    · have found : update l.totals r.queue _ name = some totals := found
      rw [update_of_ne here] at found
      exact short.queues name totals found

theorem Short.step {n : Nat} (short : l.Short) (sized : r.Sized n) (step : Step l r l') : l'.Short := by
  cases step with
  | enqueued _ _ _ => exact short.enqueued sized
  | @leased r job found _ _ _ =>
    have kept : (l.setJob r.id (job.leased r)).Short := short.keepTexts found rfl rfl
    exact ⟨kept.jobs, kept.idem, kept.queues⟩
  | extended found _ _ => exact short.keepTexts found rfl rfl
  | succeeded found _ _ =>
    apply Short.addTotals
    exact short.keepTexts found rfl rfl
  | @failed r job found _ _ =>
    have text : r.error.length ≤ kMaxErrorBytes := sized
    have texts : (job.failed r).idemKey.length ≤ kMaxIdemKeyBytes ∧
        (job.failed r).lastError.length ≤ kMaxErrorBytes := by
      have key := (short.jobs _ _ found).1
      unfold LedgerJob.failed
      split
      · exact ⟨key, text⟩
      · exact ⟨key, text⟩
    have counted := short.addTotals job.queue State.addFailed
    unfold Ledger.failed
    split
    · exact (counted.setJob texts).addTotals _ _
    · exact counted.setJob texts
  | cancelled found _ =>
    apply Short.addTotals
    exact short.keepTexts found rfl rfl
  | retried found _ => exact short.keepTexts found rfl rfl
  | purged _ =>
    refine ⟨?_, short.idem, short.queues⟩
    intro id job found
    dsimp only at found
    split at found
    · cases found
    · exact short.jobs id job found

theorem History.short (history : History rs l) : (∀ r ∈ rs, ∃ n, r.Sized n) → l.Short := by
  refine @History.keeps _ _ (fun rs l => (∀ r ∈ rs, ∃ n, r.Sized n) → l.Short) history ?_ ?_
  · exact fun _ => short_empty
  · intro rs l r l' _ _ step before sized
    obtain ⟨n, last⟩ := sized r (List.mem_append_right _ (List.mem_singleton_self _))
    exact (before fun r' mem => sized r' (List.mem_append_left _ mem)).step last step

theorem Short.sub {gone : LedgerJob → Prop} {lapsed : Int → Prop} (short : full.Short)
    (sub : Sub gone lapsed live full) : live.Short where
  jobs := fun id job found => short.jobs id job (sub.found found)
  idem := fun key entry found => short.idem key entry (sub.key found)
  queues := fun name totals found => short.queues name totals (sub.totals ▸ found)

end Ledger

/-! ## Pieces -/

section Pieces

variable {s : State}

theorem flatten_length_le {α : Type} {encode : α → Bytes} {bound : Nat} :
    ∀ {list : List α}, (∀ a ∈ list, (encode a).length ≤ bound) →
      ((list.map encode).flatten).length ≤ list.length * bound
  | [], _ => Nat.zero_le _
  | a :: list, each => by
    have first := each a mem_cons_self
    have rest := @flatten_length_le α encode bound list fun b mem => each b (mem_cons_of_mem _ mem)
    rw [map_cons, flatten_cons, length_append, length_cons, Nat.succ_mul]
    omega

/-- A chunk of keys always fits. -/
theorem encodeImageIdem_fits {keys : List IdemImage} (few : keys.length ≤ kSnapshotJobsPerChunk)
    (short : ∀ entry ∈ keys, entry.key.length ≤ kMaxIdemKeyBytes) :
    (encodeImageIdem keys).length ≤ kMaxRecordPayload := by
  have each : ∀ entry ∈ keys, (encodeIdem entry).length ≤ 286 := by
    intro entry mem
    have key := short entry mem
    have := bytes_length_le entry.key
    have := varint_length_le entry.jobId
    have time : (ByteWriter.svarint entry.expiresAt).length ≤ 10 := varint_length_le _
    simp only [kMaxIdemKeyBytes] at key
    simp only [encodeIdem, length_append]
    omega
  have all := flatten_length_le each
  have := varint_length_le keys.length
  have byte : (ByteWriter.u8 kPieceVersion).length = 1 := rfl
  have limit : kMaxRecordPayload = 64 * 2 ^ 20 + 64 * 2 ^ 10 := by decide
  simp only [kSnapshotJobsPerChunk] at few
  simp only [encodeImageIdem, encodeItems, length_append]
  omega

/-- What a job takes beside its payload. -/
theorem encodeJob_length_le {image : JobImage} (key : image.idemKey.length ≤ kMaxIdemKeyBytes)
    (error : image.lastError.length ≤ kMaxErrorBytes) :
    (encodeJob image).length ≤ image.payload.length + 1441 := by
  have varint := varint_length_le
  have svarint : ∀ t, (ByteWriter.svarint t).length ≤ 10 := fun _ => varint _
  have bytes := bytes_length_le
  have byte : (ByteWriter.u8 image.state.toByte).length = 1 := rfl
  have := varint image.id
  have := varint image.queue
  have := bytes image.payload
  have := svarint image.priority.toInt
  have := varint image.attempts.toNat
  have := varint image.maxAttempts.toNat
  have := varint image.backoffBaseMs.toNat
  have := varint image.backoffCapMs.toNat
  have := svarint image.runAt
  have := svarint image.createdAt
  have := svarint image.finishedAt
  have := svarint image.leaseExpiresAt
  have := varint image.leaseToken
  have := bytes image.idemKey
  have := bytes image.lastError
  simp only [kMaxIdemKeyBytes, kMaxErrorBytes] at key error
  simp only [encodeJob, encodeHead, encodeTail, length_append]
  omega

end Pieces

namespace World

variable {regime : Regime} {w w' : World}

theorem sized_step (good : Good regime w) (step : Step regime w w') (sized : ∀ r ∈ w.records, ∃ n, r.Sized n) :
    ∀ r ∈ w'.records, ∃ n, r.Sized n := by
  cases step with
  | op op forward next =>
    obtain ⟨e', -, rfl⟩ := Option.map_eq_some_iff.1 next
    intro r mem
    rcases List.mem_append.1 mem with old | new
    · exact sized r old
    · exact ⟨_, Engine.written_sized op good.inv good.live r new⟩
  | capture typed made => exact sized
  | restart boot found allowed decoded recovered ended => exact fun r mem => sized r (found.subset mem)

/-- Along every run, the texts in the state are short. -/
theorem short_reachable (reachable : w.Reachable regime) : w.engine.state.ledger.Short := by
  have sized : ∀ r ∈ w.records, ∃ n, r.Sized n :=
    reachable.keeps (fun _ _ _ _ _ _ => nofun) fun _ _ good step => sized_step good step
  obtain ⟨full, history, sub⟩ := (good_reachable reachable).full
  exact (history.short sized).sub sub

/-- The number of chunks: each has a job, or keys. -/
theorem imageChunks_length (image : StateImage) :
    (imageChunks image).length ≤ 1 + image.jobs.length + image.idem.length := by
  have jobs : (jobChunks image.jobs.length image.jobs).length ≤ _ := chunksOf_length _ _
  have keys : (idemChunks image.idem.length image.idem).length ≤ _ := chunksOf_length _ _
  simp only [imageChunks, length_append, length_cons, length_map]
  omega

/-- Every chunk of an image fits, where every group of jobs does. -/
theorem chunks_of_fit {iteration : IterationOrder} (shape : w.engine.state.Shape)
    (short : w.engine.state.ledger.Short) (fit : w.engine.state.ChunksFit) :
    ∀ chunk ∈ imageChunks (w.engine.state.captureImage iteration), chunk.2.length ≤ kMaxRecordPayload := by
  intro chunk mem
  rcases List.mem_append.1 mem with mem | keys
  · rcases mem_cons.1 mem with rfl | jobs
    · exact fit.queues
    · obtain ⟨group, listed, rfl⟩ := mem_map.1 jobs
      obtain ⟨⟨left, rfl⟩, sub⟩ := chunksOf_part _ listed
      exact fit.jobs _ (State.imagesOf_sublist shape sub) (group_take left)
  · obtain ⟨group, listed, rfl⟩ := mem_map.1 keys
    obtain ⟨⟨left, rfl⟩, sub⟩ := chunksOf_part _ listed
    refine encodeImageIdem_fits (List.length_take_le _ _) ?_
    intro entry mem
    exact short.idem _ _ ((State.mem_idemImages shape).1 (sub.subset mem))

/-- And a group of jobs fits, where every image can be written. -/
theorem fit_of_chunks (shape : w.engine.state.Shape)
    (chunks : ∀ iteration, ∀ chunk ∈ imageChunks (w.engine.state.captureImage iteration),
      chunk.2.length ≤ kMaxRecordPayload) : w.engine.state.ChunksFit where
  queues := chunks .asListed _ (List.mem_append_left _ mem_cons_self)
  jobs := by
    intro group these grouped
    by_cases some_ : group = []
    · rw [some_]
      decide
    obtain ⟨more, order⟩ := these.first shape
    set image := w.engine.state.captureImage (.first (group.map JobImage.id)) with image_eq
    have enough : 0 < image.jobs.length := by
      rw [order, length_append]
      have := List.length_pos_iff.2 some_
      omega
    obtain ⟨rest, first⟩ := @Group.first_chunk more group grouped some_ image.jobs.length enough
    rw [← order] at first
    have listed : (SnapshotChunk.kJobs, encodeImageJobs (group ++ rest)) ∈ imageChunks image :=
      List.mem_append_left _ (mem_cons_of_mem _ (mem_map.2 ⟨_, first, rfl⟩))
    have fits := chunks _ _ listed
    exact Nat.le_trans (encodeImageJobs_length_append group rest) fits

/-- In every state a run can reach: all that `write_chunks` hands to `append_record`,
whatever the order of the jobs, fits a frame if and only if the meta piece and every group
of jobs do; and unless there are 2^64 chunks, every snapshot is written if and only if
they do. -/
theorem chunks_fit_iff (reachable : w.Reachable regime) :
    ((∀ iteration, (∀ chunk ∈ imageChunks (w.engine.state.captureImage iteration),
        chunk.2.length ≤ kMaxRecordPayload) ∧
        ∀ chunks, (endChunk chunks (w.engine.state.captureImage iteration)).length ≤ kMaxRecordPayload) ↔
      w.engine.state.ChunksFit) ∧
    (w.engine.state.jobCount + w.engine.state.idemOrder.length + 2 < 2 ^ 64 →
      ((∀ iteration lsn createdAt,
          (snapshotFile (w.engine.state.captureImage iteration) lsn createdAt).isSome = true) ↔
        w.engine.state.ChunksFit)) := by
  have good := good_reachable reachable
  have shape := good.inv.shape
  have short := short_reachable reachable
  refine ⟨⟨?_, ?_⟩, fun room => ⟨?_, ?_⟩⟩
  · exact fun chunks => fit_of_chunks shape fun iteration => (chunks iteration).1
  · exact fun fit iteration => ⟨chunks_of_fit shape short fit, fun _ => endChunk_length _ _⟩
  · intro written
    refine fit_of_chunks shape fun iteration => ?_
    obtain ⟨file, made⟩ := Option.isSome_iff_exists.1 (written iteration 0 0)
    exact (written_of_snapshotFile made).fits
  · intro fit iteration lsn createdAt
    apply snapshotFile_total (chunks_of_fit shape short fit)
    have jobs : (w.engine.state.captureImage iteration).jobs.length = w.engine.state.jobCount := by
      rw [← length_map JobImage.id, State.captured_ids shape]
      exact (iteration.perm _).length_eq
    have keys : (w.engine.state.captureImage iteration).idem.length = w.engine.state.idemOrder.length :=
      length_map _
    have count := imageChunks_length (w.engine.state.captureImage iteration)
    omega

/-! ## A bound that is enough -/

theorem chunkBytes_dropLast {group : List JobImage} (some_ : group ≠ []) :
    chunkBytes group = chunkBytes group.dropLast + ((group.getLast some_).payload.length + 256) := by
  conv_lhs => rw [← List.dropLast_append_getLast some_]
  simp [chunkBytes]

theorem encodeJobs_length_le : ∀ {group : List JobImage},
    (∀ image ∈ group, image.idemKey.length ≤ kMaxIdemKeyBytes ∧ image.lastError.length ≤ kMaxErrorBytes) →
    ((group.map encodeJob).flatten).length ≤ chunkBytes group + 1185 * group.length
  | [], _ => Nat.zero_le _
  | image :: group, short => by
    obtain ⟨key, error⟩ := short image mem_cons_self
    have first := encodeJob_length_le key error
    have rest := @encodeJobs_length_le group fun other mem => short other (mem_cons_of_mem _ mem)
    simp only [chunkBytes, map_cons, List.sum_cons, flatten_cons, length_append,
      length_cons] at rest ⊢
    omega

/-- Payloads of at most 54 MiB and at most 2^18 queues are safe. -/
theorem chunksFit_of_small (reachable : w.Reachable regime)
    (payloads : ∀ id job, w.engine.state.findJob id = some job → job.payload.length ≤ 54 * 2 ^ 20)
    (queues : w.engine.state.queueNames.length ≤ 2 ^ 18) : w.engine.state.ChunksFit := by
  have shape := (good_reachable reachable).inv.shape
  have short := short_reachable reachable
  have limit : kMaxRecordPayload = 64 * 2 ^ 20 + 64 * 2 ^ 10 := by decide
  have byte : (ByteWriter.u8 kPieceVersion).length = 1 := rfl
  have varint := varint_length_le
  refine ⟨?_, ?_⟩
  · set image := w.engine.state.captureImage .asListed
    have each : ∀ queue ∈ image.queues, (encodeQueue queue).length ≤ 188 := by
      intro queue mem
      obtain ⟨name, listed, rfl⟩ := mem_map.1 mem
      obtain ⟨totals, known⟩ := Option.isSome_iff_exists.1 (State.mem_queueNames.1 listed)
      have name_short : (w.engine.state.queueImage name).name.length ≤ 128 := short.queues name totals known
      generalize w.engine.state.queueImage name = queue at name_short
      have := bytes_length_le queue.name
      have := varint queue.totals.enqueued
      have := varint queue.totals.succeeded
      have := varint queue.totals.failedAttempts
      have := varint queue.totals.dead
      have := varint queue.totals.cancelled
      simp only [encodeQueue, length_append]
      omega
    have all := flatten_length_le each
    have count : image.queues.length = w.engine.state.queueNames.length := length_map _
    have := varint image.nextJobId
    have := varint image.nextToken
    have := varint image.queues.length
    simp only [encodeImageMeta, length_append]
    omega
  · intro group these grouped
    have texts : ∀ image ∈ group, image.idemKey.length ≤ kMaxIdemKeyBytes ∧
        image.lastError.length ≤ kMaxErrorBytes := by
      intro image mem
      obtain ⟨id, job, in_ledger, rfl⟩ := (State.mem_captured_jobs shape).1 (these.listed image mem)
      exact short.jobs id job in_ledger
    have all := encodeJobs_length_le texts
    have few := grouped.few
    have bytes : chunkBytes group ≤ 58 * 2 ^ 20 + 256 := by
      by_cases some_ : group = []
      · rw [some_]
        exact Nat.zero_le _
      · obtain ⟨job, found, same⟩ := these.found shape (List.getLast_mem some_)
        have last : (group.getLast some_).payload.length ≤ 54 * 2 ^ 20 := by
          rw [← same]
          exact payloads _ job found
        have light := grouped.light
        simp only [kTargetChunkBytes] at light
        rw [chunkBytes_dropLast some_]
        omega
    have := varint group.length
    simp only [kSnapshotJobsPerChunk] at few
    simp only [encodeImageJobs, encodeItems, length_append]
    omega

/-- One job is dead, one is leased and one waits: every snapshot of them is written. -/
theorem chunks_fit_iff_mixed :
    ∃ w, Reachable {} w ∧ w.jobStates = [some .kDead, some .kLeased, some .kReady] ∧
      ∀ iteration lsn createdAt,
        (snapshotFile (w.engine.state.captureImage iteration) lsn createdAt).isSome = true := by
  have mixed : (requests mixedJobs (start {} samplePlatform {} (fun _ => 0) 1000 0)).any (fun w =>
      w.jobStates == [some .kDead, some .kLeased, some .kReady] &&
        (w.engine.state.jobs.entries.all fun entry => decide (entry.2.payload.length ≤ 1)) &&
        decide (w.engine.state.jobCount + w.engine.state.idemOrder.length + 2 < 2 ^ 64) &&
        decide (w.engine.state.queueNames.length ≤ 2 ^ 18)) = true := by
    decide +kernel
  obtain ⟨w, ran, facts⟩ := (Option.any_eq_true _ _).1 mixed
  simp only [Bool.and_eq_true, beq_iff_eq, decide_eq_true_eq] at facts
  obtain ⟨⟨⟨states, jobs⟩, room⟩, queues⟩ := facts
  have reachable := reachable_of_start ran
  have payloads : ∀ id job, w.engine.state.findJob id = some job → job.payload.length ≤ 54 * 2 ^ 20 := by
    intro id job found
    have small := List.all_eq_true.1 jobs ⟨id, job⟩ (Table.lookup_eq_some_iff.1 found)
    exact Nat.le_trans (of_decide_eq_true small) (by decide)
  exact ⟨w, reachable, states, ((chunks_fit_iff reachable).2 room).2
    (chunksFit_of_small reachable payloads queues)⟩

/-! ## Two jobs that do not fit -/

section Oversized

/-- `--max-payload 64m`. -/
def largestPayload : List Text := [Config.Flag.text .maxPayload, ['6', '4', 'm']]

/-- A job of so many bytes. -/
def jobOfSize (size : Nat) : EnqueueRequest := { queue := [113], payload := List.replicate size 0 }

theorem jobOfSize_requested {e : Engine} {size : Nat} (options : e.options = { maxPayloadBytes := 64 * 2 ^ 20 })
    (small : size ≤ 64 * 2 ^ 20) :
    e.requested (.enqueue (jobOfSize size)) = (e, [.jobEnqueued (e.enqueueRecord (jobOfSize size))]) := by
  have length : (jobOfSize size).payload.length = size := List.length_replicate
  have checked : e.checkEnqueue (jobOfSize size) = .ok () := by
    unfold Engine.checkEnqueue
    rw [length, options]
    have valid : ¬ (!isValidQueueName (jobOfSize size).queue) = true := by
      show ¬ (!isValidQueueName [113]) = true
      decide
    rw [if_neg valid, if_neg (Nat.not_lt.2 small)]
    rfl
  refine requested_of_checked checked rfl ?_
  rw [options]

/-- A job of 100 KiB and one of 64 MiB: where the small one comes first, they share a
chunk, and the chunk is too large for its frame. -/
theorem oversized_chunk :
    ∃ parsed w iteration, Config.parseArgs largestPayload none = .ok parsed ∧ Reachable {} w ∧
      w.engine.options = parsed.config.engine ∧ w.records.length = 2 ∧
      (∃ chunk ∈ imageChunks (w.engine.state.captureImage iteration), kMaxRecordPayload < chunk.2.length) ∧
      ∀ lsn createdAt, snapshotFile (w.engine.state.captureImage iteration) lsn createdAt = none := by
  obtain ⟨parsed, accepted, limits⟩ : ∃ parsed, Config.parseArgs largestPayload none = .ok parsed ∧
      parsed.config.engine = { maxPayloadBytes := 64 * 2 ^ 20 } := ⟨_, rfl, rfl⟩
  -- the small job, then the large one
  set w₀ := start {} samplePlatform { maxPayloadBytes := 64 * 2 ^ 20 } (fun _ => 0) 0 0 with w₀_eq
  have good₀ : Good {} w₀ := good_start _ _ _ _ _ _
  have options₀ : w₀.engine.options = { maxPayloadBytes := 64 * 2 ^ 20 } := rfl
  have capacity₀ : w₀.engine.Capacity := ⟨by decide, by decide, by decide⟩
  obtain ⟨s₁, w₁, applied₁, ledger₁, next₁, rfl, options₁, lsn₁, records₁⟩ :=
    enqueue_next good₀ capacity₀ (jobOfSize_requested options₀ (by decide : 102400 ≤ 64 * 2 ^ 20))
  rw [options₀] at options₁
  have good₁ : Good {} w₁ := good_op good₀ (fun steady => nomatch steady) next₁
  have jobs₁ := State.apply_jobCount good₀.inv applied₁
  have one : w₁.engine.state.jobCount ≤ 1 := jobs₁
  have lsn_one : w₁.engine.lastLsn = 1 := lsn₁
  have nodes : TimingWheel.kMaxNodes = 2 ^ 32 - 1 := rfl
  have capacity₁ : w₁.engine.Capacity := by
    refine ⟨by omega, by omega, ?_⟩
    rw [options₁]
  obtain ⟨s₂, w₂, -, ledger₂, next₂, rfl, options₂, -, records₂⟩ :=
    enqueue_next good₁ capacity₁ (jobOfSize_requested options₁ (Nat.le_refl (64 * 2 ^ 20)))
  have good₂ : Good {} w₂ := good_op good₁ (fun steady => nomatch steady) next₂
  have reachable : Reachable {} w₂ :=
    .trans ⟨_, _, _, _, _, _, .single (.op _ nofun next₁)⟩ (.single (.op _ nofun next₂))
  have shape := good₂.inv.shape
  set r₁ := w₀.engine.enqueueRecord (jobOfSize 102400)
  set r₂ := w₁.engine.enqueueRecord (jobOfSize (64 * 2 ^ 20))
  have id₂ : r₂.id = 2 := congrArg Ledger.nextJobId ledger₁
  have in₂ : w₂.engine.state.ledger.jobs 2 = some (LedgerJob.enqueued r₂) := by
    rw [ledger₂, ← id₂]
    exact update_self _ _ _
  have in₁ : w₂.engine.state.ledger.jobs 1 = some (LedgerJob.enqueued r₁) := by
    rw [ledger₂]
    show update w₁.engine.state.ledger.jobs r₂.id _ 1 = _
    rw [id₂, update_of_ne (by decide), ledger₁]
    exact update_self r₁.id (some (LedgerJob.enqueued r₁)) w₀.engine.state.ledger.jobs
  set small := State.ledgerImage w₂.engine.state.queueNames 1 (LedgerJob.enqueued r₁) with small_eq
  set large := State.ledgerImage w₂.engine.state.queueNames 2 (LedgerJob.enqueued r₂) with large_eq
  have size₁ : small.payload.length = 102400 := List.length_replicate
  have size₂ : large.payload.length = 64 * 2 ^ 20 := List.length_replicate
  have these : w₂.engine.state.ImagesOf [small, large] := by
    refine ⟨(by decide : [1, 2].Nodup), ?_⟩
    intro image mem
    apply (State.mem_captured_jobs shape).2
    rcases mem_cons.1 mem with rfl | mem
    · exact ⟨1, _, in₁, rfl⟩
    · rw [List.mem_singleton.1 mem]
      exact ⟨2, _, in₂, rfl⟩
  have grouped : Group [small, large] := by
    refine ⟨(by decide : 2 ≤ kSnapshotJobsPerChunk), ?_⟩
    show small.payload.length + 256 + 0 < kTargetChunkBytes
    rw [size₁]
    decide
  have too_large : kMaxRecordPayload < (encodeImageJobs [small, large]).length := by
    have limit : kMaxRecordPayload = 64 * 2 ^ 20 + 64 * 2 ^ 10 := by decide
    have := length_le_bytes small.payload
    have := length_le_bytes large.payload
    simp only [encodeImageJobs, encodeItems, encodeJob, encodeHead, map_cons, List.map_nil, flatten_cons,
      List.flatten_nil, length_append]
    omega
  have unfit : ¬ w₂.engine.state.ChunksFit := by
    intro fit
    exact Nat.not_le.2 too_large (fit.jobs _ these grouped)
  obtain ⟨iteration, chunk, listed, tooBig⟩ : ∃ iteration, ∃ chunk ∈
      imageChunks (w₂.engine.state.captureImage iteration), kMaxRecordPayload < chunk.2.length := by
    by_contra none_over
    apply unfit
    apply fit_of_chunks shape
    intro iteration chunk listed
    by_contra tooBig
    exact none_over ⟨iteration, chunk, listed, Nat.not_le.1 tooBig⟩
  refine ⟨parsed, w₂, iteration, accepted, reachable, ?_, ?_, ⟨chunk, listed, tooBig⟩, ?_⟩
  · rw [options₂, options₁, limits]
  · rw [records₂, records₁]
    rfl
  · intro lsn createdAt
    cases made : snapshotFile (w₂.engine.state.captureImage iteration) lsn createdAt with
    | none => rfl
    | some file => exact absurd ((written_of_snapshotFile made).fits chunk listed) (Nat.not_le.2 tooBig)

end Oversized

end World

end Baton
