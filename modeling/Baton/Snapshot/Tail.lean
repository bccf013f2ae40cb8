/-
# Snapshot.Tail — a snapshot and the records after it are the whole log

The numbers of a state that was replayed from decoded records fit an image, so its
snapshot loads; and the loaded state has the same ledger, so the records after the
snapshot come to the same on it.
-/
import Baton.Snapshot.Load
import Baton.State.Replay
import Baton.State.Serialize

namespace Baton

open Theory

set_option autoImplicit false

section Ranges

variable {s : State} {n : Nat}

theorem State.inRange_of_wired (shape : s.Shape) (wired : s.ledger.Wired n) : s.InRange where
  ids := wired.ids
  names := by
    intro name mem
    obtain ⟨t, known⟩ := Option.isSome_iff_exists.1 (State.mem_queueNames.1 mem)
    exact (wired.totals name t known).1
  jobs := by
    intro id job found
    obtain ⟨in_range, positive, -⟩ := wired.jobs id job.ledger (State.ledger_jobs found)
    refine ⟨?_, in_range.runAt, in_range.createdAt, in_range.finishedAt, in_range.leaseExpiresAt⟩
    rw [shape.jobIds id job found]
    omega
  idem := by
    intro entry mem
    obtain ⟨named, -, -, time⟩ := wired.idem _ _ _ ((State.mem_idemImages shape).1 mem)
    exact ⟨named, time⟩

/-- Different ids below a bound are no more than the bound. -/
theorem length_le_of_nodup {ids : List Nat} {bound : Nat} (nodup : ids.Nodup)
    (below : ∀ id ∈ ids, id < bound) : ids.length ≤ bound := by
  have sub : ids ⊆ List.range bound := fun id mem => List.mem_range.2 (below id mem)
  have shorter := (List.subperm_of_subset nodup sub).length_le
  rwa [List.length_range] at shorter

theorem State.typed_of_wired {iteration : IterationOrder} (shape : s.Shape) (wired : s.ledger.Wired n)
    (count : n + 1 < 2 ^ 64) (few : s.queueNames.length ≤ 2 ^ 32) :
    (s.captureImage iteration).Typed := by
  have ids : s.nextJobId ≤ n + 1 := wired.idBound
  have tokens : s.nextToken ≤ n + 1 := wired.tokenBound
  have word : ∀ {k : Nat}, k ≤ n + 1 → Word k := fun le => Nat.lt_of_le_of_lt le count
  refine ⟨word ids, word tokens, ?_, ?_, ?_, ?_, ?_, ?_⟩
  · show Word (s.queueNames.map s.queueImage).length
    rw [List.length_map]
    unfold Word
    omega
  · have nodup := @State.captured_ids_nodup s iteration shape
    have below : ∀ id ∈ (s.captureImage iteration).jobs.map JobImage.id, id < s.nextJobId := by
      intro id mem
      obtain ⟨image, listed, rfl⟩ := List.mem_map.1 mem
      obtain ⟨id, job, found, rfl⟩ := (State.mem_captured_jobs shape).1 listed
      exact (wired.jobs id job found).2.2
    have length := length_le_of_nodup nodup below
    rw [List.length_map] at length
    exact word (Nat.le_trans length ids)
  · -- every key names a job of its own
    have entries : ∀ entry ∈ s.idemImages, s.ledger.idem entry.key = some (entry.jobId, entry.expiresAt) :=
      fun entry mem => (State.mem_idemImages shape).1 mem
    have keys := State.idemImages_keys_nodup shape
    have nodup : (s.idemImages.map IdemImage.jobId).Nodup := by
      rw [List.nodup_map_iff_inj_on (List.Nodup.of_map _ keys)]
      intro a mem_a b mem_b same
      have of_a := entries a mem_a
      rw [same] at of_a
      have same_key := wired.apart _ _ _ _ _ of_a (entries b mem_b)
      exact List.inj_on_of_nodup_map keys mem_a mem_b same_key
    have below : ∀ id ∈ s.idemImages.map IdemImage.jobId, id < s.nextJobId := by
      intro id mem
      obtain ⟨entry, listed, rfl⟩ := List.mem_map.1 mem
      exact (wired.idem _ _ _ (entries entry listed)).2.2.1
    have length := length_le_of_nodup nodup below
    rw [List.length_map] at length
    exact word (Nat.le_trans length ids)
  · intro queue mem
    obtain ⟨name, listed, rfl⟩ := List.mem_map.1 mem
    obtain ⟨t, known⟩ := Option.isSome_iff_exists.1 (State.mem_queueNames.1 listed)
    obtain ⟨-, short, within⟩ := wired.totals name t known
    have totals : (s.queueImage name).totals = t := by
      show ((s.findQueue name).map Queue.totals).getD {} = t
      rw [show (s.findQueue name).map Queue.totals = some t from known]
      rfl
    have below : ∀ {k : Nat}, k ≤ n → Word k := fun le => word (Nat.le_succ_of_le le)
    refine ⟨short, ?_, ?_, ?_, ?_, ?_⟩
    · exact totals ▸ below within.enqueued
    · exact totals ▸ below within.succeeded
    · exact totals ▸ below within.failedAttempts
    · exact totals ▸ below within.dead
    · exact totals ▸ below within.cancelled
  · intro image mem
    obtain ⟨id, job, found, rfl⟩ := (State.mem_captured_jobs shape).1 mem
    obtain ⟨in_range, -, below⟩ := wired.jobs id job found
    have below : id < s.nextJobId := below
    have token := wired.tokens id job found
    have id_word : Word id := word (by omega)
    have token_word : Word job.leaseToken := word (by omega)
    refine ⟨id_word, ?_, in_range.payload, in_range.runAt.signed, in_range.createdAt.signed,
      in_range.finishedAt.signed, in_range.leaseExpiresAt.signed, token_word, in_range.idemKey,
      in_range.lastError⟩
    show _ % 2 ^ 32 < 2 ^ 64
    omega
  · intro entry mem
    obtain ⟨-, short, below, time⟩ := wired.idem _ _ _ ((State.mem_idemImages shape).1 mem)
    have below : entry.jobId < s.nextJobId := below
    exact ⟨short, word (by omega), time.signed⟩

end Ranges

section Tail

variable {options : StateOptions} {platform : Platform} {rs : List Record}
  {s : State} {iteration : IterationOrder} {lsn : Nat} {createdAt : Int} {file : Bytes}

/-- The snapshot of a replayed state loads, and what is loaded is the state. -/
theorem loadSnapshot_replayed (wire : ∀ r ∈ rs, r.Wire) (count : rs.length + 1 < 2 ^ 64)
    (replayed : State.replay rs (State.fresh options platform) = .ok (some s)) (small : lsn < 2 ^ 64)
    (made : snapshotFile (s.captureImage iteration) lsn createdAt = some file) (sizes : ReadSizes)
    (options' : StateOptions) (platform' : Platform) :
    ∃ info loaded, loadSnapshot (snapshotFileName lsn) file sizes options' platform' = .ok (info, loaded) ∧
      info.lsn = lsn ∧ StateBuilder.Restored s loaded := by
  obtain ⟨at_s, ledger⟩ := (State.replaying_fresh options platform).replay replayed
  have wired : s.ledger.Wired (0 + rs.length) := Ledger.wired_empty.replay wire ledger
  rw [Nat.zero_add] at wired
  have typed : (s.captureImage iteration).Typed :=
    State.typed_of_wired at_s.inv.shape wired count (queueNames_few made)
  obtain ⟨sound, complete⟩ := loadSnapshot_image at_s.inv typed small made sizes options' platform'
  obtain ⟨info, loaded, load⟩ := complete (State.inRange_of_wired at_s.inv.shape wired)
  exact ⟨info, loaded, load, sound info loaded load⟩

theorem StateBuilder.Restored.state {loaded : State} (restored : StateBuilder.Restored s loaded) :
    loaded.Replaying := ⟨restored.inv, restored.replaying, restored.unready⟩

/-- A snapshot of the state after `rs`, and then the records `ts`: the snapshot loads,
every sequence of records has the same outcome on the loaded state as on the original,
and `ts` brings it to the bytes of the whole log. -/
theorem snapshot_then_tail (rs ts : List Record)
    (decoded : ∀ r ∈ rs ++ ts, ∃ type payload, decodeRecord type payload = .ok r)
    (count : rs.length + 1 < 2 ^ 64) {mid final : State}
    (applied : State.replay rs (State.fresh options platform) = .ok (some mid))
    (whole : State.replay (rs ++ ts) (State.fresh options platform) = .ok (some final))
    (small : lsn < 2 ^ 64)
    (written : snapshotFile (mid.captureImage iteration) lsn createdAt = some file)
    (sizes : ReadSizes) (options' : StateOptions) (platform' : Platform) :
    ∃ info loaded, loadSnapshot (snapshotFileName lsn) file sizes options' platform' = .ok (info, loaded) ∧
      info.lsn = lsn ∧
      (∀ us it it', (State.replay us loaded).map (Option.map fun s => s.serialize it) =
        (State.replay us mid).map (Option.map fun s => s.serialize it')) ∧
      ∃ final', State.replay ts loaded = .ok (some final') ∧
        ∀ it it', final'.serialize it = final.serialize it' := by
  have wire : ∀ r ∈ rs, r.Wire := by
    intro r mem
    obtain ⟨type, payload, decoded⟩ := decoded r (List.mem_append_left _ mem)
    exact (wire_of_decode decoded).1
  obtain ⟨info, loaded, load, same_lsn, restored⟩ :=
    loadSnapshot_replayed wire count applied small written sizes options' platform'
  obtain ⟨at_mid, -⟩ := (State.replaying_fresh options platform).replay applied
  have bytes : ∀ {us : List Record} {t t' : State}, State.replay us mid = .ok (some t) →
      State.replay us loaded = .ok (some t') → t'.ledger = t.ledger →
      ∀ it it', t'.serialize it = t.serialize it' := by
    intro us t t' replayed replayed' ledger it it'
    exact State.serialize_ledger (restored.state.replay replayed').1.inv.shape
      (at_mid.replay replayed).1.inv.shape ledger
  refine ⟨info, loaded, load, same_lsn, ?_, ?_⟩
  · intro us it it'
    rcases State.replay_agree us at_mid restored.state restored.ledger with
      ⟨e, refused, refused'⟩ | ⟨t, t', replayed, replayed', ledger⟩
    · rw [refused, refused']
      rfl
    · rw [replayed, replayed']
      show Except.ok (some (t'.serialize it)) = Except.ok (some (t.serialize it'))
      rw [bytes replayed replayed' ledger]
  · have tail : State.replay ts mid = .ok (some final) := by
      rw [State.replay_append, applied] at whole
      exact whole
    rcases State.replay_agree ts at_mid restored.state restored.ledger with
      ⟨e, refused, -⟩ | ⟨t, t', replayed, replayed', ledger⟩
    · rw [refused] at tail
      cases tail
    · rw [replayed] at tail
      cases tail
      exact ⟨t', replayed', bytes replayed replayed' ledger⟩

/-- A platform with strings of 15 bytes inline. -/
def samplePlatform : Platform := ⟨200, 15, fun n => max n 15, fun c n => max c n⟩

def sampleEnqueued : Record :=
  .jobEnqueued
    { id := 1
      queue := [113]
      payload := [7]
      priority := 0
      runAt := 5
      maxAttempts := 3
      backoffBaseMs := 1
      backoffCapMs := 2
      idemKey := [107]
      idemExpiresAt := 9
      at_ := 5 }

def sampleLeased : Record := .jobLeased ⟨1, 1, 60, 6⟩

/-- A job is enqueued, a snapshot is taken, and the job is leased. -/
theorem snapshot_then_tail_lease :
    ∃ (mid final loaded final' : State) (file : Bytes) (info : SnapshotInfo),
      State.replay [sampleEnqueued] (State.fresh {} samplePlatform) = .ok (some mid) ∧
      State.replay ([sampleEnqueued] ++ [sampleLeased]) (State.fresh {} samplePlatform) =
        .ok (some final) ∧
      snapshotFile (mid.captureImage .asListed) 1 7 = some file ∧
      loadSnapshot (snapshotFileName 1) file (fun _ => 0) {} samplePlatform = .ok (info, loaded) ∧
      State.replay [sampleLeased] loaded = .ok (some final') ∧
      ∀ it it', final'.serialize it = final.serialize it' := by
  have decoded : ∀ r ∈ [sampleEnqueued] ++ [sampleLeased], ∃ type payload,
      decodeRecord type payload = .ok r := by
    intro r mem
    have wire : r.Wire := by
      rcases List.mem_cons.1 mem with rfl | later
      · unfold sampleEnqueued Record.Wire
        decide
      · rw [List.mem_singleton.1 later]
        unfold sampleLeased Record.Wire
        decide
    exact ⟨r.typeOf, r.encode, decodeRecord_encode wire⟩
  obtain ⟨mid, applied⟩ : ∃ mid, State.replay [sampleEnqueued] (State.fresh {} samplePlatform) =
      .ok (some mid) := ⟨_, rfl⟩
  obtain ⟨final, whole⟩ : ∃ final, State.replay ([sampleEnqueued] ++ [sampleLeased])
      (State.fresh {} samplePlatform) = .ok (some final) := ⟨_, rfl⟩
  have some_file : (((State.replay [sampleEnqueued] (State.fresh {} samplePlatform)).toOption.bind id).bind
      fun mid => snapshotFile (mid.captureImage .asListed) 1 7).isSome = true := by decide +kernel
  rw [applied] at some_file
  obtain ⟨file, written⟩ := Option.isSome_iff_exists.1 some_file
  obtain ⟨info, loaded, load, -, -, final', tail, bytes⟩ :=
    snapshot_then_tail [sampleEnqueued] [sampleLeased] decoded (by decide) applied whole (by decide)
      written (fun _ => 0) {} samplePlatform
  exact ⟨mid, final, loaded, final', file, info, applied, whole, written, load, tail, bytes⟩

end Tail

end Baton
