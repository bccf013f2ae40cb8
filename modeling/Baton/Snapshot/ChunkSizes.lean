/-
# Snapshot.ChunkSizes — how large a chunk gets

`write_chunks` closes a chunk of jobs when it has `kSnapshotJobsPerChunk` of them, or when
those already in it have reached `kTargetChunkBytes`; the last job comes on top, whatever
its size.  A list of jobs that can stand at the beginning of a chunk is a `Group`:
`group_take` says that every chunk is one, and `Group.first_chunk` that every group
is the beginning of the first chunk, where its jobs come first.
-/
import Baton.Snapshot.Load
import Baton.State.EngineTotal

namespace Baton

open Theory

set_option autoImplicit false

/-! ## Lengths -/

namespace ByteWriter

theorem varintLoop_length_mono : ∀ (fuel : Nat) {v w : Nat}, v ≤ w →
    (varintLoop fuel v).length ≤ (varintLoop fuel w).length
  | 0, _, _, _ => Nat.le_refl _
  | fuel + 1, v, w, le => by
    rw [varintLoop, varintLoop]
    by_cases large : 0x80 ≤ v
    · rw [if_pos large, if_pos (Nat.le_trans large le), List.length_cons, List.length_cons]
      exact Nat.succ_le_succ (varintLoop_length_mono fuel (Nat.div_le_div_right le))
    · rw [if_neg large]
      split
      · exact Nat.le_add_left _ _
      · exact Nat.le_refl _

theorem varint_length_mono {v w : Nat} (le : v ≤ w) : (varint v).length ≤ (varint w).length :=
  varintLoop_length_mono 9 le

end ByteWriter

/-- More jobs take more bytes. -/
theorem encodeImageJobs_length_append (jobs more : List JobImage) :
    (encodeImageJobs jobs).length ≤ (encodeImageJobs (jobs ++ more)).length := by
  have count : jobs.length ≤ (jobs ++ more).length := by
    rw [List.length_append]
    exact Nat.le_add_right _ _
  have varint := ByteWriter.varint_length_mono count
  simp only [encodeImageJobs, encodeItems, List.length_append, List.map_append, List.flatten_append] at varint ⊢
  omega

/-! ## Groups -/

/-- What the loop adds up for the jobs of a chunk. -/
def chunkBytes (jobs : List JobImage) : Nat := (jobs.map fun job => job.payload.length + 256).sum

/-- The jobs of a chunk so far: few enough, and the last of them was let in. -/
structure Group (jobs : List JobImage) : Prop where
  few : jobs.length ≤ kSnapshotJobsPerChunk
  light : chunkBytes jobs.dropLast < kTargetChunkBytes

section Groups

variable {jobs more group : List JobImage}

/-- The loop from the middle of a chunk, which has `taken` jobs of `bytes` bytes. -/
theorem chunkEnd_group : ∀ (jobs : List JobImage) (taken bytes : Nat), taken ≤ kSnapshotJobsPerChunk →
    taken + (jobs.take (chunkEnd jobs taken bytes - taken)).length ≤ kSnapshotJobsPerChunk ∧
      (jobs.take (chunkEnd jobs taken bytes - taken) ≠ [] →
        bytes + chunkBytes (jobs.take (chunkEnd jobs taken bytes - taken)).dropLast < kTargetChunkBytes)
  | [], taken, bytes, few => by
    rw [List.take_nil]
    exact ⟨few, fun some_ => absurd rfl some_⟩
  | job :: jobs, taken, bytes, few => by
    rw [chunkEnd]
    split
    · rename_i room
      obtain ⟨few', light⟩ := chunkEnd_group jobs (taken + 1) (bytes + (job.payload.length + 256)) room.1
      have later := le_chunkEnd jobs (taken + 1) (bytes + (job.payload.length + 256))
      generalize chunkEnd jobs (taken + 1) (bytes + (job.payload.length + 256)) = last at few' light later
      rw [show last - taken = last - (taken + 1) + 1 by omega, List.take_succ_cons]
      refine ⟨?_, fun _ => ?_⟩
      · rw [List.length_cons]
        omega
      · by_cases alone : jobs.take (last - (taken + 1)) = []
        · rw [alone]
          exact room.2
        · have light := light alone
          rw [List.dropLast_cons_of_ne_nil alone]
          simp only [chunkBytes, List.map_cons, List.sum_cons] at light ⊢
          omega
    · rw [Nat.sub_self, List.take_zero]
      exact ⟨few, fun some_ => absurd rfl some_⟩

theorem group_take (jobs : List JobImage) : Group (jobs.take (chunkEnd jobs 0 0)) := by
  obtain ⟨few, light⟩ := chunkEnd_group jobs 0 0 (Nat.zero_le _)
  rw [Nat.sub_zero, Nat.zero_add] at few
  rw [Nat.sub_zero, Nat.zero_add] at light
  refine ⟨few, ?_⟩
  by_cases empty : jobs.take (chunkEnd jobs 0 0) = []
  · rw [empty]
    decide
  · exact light empty

theorem le_chunkEnd_append : ∀ (group more : List JobImage) (taken bytes : Nat),
    taken + group.length ≤ kSnapshotJobsPerChunk →
    (group ≠ [] → bytes + chunkBytes group.dropLast < kTargetChunkBytes) →
    taken + group.length ≤ chunkEnd (group ++ more) taken bytes
  | [], more, taken, bytes, _, _ => le_chunkEnd more taken bytes
  | job :: group, more, taken, bytes, few, light => by
    have light := light (List.cons_ne_nil _ _)
    rw [List.length_cons] at few
    have room : taken < kSnapshotJobsPerChunk ∧ bytes < kTargetChunkBytes :=
      ⟨by omega, Nat.lt_of_le_of_lt (Nat.le_add_right _ _) light⟩
    rw [List.cons_append, chunkEnd, if_pos room, List.length_cons]
    have rest := le_chunkEnd_append group more (taken + 1) (bytes + (job.payload.length + 256))
      (by omega) (by
        intro some_
        rw [List.dropLast_cons_of_ne_nil some_] at light
        simp only [chunkBytes, List.map_cons, List.sum_cons] at light ⊢
        omega)
    omega

/-- A group that comes first is in the first chunk. -/
theorem Group.first_chunk (grouped : Group group) (some_ : group ≠ []) {fuel : Nat}
    (enough : 0 < fuel) : ∃ rest, group ++ rest ∈ jobChunks fuel (group ++ more) := by
  obtain ⟨fuel, rfl⟩ := Nat.exists_eq_succ_of_ne_zero (Nat.pos_iff_ne_zero.1 enough)
  have reached := le_chunkEnd_append group more 0 0 (by
    rw [Nat.zero_add]
    exact grouped.few) (by
    intro _
    rw [Nat.zero_add]
    exact grouped.light)
  rw [Nat.zero_add] at reached
  have nonempty : ¬ (group ++ more).isEmpty = true := by
    simp [some_]
  rw [jobChunks, chunksOf, if_neg nonempty, List.take_append, List.take_of_length_le reached]
  exact ⟨_, List.mem_cons_self⟩

end Groups

/-! ## The writer returns -/

namespace ChunkWriter

theorem add_total {w : ChunkWriter} {type : UInt8} {payload : Bytes}
    (fits : payload.length ≤ kMaxRecordPayload) (small : w.sequence + 1 < 2 ^ 64) :
    ∃ w', w.add type payload = some w' ∧ w'.sequence = w.sequence + 1 := by
  have number : (w.sequence + 1) % 2 ^ 64 ≠ 0 := by omega
  unfold add appendRecord
  rw [if_pos ⟨fits, number⟩]
  refine ⟨_, rfl, ?_⟩
  dsimp only
  split <;> rfl

theorem addAll_total : ∀ {chunks : List (UInt8 × Bytes)} {w : ChunkWriter},
    (∀ chunk ∈ chunks, chunk.2.length ≤ kMaxRecordPayload) → w.sequence + chunks.length < 2 ^ 64 →
    ∃ w', addAll chunks w = some w' ∧ w'.sequence = w.sequence + chunks.length
  | [], w, _, _ => ⟨w, rfl, rfl⟩
  | (type, payload) :: chunks, w, fits, small => by
    rw [List.length_cons] at small ⊢
    obtain ⟨next, first, sequence⟩ := @add_total w type payload (fits _ List.mem_cons_self) (by omega)
    obtain ⟨w', rest, sequence'⟩ := @addAll_total chunks next
      (fun chunk mem => fits chunk (List.mem_cons_of_mem _ mem)) (by omega)
    refine ⟨w', ?_, by omega⟩
    rw [addAll, first]
    exact rest

end ChunkWriter

theorem endChunk_length (chunks : Nat) (image : StateImage) :
    (endChunk chunks image).length ≤ kMaxRecordPayload := by
  have varint := ByteWriter.varint_length_le
  have := varint chunks
  have := varint image.jobs.length
  have := varint image.idem.length
  have limit : 30 ≤ kMaxRecordPayload := by decide
  simp only [endChunk, List.length_append]
  omega

/-- A snapshot is written if its chunks fit their frames. -/
theorem snapshotFile_total {image : StateImage} {lsn : Nat} {createdAt : Int}
    (fits : ∀ chunk ∈ imageChunks image, chunk.2.length ≤ kMaxRecordPayload)
    (count : (imageChunks image).length + 1 < 2 ^ 64) :
    (snapshotFile image lsn createdAt).isSome = true := by
  have start : (ChunkWriter.addRaw {} (snapshotHeader lsn createdAt)).sequence = 0 := rfl
  obtain ⟨body, added, sequence⟩ := @ChunkWriter.addAll_total (imageChunks image)
    (ChunkWriter.addRaw {} (snapshotHeader lsn createdAt)) fits (by omega)
  obtain ⟨last, ended, -⟩ := @ChunkWriter.add_total body SnapshotChunk.kEnd
    (endChunk body.sequence image) (endChunk_length _ _) (by omega)
  unfold snapshotFile snapshotAppends writeChunks
  rw [added, Option.bind_eq_bind, Option.bind_some, ended]
  rfl

end Baton
