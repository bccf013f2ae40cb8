/-
# Snapshot.Admission — what the builder lets through

Whatever the sections of a snapshot are, what is accepted has every index in step and
every number in its range (`Admitted`), with one gap: no check relates the attempts of a
job to its state, so a leased job may have none, a pending job may have used them all,
and a dead job may be allowed none.
-/
import Baton.Snapshot.Building
import Baton.Snapshot.Tail
import Baton.State.Checked
import Baton.State.EngineTotal

namespace Baton

open Theory Function

set_option autoImplicit false

namespace State

theorem upsertIdem_eq (s : State) (key : Bytes) (jobId : Nat) (expiresAt : Int) :
    ∃ order index node memory, s.upsertIdem key jobId expiresAt =
      { s with idemOrder := order, idemIndex := index, nextNode := node, memoryBytes := memory } := by
  unfold State.upsertIdem State.dropIdem
  split
  · exact ⟨_, _, _, _, rfl⟩
  · split <;> exact ⟨_, _, _, _, rfl⟩

end State

namespace StateBuilder

/-! ## The invariant of the builder -/

structure Admitted (b : StateBuilder) : Prop where
  inv : b.state.StateInv State.nobody
  replaying : b.state.replaying = true
  unready : b.state.Unready
  jobless : b.haveMeta = false → ∀ id, b.state.findJob id = none
  names : ∀ name ∈ b.queueByIndex, (b.state.totalsOf name).isSome

theorem admitted_new (options : StateOptions) (platform : Platform) : (new options platform).Admitted where
  inv := State.inv_empty options platform true
  replaying := rfl
  unready := by
    intro id job found
    cases found
  jobless := fun _ _ => rfl
  names := by
    intro name mem
    cases mem

section Admitted

variable {b b' : StateBuilder}

/-! ### The meta section -/

theorem Admitted.withCounters {nextJobId nextToken : Nat} (admitted : b.Admitted) (fresh : b.haveMeta = false)
    (tokens : 0 < nextToken) : (b.withCounters nextJobId nextToken).Admitted where
  __ := admitted
  inv := by
    have empty := admitted.jobless fresh
    have nothing : ∀ (P : Nat → Job → Prop) id job,
        (b.withCounters nextJobId nextToken).state.findJob id = some job → P id job := by
      intro P id job found
      have found : b.state.findJob id = some job := found
      rw [empty id] at found
      cases found
    exact ⟨admitted.inv.shape.unindexed, tokens, nothing _, nothing _, nothing _⟩

theorem Admitted.withQueue (admitted : b.Admitted) (queue : QueueImage) : (b.withQueue queue).Admitted where
  __ := admitted
  inv := by
    rw [withQueue_state]
    exact (admitted.inv.getOrCreateQueue queue.name).addTotals
  names := by
    intro name mem
    have totals := congrArg Ledger.totals
      (@State.ledger_addTotals (b.state.getOrCreateQueue queue.name) queue.name fun _ => queue.totals)
    rw [State.ledger_getOrCreateQueue] at totals
    have here := congrFun totals name
    rw [withQueue_state]
    rw [show State.totalsOf _ name = _ from here]
    simp only [Ledger.addTotals, update_self, Option.map_some, update_idem,
      update_apply]
    split
    · rfl
    · rename_i other
      rcases List.mem_append.1 mem with old | new
      · exact admitted.names name old
      · exact absurd (List.mem_singleton.1 new) other

/-! ### Jobs -/

theorem insertJob_jobs (b : StateBuilder) (job : Job) :
    (b.insertJob job).state.jobs = b.state.jobs.insert job.id job := by
  rw [insertJob_state]
  split <;> rfl

theorem Admitted.insertJob {job : Job} (admitted : b.Admitted) (takes : b.Takes job) :
    (b.insertJob job).Admitted := by
  have totals := admitted.names job.queue takes.queue
  refine ⟨?_, ?_, ?_, ?_, ?_⟩
  · have fits : JobFits b.state.nextJobId b.state.nextToken job.id job :=
      { takes with }
    have placed := placed_insertJob admitted.inv admitted.replaying takes.missing totals takes.unready
    exact (admitted.inv.placed placed fits).weaken (by simp [State.nobody])
  · rw [insertJob_state]
    split <;> exact admitted.replaying
  · intro id other found
    have found : (b.insertJob job).state.jobs.lookup id = some other := found
    rw [insertJob_jobs] at found
    by_cases same : id = job.id
    · rw [same, AList.lookup_insert] at found
      cases found
      exact takes.unready
    · rw [AList.lookup_insert_ne same] at found
      exact admitted.unready id other found
  · intro no_meta
    have no_meta : b.haveMeta = false := no_meta
    rw [takes.have_meta] at no_meta
    cases no_meta
  · intro name mem
    have before := admitted.names name mem
    have same : (b.insertJob job).state.totalsOf = b.state.totalsOf := by
      rw [insertJob_state]
      have counted : ∀ s : State, (s.modifyQueue job.queue (Queue.incrCount job.state)).totalsOf = s.totalsOf :=
        fun _ => State.totalsOf_modifyQueue fun _ => rfl
      split
      · refine (State.totalsOf_modifyQueue ?_).trans (counted _)
        exact fun _ => rfl
      · exact counted _
    rw [same]
    exact before

/-! ### Keys -/

theorem Admitted.entry (admitted : b.Admitted) (key : Bytes) (jobId : Nat) (expiresAt : Int) :
    Admitted { b with state := b.state.upsertIdem key jobId expiresAt, idemAdded := b.idemAdded + 1 } := by
  obtain ⟨order, index, node, memory, eq⟩ := State.upsertIdem_eq b.state key jobId expiresAt
  refine ⟨admitted.inv.upsertIdem key jobId expiresAt, ?_, ?_, ?_, ?_⟩
  · show (b.state.upsertIdem key jobId expiresAt).replaying = true
    rw [eq]
    exact admitted.replaying
  · show (b.state.upsertIdem key jobId expiresAt).Unready
    rw [eq]
    exact admitted.unready
  · show b.haveMeta = false → ∀ id, (b.state.upsertIdem key jobId expiresAt).findJob id = none
    rw [eq]
    exact admitted.jobless
  · show ∀ name ∈ b.queueByIndex, ((b.state.upsertIdem key jobId expiresAt).totalsOf name).isSome
    rw [eq]
    exact admitted.names

/-! ### All of them -/

theorem Grows.admitted (grows : Grows b b') (admitted : b.Admitted) : b'.Admitted := by
  cases grows with
  | counters nextJobId nextToken fresh tokens => exact admitted.withCounters fresh tokens
  | queue queue => exact admitted.withQueue queue
  | haveMeta => exact ⟨admitted.inv, admitted.replaying, admitted.unready, nofun, admitted.names⟩
  | job takes => exact admitted.insertJob takes
  | entry key jobId expiresAt => exact admitted.entry key jobId expiresAt

/-- What is accepted is in step. -/
theorem build_replaying {pieces : List Piece} {options : StateOptions} {platform : Platform} {s : State}
    (built : build pieces options platform = .ok s) : s.Replaying := by
  obtain ⟨b, grows, rfl⟩ := build_grows built
  have admitted := grows_invariant (fun _ _ step => step.admitted) grows (admitted_new options platform)
  have inv := admitted.inv
  refine ⟨?_, admitted.replaying, admitted.unready⟩
  exact inv.congr (Shape_reorder inv.shape (List.perm_insertionSort _ _)) rfl rfl rfl rfl rfl
    (Nat.le_refl _) (Nat.le_refl _)

end Admitted

end StateBuilder

section Files

variable {options : StateOptions} {platform : Platform}

/-- The state is what the builder makes of some sections, handed to it or read from a file. -/
inductive State.Accepted (options : StateOptions) (platform : Platform) (s : State) : Prop where
  | sections {pieces : List StateBuilder.Piece} (built : StateBuilder.build pieces options platform = .ok s)
  | file {name : FileName} {file : Bytes} {sizes : ReadSizes} {info : SnapshotInfo}
      (loaded : loadSnapshot name file sizes options platform = .ok (info, s))

theorem State.Accepted.built {s : State} (accepted : s.Accepted options platform) :
    ∃ pieces, StateBuilder.build pieces options platform = .ok s := by
  cases accepted with
  | sections built => exact ⟨_, built⟩
  | file loaded => exact loadSnapshot_built loaded

theorem State.Accepted.inv {s : State} (accepted : s.Accepted options platform) : s.StateInv State.nobody := by
  obtain ⟨pieces, built⟩ := accepted.built
  exact (StateBuilder.build_replaying built).inv

end Files

end Baton
