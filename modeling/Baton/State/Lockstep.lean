/-
# State.Lockstep — states that differ where nobody looks

A rebuild walks the job table and resets the heap index and the timer of each job as
it comes to it; until then they are left over from before.  After the wheel has
fired, the timers of the jobs not yet handled name entries that are gone.  In both
places the state is compared with a twin in which those entries are empty:
`Lockstep accounts heaps timers s v` says that `v` is `s` except for the positions of
the jobs not in `heaps`, the timers of those not in `timers`, and, without
`accounts`, the counts and the memory estimate.

The operations act alike on both.
-/
import Baton.State.Invariant

namespace Baton

open Theory Function

set_option autoImplicit false

/-- What two queues have in common, with or without the counts. -/
def Queue.view (accounts : Bool) (q : Queue) :
    Bytes × QueueTotals × List Nat × Finset Nat × Option (JobState → Nat) :=
  (q.name, q.totals, q.ready, q.dead, if accounts then some q.counts else none)

namespace State

structure Lockstep (accounts : Bool) (heaps timers : Nat → Prop) (s v : State) : Prop
    extends SameJobs s v where
  queues : ∀ name, (v.queues.lookup name).map (Queue.view accounts)
    = (s.queues.lookup name).map (Queue.view accounts)
  wheel : v.wheel = s.wheel
  heapIndex : ∀ j, heaps j → v.heapIndex j = s.heapIndex j
  timer : ∀ j, timers j → v.timer j = s.timer j
  notified : v.readyNotifications = s.readyNotifications
  memory : accounts = true → v.memoryBytes = s.memoryBytes

/-! ## The views -/

section Views

variable {accounts : Bool} {heaps timers : Nat → Prop} {s v : State}

theorem Lockstep.readyOf (twin : Lockstep accounts heaps timers s v) : v.readyOf = s.readyOf :=
  funext fun name => map_view (twin.queues name) (·.2.2.1)

theorem Lockstep.deadOf (twin : Lockstep accounts heaps timers s v) : v.deadOf = s.deadOf :=
  funext fun name => map_view (twin.queues name) (·.2.2.2.1)

theorem Lockstep.kept (twin : Lockstep accounts heaps timers s v) : Kept s v :=
  ⟨twin.toSameBooks, funext fun name => map_view (twin.queues name) (·.2.1)⟩

end Views

/-! ## The operations -/

section Ops

variable {accounts : Bool} {heaps timers : Nat → Prop} {s s' v : State} {id : Nat} {name : Bytes}

/-- A change of a queue that the view determines. -/
theorem queues_modify {f g : Queue → Queue}
    (queues : ∀ name, (v.queues.lookup name).map (Queue.view accounts)
      = (s.queues.lookup name).map (Queue.view accounts))
    (acts : ∀ q q', q.view accounts = q'.view accounts → (f q).view accounts = (g q').view accounts) :
    ∀ name', ((Table.modify name f v.queues).lookup name').map (Queue.view accounts)
      = ((Table.modify name g s.queues).lookup name').map (Queue.view accounts) := by
  intro name'
  rw [Table.lookup_modify, Table.lookup_modify]
  split
  · have here := queues name
    cases at_v : v.queues.lookup name with
    | none =>
      rw [at_v] at here
      have at_s : s.queues.lookup name = none := by simpa using here.symm
      rw [at_s]
      rfl
    | some q =>
      rw [at_v, Option.map_some] at here
      obtain ⟨q', at_s, same⟩ := Option.map_eq_some_iff.1 here.symm
      rw [at_s]
      simp only [Option.map_some, acts q q' same.symm]
  · exact queues name'

theorem view_counts {q q' : Queue} (same : q.view accounts = q'.view accounts)
    (f : (JobState → Nat) → JobState → Nat) :
    Queue.view accounts { q with counts := f q.counts }
      = Queue.view accounts { q' with counts := f q'.counts } := by
  unfold Queue.view at same ⊢
  cases accounts with
  | true => simp_all
  | false => simpa using same

section

variable (twin : Lockstep accounts heaps timers s v)

include twin

/-- The heap and the timer operations see the queue through its view. -/
theorem Lockstep.queue {q : Queue} (queue : s.queues.lookup name = some q) :
    ∃ q', v.queues.lookup name = some q' ∧ q'.view accounts = q.view accounts := by
  have here := twin.queues name
  rw [queue, Option.map_some] at here
  obtain ⟨q', at_v, same⟩ := Option.map_eq_some_iff.1 here
  exact ⟨q', at_v, same⟩

theorem Lockstep.modifyQueue {f : Queue → Queue}
    (acts : ∀ q q', q.view accounts = q'.view accounts → (f q).view accounts = (f q').view accounts) :
    Lockstep accounts heaps timers (s.modifyQueue name f) (v.modifyQueue name f) :=
  { twin with queues := queues_modify twin.queues acts }

theorem Lockstep.modifyJob {f : Job → Job} :
    Lockstep accounts heaps timers (s.modifyJob id f) (v.modifyJob id f) :=
  { twin with
    jobs := by
      show Table.modify id f v.jobs = Table.modify id f s.jobs
      rw [twin.jobs] }

theorem Lockstep.setState (id : Nat) (state : JobState) :
    Lockstep accounts heaps timers (s.setState id state) (v.setState id state) := by
  unfold State.setState
  rw [twin.findJob]
  cases s.findJob id with
  | none => exact twin
  | some job =>
    apply Lockstep.modifyJob
    apply twin.modifyQueue
    intro q q' same
    exact view_counts same fun c =>
      update (update c job.state (c job.state - 1)) state
        (update c job.state (c job.state - 1) state + 1)

theorem Lockstep.armTimer {deadline kind : Nat} (armed : s.armTimer deadline kind id = some s') :
    ∃ v', v.armTimer deadline kind id = some v' ∧ Lockstep accounts heaps timers s' v' := by
  unfold State.armTimer at armed ⊢
  obtain ⟨⟨handle, wheel⟩, scheduled, result⟩ := Option.map_eq_some_iff.1 armed
  subst result
  rw [twin.wheel, scheduled]
  refine ⟨_, rfl, ?_⟩
  exact
    { twin with
      wheel := rfl
      timer := by
        intro j known
        show update v.timer id (some handle) j = update s.timer id (some handle) j
        rw [update_apply, update_apply, twin.timer j known] }

theorem Lockstep.pushReady (known : heaps id) (pushed : s.pushReady name id = some s') :
    ∃ v', v.pushReady name id = some v' ∧ Lockstep accounts heaps timers s' v' := by
  unfold State.pushReady State.findQueue at pushed ⊢
  split at pushed
  · cases pushed
  rename_i q queue
  split at pushed
  swap
  · cases pushed
  rename_i checks
  cases pushed
  obtain ⟨q', queue', same⟩ := twin.queue queue
  have ready : q'.ready = q.ready := congrArg (fun t => t.2.2.1) same
  rw [queue']
  dsimp only
  rw [twin.heapIndex id known, ready, if_pos checks]
  refine ⟨_, rfl, ?_⟩
  obtain ⟨heap, index⟩ := @IndexedHeap.push_agree Nat _ s.before id ⟨q.ready, v.heapIndex⟩
    ⟨q.ready, s.heapIndex⟩ heaps rfl twin.heapIndex
  rw [twin.before]
  refine
    { twin with
      queues := ?_
      heapIndex := index }
  apply queues_modify twin.queues
  intro q₁ q₂ same'
  unfold Queue.view at same' ⊢
  simp only [Prod.mk.injEq] at same' ⊢
  exact ⟨same'.1, same'.2.1, heap, same'.2.2.2⟩

theorem Lockstep.insertDead :
    Lockstep accounts heaps timers (s.insertDead name id) (v.insertDead name id) := by
  apply twin.modifyQueue
  intro q q' same
  unfold Queue.view at same ⊢
  simp only [Prod.mk.injEq] at same ⊢
  exact ⟨same.1, same.2.1, same.2.2.1, by rw [same.2.2.2.1], same.2.2.2.2⟩

theorem Lockstep.notifyReady :
    Lockstep accounts heaps timers (s.notifyReady name) (v.notifyReady name) :=
  { twin with
    notified := by
      show (if name ∈ v.readyNotifications then _ else _) = if name ∈ s.readyNotifications then _ else _
      rw [twin.notified] }

theorem Lockstep.enterPending (known : heaps id) (entered : s.enterPending id = some s') :
    ∃ v', v.enterPending id = some v' ∧ Lockstep accounts heaps timers s' v' := by
  unfold State.enterPending at entered ⊢
  rw [twin.findJob]
  cases found : s.findJob id with
  | none =>
    rw [found] at entered
    cases entered
  | some job =>
    rw [found] at entered
    dsimp only at entered ⊢
    rw [twin.replaying, twin.wallNow]
    have pending := twin.setState id .kScheduled
    have ready := twin.setState id .kReady
    split at entered
    · rename_i waits
      rw [if_pos waits, pending.replaying]
      split at entered
      · rename_i replaying
        cases entered
        rw [if_pos replaying]
        exact ⟨_, rfl, pending⟩
      · rename_i live
        rw [if_neg live]
        have deadline : (v.setState id .kScheduled).monoDeadline job.runAt
            = (s.setState id .kScheduled).monoDeadline job.runAt := by
          unfold State.monoDeadline
          rw [pending.wallNow, pending.monoNow]
        rw [deadline]
        exact pending.armTimer entered
    · rename_i due
      rw [if_neg due]
      obtain ⟨pushed, push, result⟩ := Option.map_eq_some_iff.1 entered
      obtain ⟨pushed', push', twin'⟩ := ready.pushReady known push
      subst result
      rw [push']
      exact ⟨_, rfl, twin'.notifyReady⟩

theorem Lockstep.scheduleLeaseTimer {graceMs : Int}
    (scheduled : s.scheduleLeaseTimer id graceMs = some s') :
    ∃ v', v.scheduleLeaseTimer id graceMs = some v' ∧ Lockstep accounts heaps timers s' v' := by
  unfold State.scheduleLeaseTimer at scheduled ⊢
  rw [twin.replaying, twin.findJob]
  split at scheduled
  · rename_i replaying
    cases scheduled
    rw [if_pos replaying]
    exact ⟨v, rfl, twin⟩
  · rename_i live
    rw [if_neg live]
    cases found : s.findJob id with
    | none =>
      rw [found] at scheduled
      cases scheduled
    | some job =>
      rw [found] at scheduled
      dsimp only at scheduled ⊢
      have deadline : ∀ w, v.monoDeadline w = s.monoDeadline w := by
        intro w
        unfold State.monoDeadline
        rw [twin.wallNow, twin.monoNow]
      rw [deadline, twin.wallNow]
      exact twin.armTimer scheduled

theorem Lockstep.symm : Lockstep accounts heaps timers v s where
  options := twin.options.symm
  platform := twin.platform.symm
  wallNow := twin.wallNow.symm
  monoNow := twin.monoNow.symm
  replaying := twin.replaying.symm
  nextJobId := twin.nextJobId.symm
  nextToken := twin.nextToken.symm
  idemOrder := twin.idemOrder.symm
  idemIndex := twin.idemIndex.symm
  nextNode := twin.nextNode.symm
  finishedGc := twin.finishedGc.symm
  deadGc := twin.deadGc.symm
  jobs := twin.jobs.symm
  queues := fun name => (twin.queues name).symm
  wheel := twin.wheel.symm
  heapIndex := fun j known => (twin.heapIndex j known).symm
  timer := fun j known => (twin.timer j known).symm
  notified := twin.notified.symm
  memory := fun accounted => (twin.memory accounted).symm

/-- More jobs have been seen. -/
theorem Lockstep.see {heaps' timers' : Nat → Prop}
    (heapIndex : ∀ j, heaps' j → ¬ heaps j → v.heapIndex j = s.heapIndex j)
    (timer : ∀ j, timers' j → ¬ timers j → v.timer j = s.timer j) :
    Lockstep accounts heaps' timers' s v :=
  { twin with
    heapIndex := by
      intro j known
      by_cases old : heaps j
      · exact twin.heapIndex j old
      · exact heapIndex j known old
    timer := by
      intro j known
      by_cases old : timers j
      · exact twin.timer j old
      · exact timer j known old }

end

end Ops

end State

end Baton
