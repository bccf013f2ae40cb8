/-
# State.Progress — when no check of the state fails

A mutation is `none` where a `BATON_CHECK` fails.  In a state that is in step every
check on an index holds, so what is left are the two that bound a size: a ready heap
and the slab of the timing wheel hold fewer than 2^32 - 1 entries.  Both list jobs,
each once, so the job table bounds them.  In replay nothing is indexed, and no check
can fail.
-/
import Baton.State.Expiry

namespace Baton

open Theory Function

set_option autoImplicit false

namespace State

/-! ## The size of the table -/

def jobCount (s : State) : Nat := s.jobs.keys.length

/-- The indexes have room for every job of the table, or are not kept. -/
def Room (s : State) : Prop := s.replaying = true ∨ s.jobCount ≤ TimingWheel.kMaxNodes

section Size

variable {s s' : State} {id : Nat} {job job' : Job} {heap dead : Bool} {kind : Option Nat}

theorem jobCount_le (known : ∀ j, (s'.findJob j).isSome → (s.findJob j).isSome) :
    s'.jobCount ≤ s.jobCount := by
  apply List.Subperm.length_le
  apply List.subperm_of_subset s'.jobs.nodupKeys
  intro j mem
  exact mem_keys.2 (known j (mem_keys.1 mem))

theorem jobCount_congr (known : ∀ j, (s'.findJob j).isSome = (s.findJob j).isSome) :
    s'.jobCount = s.jobCount :=
  Nat.le_antisymm (jobCount_le fun j some_here => known j ▸ some_here)
    (jobCount_le fun j some_here => known j ▸ some_here)

theorem Moved.jobCount (moved : Moved s s' id job' heap kind dead) (found : s.findJob id = some job) :
    s'.jobCount = s.jobCount := by
  apply jobCount_congr
  intro j
  rw [moved.jobs, update_apply]
  split
  · rename_i same
    rw [same, found]
    rfl
  · rfl

theorem Moved.room (moved : Moved s s' id job' heap kind dead) (found : s.findJob id = some job)
    (room : s.Room) : s'.Room := by
  unfold Room
  rw [moved.kept.replaying, moved.jobCount found]
  exact room

/-- Jobs other than the one at hand are fewer than the table has. -/
theorem card_lt_jobCount {ids : Finset Nat} (found : s.findJob id = some job)
    (others : ∀ j ∈ ids, j ≠ id ∧ (s.findJob j).isSome) : ids.card < s.jobCount := by
  have nodup : s.jobs.keys.Nodup := s.jobs.nodupKeys
  have count : s.jobs.keys.toFinset.card = s.jobCount := List.toFinset_card_of_nodup nodup
  rw [← count]
  apply Finset.card_lt_card
  rw [Finset.ssubset_iff_of_subset]
  · refine ⟨id, ?_, fun mem => (others id mem).1 rfl⟩
    rw [List.mem_toFinset, mem_keys, found]
    rfl
  · intro j mem
    rw [List.mem_toFinset, mem_keys]
    exact (others j mem).2

end Size

/-! ## The indexes -/

section Indexes

variable {s s' : State} {id : Nat} {job : Job}

theorem Shape.armTimer_some (shape : Shape s) (found : s.findJob id = some job)
    (unarmed : s.kindOf id = none) (few : s.jobCount ≤ TimingWheel.kMaxNodes) (deadline kind : Nat) :
    ∃ s', s.armTimer deadline kind id = some s' := by
  have timers := shape.timers
  have no_timer := shape.timer_none unarmed
  -- every live entry belongs to a job of its own
  have owned : ∀ i ∈ s.wheel.live, s.timer (s.wheel.timerOf i).id =
      some ⟨i, (s.wheel.timerOf i).generation⟩ := fun i mem =>
    timers.owner i _ (TimingWheel.timer?_of_live mem)
  have injective : Set.InjOn (fun i => (s.wheel.timerOf i).id) (s.wheel.live : Set Nat) := by
    intro i mem_i j mem_j same
    have same : (s.wheel.timerOf i).id = (s.wheel.timerOf j).id := same
    have of_i := owned i mem_i
    rw [same, owned j mem_j] at of_i
    exact (congrArg TimerHandle.index (Option.some.inj of_i)).symm
  have room : s.wheel.live.card < TimingWheel.kMaxNodes := by
    rw [← Finset.card_image_of_injOn injective]
    refine Nat.lt_of_lt_of_le (card_lt_jobCount found ?_) few
    intro j mem
    obtain ⟨i, live, rfl⟩ := Finset.mem_image.1 mem
    constructor
    · intro same
      have of_i := owned i live
      rw [same, no_timer] at of_i
      cases of_i
    · have known := timers.job _ _ (owned i live)
      obtain ⟨name, queue⟩ := Option.ne_none_iff_exists'.1 known
      obtain ⟨other, found', -⟩ := Option.map_eq_some_iff.1 queue
      rw [show s.findJob _ = some other from found']
      rfl
  obtain ⟨⟨handle, wheel⟩, scheduled⟩ := TimingWheel.schedule_some timers.lists room deadline kind id
  unfold State.armTimer
  rw [scheduled]
  exact ⟨_, rfl⟩

section

variable (shape : Shape s) (found : s.findJob id = some job)

include shape found

theorem Shape.pushReady_some (out : s.inHeap id = false)
    (few : s.jobCount ≤ TimingWheel.kMaxNodes) : ∃ s', s.pushReady job.queue id = some s' := by
  obtain ⟨q, queue⟩ := Option.isSome_iff_exists.1 (shape.jobQueues id job found)
  have ready : s.readyOf job.queue = some q.ready := by
    unfold readyOf
    rw [queue]
    rfl
  have valid := shape.heaps.valid job.queue q.ready ready
  have unstored := heapIndex_none out
  have room : q.ready.length < kNotInHeap := by
    rw [← List.toFinset_card_of_nodup valid.nodup]
    refine Nat.lt_of_lt_of_le (card_lt_jobCount found ?_) few
    intro j mem
    rw [List.mem_toFinset] at mem
    constructor
    · rintro rfl
      obtain ⟨i, at_i⟩ := List.mem_iff_getElem?.1 mem
      have stored := valid.stored i j at_i
      dsimp only at stored
      rw [unstored] at stored
      cases stored
    · have owner := shape.heaps.owner job.queue q.ready j ready mem
      obtain ⟨other, found', -⟩ := Option.map_eq_some_iff.1 owner
      rw [show s.findJob j = some other from found']
      rfl
  unfold State.pushReady State.findQueue
  rw [queue]
  dsimp only
  rw [if_pos ⟨unstored, room⟩]
  exact ⟨_, rfl⟩

theorem Shape.leaveIndexes_some : ∃ s', s.leaveIndexes id = some s' := by
  unfold State.leaveIndexes
  rw [found]
  dsimp only
  split
  · rename_i indexed
    obtain ⟨i, stored⟩ := Option.isSome_iff_exists.1 indexed
    obtain ⟨name, l, queue, ready, at_i⟩ := shape.heaps.stored id i stored
    rw [queueOf_of_lookup found] at queue
    cases queue
    obtain ⟨q, at_name, rfl⟩ := Option.map_eq_some_iff.1 ready
    obtain ⟨heap, removed⟩ :
        ∃ heap, IndexedHeap.remove s.before id ⟨q.ready, s.heapIndex⟩ = some heap :=
      IndexedHeap.remove_some stored at_i
    unfold State.removeReady State.findQueue
    rw [at_name]
    dsimp only
    rw [removed]
    exact ⟨_, rfl⟩
  · exact ⟨_, rfl⟩

theorem Shape.enterPending_some (out : s.inHeap id = false) (unarmed : s.kindOf id = none)
    (room : s.Room) : ∃ s', s.enterPending id = some s' := by
  unfold State.enterPending
  rw [found]
  dsimp only
  split
  · have moved := shape.moved_setState found .kScheduled
    split
    · exact ⟨_, rfl⟩
    · rename_i live
      have few := (moved.room found room).resolve_left live
      exact moved.shape.armTimer_some moved.found (moved.kind_at.trans unarmed) few _ _
  · rename_i due
    have moved := shape.moved_setState found .kReady
    have few : s.jobCount ≤ _ := room.resolve_left fun replaying => due (Or.inl replaying)
    obtain ⟨pushed, push⟩ := moved.shape.pushReady_some moved.found (moved.heap_at.trans out)
      (moved.jobCount found ▸ few)
    have push' : (s.setState id .kReady).pushReady job.queue id = some pushed := push
    rw [push']
    exact ⟨_, rfl⟩

theorem Shape.scheduleLeaseTimer_some (unarmed : s.kindOf id = none) (room : s.Room)
    (graceMs : Int) : ∃ s', s.scheduleLeaseTimer id graceMs = some s' := by
  unfold State.scheduleLeaseTimer
  split
  · exact ⟨_, rfl⟩
  · rename_i live
    rw [found]
    exact shape.armTimer_some found unarmed (room.resolve_left live) _ _

theorem Shape.finish_some (terminal : JobState)
    (at_ : Int) : ∃ s', s.finish id terminal at_ = some s' := by
  obtain ⟨left, leave⟩ := shape.leaveIndexes_some found
  unfold State.finish
  rw [found]
  rw [leave]
  exact ⟨_, rfl⟩

theorem Shape.eraseJob_some : ∃ s', s.eraseJob id = some s' := by
  obtain ⟨left, leave⟩ := shape.leaveIndexes_some found
  unfold State.eraseJob
  rw [found]
  rw [leave]
  exact ⟨_, rfl⟩

end

end Indexes

/-! ## The records -/

section Records

variable {s : State} {away : Nat → Prop}

/-- Room for the job a record may add. -/
def RoomFor (s : State) : Record → Prop
  | .jobEnqueued _ => s.replaying = true ∨ s.jobCount + 1 ≤ TimingWheel.kMaxNodes
  | _ => s.Room

section

variable (inv : StateInv s away)

include inv

theorem applyJobEnqueued_some {r : JobEnqueued}
    (room : s.RoomFor (.jobEnqueued r)) : s.applyJobEnqueued r ≠ .ok none := by
  unfold applyJobEnqueued
  split
  · simp
  rename_i next
  split
  · simp
  split
  · simp
  have id_eq : r.id = s.nextJobId := by simpa using next
  have fresh := inv.fresh (Nat.le_of_eq id_eq.symm)
  have moved := inv.shape.moved_enqueueJob fresh
  have count : (s.enqueueJob r).jobCount ≤ s.jobCount + 1 := by
    show (s.enqueueJob r).jobs.keys.length ≤ (r.id :: s.jobs.keys).length
    apply List.Subperm.length_le
    apply List.subperm_of_subset (s.enqueueJob r).jobs.nodupKeys
    intro j mem
    have known := mem_keys.1 mem
    rw [moved.jobs, update_apply] at known
    by_cases same : j = r.id
    · exact same ▸ List.mem_cons_self
    · rw [if_neg same] at known
      exact List.mem_cons_of_mem _ (mem_keys.2 known)
  have room' : (s.enqueueJob r).Room := room.imp_right (Nat.le_trans count)
  obtain ⟨t, entered⟩ := moved.shape.enterPending_some moved.found moved.heap_at moved.kind_at room'
  rw [entered]
  simp

theorem applyJobLeased_some {r : JobLeased} (room : s.Room) : s.applyJobLeased r ≠ .ok none := by
  unfold applyJobLeased
  split
  · simp
  rename_i job found
  split
  · simp
  split
  · simp
  split
  · simp
  obtain ⟨left, leave⟩ := inv.shape.leaveIndexes_some found
  have moved := ((inv.shape.moved_leaveIndexes found leave).then_setState .kLeased).then_modify
    (f := fun job =>
      { job with
        attempts := job.attempts + 1
        leaseToken := r.token
        leaseExpiresAt := r.leaseExpiresAt })
    rfl rfl (Or.inl rfl) rfl rfl
  obtain ⟨t, scheduled⟩ := moved.shape.scheduleLeaseTimer_some moved.found moved.kind_at
    (moved.room found room) 0
  rw [leave]
  dsimp only [Option.bind_eq_bind, Option.bind_some]
  rw [scheduled]
  simp

theorem applyLeaseExtended_some {r : LeaseExtended} (room : s.Room) :
    s.applyLeaseExtended r ≠ .ok none := by
  unfold applyLeaseExtended
  split
  · simp
  rename_i job required
  obtain ⟨found, -, -⟩ := requireLeased_ok required
  obtain ⟨left, leave⟩ := inv.shape.leaveIndexes_some found
  have moved := (inv.shape.moved_leaveIndexes found leave).then_modify
    (f := fun job => { job with leaseExpiresAt := r.leaseExpiresAt }) rfl rfl (Or.inl rfl) rfl rfl
  obtain ⟨t, scheduled⟩ := moved.shape.scheduleLeaseTimer_some moved.found moved.kind_at
    (moved.room found room) 0
  rw [leave]
  dsimp only [Option.bind_eq_bind, Option.bind_some]
  rw [scheduled]
  simp

theorem applyJobSucceeded_some {r : JobSucceeded} : s.applyJobSucceeded r ≠ .ok none := by
  unfold applyJobSucceeded
  split
  · simp
  rename_i job required
  obtain ⟨found, -, -⟩ := requireLeased_ok required
  obtain ⟨done, finished⟩ := inv.shape.finish_some found .kSucceeded r.at_
  rw [finished]
  simp

theorem applyAttemptFailed_some {r : AttemptFailed} (room : s.Room) :
    s.applyAttemptFailed r ≠ .ok none := by
  unfold applyAttemptFailed
  split
  · simp
  rename_i job required
  obtain ⟨found, -, -⟩ := requireLeased_ok required
  have swapped := @setLastError_addTotals s r.id r.error job.queue addFailed
  have inv' : StateInv (s.addTotals job.queue addFailed) away := inv.addTotals
  have found' : (s.addTotals job.queue addFailed).findJob r.id = some job := found
  have one := inv'.shape.moved_setLastError found' r.error
  rw [← swapped] at one
  have room' : (s.addTotals job.queue addFailed).Room := room
  split
  · obtain ⟨done, finished⟩ := one.shape.finish_some one.found .kDead r.at_
    have finished' : (((s.setLastError r.id r.error).addTotals job.queue addFailed).finish r.id
        .kDead r.at_) = some done := finished
    show Except.ok (Option.map _ (State.finish ((s.setLastError r.id r.error).addTotals job.queue
      addFailed) r.id .kDead r.at_)) ≠ _
    rw [finished']
    simp
  · obtain ⟨left, leave⟩ := one.shape.leaveIndexes_some one.found
    have moved := (one.then_leave leave).then_modify
      (f := fun job => { job with leaseToken := 0, runAt := r.retryAt }) rfl rfl (Or.inl rfl) rfl rfl
    obtain ⟨t, entered⟩ := moved.shape.enterPending_some moved.found moved.heap_at moved.kind_at
      (moved.room found' room')
    show Except.ok (Option.bind (State.leaveIndexes ((s.setLastError r.id r.error).addTotals job.queue
      addFailed) r.id) _) ≠ _
    rw [leave]
    dsimp only [Option.bind_some]
    rw [entered]
    simp

theorem applyJobCancelled_some {r : JobCancelled} : s.applyJobCancelled r ≠ .ok none := by
  unfold applyJobCancelled
  split
  · simp
  rename_i job found
  split
  · simp
  obtain ⟨done, finished⟩ := inv.shape.finish_some found .kCancelled r.at_
  rw [finished]
  simp

theorem applyDeadJobRetried_some {r : DeadJobRetried} (room : s.Room) :
    s.applyDeadJobRetried r ≠ .ok none := by
  unfold applyDeadJobRetried
  split
  · simp
  rename_i job found
  split
  · simp
  rename_i dead
  have dead' : job.state = .kDead := by simpa using dead
  obtain ⟨out, unarmed⟩ := inv.unarmed found (by simp [dead', JobState.isTerminal])
  have moved := (inv.shape.moved_eraseDead found).then_modify
    (f := fun job => { job with attempts := 0, finishedAt := 0, runAt := r.runAt })
    rfl rfl (Or.inl out) rfl rfl
  rw [out, unarmed] at moved
  obtain ⟨t, entered⟩ := moved.shape.enterPending_some moved.found moved.heap_at moved.kind_at
    (moved.room found room)
  dsimp only
  rw [entered]
  simp

end

theorem purge_some {ids : List Nat} (inv : StateInv s away) : ∃ s', purge ids s = some s' := by
  induction ids generalizing s with
  | nil => exact ⟨s, rfl⟩
  | cons id ids ih =>
    rw [purge]
    split
    · rename_i known
      obtain ⟨job, found⟩ := Option.isSome_iff_exists.1 known
      obtain ⟨t, erased⟩ := inv.shape.eraseJob_some found
      rw [erased]
      exact ih (inv.removed (inv.shape.removed_eraseJob found (inv.alive found) erased))
    · exact ih inv

/-- No record fails a check in a state that is in step and has room for it. -/
theorem apply_some {r : Record} (inv : StateInv s away) (room : s.RoomFor r) :
    s.apply r ≠ .ok none := by
  cases r with
  | jobEnqueued r => exact applyJobEnqueued_some inv room
  | jobLeased r => exact applyJobLeased_some inv room
  | leaseExtended r => exact applyLeaseExtended_some inv room
  | jobSucceeded r => exact applyJobSucceeded_some inv
  | attemptFailed r => exact applyAttemptFailed_some inv room
  | jobCancelled r => exact applyJobCancelled_some inv
  | deadJobRetried r => exact applyDeadJobRetried_some inv room
  | jobsPurged r =>
    show s.applyJobsPurged r ≠ .ok none
    unfold applyJobsPurged
    split
    · simp
    · obtain ⟨t, purged⟩ := @purge_some s away r.ids inv
      rw [purged]
      simp

end Records

/-! ## The loops -/

theorem room_congr {s t : State} (replaying : t.replaying = s.replaying)
    (known : ∀ j, (t.findJob j).isSome = (s.findJob j).isSome) (room : s.Room) : t.Room := by
  unfold Room
  rw [replaying, jobCount_congr known]
  exact room

section Rebuild

variable {base s v : State} {done : List Nat} {id : Nat} {job : Job} {graceMs : Int}

theorem rebuildJob_some (at_done : Rebuilding base done s v) (found : base.findJob id = some job)
    (unseen : id ∉ done) (room : base.Room) : ∃ s', s.rebuildJob graceMs id = some s' := by
  have in_s : s.findJob id = some job := by rw [at_done.jobs, if_neg unseen, found]
  obtain ⟨twin, floating, in_v⟩ := at_done.visit found unseen
  have shape := at_done.inv.shape
  have room_v : v.Room := by
    apply room_congr (at_done.twin.replaying.trans at_done.kept.replaying) _ room
    intro j
    rw [at_done.twin.findJob, at_done.jobs]
    split
    · rw [Option.isSome_map]
    · rfl
  have seen : Seen base (done ++ [id]) id := Or.inl (by simp)
  unfold State.rebuildJob
  rw [in_s]
  dsimp only
  split
  · obtain ⟨v', entered⟩ := shape.enterPending_some in_v floating.heap floating.timer room_v
    obtain ⟨s', entered', -⟩ := twin.symm.enterPending seen entered
    exact ⟨s', entered'⟩
  split
  · obtain ⟨v', scheduled⟩ := shape.scheduleLeaseTimer_some in_v floating.timer room_v graceMs
    obtain ⟨s', scheduled', -⟩ := twin.symm.scheduleLeaseTimer scheduled
    exact ⟨s', scheduled'⟩
  split
  · exact ⟨_, rfl⟩
  · exact ⟨_, rfl⟩

theorem rebuildJobs_some {ids : List Nat} (at_done : Rebuilding base done s v)
    (nodup : (done ++ ids).Nodup) (known : ∀ id ∈ ids, (base.findJob id).isSome) (room : base.Room) :
    ∃ s', rebuildJobs graceMs ids s = some s' := by
  induction ids generalizing s v done with
  | nil => exact ⟨s, rfl⟩
  | cons id ids ih =>
    obtain ⟨job, found⟩ := Option.isSome_iff_exists.1 (known id (by simp))
    have unseen : id ∉ done := by
      intro mem
      rw [List.nodup_append] at nodup
      exact nodup.2.2 id mem id (by simp) rfl
    obtain ⟨t, first⟩ := @rebuildJob_some _ _ _ _ _ _ graceMs at_done found unseen room
    obtain ⟨w, at_next⟩ := rebuildJob_spec at_done found unseen first
    rw [List.append_cons] at nodup
    rw [rebuildJobs, first]
    exact ih at_next nodup fun j mem => known j (by simp [mem])

theorem rebuildDerived_some {iteration : IterationOrder} (shape : Shape s) (tokens : 0 < s.nextToken)
    (fits : ∀ id job, s.findJob id = some job → JobFits s.nextJobId s.nextToken id job)
    (live : s.replaying = false) (room : s.Room) :
    ∃ s', s.rebuildDerived iteration graceMs = some s' := by
  have perm : (iteration.order s.jobs.keys).Perm s.jobs.keys := iteration.perm _
  obtain ⟨t, loop⟩ := @rebuildJobs_some _ _ _ _ graceMs (iteration.order s.jobs.keys)
    (rebuilding_start shape tokens fits)
    (by rw [List.nil_append]; exact perm.nodup_iff.2 s.jobs.nodupKeys)
    (fun id mem => mem_keys.1 (perm.mem_iff.1 mem)) room
  unfold State.rebuildDerived
  rw [live, if_neg (by simp), loop]
  exact ⟨_, rfl⟩

end Rebuild

section Timers

variable {base s v : State} {e : TimerEvent} {es : List TimerEvent} {expired : List Nat}

theorem handleEvent_some (handling : Handling base (e :: es) expired s v) (room : base.Room) :
    ∃ result, s.handleEvent expired e = some result := by
  obtain ⟨job, found, -⟩ := handling.due e (by simp)
  obtain ⟨twin, floating, in_v⟩ := handling.forget found
  have shape := handling.inv.shape
  have room_v : v.Room := by
    apply room_congr (handling.twin.replaying.trans handling.kept.replaying) _ room
    intro j
    rw [handling.twin.findJob]
    rcases handling.jobs j with same | ⟨job', found', -, -, ready⟩
    · rw [same]
    · rw [ready, found']
      rfl
  have armed : ∀ deadline kind, ∃ t,
      State.armTimer { s with timer := update s.timer e.id none } deadline kind e.id = some t := by
    intro deadline kind
    have live : ¬ v.replaying = true := by
      rw [handling.twin.replaying, handling.live]
      simp
    obtain ⟨v', armed⟩ := shape.armTimer_some in_v floating.timer (room_v.resolve_left live) deadline kind
    obtain ⟨t, armed', -⟩ := twin.symm.armTimer armed
    exact ⟨t, armed'⟩
  unfold State.handleEvent
  rw [found]
  dsimp only
  split
  · exact ⟨_, rfl⟩
  split
  · split
    · obtain ⟨t, armed⟩ := armed (State.monoDeadline { s with timer := update s.timer e.id none }
        job.runAt) kJobDue
      exact ⟨_, by rw [armed]; rfl⟩
    · obtain ⟨v', entered⟩ := shape.enterPending_some in_v floating.heap floating.timer room_v
      obtain ⟨t, entered', -⟩ := twin.symm.enterPending trivial entered
      exact ⟨_, by rw [entered']; rfl⟩
  split
  · split
    · obtain ⟨t, armed⟩ := armed (State.monoDeadline { s with timer := update s.timer e.id none }
        job.leaseExpiresAt) kLeaseExpiry
      exact ⟨_, by rw [armed]; rfl⟩
    · exact ⟨_, rfl⟩
  · exact ⟨_, rfl⟩

theorem handleEvents_some (handling : Handling base es expired s v) (room : base.Room) :
    ∃ result, handleEvents es s expired = some result := by
  induction es generalizing s v expired with
  | nil => exact ⟨_, rfl⟩
  | cons e es ih =>
    obtain ⟨⟨t, expired'⟩, first⟩ := handleEvent_some handling room
    obtain ⟨w, next⟩ := handleEvent_spec handling first
    rw [handleEvents, first]
    exact ih next

theorem advanceTimers_some (inv : StateInv s nobody) (live : s.replaying = false) (room : s.Room) :
    ∃ result, s.advanceTimers = some result :=
  handleEvents_some (handling_start inv live) room

end Timers

section Garbage

variable {s : State} {away : Nat → Prop}

theorem collectRef_some (inv : StateInv s away) (dead : Bool) (ref : FinishedRef) :
    ∃ s', s.collectRef dead ref = some s' := by
  rw [collectRef_eq]
  split
  · rename_i takes
    cases found : s.findJob ref.id with
    | none => simp [State.collects, found] at takes
    | some job => exact inv.shape.eraseJob_some found
  · exact ⟨s, rfl⟩

theorem collect_some (inv : StateInv s away) (retention : Int) (dead : Bool) (refs : List FinishedRef) :
    ∃ result, collect retention dead refs s = some result := by
  induction refs generalizing s with
  | nil => exact ⟨_, rfl⟩
  | cons ref refs ih =>
    unfold State.collect
    split
    · obtain ⟨t, first⟩ := collectRef_some inv dead ref
      rw [first]
      exact ih (collectRef_spec inv first).1
    · exact ⟨_, rfl⟩

theorem collectGarbage_some (inv : StateInv s away) (live : s.replaying = false) :
    ∃ s', s.collectGarbage = some s' := by
  obtain ⟨⟨refs, t⟩, first⟩ := collect_some inv s.options.retainFinishedMs false s.finishedGc
  obtain ⟨taken, -, -, -, inv_t, -, -⟩ := collect_spec inv first
  have inv_t' : StateInv { t with finishedGc := refs } away :=
    inv_t.unindexed (Nat.le_refl _) (Nat.le_refl _)
  obtain ⟨⟨refs', u⟩, second⟩ := collect_some inv_t' t.options.retainDeadMs true t.deadGc
  unfold State.collectGarbage
  rw [live, if_neg (by simp), first]
  dsimp only [Option.bind_eq_bind, Option.bind_some]
  rw [second]
  exact ⟨_, rfl⟩

theorem endReplay_some {iteration : IterationOrder} {graceMs : Int} (inv : StateInv s nobody)
    (few : s.jobCount ≤ TimingWheel.kMaxNodes) : ∃ s', s.endReplay iteration graceMs = some s' := by
  obtain ⟨t, rebuilt⟩ := @rebuildDerived_some { s with replaying := false } graceMs iteration inv.shape.live
    inv.tokens inv.fits rfl (Or.inr few)
  obtain ⟨inv_t, kept, -⟩ := rebuildDerived_spec inv.shape.live inv.tokens inv.fits rebuilt
  obtain ⟨s', collected⟩ := collectGarbage_some inv_t kept.replaying
  unfold State.endReplay
  rw [rebuilt]
  exact ⟨s', collected⟩

end Garbage

end State

end Baton
