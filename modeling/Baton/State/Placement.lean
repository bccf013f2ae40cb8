/-
# State.Placement — a job moves, everything else stays

Every record changes one job: its fields, and which index it is in.  `Moved s s' id
job heap kind dead` says that `s'` is `s` with `job` under `id`, in the heap or not,
with a timer of that kind or none, in the dead-letter set or not, and that no other
job moved.  The helpers of `state.cpp` are such moves, and moves of one job compose.

`Placed` is the move every record ends with: the job is in exactly the index its
state implies.
-/
import Baton.State.Shape

namespace Baton

open Theory Function

set_option autoImplicit false

namespace State

def totalsOf (s : State) (name : Bytes) : Option QueueTotals :=
  (s.queues.lookup name).map Queue.totals

/-- What the moves leave alone. -/
structure Kept (s s' : State) : Prop extends SameBooks s s' where
  totals : s'.totalsOf = s.totalsOf

theorem SameTables.kept {s s' : State} (same : SameTables s s') : Kept s s' :=
  ⟨same.toSameBooks, funext fun name => map_view (same.queues name) (·.2.1)⟩

theorem Kept.refl (s : State) : Kept s s := (SameTables.refl s).kept

theorem Kept.trans {s s' s'' : State} (one : Kept s s') (two : Kept s' s'') : Kept s s'' :=
  ⟨one.toSameBooks.trans two.toSameBooks, two.totals.trans one.totals⟩

/-- The same with the garbage-collection queues of a third state. -/
theorem Kept.withGc {s s' : State} (kept : Kept s s') (base : State) :
    Kept { s with finishedGc := base.finishedGc, deadGc := base.deadGc }
      { s' with finishedGc := base.finishedGc, deadGc := base.deadGc } :=
  { kept with finishedGc := rfl, deadGc := rfl }

/-- `job` is under `id`, in these indexes; no other job moved. -/
structure Moved (s s' : State) (id : Nat) (job : Job) (heap : Bool) (kind : Option Nat)
    (dead : Bool) : Prop where
  shape : Shape s'
  kept : Kept s s'
  jobs : s'.findJob = update s.findJob id (some job)
  heaps : s'.inHeap = update s.inHeap id heap
  kinds : s'.kindOf = update s.kindOf id kind
  deads : s'.inDead = update s.inDead id dead

section Moves

variable {s s' s'' : State} {id : Nat} {job job' : Job} {heap heap' dead dead' : Bool}
  {kind kind' : Option Nat}

namespace Moved

theorem trans (one : Moved s s' id job heap kind dead) (two : Moved s' s'' id job' heap' kind' dead') :
    Moved s s'' id job' heap' kind' dead' where
  shape := two.shape
  kept := one.kept.trans two.kept
  jobs := by rw [two.jobs, one.jobs, update_idem]
  heaps := by rw [two.heaps, one.heaps, update_idem]
  kinds := by rw [two.kinds, one.kinds, update_idem]
  deads := by rw [two.deads, one.deads, update_idem]

section

variable (moved : Moved s s' id job heap kind dead)

include moved

theorem found : s'.jobs.lookup id = some job := by
  have at_id := congrFun moved.jobs id
  rwa [update_self] at at_id

theorem heap_at : s'.inHeap id = heap := by
  rw [moved.heaps, update_self]

theorem kind_at : s'.kindOf id = kind := by
  rw [moved.kinds, update_self]

theorem dead_at : s'.inDead id = dead := by
  rw [moved.deads, update_self]

end

end Moved

/-- A job that stays where it is. -/
theorem Shape.unmoved (shape : Shape s) (found : s.jobs.lookup id = some job) :
    Moved s s id job (s.inHeap id) (s.kindOf id) (s.inDead id) where
  shape := shape
  kept := Kept.refl s
  jobs := by
    have here : s.findJob id = some job := found
    rw [← here, update_eq_self]
  heaps := (update_eq_self _ _).symm
  kinds := (update_eq_self _ _).symm
  deads := (update_eq_self _ _).symm

/-- The index operations move the job without changing it. -/
theorem SameTables.moved (same : SameTables s s') (shape : Shape s')
    (found : s.jobs.lookup id = some job) (heaps : s'.inHeap = update s.inHeap id heap)
    (kinds : s'.kindOf = update s.kindOf id kind) :
    Moved s s' id job heap kind (s.inDead id) where
  shape := shape
  kept := same.kept
  jobs := by
    have here : s.findJob id = some job := found
    rw [same.findJob, ← here, update_eq_self]
  heaps := heaps
  kinds := kinds
  deads := by rw [same.inDead same.deadOf, update_eq_self]

theorem Shape.timer_none (shape : Shape s) (none_here : s.kindOf id = none) : s.timer id = none := by
  have same := @TimerInv.isSome_timer _ _ _ id shape.timers
  have none_here' : timerKind s.wheel s.timer id = none := none_here
  rw [none_here'] at same
  simpa using same

theorem heapIndex_none (out : s.inHeap id = false) : s.heapIndex id = none := by
  simpa [State.inHeap] using out

/-! ## The helpers as moves -/

section

variable (shape : Shape s) (found : s.jobs.lookup id = some job)

include shape found

theorem Shape.moved_leaveIndexes
    (left : s.leaveIndexes id = some s') : Moved s s' id job false none (s.inDead id) := by
  obtain ⟨shape', same, heaps, kinds, -, -⟩ := shape.leaveIndexes left
  exact same.moved shape' found heaps kinds

theorem Shape.moved_pushReady (pushed : s.pushReady job.queue id = some s') :
    Moved s s' id job true (s.kindOf id) (s.inDead id) := by
  obtain ⟨shape', same, heaps, kinds, -⟩ := shape.pushReady found pushed
  refine same.moved shape' found heaps ?_
  rw [kinds, update_eq_self]

theorem Shape.moved_armTimer {deadline kind : Nat} (unarmed : s.kindOf id = none)
    (armed : s.armTimer deadline kind id = some s') :
    Moved s s' id job (s.inHeap id) (some kind) (s.inDead id) := by
  obtain ⟨shape', same, heaps, kinds⟩ := shape.armTimer found (shape.timer_none unarmed) armed
  refine same.moved shape' found ?_ kinds
  rw [heaps, update_eq_self]

end

/-- A change of the job that leaves its queue, its id and the rest of the state as
they are. -/
theorem moved_setJob (shape : Shape (s.setJob id job')) (found : s.jobs.lookup id = some job)
    (queue : job'.queue = job.queue) :
    Moved s (s.setJob id job') id job' (s.inHeap id) (s.kindOf id) (s.inDead id) where
  shape := shape
  kept := { Kept.refl s with }
  jobs := by
    funext id'
    rw [update_apply]
    exact lookup_insert id'
  heaps := (update_eq_self _ _).symm
  kinds := (update_eq_self _ _).symm
  deads := by
    rw [update_eq_self]
    unfold State.inDead
    rw [queueOf_setJob found queue]
    rfl

theorem Shape.moved_modifyJob {f : Job → Job} (shape : Shape s) (found : s.jobs.lookup id = some job)
    (queue : (f job).queue = job.queue) (same_id : (f job).id = job.id)
    (order : s.inHeap id = false ∨ ((f job).priority = job.priority ∧ (f job).runAt = job.runAt))
    (state : (f job).state = job.state)
    (bytes : s.platform.jobBytes (f job) = s.platform.jobBytes job) :
    Moved s (s.modifyJob id f) id (f job) (s.inHeap id) (s.kindOf id) (s.inDead id) := by
  rw [modifyJob_eq found]
  have shape' := shape.setJob found queue same_id (order.imp_left heapIndex_none) state bytes
  exact moved_setJob shape' found queue

theorem totalsOf_modifyQueue {name : Bytes} {f : Queue → Queue} (keeps : ∀ q, (f q).totals = q.totals) :
    (s.modifyQueue name f).totalsOf = s.totalsOf := by
  funext name'
  exact Table.map_lookup_modify keeps name'

theorem Shape.moved_setState (shape : Shape s) (found : s.jobs.lookup id = some job)
    (state : JobState) :
    Moved s (s.setState id state) id { job with state } (s.inHeap id) (s.kindOf id) (s.inDead id) := by
  have shape' : Shape (s.setState id state) := shape.setState found
  rw [setState_eq found] at shape' ⊢
  set counted := s.modifyQueue job.queue fun q => (q.decrCount job.state).incrCount state
  have totals : counted.totalsOf = s.totalsOf := totalsOf_modifyQueue fun _ => rfl
  have moved : Moved counted (counted.setJob id { job with state }) id { job with state }
      (s.inHeap id) (s.kindOf id) (counted.inDead id) := moved_setJob shape' found rfl
  have dead : counted.inDead = s.inDead := by
    unfold State.inDead
    have deadOf : counted.deadOf = s.deadOf := deadOf_modifyQueue fun _ => rfl
    rw [deadOf]
    rfl
  refine ⟨shape', { Kept.refl s with totals }, moved.jobs,
    moved.heaps, moved.kinds, ?_⟩
  rw [moved.deads, dead]

theorem Shape.moved_setLastError (shape : Shape s) (found : s.jobs.lookup id = some job)
    (error : Bytes) :
    Moved s (s.setLastError id error) id
      { job with lastError := s.platform.assign job.lastError error }
      (s.inHeap id) (s.kindOf id) (s.inDead id) := by
  have shape' := shape.setLastError found error
  have queues : (s.setJob id { job with
      lastError := s.platform.assign job.lastError error }).queueOf = s.queueOf :=
    queueOf_setJob found rfl
  unfold State.setLastError State.findJob at shape' ⊢
  rw [found] at shape' ⊢
  refine ⟨shape', { Kept.refl s with }, ?_,
    (update_eq_self _ _).symm, (update_eq_self _ _).symm, ?_⟩
  · funext id'
    rw [update_apply]
    exact lookup_insert id'
  · rw [update_eq_self]
    funext id'
    unfold State.inDead
    congr 2
    exact congrFun queues id'

variable {name : Bytes} {graceMs : Int}

/-- A dead-letter set gains or loses the job. -/
theorem moved_of_dead {g : Finset Nat → Finset Nat}
    (shape : Shape (s.modifyQueue name fun q => { q with dead := g q.dead }))
    (found : s.jobs.lookup id = some job)
    (deads : (s.modifyQueue name fun q => { q with dead := g q.dead }).inDead
      = update s.inDead id dead) :
    Moved s (s.modifyQueue name fun q => { q with dead := g q.dead }) id job
      (s.inHeap id) (s.kindOf id) dead := by
  have totals := @totalsOf_modifyQueue s name (fun q => { q with dead := g q.dead }) fun _ => rfl
  refine ⟨shape, { Kept.refl s with totals }, ?_,
    (update_eq_self _ _).symm, (update_eq_self _ _).symm, deads⟩
  have here : s.findJob id = some job := found
  rw [← here, update_eq_self]
  rfl

theorem Shape.moved_insertDead (shape : Shape s) (found : s.jobs.lookup id = some job) :
    Moved s (s.insertDead job.queue id) id job (s.inHeap id) (s.kindOf id) true := by
  obtain ⟨shape', deads⟩ := shape.insertDead found
  exact moved_of_dead shape' found deads

theorem Shape.moved_eraseDead (shape : Shape s) (found : s.jobs.lookup id = some job) :
    Moved s (s.eraseDead job.queue id) id job (s.inHeap id) (s.kindOf id) false := by
  obtain ⟨shape', deads⟩ := shape.eraseDead found
  exact moved_of_dead (g := (·.erase id)) shape' found deads

/-! ## Moves of one job in a row -/

namespace Moved

theorem then_leave (moved : Moved s s' id job heap kind dead) (left : s'.leaveIndexes id = some s'') :
    Moved s s'' id job false none dead := by
  have next := moved.shape.moved_leaveIndexes moved.found left
  rw [moved.dead_at] at next
  exact moved.trans next

theorem then_setState (moved : Moved s s' id job heap kind dead) (state : JobState) :
    Moved s (s'.setState id state) id { job with state } heap kind dead := by
  have next := moved.shape.moved_setState moved.found state
  rw [moved.heap_at, moved.kind_at, moved.dead_at] at next
  exact moved.trans next

theorem then_modify {f : Job → Job} (moved : Moved s s' id job heap kind dead)
    (queue : (f job).queue = job.queue) (same_id : (f job).id = job.id)
    (order : heap = false ∨ ((f job).priority = job.priority ∧ (f job).runAt = job.runAt))
    (state : (f job).state = job.state)
    (bytes : s'.platform.jobBytes (f job) = s'.platform.jobBytes job) :
    Moved s (s'.modifyJob id f) id (f job) heap kind dead := by
  rw [← moved.heap_at] at order
  have next := moved.shape.moved_modifyJob moved.found queue same_id order state bytes
  rw [moved.heap_at, moved.kind_at, moved.dead_at] at next
  exact moved.trans next

end Moved

/-! ## Where a job belongs -/

/-- The timer a job in some state holds, live and during replay. -/
def expectedKind (replaying : Bool) (state : JobState) : Option Nat :=
  if replaying then none
  else if state = .kScheduled then some kJobDue
  else if state = .kLeased then some kLeaseExpiry
  else none

/-- The job is in exactly the index its state implies. -/
def Placed (s s' : State) (id : Nat) (job : Job) : Prop :=
  Moved s s' id job (decide (job.state = .kReady)) (expectedKind s.replaying job.state)
    (decide (job.state = .kDead))

/-- The state `enter_pending` gives. -/
def pendingState (s : State) (job : Job) : JobState :=
  if s.replaying ∨ s.wallNow < job.runAt then .kScheduled else .kReady

theorem armTimer_same {deadline kind : Nat} (armed : s.armTimer deadline kind id = some s') :
    SameTables s s' ∧ ∀ j, j ≠ id → s'.timer j = s.timer j := by
  obtain ⟨⟨handle, wheel⟩, -, rfl⟩ := Option.map_eq_some_iff.1 armed
  have same := SameTables.of_indexes s wheel s.heapIndex (update s.timer id (some handle))
    s.readyNotifications fun _ => rfl
  exact ⟨same, fun j ne => update_of_ne ne _ _⟩

theorem pushReady_same (pushed : s.pushReady name id = some s') :
    SameTables s s' ∧ s'.timer = s.timer := by
  unfold State.pushReady at pushed
  split at pushed
  · cases pushed
  split at pushed
  · cases pushed
    exact ⟨sameTables_ready _, rfl⟩
  · cases pushed

theorem notifyReady_same (s : State) (name : Bytes) : SameTables s (s.notifyReady name) :=
  .of_indexes s s.wheel s.heapIndex s.timer _ fun _ => rfl

theorem timer_setState {state : JobState} : (s.setState id state).timer = s.timer := by
  unfold State.setState
  split <;> rfl

/-- `enter_pending` sets the state; the rest is indexes. -/
theorem enterPending_same (found : s.findJob id = some job) (entered : s.enterPending id = some s') :
    SameTables (s.setState id (s.pendingState job)) s' ∧ ∀ j, j ≠ id → s'.timer j = s.timer j := by
  unfold State.enterPending at entered
  rw [found] at entered
  dsimp only at entered
  unfold pendingState
  split at entered
  · rename_i waits
    rw [if_pos waits]
    split at entered
    · cases entered
      exact ⟨SameTables.refl _, fun j _ => congrFun timer_setState j⟩
    · obtain ⟨same, timers⟩ := armTimer_same entered
      exact ⟨same, fun j ne => (timers j ne).trans (congrFun timer_setState j)⟩
  · rename_i due
    rw [if_neg due]
    obtain ⟨t, pushed, rfl⟩ := Option.map_eq_some_iff.1 entered
    obtain ⟨same, timers⟩ := pushReady_same pushed
    exact ⟨same.trans (notifyReady_same t _), fun j _ => congrFun (timers.trans timer_setState) j⟩

theorem scheduleLeaseTimer_same (scheduled : s.scheduleLeaseTimer id graceMs = some s') :
    SameTables s s' := by
  unfold State.scheduleLeaseTimer at scheduled
  split at scheduled
  · cases scheduled
    exact SameTables.refl s
  · split at scheduled
    · cases scheduled
    · exact (armTimer_same scheduled).1

theorem Shape.notifyReady {name : Bytes} (shape : Shape s) : Shape (s.notifyReady name) :=
  shape.ofSameTables (notifyReady_same s name) shape.heaps shape.timers

theorem Moved.notifyReady (moved : Moved s s' id job heap kind dead) (name : Bytes) :
    Moved s (s'.notifyReady name) id job heap kind dead :=
  { moved with shape := moved.shape.notifyReady, kept := { moved.kept with } }

theorem Shape.placed_enterPending (shape : Shape s) (found : s.jobs.lookup id = some job)
    (out : s.inHeap id = false) (unarmed : s.kindOf id = none) (alive : s.inDead id = false)
    (entered : s.enterPending id = some s') :
    Placed s s' id { job with state := s.pendingState job } := by
  unfold State.enterPending State.findJob at entered
  rw [found] at entered
  dsimp only at entered
  unfold Placed pendingState
  split at entered
  · rename_i waits
    rw [if_pos waits]
    have first := shape.moved_setState found .kScheduled
    rw [out, unarmed, alive] at first
    split at entered
    · rename_i replaying
      have replaying' : s.replaying = true := first.kept.replaying ▸ replaying
      cases entered
      simpa [expectedKind, replaying'] using first
    · rename_i live
      have live' : s.replaying = false := by
        rw [← first.kept.replaying]
        simpa using live
      have second := first.shape.moved_armTimer first.found first.kind_at entered
      rw [first.heap_at, first.dead_at] at second
      simpa [expectedKind, live'] using first.trans second
  · rename_i due
    rw [if_neg due]
    obtain ⟨pushed, push, result⟩ := Option.map_eq_some_iff.1 entered
    subst result
    have first := shape.moved_setState found .kReady
    have second := first.shape.moved_pushReady first.found push
    rw [first.kind_at, first.dead_at, unarmed, alive] at second
    have both := (first.trans second).notifyReady job.queue
    simpa [expectedKind] using both

theorem Shape.placed_scheduleLeaseTimer (shape : Shape s)
    (found : s.jobs.lookup id = some job) (leased : job.state = .kLeased)
    (out : s.inHeap id = false) (unarmed : s.kindOf id = none) (alive : s.inDead id = false)
    (scheduled : s.scheduleLeaseTimer id graceMs = some s') : Placed s s' id job := by
  unfold State.scheduleLeaseTimer State.findJob at scheduled
  rw [found] at scheduled
  unfold Placed
  split at scheduled
  · rename_i replaying
    cases scheduled
    have still := shape.unmoved found
    rw [out, unarmed, alive] at still
    simpa [leased, expectedKind, replaying] using still
  · rename_i live
    have moved := shape.moved_armTimer found unarmed scheduled
    rw [out, alive] at moved
    simpa [leased, expectedKind, live] using moved

/-- A job moved out of every index and then made pending. -/
theorem Moved.placed_pending (moved : Moved s s' id job false none false)
    (entered : s'.enterPending id = some s'') :
    Placed s s'' id { job with state := s.pendingState job } := by
  have placed := moved.shape.placed_enterPending moved.found moved.heap_at moved.kind_at
    moved.dead_at entered
  have state : s'.pendingState job = s.pendingState job := by
    unfold pendingState
    rw [moved.kept.replaying, moved.kept.wallNow]
  have whole := moved.trans placed
  rwa [moved.kept.replaying, state] at whole

/-- A job moved out of every index, with a timer for its lease. -/
theorem Moved.placed_leased (moved : Moved s s' id job false none false)
    (leased : job.state = .kLeased) (scheduled : s'.scheduleLeaseTimer id graceMs = some s'') :
    Placed s s'' id job := by
  have placed := moved.shape.placed_scheduleLeaseTimer moved.found leased moved.heap_at moved.kind_at
    moved.dead_at scheduled
  have whole := moved.trans placed
  rwa [moved.kept.replaying] at whole

/-- What `finish` makes of a job. -/
def finishedJob (job : Job) (terminal : JobState) (at_ : Int) : Job :=
  { job with
    state := terminal
    finishedAt := at_
    leaseToken := if terminal ≠ .kSucceeded then 0 else job.leaseToken }

theorem Shape.placed_finish {terminal : JobState} {at_ : Int} (shape : Shape s)
    (found : s.jobs.lookup id = some job) (is_terminal : terminal.isTerminal = true)
    (alive : s.inDead id = false) (finished : s.finish id terminal at_ = some s') :
    ∃ t, Placed s t id (finishedJob job terminal at_) ∧
      s' = if terminal = .kDead then { t with deadGc := t.deadGc ++ [⟨id, at_⟩] }
        else { t with finishedGc := t.finishedGc ++ [⟨id, at_⟩] } := by
  unfold State.finish State.findJob at finished
  rw [found] at finished
  obtain ⟨left, leave, result⟩ := Option.map_eq_some_iff.1 finished
  have moved := ((shape.moved_leaveIndexes found leave).then_setState terminal).then_modify
    (f := fun job =>
      { job with
        finishedAt := at_
        leaseToken := if terminal ≠ .kSucceeded then 0 else job.leaseToken })
    rfl rfl (Or.inl rfl) rfl rfl
  rw [alive] at moved
  have unindexed : expectedKind s.replaying terminal = none := by
    unfold expectedKind
    cases terminal <;> simp_all [JobState.isTerminal]
  have not_ready : decide (terminal = .kReady) = false := by
    cases terminal <;> simp_all [JobState.isTerminal]
  dsimp only at result
  split at result
  · rename_i dies
    refine ⟨_, ?_, by rw [if_pos dies]; exact result.symm⟩
    have four := moved.shape.moved_insertDead moved.found
    have all := moved.trans four
    rw [moved.heap_at, moved.kind_at] at all
    show Moved _ _ _ _ (decide (terminal = .kReady)) (expectedKind _ terminal)
      (decide (terminal = .kDead))
    rw [not_ready, unindexed, decide_eq_true dies]
    exact all
  · rename_i lives
    refine ⟨_, ?_, by rw [if_neg lives]; exact result.symm⟩
    show Moved _ _ _ _ (decide (terminal = .kReady)) (expectedKind _ terminal)
      (decide (terminal = .kDead))
    rw [not_ready, unindexed, decide_eq_false lives]
    exact moved

end Moves

end State

end Baton
