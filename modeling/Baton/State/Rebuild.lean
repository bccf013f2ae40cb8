/-
# State.Rebuild — everything derived, from the jobs alone

`rebuild_derived` forgets every index and makes it again from the job table and the
clock.  The loop is followed by a twin (`State.Lockstep`) whose indexes were emptied
before it and whose counts are right throughout: in the twin, the jobs not yet seen
are away (`StateInv`), and each turn of the loop puts one job where it belongs.  The
counts and the memory estimate of the real state are added up beside it.
-/
import Baton.State.Lockstep

namespace Baton

open Theory Function
open Option (getD_some isSome_iff_exists isSome_map map_eq_some_iff map_map map_some toList_none)
open Table (lookup_mapValues)

set_option autoImplicit false

namespace State

/-- What a rebuild makes of a job: a pending one is scheduled or ready by the clock. -/
def settled (s : State) (job : Job) : Job := if job.state.isPending then s.pendingJob job else job

/-- The reference the garbage collection keeps of a job. -/
def refWhere (p : Job → Prop) [DecidablePred p] (s : State) (id : Nat) : Option FinishedRef :=
  match s.findJob id with
  | none => none
  | some job => if p job then some ⟨id, job.finishedAt⟩ else none

/-- That of a succeeded or cancelled job. -/
def finishedRef : State → Nat → Option FinishedRef :=
  refWhere fun job => job.state.isTerminal ∧ job.state ≠ .kDead

def deadRef : State → Nat → Option FinishedRef := refWhere fun job => job.state = .kDead

/-! ## Accounts -/

/-- One entry of the counts of a queue. -/
def countOf (s : State) (name : Bytes) (state : JobState) : Nat :=
  ((s.queues.lookup name).map fun q => q.counts state).getD 0

section Accounts

variable {s s' : State} {id : Nat} {job : Job} {name : Bytes} {state : JobState}

theorem countOf_congr (same : s'.countsOf = s.countsOf) : s'.countOf name state = s.countOf name state := by
  have here := congrArg (fun o => (o.map fun c => c state).getD 0) (congrFun same name)
  simpa [State.countsOf, State.countOf, map_map, comp_def] using here

theorem countOf_modifyQueue {f : Queue → Queue} {name' : Bytes} :
    (s.modifyQueue name f).countOf name' state =
      if name' = name then ((s.queues.lookup name).map fun q => (f q).counts state).getD 0
      else s.countOf name' state := by
  show (((Table.modify name f s.queues).lookup name').map fun q => q.counts state).getD 0 = _
  rw [Table.lookup_modify]
  split
  · rw [map_map]
    rfl
  · rfl

theorem countOf_incr {name' : Bytes} {state' : JobState} (known : (s.queues.lookup name).isSome) :
    (s.modifyQueue name (Queue.incrCount state)).countOf name' state' =
      s.countOf name' state' + if name = name' ∧ state = state' then 1 else 0 := by
  obtain ⟨q, queue⟩ := isSome_iff_exists.1 known
  rw [countOf_modifyQueue]
  by_cases here : name' = name
  · subst here
    simp only [State.countOf, queue, map_some, getD_some, Queue.incrCount,
      update_apply, if_true, true_and]
    by_cases same : state' = state
    · simp [same]
    · simp [same, Ne.symm same]
  · simp [here, Ne.symm here]

/-- A job that is counted moves from one count to another. -/
theorem countOf_setState {name' : Bytes} {state' : JobState} (found : s.findJob id = some job)
    (known : (s.queues.lookup job.queue).isSome) (counted : 0 < s.countOf job.queue job.state) :
    (s.setState id state).countOf name' state'
        + (if job.queue = name' ∧ job.state = state' then 1 else 0)
      = s.countOf name' state' + if job.queue = name' ∧ state = state' then 1 else 0 := by
  obtain ⟨q, queue⟩ := isSome_iff_exists.1 known
  rw [setState_eq found]
  show ((s.modifyQueue job.queue fun q => (q.decrCount job.state).incrCount state)).countOf name' state'
    + _ = _
  rw [countOf_modifyQueue]
  by_cases here : name' = job.queue
  · subst here
    simp only [State.countOf, queue, map_some, getD_some] at counted
    simp only [State.countOf, queue, map_some, getD_some, Queue.incrCount,
      Queue.decrCount, update_apply, if_true, true_and]
    by_cases new : state' = state
    · subst new
      by_cases old : state' = job.state
      · subst old
        simp only [if_true]
        omega
      · simp [old, Ne.symm old]
    · by_cases old : state' = job.state
      · subst old
        simp only [new, Ne.symm new, if_true, if_false]
        omega
      · simp [new, old, Ne.symm new, Ne.symm old]
  · simp [here, Ne.symm here]

theorem memoryBytes_setState : (s.setState id state).memoryBytes = s.memoryBytes := by
  unfold State.setState
  split <;> rfl

end Accounts

/-! ## The loop -/

/-- Seen so far: the jobs visited, and the ids that name no job. -/
def Seen (base : State) (done : List Nat) (j : Nat) : Prop := j ∈ done ∨ base.findJob j = none

/-- After the jobs in `done`: `v` is the twin. -/
structure Rebuilding (base : State) (done : List Nat) (s v : State) : Prop where
  twin : Lockstep false (Seen base done) (Seen base done) s v
  inv : StateInv v fun j => ¬ Seen base done j
  kept : Kept base { s with finishedGc := base.finishedGc, deadGc := base.deadGc }
  jobs : ∀ j, s.findJob j = if j ∈ done then (base.findJob j).map base.settled else base.findJob j
  counts : ∀ name state, s.countOf name state =
    (done.map fun j => (s.findJob j).elim 0 (countIn name state j)).sum
  memory : s.memoryBytes = (done.map fun j => (s.findJob j).elim 0 s.platform.jobBytes).sum
  finished : s.finishedGc = done.filterMap base.finishedRef
  dead : s.deadGc = done.filterMap base.deadRef

section Loop

variable {base s s' v : State} {done : List Nat} {id : Nat} {job : Job} {graceMs : Int}

/-- One job is counted and charged, and has no position and no timer. -/
def visit (s : State) (id : Nat) (job : Job) : State :=
  { s with
    heapIndex := update s.heapIndex id none
    timer := update s.timer id none
    memoryBytes := s.memoryBytes + s.platform.jobBytes job }.modifyQueue job.queue
      (Queue.incrCount job.state)

theorem Rebuilding.visit (at_done : Rebuilding base done s v) (found : base.findJob id = some job)
    (unseen : id ∉ done) :
    Lockstep false (Seen base (done ++ [id])) (Seen base (done ++ [id])) (s.visit id job) v ∧ Floating v id ∧
      v.findJob id = some job := by
  have twin := at_done.twin
  have in_v : v.findJob id = some job := by
    rw [twin.findJob, at_done.jobs, if_neg unseen, found]
  have floating : Floating v id := by
    apply at_done.inv.floating id job in_v
    rintro (mem | none_here)
    · exact unseen mem
    · rw [found] at none_here
      cases none_here
  have here : ∀ j, Seen base (done ++ [id]) j → ¬ Seen base done j → j = id := by
    intro j seen old
    rcases seen with mem | none_here
    · rcases List.mem_append.1 mem with before | last
      · exact absurd (Or.inl before) old
      · exact List.mem_singleton.1 last
    · exact absurd (Or.inr none_here) old
  have ne : ∀ j, Seen base done j → j ≠ id := by
    rintro j seen rfl
    rcases seen with mem | none_here
    · exact unseen mem
    · rw [found] at none_here
      cases none_here
  refine ⟨?_, floating, in_v⟩
  have moved : Lockstep false (Seen base done) (Seen base done) (s.visit id job) v :=
    { twin with
      queues := by
        intro name
        rw [twin.queues name]
        symm
        apply Table.map_lookup_modify
        intro q
        rfl
      heapIndex := by
        intro j seen
        show v.heapIndex j = update s.heapIndex id none j
        rw [update_of_ne (ne j seen), twin.heapIndex j seen]
      timer := by
        intro j seen
        show v.timer j = update s.timer id none j
        rw [update_of_ne (ne j seen), twin.timer j seen]
      memory := by simp }
  apply moved.see
  · intro j seen old
    rw [here j seen old]
    show v.heapIndex id = update s.heapIndex id none id
    rw [update_self, heapIndex_none floating.heap]
  · intro j seen old
    rw [here j seen old]
    show v.timer id = update s.timer id none id
    rw [update_self, at_done.inv.shape.timer_none floating.timer]

/-- The job is seen once it is placed. -/
theorem away_placed (found : base.findJob id = some job) :
    ∀ j, (¬ Seen base done j ∧ j ≠ id) ↔ ¬ Seen base (done ++ [id]) j := by
  intro j
  unfold Seen
  rw [List.mem_append, List.mem_singleton]
  constructor
  · rintro ⟨unseen, ne⟩ seen
    rcases seen with (mem | same) | none_here
    · exact unseen (Or.inl mem)
    · exact ne same
    · exact unseen (Or.inr none_here)
  · intro unseen
    refine ⟨fun seen => unseen (seen.imp_left Or.inl), ?_⟩
    rintro rfl
    exact unseen (Or.inl (Or.inr rfl))

/-- What a turn of the loop leaves to check: where the twin's job went, and what the
real state counted. -/
theorem Rebuilding.advance {v' : State} (at_done : Rebuilding base done s v)
    (found : base.findJob id = some job) (unseen : id ∉ done)
    (twin : Lockstep false (Seen base (done ++ [id])) (Seen base (done ++ [id])) s' v')
    (placed : ∃ t, Placed v t id (base.settled job) ∧
      v' = { t with finishedGc := v'.finishedGc, deadGc := v'.deadGc })
    (counts : ∀ name state, s'.countOf name state =
      s.countOf name state + countIn name state id (base.settled job))
    (memory : s'.memoryBytes = s.memoryBytes + s.platform.jobBytes (base.settled job))
    (finished : s'.finishedGc = s.finishedGc ++ (base.finishedRef id).toList)
    (dead : s'.deadGc = s.deadGc ++ (base.deadRef id).toList) :
    Rebuilding base (done ++ [id]) s' v' := by
  obtain ⟨t, placed, same⟩ := placed
  have in_v : v.findJob id = some job := by
    rw [at_done.twin.findJob, at_done.jobs, if_neg unseen, found]
  have old := at_done.inv.fits id job in_v
  have fits : JobFits v.nextJobId v.nextToken id (base.settled job) := by
    unfold State.settled
    split
    · rename_i pending
      exact fits_pending base old.known old.attempts
        (untoken_of_fits old (holdsToken_of_isPending pending)) at_done.inv.tokens
    · exact old
  have inv' : StateInv v' fun j => ¬ Seen base (done ++ [id]) j := by
    rw [same]
    exact ((at_done.inv.placed placed fits).weaken (away_placed found)).unindexed
      (Nat.le_refl _) (Nat.le_refl _)
  have jobs_v : v'.findJob = update v.findJob id (some (base.settled job)) := by
    rw [same]
    exact placed.jobs
  have jobs : s'.findJob = update s.findJob id (some (base.settled job)) := by
    rw [← twin.findJob, jobs_v, at_done.twin.findJob]
  have kept_v : Kept v { v' with finishedGc := v.finishedGc, deadGc := v.deadGc } := by
    rw [same]
    exact placed.kept.withGc v
  have kept_s : Kept s { s' with finishedGc := s.finishedGc, deadGc := s.deadGc } :=
    (at_done.twin.kept.withGc s).trans ((kept_v.withGc s).trans (twin.symm.kept.withGc s))
  have others : ∀ (g : Nat → Job → Nat), (done.map fun j => (s'.findJob j).elim 0 (g j))
      = done.map fun j => (s.findJob j).elim 0 (g j) := by
    intro g
    apply List.map_congr_left
    intro j mem
    have ne : j ≠ id := by
      rintro rfl
      exact unseen mem
    rw [jobs, update_of_ne ne]
  refine ⟨twin, inv', at_done.kept.trans (kept_s.withGc base), ?_, ?_, ?_, ?_, ?_⟩
  · intro j
    rw [jobs, update_apply, at_done.jobs]
    by_cases same_id : j = id
    · simp [same_id, found]
    · simp [same_id]
  · intro name state
    have here : s'.findJob id = some (base.settled job) := by rw [jobs, update_self]
    rw [counts, at_done.counts, List.map_append, List.sum_append, others, List.map_singleton,
      List.sum_singleton, here]
    rfl
  · have here : s'.findJob id = some (base.settled job) := by rw [jobs, update_self]
    have platform : s'.platform = s.platform := kept_s.platform
    rw [memory, at_done.memory, List.map_append, List.sum_append, platform, others,
      List.map_singleton, List.sum_singleton, here]
    rfl
  · rw [finished, at_done.finished, List.filterMap_append]
    cases ref : base.finishedRef id <;> simp [ref]
  · rw [dead, at_done.dead, List.filterMap_append]
    cases ref : base.deadRef id <;> simp [ref]

theorem Rebuilding.queueKnown (at_done : Rebuilding base done s v) (found : s.findJob id = some job) :
    (s.queues.lookup job.queue).isSome := by
  have in_v : v.jobs.lookup id = some job := by
    rw [at_done.twin.jobs]
    exact found
  have known := at_done.inv.shape.jobQueues id job in_v
  have same := congrArg Option.isSome (at_done.twin.queues job.queue)
  simpa [known] using same.symm

/-- A job that is not finished leaves no reference. -/
theorem Rebuilding.advance_active {v' : State} (at_done : Rebuilding base done s v)
    (found : base.findJob id = some job) (unseen : id ∉ done) (active : job.state.isTerminal = false)
    (twin : Lockstep false (Seen base (done ++ [id])) (Seen base (done ++ [id])) s' v')
    (placed : Placed v v' id (base.settled job))
    (counts : ∀ name state, s'.countOf name state =
      s.countOf name state + countIn name state id (base.settled job))
    (memory : s'.memoryBytes = s.memoryBytes + s.platform.jobBytes (base.settled job)) :
    Rebuilding base (done ++ [id]) s' v' := by
  have no_finished : base.finishedRef id = none := by simp [State.finishedRef, refWhere, found, active]
  have no_dead : base.deadRef id = none := by
    unfold State.deadRef refWhere
    cases state : job.state <;> simp_all [JobState.isTerminal]
  have kept := placed.kept
  refine at_done.advance found unseen twin ⟨v', placed, rfl⟩ counts memory ?_ ?_
  · rw [no_finished, toList_none, List.append_nil, ← twin.finishedGc, kept.finishedGc,
      at_done.twin.finishedGc]
  · rw [no_dead, toList_none, List.append_nil, ← twin.deadGc, kept.deadGc,
      at_done.twin.deadGc]

/-- The branches of the body of the loop. -/
inductive Rebuilt (graceMs : Int) (s : State) (id : Nat) (job : Job) : State → Prop
  | pending {s' : State} (pending : job.state.isPending = true)
      (entered : (s.visit id job).enterPending id = some s') : Rebuilt graceMs s id job s'
  | leased {s' : State} (leased : job.state = .kLeased)
      (scheduled : (s.visit id job).scheduleLeaseTimer id graceMs = some s') : Rebuilt graceMs s id job s'
  | dead (dead : job.state = .kDead) : Rebuilt graceMs s id job
      { (s.visit id job).insertDead job.queue id with
        deadGc := ((s.visit id job).insertDead job.queue id).deadGc ++ [⟨id, job.finishedAt⟩] }
  | finished (terminal : job.state.isTerminal = true) (alive : job.state ≠ .kDead) : Rebuilt graceMs s id job
      { s.visit id job with finishedGc := (s.visit id job).finishedGc ++ [⟨id, job.finishedAt⟩] }

theorem rebuildJob_cases (rebuilt : s.rebuildJob graceMs id = some s') :
    ∃ job, s.findJob id = some job ∧ Rebuilt graceMs s id job s' := by
  unfold State.rebuildJob at rebuilt
  split at rebuilt
  · cases rebuilt
  rename_i job found
  refine ⟨job, found, ?_⟩
  split at rebuilt
  · exact .pending (by assumption) rebuilt
  split at rebuilt
  · exact .leased (by assumption) rebuilt
  split at rebuilt
  · cases rebuilt
    exact .dead (by assumption)
  · cases rebuilt
    refine .finished ?_ (by assumption)
    cases at_state : job.state <;> simp_all [JobState.isPending, JobState.isTerminal]

theorem Rebuilding.counted (at_done : Rebuilding base done s v) (found : s.findJob id = some job) (name : Bytes)
    (state : JobState) :
    (s.visit id job).countOf name state = s.countOf name state + countIn name state id job :=
  countOf_incr (at_done.queueKnown found)

section

variable (at_done : Rebuilding base done s v) (found : base.findJob id = some job)
  (unseen : id ∉ done) (in_s : s.findJob id = some job)

include at_done found unseen in_s

/-- A pending job is scheduled or ready by the clock. -/
theorem Rebuilding.ofPending (pending : job.state.isPending = true)
    (entered : (s.visit id job).enterPending id = some s') : ∃ v', Rebuilding base (done ++ [id]) s' v' := by
  obtain ⟨twin, floating, in_v⟩ := at_done.visit found unseen
  have wallNow : v.wallNow = base.wallNow := at_done.twin.wallNow.trans at_done.kept.wallNow
  have replaying : v.replaying = base.replaying := at_done.twin.replaying.trans at_done.kept.replaying
  have is_settled : base.settled job = base.pendingJob job := if_pos pending
  obtain ⟨v', entered', twin'⟩ := twin.enterPending (Or.inl (by simp)) entered
  have placed := at_done.inv.shape.placed_enterPending in_v floating.heap floating.timer floating.dead entered'
  have state : v.pendingState job = base.pendingState job := by
    unfold State.pendingState
    rw [wallNow, replaying]
  have state' : (s.visit id job).pendingState job = base.pendingState job := by
    unfold State.pendingState
    rw [← twin.wallNow, ← twin.replaying, wallNow, replaying]
  have known : ((s.visit id job).queues.lookup job.queue).isSome := by
    show ((State.modifyQueue _ _ _).queues.lookup job.queue).isSome
    rw [isSome_lookup_modifyQueue]
    exact at_done.queueKnown in_s
  obtain ⟨same_tables, -⟩ := enterPending_same (show (s.visit id job).findJob id = some job from in_s) entered
  have active : job.state.isTerminal = false := by
    cases at_state : job.state <;> simp_all [JobState.isPending, JobState.isTerminal]
  refine ⟨v', at_done.advance_active found unseen active twin' ?_ ?_ ?_⟩
  · rw [is_settled]
    unfold State.pendingJob
    rw [← state]
    exact placed
  · intro name st
    rw [is_settled, countOf_congr same_tables.countsOf, state']
    have moved := @countOf_setState (s.visit id job) id job (base.pendingState job) name st in_s
      known (by rw [at_done.counted in_s]; simp [countIn])
    rw [at_done.counted in_s] at moved
    have same : countIn name st id (base.pendingJob job)
        = if job.queue = name ∧ base.pendingState job = st then 1 else 0 := rfl
    have old : countIn name st id job = if job.queue = name ∧ job.state = st then 1 else 0 := rfl
    omega
  · rw [same_tables.memoryBytes, memoryBytes_setState, is_settled]
    rfl

theorem Rebuilding.ofLeased (leased : job.state = .kLeased)
    (scheduled : (s.visit id job).scheduleLeaseTimer id graceMs = some s') :
    ∃ v', Rebuilding base (done ++ [id]) s' v' := by
  obtain ⟨twin, floating, in_v⟩ := at_done.visit found unseen
  have is_settled : base.settled job = job := if_neg (by simp [leased, JobState.isPending])
  obtain ⟨v', scheduled', twin'⟩ := twin.scheduleLeaseTimer scheduled
  have placed := at_done.inv.shape.placed_scheduleLeaseTimer in_v leased floating.heap floating.timer
    floating.dead scheduled'
  have same := scheduleLeaseTimer_same scheduled
  refine ⟨v', at_done.advance_active found unseen (by simp [leased, JobState.isTerminal]) twin' ?_ ?_ ?_⟩
  · rw [is_settled]
    exact placed
  · intro name st
    rw [is_settled, countOf_congr same.countsOf, at_done.counted in_s]
  · rw [same.memoryBytes, is_settled]
    rfl

end

/-- A finished job is in no heap and has no timer. -/
theorem placed_terminal {t : State} (terminal : job.state.isTerminal = true)
    (moved : Moved v t id job false none (decide (job.state = .kDead))) : Placed v t id job := by
  have unarmed : expectedKind v.replaying job.state = none := by
    unfold expectedKind
    cases at_state : job.state <;> simp_all [JobState.isTerminal]
  have not_ready : decide (job.state = .kReady) = false := by
    cases at_state : job.state <;> simp_all [JobState.isTerminal]
  unfold Placed
  rw [not_ready, unarmed]
  exact moved

theorem settled_terminal (terminal : job.state.isTerminal = true) : base.settled job = job := by
  refine if_neg ?_
  cases at_state : job.state <;> simp_all [JobState.isPending, JobState.isTerminal]

section

variable (at_done : Rebuilding base done s v) (found : base.findJob id = some job)
  (unseen : id ∉ done)

include at_done found unseen

theorem Rebuilding.ofDead (in_s : s.findJob id = some job) (dead : job.state = .kDead) :
    ∃ v', Rebuilding base (done ++ [id]) { (s.visit id job).insertDead job.queue id with
      deadGc := ((s.visit id job).insertDead job.queue id).deadGc ++ [⟨id, job.finishedAt⟩] } v' := by
  obtain ⟨twin, floating, in_v⟩ := at_done.visit found unseen
  have terminal : job.state.isTerminal = true := by rw [dead]; rfl
  have moved := at_done.inv.shape.moved_insertDead in_v
  rw [floating.heap, floating.timer, ← decide_eq_true dead] at moved
  have twin' := @Lockstep.insertDead _ _ _ _ _ id job.queue twin
  have refs : base.finishedRef id = none ∧ base.deadRef id = some ⟨id, job.finishedAt⟩ := by
    simp [State.finishedRef, State.deadRef, refWhere, found, dead]
  refine ⟨{ v.insertDead job.queue id with
      deadGc := (v.insertDead job.queue id).deadGc ++ [⟨id, job.finishedAt⟩] },
    at_done.advance found unseen
      { twin' with deadGc := congrArg (· ++ [(⟨id, job.finishedAt⟩ : FinishedRef)]) twin'.deadGc }
      ⟨_, ?_, rfl⟩ ?_ ?_ ?_ ?_⟩
  · rw [settled_terminal terminal]
    exact placed_terminal terminal moved
  · intro name st
    have same : ((s.visit id job).insertDead job.queue id).countsOf = (s.visit id job).countsOf :=
      countsOf_modifyQueue fun _ => rfl
    rw [settled_terminal terminal, ← at_done.counted in_s, ← countOf_congr same]
    rfl
  · rw [settled_terminal terminal]
    rfl
  · rw [refs.1, toList_none, List.append_nil]
    rfl
  · rw [refs.2]
    rfl

theorem Rebuilding.ofFinished (in_s : s.findJob id = some job) (terminal : job.state.isTerminal = true)
    (alive : job.state ≠ .kDead) :
    ∃ v', Rebuilding base (done ++ [id])
      { s.visit id job with finishedGc := (s.visit id job).finishedGc ++ [⟨id, job.finishedAt⟩] } v' := by
  obtain ⟨twin, floating, in_v⟩ := at_done.visit found unseen
  have moved := at_done.inv.shape.unmoved in_v
  rw [floating.heap, floating.timer, floating.dead.trans (decide_eq_false alive).symm] at moved
  have refs : base.finishedRef id = some ⟨id, job.finishedAt⟩ ∧ base.deadRef id = none := by
    simp [State.finishedRef, State.deadRef, refWhere, found, alive, terminal]
  refine ⟨{ v with finishedGc := v.finishedGc ++ [⟨id, job.finishedAt⟩] },
    at_done.advance found unseen
      { twin with finishedGc := congrArg (· ++ [(⟨id, job.finishedAt⟩ : FinishedRef)]) twin.finishedGc }
      ⟨v, ?_, rfl⟩ ?_ ?_ ?_ ?_⟩
  · rw [settled_terminal terminal]
    exact placed_terminal terminal moved
  · intro name st
    rw [settled_terminal terminal, ← at_done.counted in_s]
    rfl
  · rw [settled_terminal terminal]
    rfl
  · rw [refs.1]
    rfl
  · rw [refs.2, toList_none, List.append_nil]
    rfl

/-- The body of the loop. -/
theorem rebuildJob_spec (rebuilt : s.rebuildJob graceMs id = some s') :
    ∃ v', Rebuilding base (done ++ [id]) s' v' := by
  have in_s : s.findJob id = some job := by rw [at_done.jobs, if_neg unseen, found]
  obtain ⟨job', found', branch⟩ := rebuildJob_cases rebuilt
  cases in_s.symm.trans found'
  cases branch with
  | pending pending entered => exact at_done.ofPending found unseen in_s pending entered
  | leased leased scheduled => exact at_done.ofLeased found unseen in_s leased scheduled
  | dead dead => exact at_done.ofDead found unseen in_s dead
  | finished terminal alive => exact at_done.ofFinished found unseen in_s terminal alive

end

theorem rebuildJobs_spec {ids : List Nat} (at_done : Rebuilding base done s v)
    (nodup : (done ++ ids).Nodup) (known : ∀ id ∈ ids, (base.findJob id).isSome)
    (rebuilt : rebuildJobs graceMs ids s = some s') :
    ∃ v', Rebuilding base (done ++ ids) s' v' := by
  induction ids generalizing s v done with
  | nil =>
    cases rebuilt
    rw [List.append_nil]
    exact ⟨v, at_done⟩
  | cons id ids ih =>
    obtain ⟨t, first, rest⟩ := Option.bind_eq_some_iff.1 rebuilt
    obtain ⟨job, found⟩ := isSome_iff_exists.1 (known id (by simp))
    have unseen : id ∉ done := by
      intro mem
      rw [List.nodup_append] at nodup
      exact nodup.2.2 id mem id (by simp) rfl
    obtain ⟨w, at_next⟩ := rebuildJob_spec at_done found unseen first
    rw [List.append_cons] at nodup
    obtain ⟨v', final⟩ := ih at_next nodup (fun j mem => known j (by simp [mem])) rest
    rw [← List.append_cons] at final
    exact ⟨v', final⟩

end Loop

/-! ## The rebuild -/

section Whole

variable {s s' v : State} {graceMs : Int} {iteration : IterationOrder}

/-- The twin's state before the loop. -/
def emptied (s : State) : State :=
  { s with
    wheel := { now := s.monoNow }
    finishedGc := []
    deadGc := []
    readyNotifications := []
    heapIndex := fun _ => none
    timer := fun _ => none
    queues := Table.mapValues (fun q => { q with ready := [], dead := ∅ }) s.queues }

theorem emptied_queue {γ : Type} {g : Queue → γ} (keeps : ∀ q, g { q with ready := [], dead := ∅ } = g q)
    (name : Bytes) : (s.emptied.queues.lookup name).map g = (s.queues.lookup name).map g := by
  show ((Table.mapValues _ s.queues).lookup name).map g = _
  rw [lookup_mapValues, map_map]
  congr 1
  funext q
  exact keeps q

theorem Shape.emptied (shape : Shape s) : Shape s.emptied := by
  have ready : ∀ name l, s.emptied.readyOf name = some l → l = [] := by
    intro name l at_name
    have at_name' : ((Table.mapValues (fun q => { q with ready := [], dead := ∅ }) s.queues).lookup
      name).map Queue.ready = some l := at_name
    rw [lookup_mapValues, map_map] at at_name'
    obtain ⟨q, -, same⟩ := map_eq_some_iff.1 at_name'
    exact same.symm
  refine ⟨shape.jobIds, ?_, ?_, ⟨?_, ?_, ?_, ?_⟩, ⟨TimingWheel.wheelInv_empty _, ?_, ?_, ?_⟩, ?_, ?_,
    shape.memory, shape.idem⟩
  · intro id job found
    have known := shape.jobQueues id job found
    have same := congrArg Option.isSome (emptied_queue (s := s) (g := Queue.name) (fun _ => rfl) job.queue)
    rw [isSome_map, isSome_map] at same
    rw [same]
    exact known
  · intro name q found
    have same := emptied_queue (s := s) (g := Queue.name) (fun _ => rfl) name
    rw [found, map_some] at same
    obtain ⟨q', found', name_eq⟩ := map_eq_some_iff.1 same.symm
    rw [← name_eq]
    exact shape.queueNames name q' found'
  · intro name l at_name
    rw [ready name l at_name]
    exact ⟨List.nodup_nil, by simp, by intro i x y; simp⟩
  · intro name l at_name
    rw [ready name l at_name]
    exact Nat.zero_le _
  · intro name l id at_name mem
    rw [ready name l at_name] at mem
    cases mem
  · intro id i stored
    cases stored
  · intro id h armed
    cases armed
  · intro id h armed
    cases armed
  · intro i t held
    have empty : TimingWheel.timer? { now := s.monoNow } i = none := by
      simp [TimingWheel.timer?]
    have held' : TimingWheel.timer? { now := s.monoNow } i = some t := held
    rw [empty] at held'
    cases held'
  · intro name dead id at_name mem
    have at_name' : ((Table.mapValues (fun q => { q with ready := [], dead := ∅ }) s.queues).lookup
      name).map Queue.dead = some dead := at_name
    rw [lookup_mapValues, map_map] at at_name'
    obtain ⟨q, -, same⟩ := map_eq_some_iff.1 at_name'
    subst same
    simp at mem
  · intro name c at_name state
    have same : s.emptied.countsOf = s.countsOf := by
      funext name'
      exact emptied_queue (fun _ => rfl) name'
    rw [same] at at_name
    exact shape.counts name c at_name state

theorem floating_emptied (s : State) (id : Nat) : Floating s.emptied id where
  heap := rfl
  timer := rfl
  dead := by
    unfold State.inDead
    cases queue : s.emptied.queueOf id with
    | none => rfl
    | some name =>
      have at_name : s.emptied.deadOf name = (s.queues.lookup name).map fun _ => ∅ := by
        show ((Table.mapValues _ s.queues).lookup name).map Queue.dead = _
        rw [lookup_mapValues, map_map]
        rfl
      rw [Option.bind_some, at_name]
      cases s.queues.lookup name <;> simp

/-- Before the first job. -/
theorem rebuilding_start (shape : Shape s) (tokens : 0 < s.nextToken)
    (fits : ∀ id job, s.findJob id = some job → JobFits s.nextJobId s.nextToken id job) :
    Rebuilding s.resetDerived [] s.resetDerived s.emptied := by
  have counts : ∀ name state, s.resetDerived.countOf name state = 0 := by
    intro name state
    show (((Table.mapValues _ s.queues).lookup name).map _).getD 0 = 0
    rw [lookup_mapValues, map_map]
    cases s.queues.lookup name <;> rfl
  have books := (Kept.refl s.resetDerived).toSameBooks
  refine ⟨⟨⟨{ books with }, rfl⟩, ?_, rfl, ?_, ?_, rfl, by simp⟩,
    ⟨shape.emptied, tokens, fits, ?_, ?_⟩, Kept.refl _, by simp, by simpa using counts, rfl, rfl, rfl⟩
  · intro name
    show ((Table.mapValues _ s.queues).lookup name).map _ = ((Table.mapValues _ s.queues).lookup name).map _
    rw [lookup_mapValues, lookup_mapValues, map_map, map_map]
    rfl
  · intro j seen
    have unknown : s.jobs.lookup j = none := seen.resolve_left (by simp)
    exact (shape.unknown unknown).1.symm
  · intro j seen
    have unknown : s.jobs.lookup j = none := seen.resolve_left (by simp)
    exact (shape.unknown unknown).2.1.symm
  · intro id job found here
    exfalso
    apply here
    rintro (mem | none_here)
    · cases mem
    · have found' : s.resetDerived.findJob id = some job := found
      rw [none_here] at found'
      cases found'
  · intro id job _ _
    exact floating_emptied s id

theorem resetDerived_totals (s : State) : s.resetDerived.totalsOf = s.totalsOf := by
  funext name
  show ((Table.mapValues _ s.queues).lookup name).map Queue.totals = _
  rw [lookup_mapValues, map_map]
  rfl

/-- The twin's indexes with the real state's accounts. -/
theorem Lockstep.shape (twin : Lockstep false (fun _ => True) (fun _ => True) s v) (shape : Shape v)
    (counts : ∀ name c, s.countsOf name = some c →
      ∀ state, c state = Table.total (countIn name state) s.jobs)
    (memory : s.memoryBytes = Table.total (fun _ => s.platform.jobBytes) s.jobs + s.idemMemory) :
    Shape s := by
  have heapIndex : v.heapIndex = s.heapIndex := funext fun j => twin.heapIndex j trivial
  have timer : v.timer = s.timer := funext fun j => twin.timer j trivial
  have names := fun name => map_view (twin.queues name) (·.1)
  refine ⟨?_, ?_, ?_, ?_, ?_, ?_, counts, memory, ?_⟩
  · rw [← twin.jobs]
    exact shape.jobIds
  · intro id job found
    rw [← twin.jobs] at found
    have known := shape.jobQueues id job found
    have same := congrArg Option.isSome (names job.queue)
    rw [isSome_map, isSome_map] at same
    rw [← same]
    exact known
  · intro name q found
    have same := names name
    rw [found, map_some] at same
    obtain ⟨q', found', name_eq⟩ := map_eq_some_iff.1 same
    exact name_eq.symm.trans (shape.queueNames name q' found')
  · rw [← twin.before, ← twin.queueOf, ← twin.readyOf, ← heapIndex]
    exact shape.heaps
  · rw [← twin.queueOf, ← twin.wheel, ← timer]
    exact shape.timers
  · rw [← twin.deadOf, ← twin.queueOf]
    exact shape.deads
  · rw [← twin.idemOrder, ← twin.idemIndex, ← twin.nextNode]
    exact shape.idem

theorem Lockstep.inv {accounts : Bool} {away : Nat → Prop}
    (twin : Lockstep accounts (fun _ => True) (fun _ => True) s v) (inv : StateInv v away) (shape : Shape s) : StateInv s away := by
  have heapIndex : v.heapIndex = s.heapIndex := funext fun j => twin.heapIndex j trivial
  have timer : v.timer = s.timer := funext fun j => twin.timer j trivial
  refine inv.congr shape twin.findJob.symm ?_ ?_ (twin.inDead twin.deadOf).symm twin.replaying.symm
    (Nat.le_of_eq twin.nextJobId) (Nat.le_of_eq twin.nextToken)
  · unfold State.inHeap
    rw [heapIndex]
  · unfold State.kindOf
    rw [timer, twin.wheel]

/-- Every index is made again: the jobs are the same, settled by the clock, and the
garbage-collection queues list the finished ones by the time they finished. -/
theorem rebuildDerived_spec (shape : Shape s) (tokens : 0 < s.nextToken)
    (fits : ∀ id job, s.findJob id = some job → JobFits s.nextJobId s.nextToken id job)
    (rebuilt : s.rebuildDerived iteration graceMs = some s') :
    StateInv s' nobody ∧ Kept s { s' with finishedGc := s.finishedGc, deadGc := s.deadGc } ∧
      (∀ j, s'.findJob j = (s.findJob j).map s.settled) ∧
      s'.finishedGc = sortRefs ((iteration.order s.jobs.keys).filterMap s.finishedRef) ∧
      s'.deadGc = sortRefs ((iteration.order s.jobs.keys).filterMap s.deadRef) := by
  unfold State.rebuildDerived at rebuilt
  split at rebuilt
  · cases rebuilt
  obtain ⟨t, loop, result⟩ := map_eq_some_iff.1 rebuilt
  set ids := iteration.order s.jobs.keys
  have perm : ids.Perm s.jobs.keys := iteration.perm _
  have mem_ids : ∀ j, j ∈ ids ↔ (s.findJob j).isSome := by
    intro j
    rw [perm.mem_iff, mem_keys]
  have nodup : ids.Nodup := perm.nodup_iff.2 s.jobs.keys_nodup
  obtain ⟨v, done⟩ := rebuildJobs_spec (rebuilding_start shape tokens fits)
    (by rwa [List.nil_append]) (fun id mem => (mem_ids id).1 mem) loop
  rw [List.nil_append] at done
  have everyone : ∀ j, Seen s.resetDerived ids j := by
    intro j
    cases found : s.findJob j with
    | none => exact Or.inr found
    | some job => exact Or.inl ((mem_ids j).2 (by simp [found]))
  have jobs : ∀ j, t.findJob j = (s.findJob j).map s.settled := by
    intro j
    rw [done.jobs]
    show (if j ∈ ids then (s.findJob j).map s.settled else s.findJob j) = _
    by_cases mem : j ∈ ids
    · rw [if_pos mem]
    · rw [if_neg mem]
      have none_here : s.findJob j = none := by
        rw [← Option.not_isSome_iff_eq_none, ← mem_ids]
        exact mem
      rw [none_here]
      rfl
  -- the sums over the jobs visited are the sums over the table
  have sums : ∀ f : Nat → Job → Nat,
      (ids.map fun j => (t.findJob j).elim 0 (f j)).sum = Table.total f t.jobs := by
    intro f
    apply Table.sum_keys nodup
    intro j
    rw [mem_ids, ← AList.lookup_isSome]
    show _ ↔ (t.findJob j).isSome = true
    rw [jobs, isSome_map]
  have twin : Lockstep false (fun _ => True) (fun _ => True)
      { t with memoryBytes := t.memoryBytes + t.idemMemory } v :=
    { done.twin with
      heapIndex := fun j _ => done.twin.heapIndex j (everyone j)
      timer := fun j _ => done.twin.timer j (everyone j)
      memory := by simp }
  have shape' : Shape { t with memoryBytes := t.memoryBytes + t.idemMemory } := by
    refine twin.shape done.inv.shape ?_ ?_
    · intro name c at_name state
      have counted := done.counts name state
      rw [sums] at counted
      have at_name' : t.countsOf name = some c := at_name
      have here : t.countOf name state = c state := by
        have mapped := congrArg (fun o => (o.map fun c => c state).getD 0) at_name'
        simpa [State.countsOf, State.countOf, map_map, comp_def] using mapped
      rw [← here]
      exact counted
    · show t.memoryBytes + t.idemMemory = _
      rw [done.memory, sums fun _ => t.platform.jobBytes]
      rfl
  have inv := (twin.inv done.inv shape').weaken
    (fun j => (iff_of_false (fun unseen => unseen (everyone j)) id : _ ↔ nobody j))
  have kept := done.kept
  subst result
  refine ⟨inv.unindexed (Nat.le_refl _) (Nat.le_refl _), ?_, jobs, ?_, ?_⟩
  · exact
      { kept with
        totals := kept.totals.trans (resetDerived_totals s)
        finishedGc := rfl
        deadGc := rfl }
  · show sortRefs t.finishedGc = _
    rw [done.finished]
    rfl
  · show sortRefs t.deadGc = _
    rw [done.dead]
    rfl

end Whole

end State

end Baton
