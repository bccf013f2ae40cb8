/-
# Run.Totality — no operation aborts, and none is half executed

In every state that a run can reach, whatever the clocks read and however often the
server was restarted, every index is in step (`checkInvariants_reachable`), and every
operation either leaves the engine as it is or logs records that are accepted one
after the other (`operation_total`).  The checks on sizes are real, though: a queue
with 2^32 - 1 ready jobs takes no more (`full_queue_aborts`).
-/
import Baton.Run.Reachable
import Baton.State.Checked
import Baton.State.EngineTotal

namespace Baton

open Theory

set_option autoImplicit false

namespace Engine

theorem Logged.replay {e e' : Engine} {rs : List Record} (logged : Logged e rs e') :
    State.replay rs e.state = .ok (some e'.state) := by
  induction logged with
  | done e => rfl
  | @log e e' r rs away state drawn inv issued applied small rest ih =>
    rw [State.replay, applied]
    exact ih

/-- A request that logs nothing changes nothing. -/
theorem unchanged_of_idle {e e' : Engine} {op : EngineOp} (inv : e.state.StateInv State.nobody)
    (no_tick : op.isTick = false) (idle : e.written op = []) (stepped : e.step op = some e') : e' = e := by
  have logged := request_logged inv no_tick stepped
  rw [← written_request e no_tick, idle] at logged
  cases logged
  rfl

end Engine

namespace World

variable {regime : Regime} {w : World}

/-- The live ledger has an attempt left for every pending job. -/
theorem Good.budgeted (good : Good regime w) : w.engine.state.ledger.Budgeted := by
  obtain ⟨full, history, sub⟩ := good.full
  intro id job found
  exact history.budgeted id job (sub.found found)

theorem Good.attempt_left (good : Good regime w) {id : Nat} {job : Job}
    (found : w.engine.state.findJob id = some job) (pending : job.state.isPending = true) :
    job.attempts < job.maxAttempts := by
  refine (good.budgeted id job.ledger (State.ledger_jobs found)).2.2 ?_
  show toPersisted job.state = .kPending
  cases state : job.state <;> first | rfl | (rw [state] at pending; cases pending)

/-- After every operation of every run, the whole-state check passes. -/
theorem checkInvariants_reachable (reachable : w.Reachable regime) :
    w.engine.state.checkInvariants = .ok () := by
  have good := good_reachable reachable
  obtain ⟨full, history, sub⟩ := good.full
  exact State.checkInvariants_ok good.inv
    (State.begun_ledger.1 fun id job found => history.begun id job (sub.found found))

/-- A job is enqueued and leased. -/
theorem checkInvariants_leased :
    ∃ w, Reachable {} w ∧ w.records.length = 2 ∧ w.engine.state.checkInvariants = .ok () := by
  obtain ⟨w, reachable, count⟩ : ∃ w, Reachable {} w ∧ w.records.length = 2 :=
    ⟨_, ⟨{}, samplePlatform, {}, fun _ => 0, 1000, 0,
      .tail (.single (.op (.enqueue { queue := [113], payload := [7] }) nofun rfl))
        (.op (.reserve [[113]] 500) nofun rfl)⟩, rfl⟩
  exact ⟨w, reachable, count, checkInvariants_reachable reachable⟩

/-- Every operation, in every state that can be reached and within the capacity of the
engine, returns.  A request that is answered with an error, or that logs nothing,
changes nothing.  What is logged are records that are accepted, one after the other,
from the state in which logging begins.  And a pending job has an attempt left. -/
theorem operation_total (reachable : w.Reachable regime) (capacity : w.engine.Capacity) (op : EngineOp) :
    (∃ e' begun logged, w.engine.step op = some e' ∧
      (op.isTick = false → w.engine.refuses op = true ∨ w.engine.written op = [] → e' = w.engine) ∧
      w.engine.begun op = some begun ∧
      State.replay (w.engine.written op) begun = .ok (some logged) ∧
      e'.log = w.engine.log ++ (w.engine.written op).map Record.entry) ∧
      ∀ id job, w.engine.state.findJob id = some job → job.state.isPending = true →
        job.attempts < job.maxAttempts := by
  have good := good_reachable reachable
  obtain ⟨e', stepped⟩ := Engine.step_total op good.inv good.live good.budgeted capacity
  obtain ⟨e₀, e₁, operated⟩ := Engine.step_operated good.inv good.live stepped
  refine ⟨⟨e', e₀.state, e₁.state, stepped, ?_, operated.begun, operated.logged.replay, ?_⟩, ?_⟩
  · rintro no_tick (refuses | idle)
    · rw [Engine.unchanged_of_refuses refuses] at stepped
      exact (Option.some.inj stepped).symm
    · exact Engine.unchanged_of_idle good.inv no_tick idle stepped
  · rw [operated.finish.log, operated.logged.appended.log, operated.start.log]
  · intro id job found pending
    exact good.attempt_left found pending

/-- A tick, with one job dead, one leased and one that waits: the lease has run out, so the
job fails, and the one that waits has an attempt left. -/
theorem operation_total_tick :
    ∃ w e', Reachable {} w ∧ w.jobStates = [some .kDead, some .kLeased, some .kReady] ∧
      w.engine.step (.tick .asListed 2000 1000 1000) = some e' ∧ e'.log.length = w.engine.log.length + 1 ∧
      ∃ job, w.engine.state.findJob 3 = some job ∧ job.attempts < job.maxAttempts := by
  have mixed : (requests mixedJobs (start {} samplePlatform {} (fun _ => 0) 1000 0)).any (fun w =>
      w.jobStates == [some .kDead, some .kLeased, some .kReady] && w.engine.state.jobCount == 3 &&
        w.engine.lastLsn == 6 && w.engine.options.maxPayloadBytes == 1024 * 1024 &&
        (w.engine.written (.tick .asListed 2000 1000 1000)).length == 1) = true := by
    decide +kernel
  obtain ⟨w, ran, facts⟩ := (Option.any_eq_true _ _).1 mixed
  simp only [Bool.and_eq_true, beq_iff_eq] at facts
  obtain ⟨⟨⟨⟨states, count⟩, lsn⟩, payload⟩, one⟩ := facts
  have reachable := reachable_of_start ran
  have capacity : w.engine.Capacity := by
    refine ⟨?_, ?_, ?_⟩
    · rw [count]
      decide
    · rw [count, lsn]
      decide
    · rw [payload]
      decide
  obtain ⟨⟨e', begun, logged, stepped, -, -, -, log⟩, left⟩ :=
    operation_total reachable capacity (.tick .asListed 2000 1000 1000)
  have waits : (w.engine.state.findJob 3).map Job.state = some .kReady :=
    Option.some.inj (congrArg (·[2]?) states)
  refine ⟨w, e', reachable, states, stepped, ?_, ?_⟩
  · rw [log, List.length_append, List.length_map, one]
  · obtain ⟨job, found, ready⟩ := Option.map_eq_some_iff.1 waits
    exact ⟨job, found, left 3 job found (by rw [ready]; rfl)⟩

/-! ## Enqueues that are accepted -/

section Enqueue

variable {request : EnqueueRequest}

theorem requested_of_checked {e : Engine} (checked : e.checkEnqueue request = .ok ())
    (keyless : request.idemKey = []) (unlimited : e.options.maxMemoryBytes = 0) :
    e.requested (.enqueue request) = (e, [.jobEnqueued (e.enqueueRecord request)]) := by
  have fresh : e.liveIdem request = none := by
    unfold Engine.liveIdem
    rw [keyless]
    rfl
  exact (Engine.Admits.mk checked fresh fun ⟨limited, _⟩ => limited unlimited).requested

/-- A request that logs one record applies it, and changes nothing else. -/
theorem logged_next {op : EngineOp} {r : Record} {drawn : Nat} (good : Good regime w)
    (capacity : w.engine.Capacity) (no_tick : op.isTick = false)
    (built : w.engine.requested op = ({ w.engine with drawn }, [r])) :
    ∃ state w', w.engine.state.apply r = .ok (some state) ∧ w.next op = some w' ∧
      w'.engine = { w.engine with
        drawn, state, lastLsn := w.engine.lastLsn + 1, log := w.engine.log ++ [r.entry] } ∧
      w'.records = w.records ++ [r] := by
  obtain ⟨e', stepped⟩ := Engine.step_total op good.inv good.live good.budgeted capacity
  have logged : Engine.logAndApply { w.engine with drawn } r = some e' := by
    rw [Engine.request_eq _ _ no_tick, built, Engine.logAll_single] at stepped
    exact stepped
  have written : w.engine.written op = (w.engine.requested op).2 := by
    cases op <;> first | rfl | cases no_tick
  rw [built] at written
  obtain ⟨state, applied, -, rfl⟩ := Engine.logAndApply_some logged
  exact ⟨state, _, applied, congrArg (Option.map _) stepped, rfl, congrArg (w.records ++ ·) written⟩

/-- The job is in the ledger, and nothing else has changed. -/
theorem enqueue_next (good : Good regime w) (capacity : w.engine.Capacity)
    (built : w.engine.requested (.enqueue request) =
      (w.engine, [.jobEnqueued (w.engine.enqueueRecord request)])) :
    ∃ state w', w.engine.state.apply (.jobEnqueued (w.engine.enqueueRecord request)) = .ok (some state) ∧
      state.ledger = w.engine.state.ledger.enqueued (w.engine.enqueueRecord request) ∧
      w.next (.enqueue request) = some w' ∧ w'.engine.state = state ∧
      w'.engine.options = w.engine.options ∧ w'.engine.lastLsn = w.engine.lastLsn + 1 ∧
      w'.records = w.records ++ [.jobEnqueued (w.engine.enqueueRecord request)] := by
  obtain ⟨state, w', applied, next, engine, records⟩ := logged_next good capacity rfl built
  have step := Ledger.apply_iff_step.1 (State.apply_ledger good.inv applied)
  have ledger : state.ledger = w.engine.state.ledger.enqueued (w.engine.enqueueRecord request) := by
    generalize state.ledger = l' at step
    cases step
    rfl
  refine ⟨state, w', applied, ledger, next, ?_, ?_, ?_, records⟩ <;> rw [engine]

end Enqueue

/-! ## A full queue -/

section Full

variable {s : State} {name : Bytes} {l : List Nat} {id : Nat}

theorem pushReady_full (ready : s.readyOf name = some l) (full : kNotInHeap ≤ l.length) :
    s.pushReady name id = none := by
  obtain ⟨q, found, same⟩ := Option.map_eq_some_iff.1 ready
  unfold State.pushReady
  rw [show s.findQueue name = some q from found]
  dsimp only
  rw [if_neg]
  rintro ⟨-, few⟩
  rw [same] at few
  omega

theorem readyOf_setState (id : Nat) (state : JobState) : (s.setState id state).readyOf = s.readyOf := by
  unfold State.setState
  split
  · rfl
  · show (s.modifyQueue _ _).readyOf = s.readyOf
    exact State.readyOf_modifyQueue fun _ => rfl

theorem readyOf_enqueueJob {r : JobEnqueued} (ready : s.readyOf r.queue = some l) :
    (s.enqueueJob r).readyOf r.queue = some l := by
  have known : (s.findQueue r.queue).isSome = true := by
    obtain ⟨q, found, -⟩ := Option.map_eq_some_iff.1 ready
    rw [show s.findQueue r.queue = some q from found]
    rfl
  have keeps : ∀ q, (Queue.incrCount .kScheduled q).ready = q.ready := fun _ => rfl
  show (State.modifyQueue _ _ _).readyOf r.queue = _
  rw [State.readyOf_modifyQueue keeps]
  show ((if (s.findQueue r.queue).isSome then s.queues else _).lookup r.queue).map Queue.ready = some l
  rw [if_pos known]
  exact ready

/-- Where every job is ready in one queue, its heap has all of them. -/
theorem ready_all (inv : s.StateInv State.nobody) {q : Queue} (queue : s.queues.lookup name = some q)
    (all : ∀ id job, s.findJob id = some job → job.queue = name ∧ job.state = .kReady) :
    q.ready.length = s.jobCount := by
  rw [State.ready_length inv queue]
  refine (State.countsOf_eq_length inv.shape queue s.jobs.nodupKeys ?_).symm
  intro id
  constructor
  · intro mem
    obtain ⟨job, found⟩ := Option.isSome_iff_exists.1 (State.mem_keys.1 mem)
    exact ⟨job, found, all id job found⟩
  · rintro ⟨job, found, -⟩
    apply State.mem_keys.2
    rw [show s.findJob id = some job from found]
    rfl

/-- Jobs without a payload for one queue, enqueued at time zero. -/
def plainRequest : EnqueueRequest := { queue := [113], payload := [] }

/-- After so many of them, and nothing else. -/
structure Filled (n : Nat) (w : World) : Prop where
  options : w.engine.options = {}
  clock : w.engine.state.wallNow = 0
  count : w.engine.state.jobCount = n
  next : w.engine.state.nextJobId = n + 1
  lsn : w.engine.lastLsn = n
  ready : ∀ id job, w.engine.state.findJob id = some job → job.queue = [113] ∧ job.state = .kReady
  wire : ∀ r ∈ w.records, r.Wire

theorem filled_request {n : Nat} {w : World} (filled : Filled n w) :
    w.engine.checkEnqueue plainRequest = .ok () ∧
      w.engine.requested (.enqueue plainRequest) =
        (w.engine, [.jobEnqueued (w.engine.enqueueRecord plainRequest)]) := by
  have checked : w.engine.checkEnqueue plainRequest = .ok () := by
    unfold Engine.checkEnqueue
    rw [filled.options]
    rfl
  refine ⟨checked, requested_of_checked checked rfl ?_⟩
  rw [filled.options]

theorem filled_start : Filled 0 (start {} samplePlatform {} (fun _ => 0) 0 0) where
  options := rfl
  clock := rfl
  count := rfl
  next := rfl
  lsn := rfl
  ready := by
    intro id job found
    cases found
  wire := by
    intro r mem
    cases mem

theorem filled_step {n : Nat} {w : World} (good : Good regime w) (filled : Filled n w)
    (room : n < TimingWheel.kMaxNodes) :
    ∃ w', w.next (.enqueue plainRequest) = some w' ∧ Filled (n + 1) w' := by
  have nodes : TimingWheel.kMaxNodes = 2 ^ 32 - 1 := rfl
  have capacity : w.engine.Capacity := by
    refine ⟨filled.count ▸ room, ?_, ?_⟩
    · rw [filled.lsn, filled.count]
      omega
    · rw [filled.options]
      decide
  obtain ⟨state, w', applied, ledger, moved, at_state, options, lsn, records⟩ :=
    enqueue_next good capacity (filled_request filled).2
  set record := w.engine.enqueueRecord plainRequest with record_eq
  have of_id : record.id = n + 1 := filled.next
  have now : record.runAt = 0 ∧ record.at_ = 0 := by
    rw [record_eq]
    unfold Engine.enqueueRecord
    rw [filled.clock]
    exact ⟨rfl, rfl⟩
  have frame := State.apply_frame good.inv applied
  have next : state.nextJobId = record.id + 1 := congrArg Ledger.nextJobId ledger
  have at_id : ∃ job, state.findJob record.id = some job ∧ job.ledger = LedgerJob.enqueued record := by
    have entry : state.ledger.jobs record.id = some (LedgerJob.enqueued record) := by
      rw [ledger]
      exact Function.update_self _ _ _
    exact Option.map_eq_some_iff.1 entry
  obtain ⟨job, found, of_job⟩ := at_id
  have others : ∀ j, j ≠ record.id → state.findJob j = w.engine.state.findJob j := by
    intro j ne
    apply frame.others
    show j ∉ [record.id]
    rw [List.mem_singleton]
    exact ne
  subst at_state
  refine ⟨w', moved, ?_⟩
  refine ⟨options.trans filled.options, frame.wallNow.trans filled.clock, ?_, ?_, ?_, ?_, ?_⟩
  · -- the new id was not in the table
    apply Nat.le_antisymm
    · have count := State.apply_jobCount good.inv applied
      rw [filled.count] at count
      exact count
    · have fresh : record.id ∉ w.engine.state.jobs.keys := by
        intro mem
        obtain ⟨old, found'⟩ := Option.isSome_iff_exists.1 (State.mem_keys.1 mem)
        have known := (good.inv.fits record.id old found').known
        rw [filled.next] at known
        omega
      have sub : record.id :: w.engine.state.jobs.keys ⊆ w'.engine.state.jobs.keys := by
        intro j mem
        apply State.mem_keys.2
        rcases List.mem_cons.1 mem with rfl | old
        · rw [found]
          rfl
        · rw [others j fun same => fresh (same ▸ old)]
          exact State.mem_keys.1 old
      have nodup : (record.id :: w.engine.state.jobs.keys).Nodup :=
        List.nodup_cons.2 ⟨fresh, w.engine.state.jobs.nodupKeys⟩
      have length := (List.subperm_of_subset nodup sub).length_le
      rw [← filled.count]
      exact length
  · rw [next, of_id]
  · rw [lsn, filled.lsn]
  · intro j other found'
    by_cases here : j = record.id
    · subst here
      rw [found] at found'
      cases found'
      refine ⟨congrArg LedgerJob.queue of_job, ?_⟩
      have pending : toPersisted job.state = .kPending := congrArg LedgerJob.state of_job
      have runAt : job.runAt = 0 := (congrArg LedgerJob.runAt of_job).trans now.1
      -- its time has come, so it does not wait
      rcases frame.jobs record.id job found with old | timely
      · have known := (good.inv.fits record.id job old).known
        rw [filled.next] at known
        omega
      · cases waits : job.state with
        | kReady => rfl
        | kScheduled =>
          rcases timely.2 waits with replaying | later
          · rw [good.live] at replaying
            cases replaying
          · rw [runAt, filled.clock] at later
            omega
        | _ =>
          rw [waits] at pending
          cases pending
    · rw [others j here] at found'
      exact filled.ready j other found'
  · intro r mem
    rw [records] at mem
    rcases List.mem_append.1 mem with old | new
    · exact filled.wire r old
    · rw [List.mem_singleton.1 new]
      have zero : TimeInRange 0 := by decide
      have word : Word (n + 1) := by
        unfold Word
        omega
      have byte : Word 1 := by decide
      have empty : Word 0 := by decide
      exact ⟨of_id ▸ word, byte, empty, now.1 ▸ zero, empty, zero, now.2 ▸ zero⟩

theorem filled_world {n : Nat} (room : n ≤ TimingWheel.kMaxNodes) :
    ∃ w, Reachable regime w ∧ Filled n w := by
  induction n with
  | zero => exact ⟨_, ⟨{}, samplePlatform, {}, fun _ => 0, 0, 0, .refl⟩, filled_start⟩
  | succ n ih =>
    obtain ⟨w, reachable, filled⟩ := ih (Nat.le_of_succ_le room)
    obtain ⟨w', next, filled'⟩ := filled_step (good_reachable reachable) filled room
    refine ⟨w', reachable.trans (.single ?_), filled'⟩
    exact .op (.enqueue plainRequest) (fun _ => trivial) next

/-- After 2^32 - 1 jobs that are ready in one queue, a request that passes every check
of the engine fails the check on the size of the heap. -/
theorem full_queue_aborts :
    ∃ w, Reachable ⟨true, true, true, true⟩ w ∧ (∀ r ∈ w.records, r.Wire) ∧
      w.engine.checkEnqueue plainRequest = .ok () ∧ w.engine.step (.enqueue plainRequest) = none := by
  obtain ⟨w, reachable, filled⟩ := @filled_world ⟨true, true, true, true⟩ _ (Nat.le_refl _)
  have good := good_reachable reachable
  obtain ⟨checked, built⟩ := filled_request filled
  refine ⟨w, reachable, filled.wire, checked, ?_⟩
  rw [Engine.request_eq _ _ rfl, built, Engine.logAll_single]
  set record := w.engine.enqueueRecord plainRequest with record_eq
  have fresh : w.engine.state.jobs.lookup record.id = none := by
    cases found : w.engine.state.jobs.lookup record.id with
    | none => rfl
    | some job => exact absurd (good.inv.fits record.id job found).known (Nat.lt_irrefl _)
  have moved := good.inv.shape.moved_enqueueJob fresh
  -- there is a job, so there is the queue; and its heap is full
  obtain ⟨q, queue⟩ : ∃ q, w.engine.state.queues.lookup [113] = some q := by
    have some_job : w.engine.state.jobs.keys ≠ [] := by
      intro empty
      have count := filled.count
      unfold State.jobCount at count
      rw [empty] at count
      cases count
    obtain ⟨id, ids, split⟩ := List.exists_cons_of_ne_nil some_job
    have mem : id ∈ w.engine.state.jobs.keys := by
      rw [split]
      exact List.mem_cons_self
    obtain ⟨job, found⟩ := Option.isSome_iff_exists.1 (State.mem_keys.1 mem)
    have known := good.inv.shape.jobQueues id job found
    rw [(filled.ready id job found).1] at known
    exact Option.isSome_iff_exists.1 known
  have length : q.ready.length = TimingWheel.kMaxNodes :=
    (ready_all good.inv queue filled.ready).trans filled.count
  have ready : w.engine.state.readyOf record.queue = some q.ready := by
    show (w.engine.state.queues.lookup [113]).map Queue.ready = _
    rw [queue]
    rfl
  have due : ¬ ((w.engine.state.enqueueJob record).replaying = true ∨
      (w.engine.state.enqueueJob record).wallNow < (State.newJob w.engine.state.platform record).runAt) := by
    have runAt : (State.newJob w.engine.state.platform record).runAt = 0 := by
      show max w.engine.state.wallNow (w.engine.state.wallNow + 0) = 0
      rw [filled.clock]
      rfl
    rw [moved.kept.replaying, moved.kept.wallNow, runAt]
    rintro (replaying | later)
    · have live : w.engine.state.replaying = true := replaying
      rw [good.live] at live
      cases live
    · have later : w.engine.state.wallNow < 0 := later
      rw [filled.clock] at later
      exact absurd later (Int.lt_irrefl _)
  have full : ((w.engine.state.enqueueJob record).setState record.id .kReady).readyOf record.queue =
      some q.ready := by
    rw [readyOf_setState, readyOf_enqueueJob ready]
  have entered : (w.engine.state.enqueueJob record).enterPending record.id = none := by
    unfold State.enterPending
    rw [show (w.engine.state.enqueueJob record).findJob record.id = _ from moved.found]
    dsimp only
    rw [if_neg due]
    show Option.map _ (State.pushReady _ record.queue record.id) = none
    rw [pushReady_full full (Nat.le_of_eq length.symm)]
    rfl
  have applied : w.engine.state.apply (.jobEnqueued record) = .ok none := by
    show w.engine.state.applyJobEnqueued record = .ok none
    have budget : record.maxAttempts ≠ 0 := by
      show w.engine.options.defaultMaxAttempts ≠ 0
      rw [filled.options]
      decide
    have named : ¬ record.queue.isEmpty = true := by
      show ¬ List.isEmpty [(113 : UInt8)] = true
      decide
    have next : ¬ record.id ≠ w.engine.state.nextJobId := not_not.2 rfl
    unfold State.applyJobEnqueued
    rw [if_neg next, if_neg named, if_neg budget, entered]
    rfl
  unfold Engine.logAndApply
  rw [applied]

end Full

end World

end Baton
