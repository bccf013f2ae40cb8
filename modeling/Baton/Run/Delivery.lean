/-
# Run.Delivery — what a worker is handed, and when

A run of the engine, with its snapshots and its restarts, against its own log:

* a job that was ever the answer to an enqueue stays in the table until it is purged or past
  its retention (`no_job_lost`);
* a job of the table is the one that was enqueued under its id (`kept_as_enqueued`);
* while the wall clock does not go back no job is ready to be handed out before its time,
  be it delayed or waiting for a retry (`never_early`);
* whatever the clocks do, no lease is expired before the time last promised for it
  (`expired_after_promise`).
-/
import Baton.Run.Keys

namespace Baton

open Theory

set_option autoImplicit false

/-! ## What a job keeps of its enqueue -/

/-- What no record changes of a job. -/
def LedgerJob.terms (job : LedgerJob) :=
  (job.queue, job.payload, job.priority, job.maxAttempts, job.backoffBaseMs, job.backoffCapMs,
    job.createdAt, job.idemKey)

/-- The job that a record enqueues under an id. -/
def Record.enqueue (id : Nat) : Record → Option JobEnqueued
  | .jobEnqueued q => if q.id = id then some q else none
  | _ => none

namespace Ledger

variable {rs : List Record} {l l' : Ledger} {r : Record} {id : Nat} {job : LedgerJob}

theorem Rewrite.terms (rewrite : Rewrite l r id job) :
    (∃ q, r = .jobEnqueued q ∧ q.id = id ∧ job = LedgerJob.enqueued q) ∨
      ∃ old, l.jobs id = some old ∧ job.terms = old.terms := by
  cases rewrite with
  | enqueued next => exact Or.inl ⟨_, rfl, rfl, rfl⟩
  | failed found leased token =>
    refine Or.inr ⟨_, found, ?_⟩
    unfold LedgerJob.failed
    split <;> rfl
  | leased found | extended found | succeeded found | cancelled found | retried found =>
    exact Or.inr ⟨_, found, rfl⟩

/-- One record enqueues the id, and the job has the terms of that record. -/
def AsEnqueued (rs : List Record) (id : Nat) (job : LedgerJob) : Prop :=
  ∃ q, rs.filterMap (Record.enqueue id) = [q] ∧ job.terms = (LedgerJob.enqueued q).terms

theorem History.terms (history : History rs l) (found : l.jobs id = some job) : AsEnqueued rs id job := by
  refine @History.keeps _ _ (fun rs l => ∀ id job, l.jobs id = some job → AsEnqueued rs id job) history nofun ?_
    id job found
  intro rs l r l' before _ step known id job found
  -- a job that is there is not enqueued again
  have kept : ∀ old, l.jobs id = some old → job.terms = old.terms → AsEnqueued (rs ++ [r]) id job := by
    intro old at_id same
    obtain ⟨q, once, terms⟩ := known id old at_id
    have below := (before.known.jobs id old at_id).2
    have other : r.enqueue id = none := by
      cases step with
      | enqueued next named budget => exact if_neg (by omega)
      | _ => rfl
    exact ⟨q, by simp [once, other], same.trans terms⟩
  rcases step.jobs found with old | rewrite
  · exact kept job old rfl
  rcases rewrite.terms with ⟨q, rfl, rfl, rfl⟩ | ⟨old, at_id, same⟩
  · -- and a new job takes an id that no record has
    have fresh : rs.filterMap (Record.enqueue q.id) = [] := by
      refine List.filterMap_eq_nil_iff.2 fun r mem => ?_
      cases r with
      | jobEnqueued q' =>
        have below := (before.accounted.budget q' mem).1
        cases step with
        | enqueued next named budget => exact if_neg (by omega)
      | _ => rfl
    exact ⟨q, by simp [fresh, Record.enqueue], rfl⟩
  · exact kept old at_id same

end Ledger

/-! ## Jobs whose time has come -/

namespace State

variable {s s' : State}

/-- No job is ready before its time. -/
def NotEarly (s : State) : Prop :=
  ∀ id job, s.findJob id = some job → job.state = .kReady → job.runAt ≤ s.wallNow

theorem notEarly_rebuilt {iteration : IterationOrder} {graceMs : Int} (shape : Shape s)
    (tokens : 0 < s.nextToken) (fits : ∀ id job, s.findJob id = some job → JobFits s.nextJobId s.nextToken id job)
    (rebuilt : s.rebuildDerived iteration graceMs = some s') : s'.NotEarly := by
  obtain ⟨-, kept, jobs, -⟩ := rebuildDerived_spec shape tokens fits rebuilt
  have wallNow : s'.wallNow = s.wallNow := kept.wallNow
  intro id job found ready
  rw [jobs] at found
  obtain ⟨old, -, rfl⟩ := Option.map_eq_some_iff.1 found
  rw [wallNow]
  unfold settled at ready ⊢
  split at ready
  · rename_i pending
    rw [if_pos pending]
    exact ((timely_pendingJob s old).1 ready).2
  · rename_i other
    simp [ready, JobState.isPending] at other

theorem NotEarly.collected {finished dead : List FinishedRef} (notEarly : s.NotEarly)
    (collected : Collected s s' finished dead) : s'.NotEarly := by
  intro id job found ready
  rw [collected.jobs] at found
  split at found
  · cases found
  · rw [collected.wallNow]
    exact notEarly id job found ready

theorem NotEarly.advanced (notEarly : s.NotEarly) (kept : Kept s s') (jobs : ∀ j, Ripened s s' j) :
    s'.NotEarly := by
  intro id job found ready
  rw [kept.wallNow]
  rcases jobs id with same | ⟨old, -, -, due, now⟩
  · exact notEarly id job (same ▸ found) ready
  · rw [now] at found
    cases found
    exact due

end State

namespace Engine

open State (StateInv nobody)

variable {e e' : Engine} {rs : List Record}

theorem Logged.notEarly (logged : Logged e rs e') (notEarly : e.state.NotEarly) : e'.state.NotEarly := by
  induction logged with
  | done e => exact notEarly
  | @log e e' r rs away state drawn inv issued applied small rest ih =>
    have frame := State.apply_frame inv applied
    refine ih fun id job found ready => ?_
    show job.runAt ≤ state.wallNow
    rw [frame.wallNow]
    rcases frame.jobs id job found with old | timely
    · exact notEarly id job old ready
    · exact (timely.1 ready).2

/-- A tick: a jump of the clock settles every job anew, a timer makes a job ready when it is
due, and what is logged and collected after that makes none ready early. -/
theorem tick_notEarly {iteration : IterationOrder} {wall : Int} {mono monoAgain : Nat}
    (inv : e.state.StateInv nobody) (live : e.state.replaying = false) (forward : e.state.wallNow ≤ wall)
    (ticked : e.tick iteration wall mono monoAgain = some e') (notEarly : e.state.NotEarly) :
    e'.state.NotEarly := by
  obtain ⟨jumped, detected, ticked⟩ := Option.bind_eq_some_iff.1 ticked
  obtain ⟨⟨state, ids⟩, advanced, ticked⟩ := Option.bind_eq_some_iff.1 ticked
  obtain ⟨e₁, expired, ticked⟩ := Option.bind_eq_some_iff.1 ticked
  obtain ⟨last, collected, result⟩ := Option.bind_eq_some_iff.1 ticked
  cases result
  have inv_now : StateInv { e with state := e.state.setNow wall mono }.state nobody :=
    inv.unindexed (Nat.le_refl _) (Nat.le_refl _)
  obtain ⟨silent, inv_jumped, -⟩ := detectClockJump_spec inv_now detected
  obtain ⟨inv₀, nodup, kept, jobs, ranOut⟩ :=
    State.advanceTimers_spec inv_jumped (silent.replaying.trans live) advanced
  obtain ⟨logged, inv₁⟩ := expireLeases_logged nodup inv₀ ranOut expired
  obtain ⟨-, _, _, result⟩ := State.collectGarbage_spec inv₁ collected
  refine (logged.notEarly (State.NotEarly.advanced ?_ kept jobs)).collected result
  unfold detectClockJump at detected
  dsimp only at detected
  split at detected
  · cases detected
    exact fun id job found ready => (notEarly id job found ready).trans forward
  · obtain ⟨anew, rebuilt, rfl⟩ := Option.map_eq_some_iff.1 detected
    exact State.notEarly_rebuilt inv_now.shape inv_now.tokens inv_now.fits rebuilt

end Engine

namespace World

variable {regime : Regime} {w w' : World} {id : Nat} {job : Job}

/-! ## No job is lost -/

/-- An enqueue that is answered with a job has a record of it. -/
theorem enqueue_recorded (good : Good regime w) {request : EnqueueRequest} {result : EnqueueResult} {e' : Engine}
    (enqueued : w.engine.enqueue request = some (.ok result, e'))
    (next : w.next (.enqueue request) = some w') :
    ∃ q, .jobEnqueued q ∈ w'.records ∧ q.id = result.id := by
  obtain ⟨-, -, -, -, -, -, -, records, -, -⟩ := next_logged good next
  rw [records]
  rcases Engine.enqueue_ok enqueued with ⟨live, -, -⟩ | ⟨-, rfl, written⟩
  · obtain ⟨full, history, sub⟩ := good.full
    have keyed : request.idemKey ≠ [] := by
      intro empty
      rw [Engine.liveIdem, empty] at live
      cases live
    obtain ⟨at_, held, -⟩ := Engine.liveIdem_some keyed live
    obtain ⟨q, mem, -, same, -⟩ := history.created keyed (sub.key held)
    exact ⟨q, List.mem_append_left _ mem, same⟩
  · rw [written]
    exact ⟨_, List.mem_append_right _ (List.mem_singleton.2 rfl), rfl⟩

/-- A run whose clock does not go back, whose restarts recover what was logged, and whose
retention stays the same. -/
def retaining : Regime := { lossless := true, steady := true, sameRetention := true }

/-- With a clock that does not go back and restarts that recover what was logged, every
job that an enqueue was ever answered with is in the table, unless it was dead and was
purged, or is terminal and past the retention of its state. -/
theorem no_job_lost (reachable : w.Reachable retaining)
    {request : EnqueueRequest} {result : EnqueueResult} {e' : Engine}
    (enqueued : w.engine.enqueue request = some (.ok result, e'))
    (next : w.next (.enqueue request) = some w') {w'' : World} (run : Runs retaining w' w'') :
    (w''.engine.state.findJob result.id).isSome ∨ Ledger.Purged w''.records result.id ∨
      ∃ full job, Ledger.History w''.records full ∧ full.jobs result.id = some job ∧
        job.past w''.engine.state.options w''.engine.state.wallNow = true := by
  have good := good_reachable reachable
  obtain ⟨q, mem, same⟩ := enqueue_recorded good enqueued next
  have step : Step retaining w w' := .op (.enqueue request) (fun _ => trivial) next
  obtain ⟨full, history, sub⟩ := (good_runs (good_step good step) run).full
  rw [← same]
  have recorded : .jobEnqueued q ∈ w''.records := (runs_grow rfl run).subset mem
  rcases sub.jobs q.id with kept | ⟨-, job, found, gone⟩
  · cases found : full.jobs q.id with
    | none => exact Or.inr (Or.inl (history.purged_of_missing recorded found))
    | some job =>
      obtain ⟨held, at_state, -⟩ := Option.map_eq_some_iff.1 (kept.trans found)
      exact Or.inl (Option.isSome_iff_exists.2 ⟨held, at_state⟩)
  · exact Or.inr (Or.inr ⟨full, job, history, found, gone.2 rfl rfl⟩)

/-- The clock that operations bring does not go back. -/
def Ordered : Int → List EngineOp → Prop
  | _, [] => True
  | now, op :: ops => op.Forward now ∧ Ordered (op.clock now) ops

theorem runs_requests {ops : List EngineOp} (good : Good regime w)
    (ordered : Ordered w.engine.state.wallNow ops) (ran : requests ops w = some w') : Runs regime w w' := by
  induction ops generalizing w with
  | nil =>
    cases ran
    exact .refl
  | cons op ops ih =>
    obtain ⟨next, stepped, rest⟩ := Option.bind_eq_some_iff.1 ran
    obtain ⟨forward, later⟩ := ordered
    obtain ⟨-, -, -, -, -, -, -, -, clock, -⟩ := next_logged good stepped
    have step : Step regime w next := .op op (fun _ => forward) stepped
    exact .head step (ih (good_step good step) (clock ▸ later) rest)

/-- A job with one attempt. -/
def fragileRequest : EnqueueRequest := { queue := [113], payload := [7], maxAttempts := some 1 }

/-- The lease of the first job runs out, it dies and is retried; a second job is cancelled.
Then the time is over for which the dead and the cancelled are kept. -/
def retriedInTime : List EngineOp :=
  [.reserve [[113]] 500, .enqueue fragileRequest, .cancel 2, .tick .asListed 2000 1000 1000, .dlqRetry 1,
    .tick .asListed 3500 2500 2500]

/-- The second job is collected.  The reference that the first one left when it died is
looked at in the same pass, and the job stays. -/
theorem no_job_lost_retried :
    ∃ w' w'' : World, Runs retaining w' w'' ∧ w''.records.map Record.typeOf = [1, 2, 1, 6, 5, 7] ∧
      w''.engine.state.findJob 2 = none ∧
      ((w''.engine.state.findJob 1).isSome ∨ Ledger.Purged w''.records 1 ∨
        ∃ full job, Ledger.History w''.records full ∧ full.jobs 1 = some job ∧
          job.past w''.engine.state.options w''.engine.state.wallNow = true) := by
  set w := start { retainFinishedMs := 500, retainDeadMs := 1000 } samplePlatform {} (fun _ => 0) 1000 0 with w_eq
  have reachable : w.Reachable retaining := ⟨_, _, _, _, _, _, .refl⟩
  have answer : (w.engine.enqueue fragileRequest).any (fun answered => answered.1 = .ok ⟨1, true⟩) = true := by
    decide +kernel
  have facts : ((w.next (.enqueue fragileRequest)).any fun w' => w'.engine.state.wallNow = 1000 &&
      (requests retriedInTime w').any fun w'' => w''.records.map Record.typeOf = [1, 2, 1, 6, 5, 7] &&
        (w''.engine.state.findJob 2).isNone) = true := by
    decide +kernel
  obtain ⟨⟨_, e'⟩, enqueued, answer⟩ := (Option.any_eq_true _ _).1 answer
  cases of_decide_eq_true answer
  obtain ⟨w', next, facts⟩ := (Option.any_eq_true _ _).1 facts
  obtain ⟨now, facts⟩ := Bool.and_eq_true_iff.1 facts
  obtain ⟨w'', ran, facts⟩ := (Option.any_eq_true _ _).1 facts
  obtain ⟨types, collected⟩ := Bool.and_eq_true_iff.1 facts
  have good := good_step (good_reachable reachable) (.op (.enqueue fragileRequest) (fun _ => trivial) next)
  have ordered : Ordered w'.engine.state.wallNow retriedInTime := by
    rw [of_decide_eq_true now]
    simp [retriedInTime, Ordered, EngineOp.Forward, EngineOp.clock]
  have run := runs_requests good ordered ran
  exact ⟨w', w'', run, of_decide_eq_true types, Option.isNone_iff_eq_none.1 collected,
    no_job_lost reachable enqueued next run⟩

/-! ## No job is early, and none is changed -/

theorem notEarly_step (good : Good regime w) (steady : regime.steady = true) (step : Step regime w w')
    (notEarly : w.engine.state.NotEarly) : w'.engine.state.NotEarly := by
  cases step with
  | op op forward next =>
    obtain ⟨engine, stepped, rfl⟩ := Option.map_eq_some_iff.1 next
    cases tick : op.isTick with
    | false => exact (Engine.request_logged good.inv tick stepped).notEarly notEarly
    | true =>
      cases op with
      | tick iteration wall mono monoAgain =>
        exact Engine.tick_notEarly good.inv good.live (forward steady) stepped notEarly
      | _ => cases tick
  | capture typed made => exact notEarly
  | @restart records s s' boot found allowed decoded recovered ended =>
    obtain ⟨lost, whole⟩ := found
    obtain ⟨all, history, -⟩ := good.full
    rw [← whole] at history
    obtain ⟨full, history⟩ := history.start
    have replayed := (recovered_ledger good ⟨lost, whole⟩ history recovered).1
    have inv : State.StateInv (s.setNow boot.wall boot.mono) State.nobody :=
      replayed.inv.unindexed (Nat.le_refl _) (Nat.le_refl _)
    obtain ⟨t, finished, dead, rebuilt, -, -, collected⟩ := State.endReplay_spec inv ended
    obtain ⟨-, -, -, -, -, wallNow, -⟩ := State.endReplay_ledger inv ended
    have settled := (State.notEarly_rebuilt inv.shape.live inv.tokens inv.fits rebuilt).collected collected
    -- the clock is read again when the engine is created
    intro id job found ready
    exact (settled id job found ready).trans (wallNow.trans_le (allowed.steady steady).2)

/-- While the wall clock does not go back, a job that is ready is due, whatever jumps forward
and restarts lie between. -/
theorem never_early (reachable : w.Reachable regime) (steady : regime.steady = true)
    (found : w.engine.state.findJob id = some job) (ready : job.state = .kReady) :
    job.runAt ≤ w.engine.state.wallNow := by
  have notEarly : w.engine.state.NotEarly :=
    reachable.keeps (fun _ _ _ _ _ _ => nofun) fun _ _ good step => notEarly_step good steady step
  exact notEarly id job found ready

theorem never_early_delayed :
    ∃ w job, Reachable { steady := true } w ∧ w.engine.state.findJob 1 = some job ∧ job.runAt = 1300 ∧
      job.runAt ≤ w.engine.state.wallNow := by
  obtain ⟨w, ran, present⟩ : ∃ w, requests [.enqueue { queue := [113], payload := [], delayMs := 300 },
        .tick .asListed 2000 1000 1000] (start {} samplePlatform {} (fun _ => 0) 1000 0) = some w ∧
      (w.engine.state.findJob 1).any (fun job => job.state = .kReady && job.runAt = 1300) = true :=
    ⟨_, rfl, by decide +kernel⟩
  obtain ⟨job, found, job_eq⟩ := (Option.any_eq_true _ _).1 present
  simp only [Bool.and_eq_true, decide_eq_true_eq] at job_eq
  have ordered (request : EnqueueRequest) : Ordered 1000 [.enqueue request, .tick .asListed 2000 1000 1000] :=
    ⟨trivial, show (1000 : Int) ≤ 2000 by decide, trivial⟩
  have reachable : w.Reachable { steady := true } :=
    ⟨_, _, _, _, _, _, runs_requests (good_start _ _ _ _ _ _) (ordered _) ran⟩
  exact ⟨w, job, reachable, found, job_eq.2, never_early reachable rfl found job_eq.1⟩

/-- A job of the table is the one that was enqueued under its id, by one record of the log,
whatever leases, retries, snapshots and restarts lie between. -/
theorem kept_as_enqueued (reachable : w.Reachable regime) (found : w.engine.state.findJob id = some job) :
    ∃ q, w.records.filterMap (Record.enqueue id) = [q] ∧ job.ledger.terms = (LedgerJob.enqueued q).terms := by
  obtain ⟨full, history, sub⟩ := (good_reachable reachable).full
  exact history.terms (sub.found (State.ledger_jobs found))

theorem kept_as_enqueued_again :
    ∃ w job q, Reachable {} w ∧ w.engine.state.findJob 1 = some job ∧
      w.records.filterMap (Record.enqueue 1) = [q] ∧ job.ledger.terms = (LedgerJob.enqueued q).terms := by
  obtain ⟨w, ran, present⟩ : ∃ w, requests secondLease (start {} samplePlatform {} (fun _ => 0) 1000 0) =
      some w ∧ (w.engine.state.findJob 1).isSome = true :=
    ⟨_, rfl, by decide +kernel⟩
  obtain ⟨job, found⟩ := Option.isSome_iff_exists.1 present
  obtain ⟨q, once, terms⟩ := kept_as_enqueued (reachable_of_start ran) found
  exact ⟨w, job, q, reachable_of_start ran, found, once, terms⟩

/-- An attempt that is logged as expired is logged at or after the time its lease ran to,
as the records before it have it. -/
theorem expired_after_promise (reachable : w.Reachable regime) {before after : List Record}
    {r : AttemptFailed} (log : w.records = before ++ .attemptFailed r :: after)
    (expired : r.reason = .kLeaseExpired) :
    ∃ l job, Ledger.replay {} before = .ok l ∧ l.jobs r.id = some job ∧ job.state = .kLeased ∧
      job.leaseToken = r.token ∧ job.leaseExpiresAt ≤ r.at_ := by
  obtain ⟨full, history, -⟩ := (good_reachable reachable).full
  rw [log, List.append_cons] at history
  obtain ⟨m, history⟩ := history.start
  obtain ⟨l, earlier, vouched, step⟩ := history.last
  cases step with
  | @failed _ job found leased token =>
    exact ⟨l, job, earlier.replay, found, leased, token, (vouched job found).2 expired⟩

theorem expired_after_promise_silent :
    ∃ w l job, ∃ r : AttemptFailed, Reachable {} w ∧ r.at_ = 2000 ∧ Ledger.replay {} (w.records.take 2) = .ok l ∧
      l.jobs r.id = some job ∧ job.leaseExpiresAt ≤ r.at_ := by
  obtain ⟨w, q, g, r, ran, log, expired, late⟩ : ∃ w q g r,
      requests [.enqueue { queue := [113], payload := [] }, .reserve [[113]] 500,
        .tick .asListed 2000 1000 1000] (start {} samplePlatform {} (fun _ => 0) 1000 0) = some w ∧
      w.records = [q, g] ++ .attemptFailed r :: [] ∧ r.reason = .kLeaseExpired ∧ r.at_ = 2000 :=
    ⟨_, _, _, _, rfl, rfl, rfl, rfl⟩
  obtain ⟨l, job, replayed, found, -, -, promised⟩ := expired_after_promise (reachable_of_start ran) log expired
  refine ⟨w, l, job, r, reachable_of_start ran, late, ?_, found, promised⟩
  rw [log]
  exact replayed

end World

end Baton
