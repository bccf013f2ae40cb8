/-
# Run.Fencing — a lease token works as long as its lease lasts

`heartbeat`, `ack` and `fail` name a job and the token of a lease.  What they do is
decided by whether the job is leased under exactly that token (`Holds`): if so a
record is logged and the state changes; if not, nothing changes.

Tokens are issued in increasing order, so a lease that has ended never comes back:
`fencing` says all of this for every run that recovers what it logged.
-/
import Baton.Run.Totality

namespace Baton

open Theory

set_option autoImplicit false

/-- The job and the token a call names. -/
def EngineOp.lease : EngineOp → Option (Nat × Nat)
  | .heartbeat id token _ => some (id, token)
  | .ack id token => some (id, token)
  | .fail request => some (request.id, request.token)
  | _ => none

/-! ## A timer that is armed again -/

namespace TimingWheel

variable {w w' : TimingWheel} {h h' : TimerHandle} {t : Timer} {deadline kind id : Nat}

/-- The entry of a timer that is cancelled is the next one used, under another
generation. -/
theorem schedule_after_cancel (held : w.timer? h.index = some t) (current : t.generation = h.generation)
    (scheduled : (w.cancel h).2.schedule deadline kind id = some (h', w')) : h' ≠ h := by
  have live : h.index ∈ w.live := mem_live_iff_timer.2 (by simp [held])
  obtain ⟨bound, used⟩ := mem_live.1 live
  have generation : (w.nodes h.index).generation = h.generation := by
    rw [timer?_of_live live] at held
    cases held
    exact current
  set left := (w.unlink h.index).release h.index with left_def
  have unfolded : (w.cancel h).2 = { left with size := left.size - 1 } := by
    have in_slab : ¬ w.slab ≤ h.index := by omega
    have used' : (w.nodes h.index).list ≠ kFree := used
    simp [cancel, in_slab, used', generation, left_def]
  have next : (left.nodes h.index).generation = (h.generation + 1) % 2 ^ 32 := by
    have unlinked : ((w.unlink h.index).nodes h.index).generation = h.generation :=
      (congrArg Timer.generation (unlink_timer w h.index h.index)).trans generation
    show (Function.update (w.unlink h.index).nodes h.index _ h.index).generation = _
    rw [Function.update_self, unlinked]
  -- `release` put the entry first on the free list, where `allocate` looks
  have allocated : (w.cancel h).2.allocate =
      some (h.index, { (w.cancel h).2 with freeHead := (left.nodes h.index).next }) := by
    rw [unfolded]
    rfl
  unfold schedule at scheduled
  rw [allocated, unfolded] at scheduled
  dsimp only at scheduled
  generalize filled_def : TimingWheel.fill _ h.index deadline kind id = filled at scheduled
  obtain ⟨l, -, placed⟩ := place_eq filled h.index
  rw [placed] at scheduled
  cases scheduled
  have kept : ((filled.link h.index l).nodes h.index).generation = (left.nodes h.index).generation := by
    have timer := congrArg Timer.generation (link_timer filled h.index l h.index)
    rw [← filled_def, fill_timer, if_pos rfl] at timer
    exact (filled_def ▸ timer :)
  intro same
  have same := congrArg TimerHandle.generation same
  dsimp only at same
  omega

end TimingWheel

namespace Engine

/-- The job is leased under exactly this token. -/
def Holds (e : Engine) (id token : Nat) : Prop :=
  ∃ job, e.state.findJob id = some job ∧ job.state = .kLeased ∧ job.leaseToken = token

/-- The job succeeded under exactly this token. -/
def Acked (e : Engine) (id token : Nat) : Prop :=
  ∃ job, e.state.findJob id = some job ∧ job.state = .kSucceeded ∧ job.leaseToken = token

/-- The lease and the retry delay of a call are in range. -/
def inRange (e : Engine) : EngineOp → Prop
  | .heartbeat _ _ leaseMs => e.options.minLeaseMs ≤ leaseMs ∧ leaseMs ≤ e.options.maxLeaseMs
  | .fail request => ∀ retry, request.retryInMs = some retry → 0 ≤ retry ∧ retry ≤ e.options.maxDelayMs
  | _ => True

/-- The code of the error that is answered, if it is one; `none` where a check fails. -/
def errorOf {α : Type} (answer : Option (Result α × Engine)) : Option (Option ErrorCode) :=
  answer.map fun answered =>
    match answered.1 with
    | .error error => some error.code
    | .ok _ => none

def answers (e : Engine) : EngineOp → Option (Option ErrorCode)
  | .heartbeat id token leaseMs => errorOf (e.heartbeat id token leaseMs)
  | .ack id token => errorOf (e.ack id token)
  | .fail request => errorOf (e.fail request)
  | _ => none

section Calls

variable {e e' : Engine} {op : EngineOp} {id token : Nat}

theorem findLeased_error (unheld : ¬ e.Holds id token) :
    ∃ error, e.findLeased id token = .error error ∧
      (error.code = .kNotFound ∨ error.code = .kStaleToken) := by
  unfold findLeased
  cases found : e.state.findJob id with
  | none => exact ⟨_, rfl, Or.inl rfl⟩
  | some job =>
    dsimp only
    split
    · exact ⟨_, rfl, Or.inr rfl⟩
    rename_i leased
    split
    · exact ⟨_, rfl, Or.inr rfl⟩
    rename_i held
    exact absurd ⟨job, found, not_not.1 leased, not_not.1 held⟩ unheld

theorem findLeased_held {job : Job} (found : e.state.findJob id = some job) (leased : job.state = .kLeased)
    (held : job.leaseToken = token) : e.findLeased id token = .ok job := by
  unfold findLeased
  rw [found]
  dsimp only
  rw [if_neg (not_not.2 leased), if_neg (not_not.2 held)]

theorem alreadyAcked_iff : e.alreadyAcked id token = true ↔ e.Acked id token := by
  unfold alreadyAcked Acked
  cases e.state.findJob id with
  | none => simp
  | some job => simp

/-- A call under a token that the job is not leased under changes nothing. -/
theorem call_unheld (names : op.lease = some (id, token)) (unheld : ¬ e.Holds id token) :
    e.step op = some e := by
  have no_tick : op.isTick = false := by
    cases op with
    | tick iteration wall mono monoAgain => cases names
    | _ => rfl
  have idle : e.requested op = (e, []) := by
    refine (requested_builds e op).resolve_right fun builds => ?_
    generalize e.requested op = built at builds
    cases builds with
    | heartbeat _ leased | fail _ leased | ack leased =>
      cases names
      exact unheld ⟨_, findLeased_ok leased⟩
    | _ => cases names
  rw [request_eq e op no_tick, idle]
  rfl

theorem lease_inside {leaseMs : Int} (ranges : e.inRange (.heartbeat id token leaseMs)) :
    ¬ (leaseMs < e.options.minLeaseMs ∨ e.options.maxLeaseMs < leaseMs) :=
  not_or.2 ⟨Int.not_lt.2 ranges.1, Int.not_lt.2 ranges.2⟩

theorem retry_inside {request : FailRequest} (ranges : e.inRange (.fail request)) :
    ¬ (request.retryInMs.any fun retry => decide (retry < 0 ∨ e.options.maxDelayMs < retry)) = true := by
  rw [Option.any_eq_true]
  rintro ⟨retry, given, outside⟩
  have := ranges retry given
  have := of_decide_eq_true outside
  omega

/-- What such a call answers, if its arguments are in range. -/
theorem call_answer (names : op.lease = some (id, token)) (unheld : ¬ e.Holds id token)
    (ranges : e.inRange op) :
    (e.Acked id token ∧ op = .ack id token → e.answers op = some none) ∧
      (¬ (e.Acked id token ∧ op = .ack id token) →
        e.answers op = some (some .kNotFound) ∨ e.answers op = some (some .kStaleToken)) := by
  obtain ⟨error, refused, code⟩ := findLeased_error unheld
  have answered : e.answers op = some (some error.code) →
      e.answers op = some (some .kNotFound) ∨ e.answers op = some (some .kStaleToken) := by
    intro answer
    rcases code with code | code
    · rw [code] at answer
      exact Or.inl answer
    · rw [code] at answer
      exact Or.inr answer
  cases op with
  | heartbeat id' token' leaseMs =>
    cases names
    refine ⟨fun acked => EngineOp.noConfusion acked.2, fun _ => answered ?_⟩
    have inside := lease_inside ranges
    unfold answers heartbeat
    dsimp only
    rw [if_neg inside, refused]
    rfl
  | ack id' token' =>
    cases names
    constructor
    · rintro ⟨acked, -⟩
      unfold answers ack
      dsimp only
      rw [if_pos (alreadyAcked_iff.2 acked)]
      rfl
    · intro not_acked
      apply answered
      have not_acked : ¬ e.alreadyAcked id token = true := fun acked =>
        not_acked ⟨alreadyAcked_iff.1 acked, rfl⟩
      unfold answers ack
      dsimp only
      rw [if_neg not_acked, refused]
      rfl
  | fail request =>
    cases names
    refine ⟨fun acked => EngineOp.noConfusion acked.2, fun _ => answered ?_⟩
    have inside := retry_inside ranges
    unfold answers fail
    dsimp only
    rw [if_neg inside, refused]
    rfl
  | _ => cases names

/-- The record of a call under the token the job is leased under. -/
def Uses (id token : Nat) : Record → Prop
  | .leaseExtended r => r.id = id ∧ r.token = token
  | .jobSucceeded r => r.id = id ∧ r.token = token
  | .attemptFailed r => r.id = id ∧ r.token = token
  | _ => False

/-- A call under the token the job is leased under logs one record and answers OK. -/
theorem call_held (names : op.lease = some (id, token)) (held : e.Holds id token)
    (ids : ∀ job, e.state.findJob id = some job → job.id = id) (ranges : e.inRange op) :
    ∃ (e₀ : Engine) (r : Record), e₀.state = e.state ∧ e₀.log = e.log ∧ Uses id token r ∧
      e.step op = e₀.logAndApply r ∧ e.answers op = (e₀.logAndApply r).map fun _ => none := by
  obtain ⟨job, found, leased, under⟩ := held
  have ok := findLeased_held found leased under
  have same_id := ids job found
  have answered : ∀ {α : Type} {a : α} {o : Option Engine},
      errorOf (o.map fun e => (Except.ok a, e)) = o.map fun _ => none := by
    intro α a o
    cases o <;> rfl
  cases op with
  | heartbeat id' token' leaseMs =>
    cases names
    have inside := lease_inside ranges
    refine ⟨e, .leaseExtended ⟨job.id, token, e.state.wallNow + leaseMs, e.state.wallNow⟩, rfl, rfl,
      ⟨same_id, rfl⟩, ?_, ?_⟩
    · unfold step heartbeat
      dsimp only
      rw [if_neg inside, ok]
      exact snd_map_some
    · unfold answers heartbeat
      dsimp only
      rw [if_neg inside, ok]
      exact answered
  | ack id' token' =>
    cases names
    have not_acked : ¬ e.alreadyAcked id token = true := by
      rw [alreadyAcked_iff]
      rintro ⟨job', found', succeeded, -⟩
      rw [found] at found'
      cases found'
      rw [leased] at succeeded
      cases succeeded
    refine ⟨e, .jobSucceeded ⟨job.id, token, e.state.wallNow⟩, rfl, rfl, ⟨same_id, rfl⟩, ?_, ?_⟩
    · unfold step ack
      dsimp only
      rw [if_neg not_acked, ok]
      exact snd_map_some
    · unfold answers ack
      dsimp only
      rw [if_neg not_acked, ok]
      exact answered
  | fail request =>
    cases names
    have inside := retry_inside ranges
    obtain ⟨⟨drawn, after⟩, id_of, token_of, -⟩ :=
      decideFailure_spec e job .kWorkerFailed request.error request.retryInMs request.noRetry
    set decided := e.decideFailure job .kWorkerFailed request.error request.retryInMs request.noRetry
      with decided_def
    refine ⟨decided.2, .attemptFailed decided.1, by rw [after], by rw [after],
      ⟨id_of.trans same_id, token_of.trans under⟩, ?_, ?_⟩
    · unfold step fail
      dsimp only
      rw [if_neg inside, ok]
      exact snd_map_some
    · unfold answers fail
      dsimp only
      rw [if_neg inside, ok]
      exact answered
  | _ => cases names

end Calls

end Engine

/-! ## The record of a call changes the state -/

namespace State

variable {s s' : State} {r : Record} {id token : Nat} {job : Job}

/-- An extended lease has another timer, whatever its new expiry time is. -/
theorem leaseExtended_changes {q : LeaseExtended} (inv : StateInv s nobody) (live : s.replaying = false)
    (applied : s.applyLeaseExtended q = .ok (some s')) : s' ≠ s := by
  unfold applyLeaseExtended at applied
  split at applied
  · cases applied
  rename_i job required
  obtain ⟨found, leased, -⟩ := requireLeased_ok required
  obtain ⟨left, leave, scheduled⟩ := Option.bind_eq_some_iff.1 (Except.ok.inj applied)
  have indexed := inv.indexed q.id job found (fun away => away)
  -- the job is off the heap and has the timer of its lease
  have off_heap : ¬ (s.heapIndex q.id).isSome := by
    have heap := indexed.heap
    rw [leased] at heap
    exact fun on => Bool.noConfusion (heap.symm.trans on)
  obtain ⟨handle, armed⟩ : ∃ handle, s.timer q.id = some handle := by
    have kind := indexed.timer
    rw [live, leased] at kind
    obtain ⟨handle, armed, -⟩ := Option.bind_eq_some_iff.1 kind
    exact ⟨handle, armed⟩
  obtain ⟨timer, pending, generation, -⟩ := inv.shape.timers.held q.id handle armed
  unfold leaveIndexes at leave
  rw [found] at leave
  dsimp only at leave
  rw [if_neg off_heap] at leave
  cases leave
  unfold scheduleLeaseTimer cancelTimer at scheduled
  rw [armed] at scheduled
  rw [if_neg (by rw [live]; exact Bool.false_ne_true)] at scheduled
  split at scheduled
  · cases scheduled
  obtain ⟨⟨handle', wheel⟩, again, result⟩ := Option.map_eq_some_iff.1 scheduled
  have other := TimingWheel.schedule_after_cancel pending generation again
  intro same
  have same := congrArg (fun s => s.timer q.id) (result.trans same)
  dsimp only at same
  rw [Function.update_self, armed] at same
  exact other (Option.some.inj same)

theorem call_changes (inv : StateInv s nobody) (live : s.replaying = false)
    (uses : Engine.Uses id token r) (applied : s.apply r = .ok (some s')) : s' ≠ s := by
  have step := apply_step inv applied
  -- the job of an ack or a failure is leased no more
  have moved : ∀ (q : Nat) (job job' : LedgerJob), s.ledger.jobs q = some job →
      s'.ledger.jobs q = some job' → job.state ≠ job'.state → s' ≠ s := by
    intro q job job' found found' differ same
    rw [same, found] at found'
    cases found'
    exact differ rfl
  cases r with
  | leaseExtended q => exact leaseExtended_changes inv live applied
  | jobSucceeded q =>
    generalize after_def : s'.ledger = after at step
    cases step with
    | @succeeded q job found leased under =>
      refine moved q.id job (job.finished .kSucceeded q.at_) found ?_ ?_
      · rw [after_def]
        exact Function.update_self _ _ _
      · rw [leased]
        exact PersistedState.noConfusion
  | attemptFailed q =>
    generalize after_def : s'.ledger = after at step
    cases step with
    | @failed q job found leased under =>
      refine moved q.id job (job.failed q) found ?_ ?_
      · rw [after_def, Ledger.failed_jobs]
        exact Function.update_self _ _ _
      · rw [leased]
        unfold LedgerJob.failed
        split <;> exact PersistedState.noConfusion
  | _ => cases uses

end State

/-- A reservation carries the next token, which is logged with it. -/
theorem Engine.reserve_token {e e' : Engine} {queues : List Bytes} {leaseMs : Int} {given : Reservation}
    (inv : e.state.StateInv State.nobody)
    (reserved : e.reserve queues leaseMs = some (.ok (some given), e')) :
    given.token = e.state.nextToken ∧
      ∃ q, q.token = given.token ∧ q.id = given.id ∧ e'.log = e.log ++ [Record.entry (.jobLeased q)] ∧
        e'.Holds given.id given.token := by
  unfold reserve at reserved
  split at reserved
  · cases reserved
  split at reserved
  · cases reserved
  split at reserved
  · cases reserved
  split at reserved
  · cases reserved
  rename_i queue id first
  obtain ⟨after, logged, result⟩ := Option.map_eq_some_iff.1 reserved
  have answer := Except.ok.inj (congrArg Prod.fst result)
  obtain rfl : after = e' := congrArg Prod.snd result
  obtain ⟨state, applied, -, rfl⟩ := logAndApply_some logged
  obtain ⟨job, t, found, -, -, -, placed, rfl⟩ := State.applyJobLeased_spec inv applied
  have same_id : job.id = id := inv.shape.jobIds id job found
  obtain ⟨held, at_state, rfl⟩ := Option.map_eq_some_iff.1 answer
  have at_t : t.findJob id = some held := at_state
  rw [show t.findJob id = _ from placed.found] at at_t
  cases at_t
  refine ⟨rfl, _, rfl, same_id.symm, rfl, ?_⟩
  show Holds _ job.id _
  rw [same_id]
  exact ⟨_, at_state, rfl, rfl⟩

/-! ## Runs -/

namespace World

variable {w w' : World}

/-- A lease that is held is held in the history. -/
theorem holds_full {regime : Regime} {full : Ledger} {id token : Nat}
    (sub : Ledger.Sub (Gone regime w.engine.state) (Lapsed regime w.engine.state) w.engine.state.ledger full) :
    w.engine.Holds id token ↔
      ∃ job, full.jobs id = some job ∧ job.state = .kLeased ∧ job.leaseToken = token := by
  constructor
  · rintro ⟨job, found, leased, under⟩
    exact ⟨job.ledger, sub.found (State.ledger_jobs found), persisted_leased.2 leased, under⟩
  · rintro ⟨job, found, leased, under⟩
    have kept : ¬ Gone regime w.engine.state job := by
      rintro ⟨terminal, -⟩
      unfold LedgerJob.isTerminal at terminal
      rw [leased] at terminal
      cases terminal
    obtain ⟨held, at_state, rfl⟩ := Option.map_eq_some_iff.1 (sub.kept found kept)
    exact ⟨held, at_state, persisted_leased.1 leased, under⟩

variable {regime : Regime} {q : JobLeased} {op : EngineOp}

/-- A token that was granted and whose lease is not held is spent. -/
theorem spent_of_ended {full : Ledger}
    (history : Ledger.History w.records full)
    (sub : Ledger.Sub (Gone regime w.engine.state) (Lapsed regime w.engine.state) w.engine.state.ledger full)
    (granted : .jobLeased q ∈ w.records) (ended : ¬ w.engine.Holds q.id q.token) :
    Ledger.Spent q.token full := by
  constructor
  · exact history.tokens_increase.1 _ (List.mem_filterMap.2 ⟨_, granted, rfl⟩)
  · intro id job found leased under
    obtain ⟨q', granted', of_id, of_token⟩ := history.granted found leased
    obtain rfl := history.granted_once granted granted' (under.symm.trans of_token.symm)
    exact ended ((holds_full sub).2 ⟨job, of_id ▸ found, leased, under⟩)

/-- No call with a spent token does anything, then or later. -/
theorem ended_for_good (good : Good { lossless := true } w) (granted : .jobLeased q ∈ w.records)
    (ended : ¬ w.engine.Holds q.id q.token) (run : Runs { lossless := true } w w') {id : Nat}
    (names : op.lease = some (id, q.token)) : w'.engine.step op = some w'.engine := by
  obtain ⟨full, history, sub⟩ := good.full
  obtain ⟨full', history', sub'⟩ := (good_runs good run).full
  have spent := spent_of_ended history sub granted ended
  obtain ⟨more, whole⟩ := runs_grow rfl run
  rw [← whole] at history'
  have spent' : Ledger.Spent q.token full' :=
    @Ledger.replay_keeps _ _ (fun _ l => Ledger.Spent q.token l) more
      (fun _ _ _ _ _ step spent => spent.step step) 0 (history'.rest history) spent
  apply Engine.call_unheld names
  intro held
  obtain ⟨job, found, leased, under⟩ := (holds_full sub').1 held
  exact spent'.free id job found leased under

/-- What a call under a token does. -/
structure Fenced (e : Engine) (op : EngineOp) (id token : Nat) : Prop where
  /-- it works if the job is leased under the token -/
  held : e.Holds id token → ∀ e', e.step op = some e' →
    e.answers op = some none ∧
      ∃ r, e'.log = e.log ++ [r.entry] ∧ e.state.apply r = .ok (some e'.state) ∧ e'.state ≠ e.state
  returns : e.Capacity → ∃ e', e.step op = some e'
  /-- it logs nothing and changes nothing otherwise -/
  unheld : ¬ e.Holds id token → e.step op = some e
  repeated : e.Acked id token → op = .ack id token → e.step op = some e ∧ e.answers op = some none
  refused : ¬ e.Holds id token → ¬ (e.Acked id token ∧ op = .ack id token) →
    e.answers op = some (some .kNotFound) ∨ e.answers op = some (some .kStaleToken)

theorem fenced_call (good : Good regime w) {id token : Nat}
    (names : op.lease = some (id, token)) (ranges : w.engine.inRange op) : Fenced w.engine op id token := by
  have exclusive : w.engine.Acked id token → ¬ w.engine.Holds id token := by
    rintro ⟨job, found, succeeded, -⟩ ⟨job', found', leased, -⟩
    rw [found] at found'
    cases found'
    rw [succeeded] at leased
    cases leased
  constructor
  · intro held e' stepped
    obtain ⟨e₀, r, same_state, same_log, uses, one, answer⟩ :=
      Engine.call_held names held (fun job found => good.inv.shape.jobIds id job found) ranges
    rw [one] at stepped
    rw [stepped] at answer
    obtain ⟨state, applied, -, rfl⟩ := Engine.logAndApply_some stepped
    rw [same_state] at applied
    refine ⟨answer, r, ?_, applied, State.call_changes good.inv good.live uses applied⟩
    rw [← same_log]
  · intro capacity
    exact Engine.step_total op good.inv good.live good.budgeted capacity
  · exact Engine.call_unheld names
  · intro acked ack
    exact ⟨Engine.call_unheld names (exclusive acked),
      (Engine.call_answer names (exclusive acked) ranges).1 ⟨acked, ack⟩⟩
  · intro unheld other
    exact (Engine.call_answer names unheld ranges).2 other

/-- Fencing, in every run that recovers what it logged.  Tokens are issued in increasing
order.  A call under a token works as long as the job is leased under it; a repeated ack
is answered OK; every other call is refused and changes nothing.  And once a lease has
ended, no call under its token changes anything again. -/
theorem fencing (reachable : Reachable { lossless := true } w) :
    (w.records.filterMap Ledger.issuedToken).Pairwise (· < ·) ∧
      (∀ token ∈ w.records.filterMap Ledger.issuedToken, token < w.engine.state.nextToken) ∧
      (∀ queues leaseMs given e', w.engine.reserve queues leaseMs = some (.ok (some given), e') →
        given.token = w.engine.state.nextToken ∧
          ∃ q, q.token = given.token ∧ q.id = given.id ∧
            e'.log = w.engine.log ++ [Record.entry (.jobLeased q)] ∧ e'.Holds given.id given.token) ∧
      (∀ op id token, EngineOp.lease op = some (id, token) → w.engine.inRange op →
        Fenced w.engine op id token) ∧
      (∀ q job, .jobSucceeded q ∈ w.records → w.engine.state.findJob q.id = some job →
        w.engine.Acked q.id q.token) ∧
      (∀ q, .jobLeased q ∈ w.records → ¬ w.engine.Holds q.id q.token →
        ∀ w', Runs { lossless := true } w w' → ∀ op id, EngineOp.lease op = some (id, q.token) →
          w'.engine.step op = some w'.engine) := by
  have good := good_reachable reachable
  obtain ⟨full, history, sub⟩ := good.full
  refine ⟨history.tokens_increase.2, ?_, ?_, ?_, ?_, ?_⟩
  · intro token issued
    exact Nat.lt_of_lt_of_eq (history.tokens_increase.1 token issued) sub.nextToken.symm
  · intro queues leaseMs given e' reserved
    exact Engine.reserve_token good.inv reserved
  · intro op id token names ranges
    exact fenced_call good names ranges
  · intro q job logged found
    obtain ⟨job', at_full, succeeded, under⟩ := history.succeeded logged
    have same := at_full.symm.trans (sub.found (State.ledger_jobs found))
    cases same
    exact ⟨job, found, persisted_succeeded.1 succeeded, under⟩
  · intro q granted ended w' run op id names
    exact ended_for_good good granted ended run names

/-- A job is leased and acknowledged; the ack can be repeated. -/
theorem fencing_acked :
    ∃ w, Reachable { lossless := true } w ∧ w.records.length = 3 ∧ w.engine.Acked 1 1 ∧
      w.engine.step (.ack 1 1) = some w.engine ∧ w.engine.answers (.ack 1 1) = some none := by
  obtain ⟨w, reachable, count, acked⟩ :
      ∃ w, Reachable { lossless := true } w ∧ w.records.length = 3 ∧ w.engine.alreadyAcked 1 1 = true :=
    ⟨_, ⟨{}, samplePlatform, {}, fun _ => 0, 1000, 0,
      .tail (.tail (.single (.op (.enqueue { queue := [113], payload := [7] }) nofun rfl))
        (.op (.reserve [[113]] 500) nofun rfl)) (.op (.ack 1 1) nofun rfl)⟩, rfl, by decide +kernel⟩
  have acked := Engine.alreadyAcked_iff.1 acked
  obtain ⟨-, -, -, calls, -, -⟩ := fencing reachable
  obtain ⟨same, answer⟩ := (calls (.ack 1 1) 1 1 rfl trivial).repeated acked rfl
  exact ⟨w, reachable, count, acked, same, answer⟩

end World

end Baton
