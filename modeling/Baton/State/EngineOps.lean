/-
# State.EngineOps — every operation of the engine, and the records it logs

The operations of `Engine` come in two kinds.  A request builds its records, and then
logs them one after the other (`request_eq`).  A tick moves the clocks, rebuilds what
a jump of the wall clock calls for and fires the timers; then it logs one record for
each lease that ran out; then it collects garbage (`tick_eq`).

`Issues e r` is what the engine knows of a record when it logs it, and `Logged` is a
run of such records.  `step_operated` says that this is all any operation does, between
a start and an end that log nothing, so that everything else about the engine is
proved of `Logged`.
-/
import Baton.State.Collection
import Baton.State.Engine
import Baton.State.Replay
import Baton.Theory.Chunks

namespace Baton

open Theory
open Option (bind_eq_some_iff bind_some map_eq_some_iff)
open State (StateInv apply_frame apply_inv nobody)

set_option autoImplicit false

/-- A request, or a tick with what the clocks read. -/
inductive EngineOp where
  | tick (iteration : IterationOrder) (wall : Int) (mono monoAgain : Nat)
  | enqueue (request : EnqueueRequest)
  | reserve (queues : List Bytes) (leaseMs : Int)
  | heartbeat (id token : Nat) (leaseMs : Int)
  | ack (id token : Nat)
  | fail (request : FailRequest)
  | cancel (id : Nat)
  | dlqRetry (id : Nat)
  | dlqRetryAll (queue : Bytes)
  | dlqPurge (id : Nat)
  | dlqPurgeAll (queue : Bytes)

def EngineOp.isTick : EngineOp → Bool
  | .tick _ _ _ _ => true
  | _ => false

/-- The wall clock as an operation finds it. -/
def EngineOp.clock (now : Int) : EngineOp → Int
  | .tick _ wall _ _ => wall
  | _ => now

namespace Engine

/-- The engine after an operation, whatever it answered. -/
def step (e : Engine) : EngineOp → Option Engine
  | .tick iteration wall mono monoAgain => e.tick iteration wall mono monoAgain
  | .enqueue request => (e.enqueue request).map Prod.snd
  | .reserve queues leaseMs => (e.reserve queues leaseMs).map Prod.snd
  | .heartbeat id token leaseMs => (e.heartbeat id token leaseMs).map Prod.snd
  | .ack id token => (e.ack id token).map Prod.snd
  | .fail request => (e.fail request).map Prod.snd
  | .cancel id => (e.cancel id).map Prod.snd
  | .dlqRetry id => (e.dlqRetry id).map Prod.snd
  | .dlqRetryAll queue => (e.dlqRetryAll queue).map Prod.snd
  | .dlqPurge id => (e.dlqPurge id).map Prod.snd
  | .dlqPurgeAll queue => (e.dlqPurgeAll queue).map Prod.snd

/-! ## Requests -/

/-- The records one after the other. -/
def logAll : List Record → Engine → Option Engine
  | [], e => some e
  | r :: rs, e => (e.logAndApply r).bind (logAll rs)

/-- What a request comes to: the records it builds, and the engine that has drawn the
random number a retry needs.  A request that is refused, or that has nothing to do,
builds none. -/
def requested (e : Engine) : EngineOp → Engine × List Record
  | .tick _ _ _ _ => (e, [])
  | .enqueue request =>
    match e.checkEnqueue request with
    | .error _ => (e, [])
    | .ok () =>
      match e.liveIdem request with
      | some _ => (e, [])
      | none =>
        if e.options.maxMemoryBytes ≠ 0 ∧
            e.options.maxMemoryBytes < e.state.memoryBytes + e.estimatedJobBytes request then (e, [])
        else (e, [.jobEnqueued (e.enqueueRecord request)])
  | .reserve queues leaseMs =>
    if queues.isEmpty ∨ !queues.all isValidQueueName ∨ leaseMs < e.options.minLeaseMs ∨
        e.options.maxLeaseMs < leaseMs then (e, [])
    else
      match e.firstReady queues with
      | none => (e, [])
      | some (_, id) =>
        (e, [.jobLeased ⟨id, e.state.nextToken, e.state.wallNow + leaseMs, e.state.wallNow⟩])
  | .heartbeat id token leaseMs =>
    if leaseMs < e.options.minLeaseMs ∨ e.options.maxLeaseMs < leaseMs then (e, [])
    else
      match e.findLeased id token with
      | .error _ => (e, [])
      | .ok job =>
        (e, [.leaseExtended ⟨job.id, token, e.state.wallNow + leaseMs, e.state.wallNow⟩])
  | .ack id token =>
    if e.alreadyAcked id token then (e, [])
    else
      match e.findLeased id token with
      | .error _ => (e, [])
      | .ok job => (e, [.jobSucceeded ⟨job.id, token, e.state.wallNow⟩])
  | .fail request =>
    if request.retryInMs.any fun retry => decide (retry < 0 ∨ e.options.maxDelayMs < retry) then (e, [])
    else
      match e.findLeased request.id request.token with
      | .error _ => (e, [])
      | .ok job =>
        let (record, e) :=
          e.decideFailure job .kWorkerFailed request.error request.retryInMs request.noRetry
        (e, [.attemptFailed record])
  | .cancel id =>
    match e.state.findJob id with
    | none => (e, [])
    | some job => if job.state.isTerminal then (e, []) else (e, [.jobCancelled ⟨id, e.state.wallNow⟩])
  | .dlqRetry id =>
    match e.findDead id with
    | .error _ => (e, [])
    | .ok job => (e, [.deadJobRetried ⟨job.id, e.state.wallNow, e.state.wallNow⟩])
  | .dlqRetryAll queue =>
    if !isValidQueueName queue then (e, [])
    else
      match e.state.findQueue queue with
      | none => (e, [])
      | some q =>
        (e, (deadIds q).map fun id => .deadJobRetried ⟨id, e.state.wallNow, e.state.wallNow⟩)
  | .dlqPurge id =>
    match e.findDead id with
    | .error _ => (e, [])
    | .ok job => (e, [.jobsPurged ⟨[job.id]⟩])
  | .dlqPurgeAll queue =>
    if !isValidQueueName queue then (e, [])
    else
      match e.state.findQueue queue with
      | none => (e, [])
      | some q =>
        (e, (chunksOf (fun _ => kPurgeChunk) (deadIds q).length (deadIds q)).map fun ids => .jobsPurged ⟨ids⟩)

/-- The answer is an error. -/
def refused {α : Type} (answer : Option (Result α × Engine)) : Bool :=
  answer.any fun answered =>
    match answered.1 with
    | .error _ => true
    | .ok _ => false

/-- The request is answered with an error. -/
def refuses (e : Engine) : EngineOp → Bool
  | .tick _ _ _ _ => false
  | .enqueue request => refused (e.enqueue request)
  | .reserve queues leaseMs => refused (e.reserve queues leaseMs)
  | .heartbeat id token leaseMs => refused (e.heartbeat id token leaseMs)
  | .ack id token => refused (e.ack id token)
  | .fail request => refused (e.fail request)
  | .cancel id => refused (e.cancel id)
  | .dlqRetry id => refused (e.dlqRetry id)
  | .dlqRetryAll queue => refused (e.dlqRetryAll queue)
  | .dlqPurge id => refused (e.dlqPurge id)
  | .dlqPurgeAll queue => refused (e.dlqPurgeAll queue)

section Requests

variable {e e' : Engine} {r : Record}

theorem logAll_single : logAll [r] e = e.logAndApply r := by
  show (e.logAndApply r).bind some = _
  cases e.logAndApply r <;> rfl

variable {ids : List Nat}

theorem logRetries_eq {now : Int} :
    logRetries now ids e = logAll (ids.map fun id => .deadJobRetried ⟨id, now, now⟩) e := by
  induction ids generalizing e with
  | nil => rfl
  | cons id ids ih =>
    rw [logRetries, List.map_cons, logAll]
    congr 1
    funext e
    exact ih

theorem logPurges_eq {fuel : Nat} :
    logPurges fuel ids e =
      logAll ((chunksOf (fun _ => kPurgeChunk) fuel ids).map fun ids => .jobsPurged ⟨ids⟩) e := by
  induction fuel generalizing ids e with
  | zero => rfl
  | succ fuel ih =>
    rw [logPurges, chunksOf]
    split
    · rfl
    · rw [List.map_cons, logAll]
      congr 1
      funext e
      exact ih

theorem snd_map_some {α : Type} {a : α} {o : Option Engine} : (o.map (a, ·)).map Prod.snd = o := by
  cases o <;> rfl

/-- The checks of `enqueue` that come before the job is made. -/
structure Admits (e : Engine) (request : EnqueueRequest) : Prop where
  checked : e.checkEnqueue request = .ok ()
  free : e.liveIdem request = none
  fits : ¬ (e.options.maxMemoryBytes ≠ 0 ∧
    e.options.maxMemoryBytes < e.state.memoryBytes + e.estimatedJobBytes request)

theorem Admits.requested {e : Engine} {request : EnqueueRequest} (admits : e.Admits request) :
    e.requested (.enqueue request) = (e, [.jobEnqueued (e.enqueueRecord request)]) := by
  simp only [Engine.requested, admits.checked, admits.free, if_neg admits.fits]

/-- What a request builds when it gets as far as that, and what it has checked by then. -/
inductive Builds (e : Engine) : EngineOp → Engine × List Record → Prop
  | enqueue {request : EnqueueRequest} (admits : e.Admits request) :
      Builds e (.enqueue request) (e, [.jobEnqueued (e.enqueueRecord request)])
  | reserve {queues : List Bytes} {leaseMs : Int} {queue : Bytes} {id : Nat}
      (lease : ¬ (leaseMs < e.options.minLeaseMs ∨ e.options.maxLeaseMs < leaseMs))
      (first : e.firstReady queues = some (queue, id)) : Builds e (.reserve queues leaseMs)
        (e, [.jobLeased ⟨id, e.state.nextToken, e.state.wallNow + leaseMs, e.state.wallNow⟩])
  | heartbeat {id token : Nat} {leaseMs : Int} {job : Job}
      (lease : ¬ (leaseMs < e.options.minLeaseMs ∨ e.options.maxLeaseMs < leaseMs))
      (leased : e.findLeased id token = .ok job) : Builds e (.heartbeat id token leaseMs)
        (e, [.leaseExtended ⟨job.id, token, e.state.wallNow + leaseMs, e.state.wallNow⟩])
  | ack {id token : Nat} {job : Job} (leased : e.findLeased id token = .ok job) :
      Builds e (.ack id token) (e, [.jobSucceeded ⟨job.id, token, e.state.wallNow⟩])
  | fail {request : FailRequest} {job : Job}
      (retry : ¬ (request.retryInMs.any fun retry => decide (retry < 0 ∨ e.options.maxDelayMs < retry)) = true)
      (leased : e.findLeased request.id request.token = .ok job) : Builds e (.fail request)
        (let (record, e) := e.decideFailure job .kWorkerFailed request.error request.retryInMs request.noRetry
        (e, [.attemptFailed record]))
  | cancel {id : Nat} {job : Job} (found : e.state.findJob id = some job)
      (active : ¬ job.state.isTerminal = true) :
      Builds e (.cancel id) (e, [.jobCancelled ⟨id, e.state.wallNow⟩])
  | dlqRetry {id : Nat} {job : Job} (dead : e.findDead id = .ok job) :
      Builds e (.dlqRetry id) (e, [.deadJobRetried ⟨job.id, e.state.wallNow, e.state.wallNow⟩])
  | dlqRetryAll {queue : Bytes} {q : Queue} (found : e.state.findQueue queue = some q) :
      Builds e (.dlqRetryAll queue)
        (e, (deadIds q).map fun id => .deadJobRetried ⟨id, e.state.wallNow, e.state.wallNow⟩)
  | dlqPurge {id : Nat} {job : Job} (dead : e.findDead id = .ok job) :
      Builds e (.dlqPurge id) (e, [.jobsPurged ⟨[job.id]⟩])
  | dlqPurgeAll {queue : Bytes} {q : Queue} (found : e.state.findQueue queue = some q) :
      Builds e (.dlqPurgeAll queue)
        (e, (chunksOf (fun _ => kPurgeChunk) (deadIds q).length (deadIds q)).map fun ids => .jobsPurged ⟨ids⟩)

/-- A request is answered at once and changes nothing, or it logs what it builds and is
answered without an error. -/
inductive Answers {α : Type} (e : Engine) (op : EngineOp) :
    Option (Result α × Engine) → Engine × List Record → Prop
  | unchanged (reply : Result α) : Answers e op (some (reply, e)) (e, [])
  | logged {built : Engine × List Record} (reply : Engine → α) (builds : Builds e op built) :
      Answers e op ((logAll built.2 built.1).map fun e => (.ok (reply e), e)) built

/-- The handlers, gone through once. -/
theorem request_answers (e : Engine) (op : EngineOp) (no_tick : op.isTick = false) :
    ∃ (α : Type) (answer : Option (Result α × Engine)), e.step op = answer.map Prod.snd ∧
      e.refuses op = refused answer ∧ e.Answers op answer (e.requested op) := by
  cases op with
  | tick iteration wall mono monoAgain => cases no_tick
  | enqueue request =>
    refine ⟨_, e.enqueue request, rfl, rfl, ?_⟩
    unfold enqueue requested
    dsimp only
    cases checked : e.checkEnqueue request with
    | error error => exact .unchanged _
    | ok _ =>
      cases free : e.liveIdem request with
      | some id => exact .unchanged _
      | none =>
        dsimp only
        split
        · exact .unchanged _
        · rename_i fits
          rw [← logAll_single]
          exact .logged (fun _ => _) (.enqueue ⟨checked, free, fits⟩)
  | reserve queues leaseMs =>
    refine ⟨_, e.reserve queues leaseMs, rfl, rfl, ?_⟩
    unfold reserve requested
    dsimp only
    by_cases empty : queues.isEmpty = true
    · rw [if_pos empty, if_pos (Or.inl empty)]
      exact .unchanged _
    rw [if_neg empty]
    by_cases invalidName : (!queues.all isValidQueueName) = true
    · rw [if_pos invalidName, if_pos (Or.inr (Or.inl invalidName))]
      exact .unchanged _
    rw [if_neg invalidName]
    by_cases outside : leaseMs < e.options.minLeaseMs ∨ e.options.maxLeaseMs < leaseMs
    · rw [if_pos outside, if_pos (Or.inr (Or.inr outside))]
      exact .unchanged _
    rw [if_neg outside, if_neg (not_or.2 ⟨empty, not_or.2 ⟨invalidName, outside⟩⟩)]
    cases first : e.firstReady queues with
    | none => exact .unchanged _
    | some found =>
      obtain ⟨queue, id⟩ := found
      dsimp only
      rw [← logAll_single]
      exact .logged (fun e => reservation e.state queue id) (.reserve outside first)
  | heartbeat id token leaseMs =>
    refine ⟨_, e.heartbeat id token leaseMs, rfl, rfl, ?_⟩
    unfold heartbeat requested
    dsimp only
    split
    · exact .unchanged _
    rename_i lease
    cases leased : e.findLeased id token with
    | error error => exact .unchanged _
    | ok job =>
      dsimp only
      rw [← logAll_single]
      exact .logged (fun _ => _) (.heartbeat lease leased)
  | ack id token =>
    refine ⟨_, e.ack id token, rfl, rfl, ?_⟩
    unfold ack requested
    dsimp only
    split
    · exact .unchanged _
    cases leased : e.findLeased id token with
    | error error => exact .unchanged _
    | ok job =>
      dsimp only
      rw [← logAll_single]
      exact .logged (fun _ => _) (.ack leased)
  | fail request =>
    refine ⟨_, e.fail request, rfl, rfl, ?_⟩
    unfold fail requested
    dsimp only
    split
    · exact .unchanged _
    rename_i retry
    cases leased : e.findLeased request.id request.token with
    | error error => exact .unchanged _
    | ok job =>
      dsimp only
      rw [← logAll_single]
      exact .logged (fun _ => _) (.fail retry leased)
  | cancel id =>
    refine ⟨_, e.cancel id, rfl, rfl, ?_⟩
    unfold cancel requested
    dsimp only
    cases found : e.state.findJob id with
    | none => exact .unchanged _
    | some job =>
      dsimp only
      split
      · exact .unchanged _
      · rename_i active
        rw [← logAll_single]
        exact .logged (fun _ => _) (.cancel found active)
  | dlqRetry id =>
    refine ⟨_, e.dlqRetry id, rfl, rfl, ?_⟩
    unfold dlqRetry requested
    dsimp only
    cases dead : e.findDead id with
    | error error => exact .unchanged _
    | ok job =>
      dsimp only
      rw [← logAll_single]
      exact .logged (fun _ => _) (.dlqRetry dead)
  | dlqRetryAll queue =>
    refine ⟨_, e.dlqRetryAll queue, rfl, rfl, ?_⟩
    unfold dlqRetryAll requested
    dsimp only
    split
    · exact .unchanged _
    cases found : e.state.findQueue queue with
    | none => exact .unchanged _
    | some q =>
      dsimp only
      rw [logRetries_eq]
      exact .logged (fun _ => _) (.dlqRetryAll found)
  | dlqPurge id =>
    refine ⟨_, e.dlqPurge id, rfl, rfl, ?_⟩
    unfold dlqPurge requested
    dsimp only
    cases dead : e.findDead id with
    | error error => exact .unchanged _
    | ok job =>
      dsimp only
      rw [← logAll_single]
      exact .logged (fun _ => _) (.dlqPurge dead)
  | dlqPurgeAll queue =>
    refine ⟨_, e.dlqPurgeAll queue, rfl, rfl, ?_⟩
    unfold dlqPurgeAll requested
    dsimp only
    split
    · exact .unchanged _
    cases found : e.state.findQueue queue with
    | none => exact .unchanged _
    | some q =>
      dsimp only
      rw [logPurges_eq]
      exact .logged (fun _ => _) (.dlqPurgeAll found)

/-- A request logs what it builds. -/
theorem request_eq (e : Engine) (op : EngineOp) (no_tick : op.isTick = false) :
    e.step op = logAll (e.requested op).2 (e.requested op).1 := by
  obtain ⟨α, answer, stepped, -, answers⟩ := request_answers e op no_tick
  rw [stepped]
  generalize e.requested op = built at answers
  cases answers with
  | unchanged reply => rfl
  | logged reply builds => cases logAll built.2 built.1 <;> rfl

/-- A request that is answered with an error changes nothing. -/
theorem unchanged_of_refuses {op : EngineOp} (refuses : e.refuses op = true) : e.step op = some e := by
  have no_tick : op.isTick = false := by
    cases op with
    | tick iteration wall mono monoAgain => cases refuses
    | _ => rfl
  obtain ⟨α, answer, stepped, refuses_eq, answers⟩ := request_answers e op no_tick
  rw [refuses_eq] at refuses
  rw [stepped]
  generalize e.requested op = built at answers
  cases answers with
  | unchanged reply => rfl
  | logged reply builds =>
    generalize logAll built.2 built.1 = after at refuses
    cases after <;> cases refuses

/-- What a request builds: nothing, or what its checks allow. -/
theorem requested_builds (e : Engine) (op : EngineOp) :
    e.requested op = (e, []) ∨ e.Builds op (e.requested op) := by
  cases tick : op.isTick with
  | true =>
    cases op with
    | tick iteration wall mono monoAgain => exact Or.inl rfl
    | _ => cases tick
  | false =>
    obtain ⟨α, answer, -, -, answers⟩ := request_answers e op tick
    generalize e.requested op = built at answers ⊢
    cases answers with
    | unchanged reply => exact Or.inl rfl
    | logged reply builds => exact Or.inr builds

end Requests

/-! ## Ticks -/

/-- A tick up to the leases that ran out. -/
def startTick (e : Engine) (iteration : IterationOrder) (wall : Int) (mono monoAgain : Nat) :
    Option (Engine × List Nat) := do
  let e := { e with state := e.state.setNow wall mono }
  let e ← e.detectClockJump iteration monoAgain
  let (state, expired) ← e.state.advanceTimers
  some ({ e with state }, expired)

def finishTick (e : Engine) : Option Engine := e.state.collectGarbage.map fun state => { e with state }

/-- The records of `expireLeases`. -/
def expireRecords : List Nat → Engine → List Record
  | [], _ => []
  | id :: ids, e =>
    match e.state.findJob id with
    | none => expireRecords ids e
    | some job =>
      if job.state ≠ .kLeased then expireRecords ids e
      else
        let (record, e) := e.decideFailure job .kLeaseExpired leaseExpired none false
        .attemptFailed record :: ((e.logAndApply (.attemptFailed record)).map (expireRecords ids)).getD []

theorem tick_eq (e : Engine) (iteration : IterationOrder) (wall : Int) (mono monoAgain : Nat) :
    e.tick iteration wall mono monoAgain =
      (e.startTick iteration wall mono monoAgain).bind fun started =>
        (expireLeases started.2 started.1).bind finishTick := by
  unfold tick startTick
  dsimp only [Option.bind_eq_bind]
  cases detectClockJump _ iteration monoAgain with
  | none => rfl
  | some jumped =>
    dsimp only [bind_some]
    cases jumped.state.advanceTimers with
    | none => rfl
    | some advanced =>
      dsimp only [bind_some]
      cases expireLeases advanced.2 { jumped with state := advanced.1 } with
      | none => rfl
      | some expired =>
        dsimp only [bind_some, finishTick]
        cases expired.state.collectGarbage <;> rfl

/-- The records an operation logs. -/
def written (e : Engine) : EngineOp → List Record
  | .tick iteration wall mono monoAgain =>
    match e.startTick iteration wall mono monoAgain with
    | none => []
    | some (e, expired) => expireRecords expired e
  | op => (e.requested op).2

/-- The state an operation logs its first record in. -/
def begun (e : Engine) : EngineOp → Option State
  | .tick iteration wall mono monoAgain =>
    (e.startTick iteration wall mono monoAgain).map fun started => started.1.state
  | _ => some e.state

/-! ## What is known of a record that is logged -/

/-- The engine has checked, when it logs a record, all that `apply` asks for; and the
times in it are those of the clock. -/
def Issues (e : Engine) : Record → Prop
  | .jobEnqueued r =>
    r.id = e.state.nextJobId ∧ r.queue ≠ [] ∧ r.maxAttempts ≠ 0 ∧ r.at_ = e.state.wallNow ∧
      (r.idemKey ≠ [] → r.idemExpiresAt = e.state.wallNow + e.options.idempotencyWindowMs ∧
        ∀ entry, e.state.findIdem r.idemKey = some entry → entry.expiresAt ≤ e.state.wallNow)
  | .jobLeased r =>
    r.token = e.state.nextToken ∧ ∃ job, e.state.findJob r.id = some job ∧ job.state = .kReady
  | .leaseExtended r =>
    ∃ job, e.state.findJob r.id = some job ∧ job.state = .kLeased ∧ job.leaseToken = r.token
  | .jobSucceeded r =>
    r.at_ = e.state.wallNow ∧
      ∃ job, e.state.findJob r.id = some job ∧ job.state = .kLeased ∧ job.leaseToken = r.token
  | .attemptFailed r =>
    r.at_ = e.state.wallNow ∧
      ∃ job, e.state.findJob r.id = some job ∧ job.state = .kLeased ∧ job.leaseToken = r.token ∧
        (r.dead = false → job.attempts < job.maxAttempts) ∧
        (r.reason = .kLeaseExpired → job.leaseExpiresAt ≤ e.state.wallNow)
  | .jobCancelled r =>
    r.at_ = e.state.wallNow ∧ ∃ job, e.state.findJob r.id = some job ∧ job.state.isTerminal = false
  | .deadJobRetried r => ∃ job, e.state.findJob r.id = some job ∧ job.state = .kDead
  | .jobsPurged r => ∀ id ∈ r.ids, ∃ job, e.state.findJob id = some job ∧ job.state = .kDead

/-- Records logged one after the other, each issued in the state it finds.  Between
them the generator may be drawn from. -/
inductive Logged : Engine → List Record → Engine → Prop where
  | done (e : Engine) : Logged e [] e
  | log {e e' : Engine} {r : Record} {rs : List Record} {away : Nat → Prop} {state : State} (drawn : Nat)
      (inv : e.state.StateInv away) (issued : e.Issues r) (applied : e.state.apply r = .ok (some state))
      (small : e.lastLsn + 1 < 2 ^ 64)
      (rest : Logged { e with drawn, state, lastLsn := e.lastLsn + 1, log := e.log ++ [r.entry] } rs e') :
      Logged e (r :: rs) e'

/-- Records that can be logged one after the other, as far as the state goes: each is
issued once the ones before it are logged. -/
inductive Issuable : Engine → List Record → Prop where
  | nil (e : Engine) : Issuable e []
  | cons {e : Engine} {r : Record} {rs : List Record} {away : Nat → Prop} (inv : e.state.StateInv away)
      (issued : e.Issues r) (rest : ∀ next, e.logAndApply r = some next → Issuable next rs) :
      Issuable e (r :: rs)

section Logging

variable {e e' : Engine} {r : Record} {rs : List Record} {away : Nat → Prop}

theorem logAndApply_some (logged : e.logAndApply r = some e') :
    ∃ state, e.state.apply r = .ok (some state) ∧ e.lastLsn + 1 < 2 ^ 64 ∧
      e' = { e with state, lastLsn := e.lastLsn + 1, log := e.log ++ [r.entry] } := by
  unfold logAndApply at logged
  split at logged
  · rename_i state applied
    unfold append at logged
    split at logged
    · rename_i room
      cases logged
      exact ⟨state, applied, room.1, rfl⟩
    · cases logged
  · cases logged
  · cases logged

theorem Issuable.logged (issuable : Issuable e rs) (done : logAll rs e = some e') : Logged e rs e' := by
  induction issuable with
  | nil e =>
    cases done
    exact .done _
  | @cons e r rs away inv issued rest ih =>
    obtain ⟨next, first, more⟩ := bind_eq_some_iff.1 done
    have logged := ih next first more
    obtain ⟨state, applied, small, rfl⟩ := logAndApply_some first
    exact .log e.drawn inv issued applied small logged

/-- Records about dead jobs, each about jobs of its own, can be logged one after the other. -/
theorem issuable_dead {ids : List Nat} (touched : rs.flatMap Record.touches = ids) (apart : ids.Nodup)
    (inv : e.state.StateInv nobody)
    (enough : ∀ r ∈ rs, ∀ e : Engine,
      (∀ id ∈ r.touches, ∃ job, e.state.findJob id = some job ∧ job.state = .kDead) → e.Issues r)
    (dead : ∀ id ∈ ids, ∃ job, e.state.findJob id = some job ∧ job.state = .kDead) : Issuable e rs := by
  subst touched
  induction rs generalizing e with
  | nil => exact .nil e
  | cons r rs ih =>
    rw [List.flatMap_cons] at apart dead
    obtain ⟨-, apart', others⟩ := List.nodup_append.1 apart
    refine .cons inv (enough r List.mem_cons_self e fun id mem => dead id (List.mem_append_left _ mem)) ?_
    intro next first
    obtain ⟨state, applied, -, rfl⟩ := logAndApply_some first
    refine ih (apply_inv inv applied) (fun r mem => enough r (List.mem_cons_of_mem _ mem)) apart' ?_
    intro j mem
    obtain ⟨job, found, is_dead⟩ := dead j (List.mem_append_right _ mem)
    have other : j ∉ r.touches := fun here => others j here j mem rfl
    exact ⟨job, ((apply_frame inv applied).others j other).trans found, is_dead⟩

end Logging

/-! ## The handlers issue what they check -/

section Handlers

variable {e e' : Engine}

theorem findLeased_ok {id token : Nat} {job : Job} (found : e.findLeased id token = .ok job) :
    e.state.findJob id = some job ∧ job.state = .kLeased ∧ job.leaseToken = token := by
  unfold findLeased at found
  split at found
  · cases found
  rename_i job' found'
  split at found
  · cases found
  rename_i leased
  split at found
  · cases found
  rename_i held
  cases found
  exact ⟨found', not_not.1 leased, not_not.1 held⟩

variable {ids : List Nat} {op : EngineOp} {id : Nat} {request : EnqueueRequest}

theorem findDead_ok {job : Job} (found : e.findDead id = .ok job) :
    e.state.findJob id = some job ∧ job.state = .kDead := by
  unfold findDead at found
  split at found
  · cases found
  rename_i job' found'
  split at found
  · cases found
  rename_i dead
  cases found
  exact ⟨found', not_not.1 dead⟩

/-- The queues named before the first with a ready job have none. -/
theorem firstReady_spec (names : List Bytes) :
    match e.firstReady names with
    | none => ∀ name ∈ names, ∀ l, e.state.readyOf name = some l → l = []
    | some (queue, id) => ∃ before after l, names = before ++ queue :: after ∧
        e.state.readyOf queue = some l ∧ l[0]? = some id ∧
        ∀ name ∈ before, ∀ l, e.state.readyOf name = some l → l = [] := by
  induction names with
  | nil =>
    intro name mem
    cases mem
  | cons name names ih =>
    -- a queue without ready jobs is passed over
    have passed : (∀ l, e.state.readyOf name = some l → l = []) →
        e.firstReady (name :: names) = e.firstReady names →
        match e.firstReady (name :: names) with
        | none => ∀ name' ∈ name :: names, ∀ l, e.state.readyOf name' = some l → l = []
        | some (queue, id) => ∃ before after l, name :: names = before ++ queue :: after ∧
            e.state.readyOf queue = some l ∧ l[0]? = some id ∧
            ∀ name' ∈ before, ∀ l, e.state.readyOf name' = some l → l = [] := by
      intro idle same
      rw [same]
      cases first : e.firstReady names with
      | none =>
        rw [first] at ih
        exact List.forall_mem_cons.2 ⟨idle, ih⟩
      | some found =>
        rw [first] at ih
        obtain ⟨before, after, l, split, ready, at_head, others⟩ := ih
        exact ⟨name :: before, after, l, by rw [split]; rfl, ready, at_head,
          List.forall_mem_cons.2 ⟨idle, others⟩⟩
    cases found : e.state.findQueue name with
    | none =>
      refine passed ?_ (by rw [firstReady, found])
      intro l ready
      have ready : (e.state.findQueue name).map Queue.ready = some l := ready
      rw [found] at ready
      cases ready
    | some q =>
      have ready : e.state.readyOf name = some q.ready := by
        show (e.state.findQueue name).map Queue.ready = some q.ready
        rw [found]
        rfl
      cases head : q.ready.head? with
      | none =>
        refine passed ?_ (by rw [firstReady, found]; dsimp only; rw [head])
        intro l ready'
        rw [ready] at ready'
        cases ready'
        exact List.head?_eq_none_iff.1 head
      | some id =>
        have first : e.firstReady (name :: names) = some (name, id) := by
          rw [firstReady, found]
          dsimp only
          rw [head]
        rw [first]
        exact ⟨[], names, q.ready, rfl, ready, by rw [← List.head?_eq_getElem?, head], nofun⟩

/-- The job at the head of a ready heap is ready. -/
theorem firstReady_some {names : List Bytes} {queue : Bytes}
    (inv : e.state.StateInv nobody) (first : e.firstReady names = some (queue, id)) :
    ∃ job, e.state.findJob id = some job ∧ job.state = .kReady := by
  have spec := e.firstReady_spec names
  rw [first] at spec
  obtain ⟨before, after, l, -, ready, at_head, -⟩ := spec
  obtain ⟨job, found, -, is_ready⟩ := (State.mem_ready_iff inv ready).1 (List.mem_of_getElem? at_head)
  exact ⟨job, found, is_ready⟩

/-- The jobs of a dead-letter queue are dead. -/
theorem deadIds_dead {name : Bytes} {q : Queue} (inv : e.state.StateInv nobody)
    (found : e.state.findQueue name = some q) :
    ∀ id ∈ deadIds q, ∃ job, e.state.findJob id = some job ∧ job.state = .kDead := by
  intro id mem
  have in_set : id ∈ q.dead := (Finset.mem_sort _).1 mem
  have dead : e.state.deadOf name = some q.dead := by
    unfold State.deadOf
    rw [show e.state.queues.lookup name = some q from found]
    rfl
  have owner := inv.shape.deads name q.dead id dead in_set
  obtain ⟨job, found', queue⟩ := map_eq_some_iff.1 owner
  refine ⟨job, found', ?_⟩
  have indexed := (inv.indexed id job found' fun impossible => impossible).dead
  have in_dead : e.state.inDead id = true := by
    unfold State.inDead
    rw [owner, bind_some, dead]
    exact decide_eq_true in_set
  rw [in_dead] at indexed
  exact of_decide_eq_true indexed.symm

/-- The record of a failed attempt is about the job, and the generator is all that
changes. -/
theorem decideFailure_spec (e : Engine) (job : Job) (reason : FailureReason) (error : Bytes)
    (retryInMs : Option Int) (noRetry : Bool) :
    (∃ drawn, (e.decideFailure job reason error retryInMs noRetry).2 = { e with drawn }) ∧
      let record := (e.decideFailure job reason error retryInMs noRetry).1
      record.id = job.id ∧ record.token = job.leaseToken ∧ record.reason = reason ∧
        record.at_ = e.state.wallNow ∧ record.error = error.take kMaxErrorBytes ∧
        (record.dead = false → job.attempts < job.maxAttempts) := by
  unfold decideFailure
  split
  · refine ⟨⟨e.drawn, rfl⟩, rfl, rfl, rfl, rfl, rfl, ?_⟩
    intro impossible
    cases impossible
  · rename_i retries
    rw [not_or] at retries
    have budget : job.attempts < job.maxAttempts := UInt32.not_le.1 retries.2
    cases retryInMs with
    | some delay => exact ⟨⟨e.drawn, rfl⟩, rfl, rfl, rfl, rfl, rfl, fun _ => budget⟩
    | none => exact ⟨⟨e.drawn + 1, rfl⟩, rfl, rfl, rfl, rfl, rfl, fun _ => budget⟩

theorem checkEnqueue_ok (checked : e.checkEnqueue request = .ok ()) :
    isValidQueueName request.queue = true ∧ request.payload.length ≤ e.options.maxPayloadBytes ∧
      request.idemKey.length ≤ kMaxIdemKeyBytes ∧
      request.maxAttempts.getD e.options.defaultMaxAttempts ≠ 0 ∧
      (0 ≤ request.delayMs ∧ request.delayMs ≤ e.options.maxDelayMs) ∧
      ∀ runAt, request.runAt = some runAt → runAt - e.state.wallNow ≤ e.options.maxDelayMs := by
  unfold checkEnqueue at checked
  dsimp only at checked
  split at checked
  · cases checked
  rename_i named
  split at checked
  · cases checked
  rename_i payload
  split at checked
  · cases checked
  rename_i key
  split at checked
  · cases checked
  split at checked
  · cases checked
  rename_i far
  split at checked
  · cases checked
  rename_i attempts
  rw [not_or] at attempts
  refine ⟨by simpa using named, Nat.not_lt.1 payload, Nat.not_lt.1 key, attempts.1, by omega, ?_⟩
  intro runAt given
  rw [given] at far
  simpa using far

theorem enqueueRecord_issued (checked : e.checkEnqueue request = .ok ())
    (free : e.liveIdem request = none) : e.Issues (.jobEnqueued (e.enqueueRecord request)) := by
  obtain ⟨named, -, -, attempts, -⟩ := checkEnqueue_ok checked
  refine ⟨rfl, ?_, attempts, rfl, ?_⟩
  · intro empty
    have empty : request.queue = [] := empty
    rw [empty] at named
    cases named
  · intro keyed
    have keyed' : ¬ request.idemKey.isEmpty = true := fun empty => keyed (List.isEmpty_iff.1 empty)
    constructor
    · show (if request.idemKey.isEmpty then 0 else _) = _
      rw [if_neg keyed']
    · intro entry found
      unfold liveIdem at free
      rw [if_neg keyed', show e.state.findIdem request.idemKey = some entry from found] at free
      dsimp only at free
      split at free
      · cases free
      · rename_i past
        exact Int.not_lt.1 past

/-- What a request builds: records that can be logged, and the engine unchanged but for
what was drawn. -/
structure Issued (e : Engine) (built : Engine × List Record) : Prop where
  drawn : ∃ drawn, built.1 = { e with drawn }
  idle : built.2 = [] → built.1 = e
  issuable : Issuable built.1 built.2

theorem issued_one {away : Nat → Prop} {r : Record} {drawn : Nat} (inv : e.state.StateInv away)
    (issued : e.Issues r) : e.Issued ({ e with drawn }, [r]) where
  drawn := ⟨drawn, rfl⟩
  idle := by
    intro empty
    cases empty
  issuable := by
    have inv' : StateInv { e with drawn }.state away := inv
    refine .cons inv' ?_ fun next _ => .nil next
    cases r <;> exact issued

theorem Builds.issued {built : Engine × List Record} (builds : e.Builds op built)
    (inv : e.state.StateInv nobody) : e.Issued built := by
  have jobIds := inv.shape.jobIds
  cases builds with
  | enqueue admits => exact issued_one inv (enqueueRecord_issued admits.checked admits.free)
  | reserve lease first => exact issued_one inv ⟨rfl, firstReady_some inv first⟩
  | @heartbeat id token leaseMs job lease leased =>
    obtain ⟨found, state, held⟩ := findLeased_ok leased
    rw [jobIds id job found]
    exact issued_one inv ⟨job, found, state, held⟩
  | @ack id token job leased =>
    obtain ⟨found, state, held⟩ := findLeased_ok leased
    rw [jobIds id job found]
    exact issued_one inv ⟨rfl, job, found, state, held⟩
  | @fail request job retry leased =>
    obtain ⟨found, state, held⟩ := findLeased_ok leased
    obtain ⟨⟨drawn, same⟩, of_job, of_token, of_reason, now, -, budget⟩ :=
      decideFailure_spec e job .kWorkerFailed request.error request.retryInMs request.noRetry
    dsimp only
    rw [same]
    apply issued_one inv
    refine ⟨now, job, ?_, state, of_token.symm, budget, ?_⟩
    · rw [of_job, jobIds request.id job found]
      exact found
    · intro expired
      rw [of_reason] at expired
      cases expired
  | @cancel id job found active =>
    exact issued_one inv ⟨rfl, job, found, eq_false_of_ne_true active⟩
  | @dlqRetry id job dead =>
    obtain ⟨found, state⟩ := findDead_ok dead
    rw [jobIds id job found]
    exact issued_one inv ⟨job, found, state⟩
  | @dlqRetryAll queue q found =>
    refine ⟨⟨e.drawn, rfl⟩, fun _ => rfl, ?_⟩
    have ids : ((deadIds q).map fun id => .deadJobRetried ⟨id, e.state.wallNow, e.state.wallNow⟩).flatMap
        Record.touches = deadIds q := by simp [List.flatMap_map, Record.touches]
    refine issuable_dead ids (Finset.sort_nodup _ _) inv ?_ (deadIds_dead inv found)
    intro r mem e dead
    obtain ⟨id, -, rfl⟩ := List.mem_map.1 mem
    exact dead id (List.mem_singleton.2 rfl)
  | @dlqPurge id job dead =>
    obtain ⟨found, state⟩ := findDead_ok dead
    apply issued_one inv
    intro j mem
    rw [List.mem_singleton.1 mem, jobIds id job found]
    exact ⟨job, found, state⟩
  | @dlqPurgeAll queue q found =>
    refine ⟨⟨e.drawn, rfl⟩, fun _ => rfl, ?_⟩
    have all := chunksOf_flatten (fun _ _ => (by decide : 0 < kPurgeChunk)) _ (Nat.le_refl (deadIds q).length)
    have ids : ((chunksOf (fun _ => kPurgeChunk) (deadIds q).length (deadIds q)).map
        fun ids => .jobsPurged ⟨ids⟩).flatMap Record.touches = deadIds q := by
      rw [List.flatMap_map]
      exact List.flatMap_id.trans all
    refine issuable_dead ids (Finset.sort_nodup _ _) inv ?_ (deadIds_dead inv found)
    intro r mem e dead
    obtain ⟨chunk, -, rfl⟩ := List.mem_map.1 mem
    exact dead

theorem requested_issued (inv : e.state.StateInv nobody) (op : EngineOp) :
    e.Issued (e.requested op) := by
  rcases requested_builds e op with nothing | builds
  · rw [nothing]
    exact ⟨⟨e.drawn, rfl⟩, fun _ => rfl, .nil e⟩
  · exact builds.issued inv

/-- Every request is a run of records that are issued. -/
theorem request_logged (inv : e.state.StateInv nobody) (no_tick : op.isTick = false)
    (stepped : e.step op = some e') : Logged e (e.requested op).2 e' := by
  rw [request_eq e op no_tick] at stepped
  obtain ⟨⟨drawn, same⟩, idle, issuable⟩ := requested_issued inv op
  have logged := issuable.logged stepped
  cases built : (e.requested op).2 with
  | nil =>
    rw [idle built, built] at logged
    exact logged
  | cons r rs =>
    rw [same, built] at logged
    cases logged with
    | log drawn' inv' issued applied small rest =>
      refine .log drawn' inv' ?_ applied small rest
      cases r <;> exact issued

/-- The first of the leases that ran out ends, and the others still are away. -/
theorem expireLease_step (nodup : (id :: ids).Nodup)
    (inv : e.state.StateInv fun j => j ∈ id :: ids) (ranOut : ∀ j ∈ id :: ids, e.state.RanOut j) :
    ∃ record drawn, e.Issues (.attemptFailed record) ∧
      (∃ job, e.state.findJob id = some job ∧
        record = (e.decideFailure job .kLeaseExpired leaseExpired none false).1) ∧
      expireLeases (id :: ids) e =
        ({ e with drawn }.logAndApply (.attemptFailed record)).bind (expireLeases ids) ∧
      expireRecords (id :: ids) e = .attemptFailed record ::
        (({ e with drawn }.logAndApply (.attemptFailed record)).map (expireRecords ids)).getD [] ∧
      ∀ next, { e with drawn }.logAndApply (.attemptFailed record) = some next →
        (next.state.StateInv fun j => j ∈ ids) ∧ ∀ j ∈ ids, next.state.RanOut j := by
  obtain ⟨job, found, leased, past⟩ := ranOut id List.mem_cons_self
  obtain ⟨fresh, -⟩ := List.nodup_cons.1 nodup
  have not_skipped : ¬ job.state ≠ .kLeased := not_not.2 leased
  obtain ⟨⟨drawn, same⟩, of_job, of_token, of_reason, now, -, budget⟩ :=
    decideFailure_spec e job .kLeaseExpired leaseExpired none false
  set record := (e.decideFailure job .kLeaseExpired leaseExpired none false).1 with record_eq
  have of_id : record.id = id := of_job.trans (inv.shape.jobIds id job found)
  refine ⟨record, drawn, ?_, ?_, ?_, ?_, ?_⟩
  · refine ⟨now, job, ?_, leased, of_token.symm, budget, fun _ => past⟩
    rw [of_id]
    exact found
  · exact ⟨job, found, record_eq⟩
  · rw [expireLeases, found]
    dsimp only
    rw [if_neg not_skipped, same]
  · rw [expireRecords, found]
    dsimp only
    rw [if_neg not_skipped, same]
  · intro next logged
    obtain ⟨state, applied, -, rfl⟩ := logAndApply_some logged
    have inv_e : StateInv { e with drawn }.state fun j => j ∈ id :: ids := inv
    have frame := apply_frame inv_e applied
    have others : ∀ j ∈ ids, j ∉ [record.id] := by
      intro j mem
      rw [of_id, List.mem_singleton]
      rintro rfl
      exact fresh mem
    constructor
    · refine (State.applyAttemptFailed_inv inv_e applied).weaken ?_
      intro j
      rw [of_id, List.mem_cons]
      constructor
      · rintro ⟨same | mem, ne⟩
        · exact absurd same ne
        · exact mem
      · intro mem
        refine ⟨Or.inr mem, ?_⟩
        rintro rfl
        exact fresh mem
    · intro j mem
      obtain ⟨job', found', leased', past'⟩ := ranOut j (List.mem_cons_of_mem _ mem)
      refine ⟨job', (frame.others j (others j mem)).trans found', leased', ?_⟩
      rw [frame.wallNow]
      exact past'

/-- The leases that ran out end one after the other; then no job is away. -/
theorem expireLeases_logged (nodup : ids.Nodup) (inv : e.state.StateInv fun j => j ∈ ids)
    (ranOut : ∀ id ∈ ids, e.state.RanOut id) (expired : expireLeases ids e = some e') :
    Logged e (expireRecords ids e) e' ∧ e'.state.StateInv nobody := by
  induction ids generalizing e with
  | nil =>
    have same : e = e' := Option.some.inj expired
    subst same
    exact ⟨.done e, inv.weaken (by simp [nobody])⟩
  | cons id ids ih =>
    obtain ⟨record, drawn, issued, -, expire, records, rest⟩ := expireLease_step nodup inv ranOut
    rw [expire] at expired
    obtain ⟨next, first, more⟩ := bind_eq_some_iff.1 expired
    obtain ⟨inv', ranOut'⟩ := rest next first
    obtain ⟨logged, final⟩ := ih (List.nodup_cons.1 nodup).2 inv' ranOut' more
    refine ⟨?_, final⟩
    rw [records, first]
    obtain ⟨state, applied, small, rfl⟩ := logAndApply_some first
    exact .log drawn inv issued applied small logged

end Handlers

/-! ## What an operation is, in three parts -/

section Parts

variable {e e' e₀ : Engine} {r : Record} {rs : List Record}

/-- What the parts of an operation that log nothing keep. -/
structure Silent (e e' : Engine) : Prop where
  options : e'.options = e.options
  log : e'.log = e.log
  lastLsn : e'.lastLsn = e.lastLsn
  stateOptions : e'.state.options = e.state.options
  platform : e'.state.platform = e.state.platform
  replaying : e'.state.replaying = e.state.replaying

theorem Silent.refl (e : Engine) : Silent e e := ⟨rfl, rfl, rfl, rfl, rfl, rfl⟩

variable {op : EngineOp} {iteration : IterationOrder}

/-- A jump of the clock changes no ledger. -/
theorem detectClockJump_spec {mono : Nat}
    (inv : e.state.StateInv nobody) (detected : e.detectClockJump iteration mono = some e') :
    Silent e e' ∧ e'.state.StateInv nobody ∧ e'.state.ledger = e.state.ledger ∧
      e'.state.wallNow = e.state.wallNow ∧ (e.state.Refs → e'.state.Refs) := by
  unfold detectClockJump at detected
  dsimp only at detected
  split at detected
  · cases detected
    exact ⟨⟨rfl, rfl, rfl, rfl, rfl, rfl⟩, inv, rfl, rfl, fun refs => refs⟩
  · obtain ⟨state, rebuilt, rfl⟩ := map_eq_some_iff.1 detected
    obtain ⟨inv', kept, -⟩ := State.rebuildDerived_spec inv.shape inv.tokens inv.fits rebuilt
    obtain ⟨ledger, refs, -⟩ := State.rebuildDerived_ledger inv.shape inv.tokens inv.fits rebuilt
    exact ⟨⟨rfl, rfl, rfl, kept.options, kept.platform, kept.replaying⟩, inv', ledger, kept.wallNow,
      fun _ => refs⟩

/-- The start of a tick: the clock moves, and the leases that ran out are away. -/
theorem startTick_spec {wall : Int} {mono monoAgain : Nat} {ids : List Nat}
    (inv : e.state.StateInv nobody) (live : e.state.replaying = false)
    (started : e.startTick iteration wall mono monoAgain = some (e₀, ids)) :
    Silent e e₀ ∧ e₀.state.StateInv (fun j => j ∈ ids) ∧ ids.Nodup ∧
      (∀ id ∈ ids, e₀.state.RanOut id) ∧ e₀.state.ledger = e.state.ledger ∧ e₀.state.wallNow = wall ∧
      (e.state.Refs → e₀.state.Refs) := by
  obtain ⟨jumped, detected, more⟩ := bind_eq_some_iff.1 started
  obtain ⟨⟨state, expired⟩, advanced, result⟩ := bind_eq_some_iff.1 more
  cases result
  have inv_now : StateInv { e with state := e.state.setNow wall mono }.state nobody :=
    inv.unindexed (Nat.le_refl _) (Nat.le_refl _)
  obtain ⟨silent, inv_jumped, ledger, wallNow, refs⟩ := detectClockJump_spec inv_now detected
  have live_jumped : jumped.state.replaying = false := silent.replaying.trans live
  obtain ⟨inv', nodup, kept, -, ranOut⟩ := State.advanceTimers_spec inv_jumped live_jumped advanced
  have same := State.ledger_advanceTimers inv_jumped live_jumped advanced
  refine ⟨⟨silent.options, silent.log, silent.lastLsn, kept.options.trans silent.stateOptions,
    kept.platform.trans silent.platform, kept.replaying.trans silent.replaying⟩, inv', nodup, ranOut,
    same.trans ledger, kept.wallNow.trans wallNow, ?_⟩
  intro refs₀
  have moved : State.Refs { e with state := e.state.setNow wall mono }.state := refs₀.congr rfl rfl
  exact (refs moved).congr same kept.finishedGc

/-- The end of a tick: garbage goes. -/
theorem finishTick_spec (inv : e.state.StateInv nobody) (finished : e.finishTick = some e') :
    Silent e e' ∧ e'.state.StateInv nobody ∧ e'.state.wallNow = e.state.wallNow ∧
      (e.state.Refs → e'.state.Refs ∧
        Ledger.Sub (fun job => job.past e.state.options e.state.wallNow = true) (· ≤ e.state.wallNow)
          e'.state.ledger e.state.ledger) := by
  obtain ⟨state, collected, rfl⟩ := map_eq_some_iff.1 finished
  obtain ⟨inv', finished, dead, result⟩ := State.collectGarbage_spec inv collected
  refine ⟨⟨rfl, rfl, rfl, result.options, result.platform, result.replaying⟩, inv', result.wallNow, ?_⟩
  intro refs
  exact ⟨result.refs inv.shape inv'.shape refs, result.sub inv.shape inv'.shape refs⟩

/-- What logging records does to the engine around the ledger. -/
structure Appended (e : Engine) (rs : List Record) (e' : Engine) : Prop where
  options : e'.options = e.options
  stateOptions : e'.state.options = e.state.options
  platform : e'.state.platform = e.state.platform
  wallNow : e'.state.wallNow = e.state.wallNow
  replaying : e'.state.replaying = e.state.replaying
  log : e'.log = e.log ++ rs.map Record.entry
  lastLsn : e'.lastLsn = e.lastLsn + rs.length
  small : e.lastLsn < 2 ^ 64 → e'.lastLsn < 2 ^ 64
  refs : e.state.Refs → e'.state.Refs

theorem Logged.appended (logged : Logged e rs e') : Appended e rs e' := by
  induction logged with
  | done e =>
    refine ⟨rfl, rfl, rfl, rfl, rfl, ?_, rfl, fun small => small, fun refs => refs⟩
    rw [List.map_nil, List.append_nil]
  | @log e e' r rs away state drawn inv issued applied small rest ih =>
    have frame := apply_frame inv applied
    refine ⟨ih.options, ih.stateOptions.trans frame.options, ih.platform.trans frame.platform,
      ih.wallNow.trans frame.wallNow, ih.replaying.trans frame.replaying, ?_, ?_, ?_, ?_⟩
    · rw [ih.log, List.map_cons, ← List.append_cons]
    · rw [ih.lastLsn, List.length_cons]
      show e.lastLsn + 1 + rs.length = _
      omega
    · intro _
      exact ih.small small
    · intro refs
      exact ih.refs (refs.apply inv applied)

/-- What the engine knows of a record, as the ledger of a history sees it. -/
theorem Issues.vouched {gone : LedgerJob → Prop} {lapsed : Int → Prop} {full : Ledger}
    (issued : e.Issues r) (sub : Ledger.Sub gone lapsed e.state.ledger full) : full.Vouched r := by
  have same : ∀ {id : Nat} {job : Job} {job' : LedgerJob}, e.state.findJob id = some job →
      full.jobs id = some job' → job' = job.ledger := by
    intro id job job' found found'
    have at_full := sub.found (State.ledger_jobs found)
    rw [found'] at at_full
    exact Option.some.inj at_full
  cases r with
  | attemptFailed r =>
    obtain ⟨now, job, found, -, -, budget, expired⟩ := issued
    intro job' found'
    cases same found found'
    refine ⟨budget, ?_⟩
    intro reason
    rw [now]
    exact expired reason
  | jobsPurged r =>
    intro id mem job' found'
    obtain ⟨job, found, dead⟩ := issued id mem
    cases same found found'
    exact persisted_dead.2 dead
  | _ => trivial

/-- The history of a log grows by what is logged, and the live ledger stays related
to it. -/
theorem Logged.history {gone : LedgerJob → Prop} {lapsed : Int → Prop} {before : List Record}
    {full : Ledger} (logged : Logged e rs e') (history : Ledger.History before full)
    (sub : Ledger.Sub gone lapsed e.state.ledger full) :
    ∃ full', Ledger.History (before ++ rs) full' ∧ Ledger.Sub gone lapsed e'.state.ledger full' := by
  induction logged generalizing before full with
  | done e =>
    rw [List.append_nil]
    exact ⟨full, history, sub⟩
  | @log e e' r rs away state drawn inv issued applied small rest ih =>
    have step := State.apply_step inv applied
    obtain ⟨full', step', sub'⟩ := sub.step step
    rw [List.append_cons]
    exact ih (history.snoc (issued.vouched sub) step') sub'

theorem Logged.inv (logged : Logged e rs e') (inv : e.state.StateInv nobody) :
    e'.state.StateInv nobody := by
  induction logged with
  | done e => exact inv
  | @log e e' r rs away state drawn inv' issued applied small rest ih =>
    exact ih (apply_inv inv applied)

/-- An operation: a silent start, records that are issued, and a silent end that may
collect garbage.  For a request both silent parts are empty. -/
structure Operated (e : Engine) (op : EngineOp) (e₀ e₁ e' : Engine) : Prop where
  begun : e.begun op = some e₀.state
  start : Silent e e₀
  startLedger : e₀.state.ledger = e.state.ledger
  startClock : e₀.state.wallNow = op.clock e.state.wallNow
  startRefs : e.state.Refs → e₀.state.Refs
  logged : Logged e₀ (e.written op) e₁
  loggedInv : e₁.state.StateInv nobody
  finish : Silent e₁ e'
  inv : e'.state.StateInv nobody
  finishClock : e'.state.wallNow = e₁.state.wallNow
  finishRefs : e₁.state.Refs → e'.state.Refs
  collected : e₁.state.Refs →
    Ledger.Sub (fun job => job.past e₁.state.options e₁.state.wallNow = true) (· ≤ e₁.state.wallNow)
      e'.state.ledger e₁.state.ledger

theorem written_request (e : Engine) (no_tick : op.isTick = false) :
    e.written op = (e.requested op).2 := by
  cases op with
  | tick iteration wall mono monoAgain => cases no_tick
  | _ => rfl

theorem step_operated (inv : e.state.StateInv nobody) (live : e.state.replaying = false)
    (stepped : e.step op = some e') : ∃ e₀ e₁, Operated e op e₀ e₁ e' := by
  cases tick : op.isTick with
  | false =>
    have logged := request_logged inv tick stepped
    refine ⟨e, e', ?_, Silent.refl e, rfl, ?_, fun refs => refs, ?_, logged.inv inv, Silent.refl e',
      logged.inv inv, rfl, fun refs => refs, fun _ => Ledger.Sub.refl _⟩
    · cases op with
      | tick iteration wall mono monoAgain => cases tick
      | _ => rfl
    · cases op with
      | tick iteration wall mono monoAgain => cases tick
      | _ => rfl
    · rw [written_request e tick]
      exact logged
  | true =>
    cases op with
    | tick iteration wall mono monoAgain =>
      have stepped : e.tick iteration wall mono monoAgain = some e' := stepped
      rw [tick_eq] at stepped
      obtain ⟨⟨e₀, ids⟩, started, more⟩ := bind_eq_some_iff.1 stepped
      obtain ⟨e₁, expired, finished⟩ := bind_eq_some_iff.1 more
      obtain ⟨start, inv₀, nodup, ranOut, ledger, clock, refs⟩ := startTick_spec inv live started
      obtain ⟨logged, inv₁⟩ := expireLeases_logged nodup inv₀ ranOut expired
      have records : e.written (.tick iteration wall mono monoAgain) = expireRecords ids e₀ := by
        unfold written
        dsimp only
        rw [started]
      obtain ⟨finish, inv', clock', collected⟩ := finishTick_spec inv₁ finished
      refine ⟨e₀, e₁, ?_, start, ledger, clock, refs, ?_, inv₁, finish, inv', clock',
        fun refs₁ => (collected refs₁).1, fun refs₁ => (collected refs₁).2⟩
      · unfold begun
        dsimp only
        rw [started]
        rfl
      · rw [records]
        exact logged
    | _ => cases tick

end Parts

end Engine

end Baton
