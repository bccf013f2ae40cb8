/-
# State.EngineTotal — when an operation of the engine returns

An operation is `none` where a `BATON_CHECK` fails.  A record that the engine issues
is one that `apply` accepts, given that pending jobs have an attempt left
(`Issues.accepted`); so the checks that remain are those on sizes.  `Capacity` is what
they come to: room for one more job in the table, log sequence numbers for a record
per job, and a limit on payloads that a frame can hold, as the command line enforces.
`step_total` is the result: within these, every operation returns.
-/
import Baton.State.EngineOps

namespace Baton

open Theory
open List (length_append map_cons mem_map mem_singleton)
open State (ledger_jobs mem_keys nobody)

set_option autoImplicit false

/-! ## Sizes of records -/

namespace ByteWriter

theorem varintLoop_length_le (n v : Nat) : (varintLoop n v).length ≤ n + 1 := by
  induction n generalizing v with
  | zero => simp [varintLoop]
  | succ n ih =>
    rw [varintLoop]
    split
    · rw [List.length_cons]
      exact Nat.succ_le_succ (ih _)
    · simp

theorem varint_length_le (v : Nat) : (varint v).length ≤ 10 := varintLoop_length_le 9 v

theorem bytes_length_le (v : Bytes) : (bytes v).length ≤ 10 + v.length := by
  rw [bytes, length_append]
  exact Nat.add_le_add_right (varint_length_le _) _

end ByteWriter

/-- The sizes the engine has checked, given its limit on payloads. -/
def Record.Sized (maxPayload : Nat) : Record → Prop
  | .jobEnqueued r =>
    r.queue.length ≤ kMaxQueueNameBytes ∧ r.payload.length ≤ maxPayload ∧
      r.idemKey.length ≤ kMaxIdemKeyBytes
  | .attemptFailed r => r.error.length ≤ kMaxErrorBytes
  | .jobsPurged r => r.ids.length ≤ Engine.kPurgeChunk
  | _ => True

/-- The jobs a record adds to the table. -/
def Record.adds : Record → Nat
  | .jobEnqueued _ => 1
  | _ => 0

theorem flatten_varint_length_le (ids : List Nat) :
    (ids.map ByteWriter.varint).flatten.length ≤ 10 * ids.length := by
  induction ids with
  | nil => exact Nat.le_refl _
  | cons id ids ih =>
    rw [map_cons, List.flatten_cons, length_append, List.length_cons]
    have := ByteWriter.varint_length_le id
    omega

theorem putTime_length_le (t : Int) : (putTime t).length ≤ 10 := ByteWriter.varint_length_le _

/-- A record of those sizes fits a frame. -/
theorem Record.Sized.encode {maxPayload : Nat} {r : Record} (sized : r.Sized maxPayload)
    (limit : maxPayload ≤ 64 * 2 ^ 20) : r.encode.length ≤ kMaxRecordPayload := by
  have frame : kMaxRecordPayload = 64 * 2 ^ 20 + 64 * 2 ^ 10 := by decide
  have varint := ByteWriter.varint_length_le
  have bytes := ByteWriter.bytes_length_le
  have time := putTime_length_le
  have byte : ∀ v, (ByteWriter.u8 v).length = 1 := fun _ => rfl
  unfold Record.encode
  rw [length_append, byte, frame]
  cases r with
  | jobEnqueued r =>
    obtain ⟨queue, payload, key⟩ := sized
    have := varint r.id
    have := bytes r.queue
    have := bytes r.payload
    have svarint : (ByteWriter.svarint r.priority.toInt).length ≤ 10 := varint _
    have := time r.runAt
    have := varint r.maxAttempts.toNat
    have := varint r.backoffBaseMs.toNat
    have := varint r.backoffCapMs.toNat
    have := bytes r.idemKey
    have := time r.idemExpiresAt
    have := time r.at_
    simp only [Record.encodeFields, length_append, kMaxQueueNameBytes, kMaxIdemKeyBytes] at *
    omega
  | jobLeased r | leaseExtended r =>
    have := varint r.id
    have := varint r.token
    have := time r.leaseExpiresAt
    have := time r.at_
    simp only [Record.encodeFields, length_append]
    omega
  | jobSucceeded r =>
    have := varint r.id
    have := varint r.token
    have := time r.at_
    simp only [Record.encodeFields, length_append]
    omega
  | attemptFailed r =>
    have error : r.error.length ≤ 1024 := sized
    have := varint r.id
    have := varint r.token
    have := bytes r.error
    have := time r.at_
    have := time r.retryAt
    simp only [Record.encodeFields, length_append, byte]
    omega
  | jobCancelled r =>
    have := varint r.id
    have := time r.at_
    simp only [Record.encodeFields, length_append]
    omega
  | deadJobRetried r =>
    have := varint r.id
    have := time r.runAt
    have := time r.at_
    simp only [Record.encodeFields, length_append]
    omega
  | jobsPurged r =>
    have count : r.ids.length ≤ 10000 := sized
    have := varint r.ids.length
    have := flatten_varint_length_le r.ids
    simp only [Record.encodeFields, length_append]
    omega

/-- A record adds at most the jobs it says. -/
theorem State.apply_jobCount {s s' : State} {r : Record} {away : Nat → Prop} (inv : s.StateInv away)
    (applied : s.apply r = .ok (some s')) : s'.jobCount ≤ s.jobCount + r.adds := by
  have frame := State.apply_frame inv applied
  have step := State.apply_step inv applied
  have known : ∀ {id : Nat} {job : LedgerJob}, s.ledger.jobs id = some job → (s.findJob id).isSome := by
    intro id job found
    obtain ⟨job', found', -⟩ := Option.map_eq_some_iff.1 found
    rw [show s.findJob id = some job' from found']
    rfl
  -- every job after the record was there, or is the one that was enqueued
  have fewer : r.adds = 0 → (∀ id ∈ r.touches, (s.findJob id).isSome) → s'.jobCount ≤ s.jobCount + r.adds := by
    intro none_added there
    rw [none_added]
    apply State.jobCount_le
    intro j some_here
    by_cases touched : j ∈ r.touches
    · exact there j touched
    · rw [frame.others j touched] at some_here
      exact some_here
  generalize s'.ledger = l' at step
  cases step with
  | @enqueued e next named budget =>
    have sub : s'.jobs.keys ⊆ e.id :: s.jobs.keys := by
      intro j mem
      by_cases here : j = e.id
      · rw [here]
        exact List.mem_cons_self
      · have other : j ∉ [e.id] := by
          rw [mem_singleton]
          exact here
        have there := mem_keys.1 mem
        rw [frame.others j other] at there
        exact List.mem_cons_of_mem _ (mem_keys.2 there)
    exact (List.subperm_of_subset s'.jobs.nodupKeys sub).length_le
  | leased found _ _ _ => exact fewer rfl fun id mem => mem_singleton.1 mem ▸ known found
  | extended found _ _ => exact fewer rfl fun id mem => mem_singleton.1 mem ▸ known found
  | succeeded found _ _ => exact fewer rfl fun id mem => mem_singleton.1 mem ▸ known found
  | failed found _ _ => exact fewer rfl fun id mem => mem_singleton.1 mem ▸ known found
  | cancelled found _ => exact fewer rfl fun id mem => mem_singleton.1 mem ▸ known found
  | retried found _ => exact fewer rfl fun id mem => mem_singleton.1 mem ▸ known found
  | purged terminal =>
    refine fewer rfl fun id mem => ?_
    obtain ⟨job, found, -⟩ := terminal id mem
    exact known found

/-- What the ledger allows is applied, if there is room. -/
theorem State.apply_of_step {s : State} {r : Record} {l : Ledger} {away : Nat → Prop} (inv : s.StateInv away)
    (room : s.RoomFor r) (step : Ledger.Step s.ledger r l) : ∃ s', s.apply r = .ok (some s') := by
  cases applied : s.apply r with
  | error e =>
    obtain ⟨e', refused, -⟩ := State.apply_refuses _ _ _ applied
    rw [Ledger.apply_iff_step.2 step] at refused
    cases refused
  | ok result =>
    cases result with
    | none => exact absurd applied (State.apply_some inv room)
    | some s' => exact ⟨s', rfl⟩

namespace Engine

/-! ## One record -/

section Record

variable {e e' : Engine} {r : Record} {rs : List Record} {away : Nat → Prop}

/-- A record that is issued is one the ledger accepts. -/
theorem Issues.step (issued : e.Issues r) (budgeted : e.state.ledger.Budgeted) :
    ∃ l', e.state.ledger.Step r l' := by
  cases r with
  | jobEnqueued r =>
    obtain ⟨next, named, attempts, -, -⟩ := issued
    exact ⟨_, .enqueued next named attempts⟩
  | jobLeased r =>
    obtain ⟨next, job, found, ready⟩ := issued
    have pending : job.ledger.state = .kPending := by
      show toPersisted job.state = .kPending
      rw [ready]
      rfl
    have entry := ledger_jobs found
    exact ⟨_, .leased entry pending next ((budgeted _ _ entry).2.2 pending)⟩
  | leaseExtended r =>
    obtain ⟨job, found, leased, held⟩ := issued
    exact ⟨_, .extended (ledger_jobs found) (persisted_leased.2 leased) held⟩
  | jobSucceeded r =>
    obtain ⟨-, job, found, leased, held⟩ := issued
    exact ⟨_, .succeeded (ledger_jobs found) (persisted_leased.2 leased) held⟩
  | attemptFailed r =>
    obtain ⟨-, job, found, leased, held, -⟩ := issued
    exact ⟨_, .failed (ledger_jobs found) (persisted_leased.2 leased) held⟩
  | jobCancelled r =>
    obtain ⟨-, job, found, active⟩ := issued
    refine ⟨_, .cancelled (ledger_jobs found) ?_⟩
    rw [← active]
    exact isTerminal_persisted job.state
  | deadJobRetried r =>
    obtain ⟨job, found, dead⟩ := issued
    exact ⟨_, .retried (ledger_jobs found) (persisted_dead.2 dead)⟩
  | jobsPurged r =>
    refine ⟨_, .purged fun id mem => ?_⟩
    obtain ⟨job, found, dead⟩ := issued id mem
    refine ⟨job.ledger, ledger_jobs found, ?_⟩
    show (fromPersisted (toPersisted job.state)).isTerminal = true
    rw [dead]
    rfl

/-- What the sizes have to leave room for: jobs in the table, and records in the log. -/
structure Roomy (e : Engine) (jobs records : Nat) : Prop where
  live : e.state.replaying = false
  jobs : e.state.jobCount + jobs ≤ TimingWheel.kMaxNodes
  lsns : e.lastLsn + records < 2 ^ 64
  payload : e.options.maxPayloadBytes ≤ 64 * 2 ^ 20

/-- A record that is issued is logged, and leaves room for the next ones. -/
theorem Issues.accepted {jobs records : Nat} (issued : e.Issues r) (inv : e.state.StateInv away)
    (budgeted : e.state.ledger.Budgeted) (sized : r.Sized e.options.maxPayloadBytes)
    (roomy : e.Roomy (r.adds + jobs) (records + 1)) :
    ∃ e', e.logAndApply r = some e' ∧ e'.state.ledger.Budgeted ∧ e'.options = e.options ∧
      e'.Roomy jobs records := by
  obtain ⟨l', step⟩ := issued.step budgeted
  have room := roomy.jobs
  have roomFor : e.state.RoomFor r := by
    cases r with
    | jobEnqueued r =>
      refine Or.inr ?_
      simp only [Record.adds] at room
      omega
    | _ =>
      refine Or.inr ?_
      omega
  obtain ⟨state, applied⟩ := State.apply_of_step inv roomFor step
  have ledger := State.apply_ledger inv applied
  have frame := State.apply_frame inv applied
  have lsns := roomy.lsns
  have fits : e.lastLsn + 1 < 2 ^ 64 ∧ r.encode.length ≤ kMaxRecordPayload :=
    ⟨by omega, sized.encode roomy.payload⟩
  refine ⟨{ e with state, lastLsn := e.lastLsn + 1, log := e.log ++ [(r.typeOf, r.encode)] }, ?_, ?_, rfl, ?_⟩
  · unfold logAndApply
    rw [applied]
    exact if_pos fits
  · have itself : Ledger.Sub (fun _ => True) (fun _ => True) e.state.ledger e.state.ledger :=
      Ledger.Sub.refl _
    exact budgeted.step (issued.vouched itself) (Ledger.apply_iff_step.1 ledger)
  · have count := State.apply_jobCount inv applied
    refine ⟨frame.replaying.trans roomy.live, ?_, ?_, roomy.payload⟩
    · show state.jobCount + jobs ≤ _
      omega
    · show e.lastLsn + 1 + records < 2 ^ 64
      omega

/-- Records that can be logged are logged. -/
theorem Issuable.total {jobs records : Nat} (issuable : Issuable e rs)
    (budgeted : e.state.ledger.Budgeted) (sized : ∀ r ∈ rs, r.Sized e.options.maxPayloadBytes)
    (roomy : e.Roomy ((rs.map Record.adds).sum + jobs) (records + rs.length)) :
    ∃ e', logAll rs e = some e' := by
  induction issuable with
  | nil e => exact ⟨e, rfl⟩
  | @cons e r rs away inv issued rest ih =>
    have roomy' : e.Roomy (r.adds + ((rs.map Record.adds).sum + jobs)) (records + rs.length + 1) := by
      rw [map_cons, List.sum_cons, Nat.add_assoc] at roomy
      exact roomy
    obtain ⟨next, logged, budgeted', options, roomy''⟩ :=
      issued.accepted inv budgeted (sized r List.mem_cons_self) roomy'
    obtain ⟨e', done⟩ := ih next logged budgeted' (by
      intro r' mem
      rw [options]
      exact sized r' (List.mem_cons_of_mem _ mem)) roomy''
    refine ⟨e', ?_⟩
    rw [logAll, logged]
    exact done

end Record

/-! ## Requests -/

section Requests

variable {e e' : Engine} {r : Record}

/-- What a request builds is small. -/
structure Modest (e : Engine) (rs : List Record) : Prop where
  sized : ∀ r ∈ rs, r.Sized e.options.maxPayloadBytes
  adds : (rs.map Record.adds).sum ≤ 1
  length : rs.length ≤ e.state.jobCount + 1

theorem modest_one (sized : r.Sized e.options.maxPayloadBytes) : e.Modest [r] := by
  refine ⟨?_, ?_, Nat.le_add_left _ _⟩
  · intro r' mem
    rw [mem_singleton.1 mem]
    exact sized
  · show r.adds + 0 ≤ 1
    cases r <;> simp [Record.adds]

/-- A list of different jobs is no longer than the table. -/
theorem length_le_jobCount {s : State} {ids : List Nat} (nodup : ids.Nodup)
    (found : ∀ id ∈ ids, (s.findJob id).isSome) : ids.length ≤ s.jobCount := by
  apply List.Subperm.length_le
  apply List.subperm_of_subset nodup
  intro id mem
  exact mem_keys.2 (found id mem)

theorem deadIds_length {name : Bytes} {q : Queue} (inv : e.state.StateInv nobody)
    (found : e.state.findQueue name = some q) : (deadIds q).length ≤ e.state.jobCount := by
  apply length_le_jobCount (Finset.sort_nodup _ _)
  intro id mem
  obtain ⟨job, found', -⟩ := deadIds_dead inv found id mem
  rw [found']
  rfl

theorem sum_adds_zero {rs : List Record} (none_added : ∀ r ∈ rs, r.adds = 0) :
    (rs.map Record.adds).sum ≤ 1 := by
  rw [List.sum_eq_zero]
  · exact Nat.zero_le _
  · intro n mem
    obtain ⟨r, listed, rfl⟩ := mem_map.1 mem
    exact none_added r listed

theorem decideFailure_sized (e : Engine) (job : Job) (reason : FailureReason) (error : Bytes)
    (retryInMs : Option Int) (noRetry : Bool) (maxPayload : Nat) :
    (Record.attemptFailed (e.decideFailure job reason error retryInMs noRetry).1).Sized maxPayload := by
  obtain ⟨-, -, -, -, -, text, -⟩ := decideFailure_spec e job reason error retryInMs noRetry
  show List.length _ ≤ kMaxErrorBytes
  rw [text]
  exact List.length_take_le _ _

theorem Builds.modest {op : EngineOp} {built : Engine × List Record} (builds : e.Builds op built)
    (inv : e.state.StateInv nobody) : e.Modest built.2 := by
  cases builds with
  | enqueue admits =>
    obtain ⟨named, payload, key, -⟩ := checkEnqueue_ok admits.checked
    unfold isValidQueueName at named
    rw [Bool.and_eq_true, Bool.and_eq_true] at named
    exact modest_one ⟨of_decide_eq_true named.1.2, payload, key⟩
  | reserve | heartbeat | ack | cancel | dlqRetry => exact modest_one trivial
  | fail retry leased => exact modest_one (decideFailure_sized e _ _ _ _ _ _)
  | dlqRetryAll found =>
    refine ⟨?_, sum_adds_zero ?_, ?_⟩
    · intro r mem
      obtain ⟨id, -, rfl⟩ := mem_map.1 mem
      trivial
    · intro r mem
      obtain ⟨id, -, rfl⟩ := mem_map.1 mem
      rfl
    · rw [List.length_map]
      exact Nat.le_succ_of_le (deadIds_length inv found)
  | dlqPurge dead =>
    apply modest_one
    show 1 ≤ kPurgeChunk
    decide
  | dlqPurgeAll found =>
    refine ⟨?_, sum_adds_zero ?_, ?_⟩
    · intro r mem
      obtain ⟨chunk, listed, rfl⟩ := mem_map.1 mem
      obtain ⟨⟨left, rfl⟩, -⟩ := chunksOf_part _ listed
      exact List.length_take_le _ _
    · intro r mem
      obtain ⟨chunk, -, rfl⟩ := mem_map.1 mem
      rfl
    · rw [List.length_map]
      exact Nat.le_succ_of_le (Nat.le_trans (chunksOf_length _ _) (deadIds_length inv found))

theorem requested_modest (inv : e.state.StateInv nobody) (op : EngineOp) :
    e.Modest (e.requested op).2 := by
  rcases requested_builds e op with nothing | builds
  · rw [nothing]
    exact ⟨by simp, Nat.zero_le _, Nat.zero_le _⟩
  · exact builds.modest inv

/-- Room for one more job, and for a record per job. -/
structure Capacity (e : Engine) : Prop where
  jobs : e.state.jobCount < TimingWheel.kMaxNodes
  lsns : e.lastLsn + e.state.jobCount + 1 < 2 ^ 64
  payload : e.options.maxPayloadBytes ≤ 64 * 2 ^ 20

theorem request_total {op : EngineOp} (inv : e.state.StateInv nobody)
    (live : e.state.replaying = false) (budgeted : e.state.ledger.Budgeted) (capacity : e.Capacity)
    (no_tick : op.isTick = false) : ∃ e', e.step op = some e' := by
  rw [request_eq e op no_tick]
  obtain ⟨⟨drawn, same⟩, -, issuable⟩ := requested_issued inv op
  have modest := requested_modest inv op
  rw [same] at issuable ⊢
  have adds := modest.adds
  have length := modest.length
  have lsns := capacity.lsns
  have jobs := capacity.jobs
  refine @Issuable.total _ _ 0 0 issuable budgeted modest.sized ⟨live, ?_, ?_, capacity.payload⟩
  · show e.state.jobCount + _ ≤ _
    omega
  · show e.lastLsn + _ < _
    omega

end Requests

/-! ## Ticks -/

section Ticks

variable {e e' e₀ : Engine}

theorem expireLeases_total {ids : List Nat} {jobs : Nat} (nodup : ids.Nodup)
    (inv : e.state.StateInv fun j => j ∈ ids) (ranOut : ∀ id ∈ ids, e.state.RanOut id)
    (budgeted : e.state.ledger.Budgeted) (roomy : e.Roomy jobs ids.length) :
    ∃ e', expireLeases ids e = some e' := by
  induction ids generalizing e with
  | nil => exact ⟨e, rfl⟩
  | cons id ids ih =>
    obtain ⟨record, drawn, issued, ⟨job, -, record_eq⟩, expire, -, rest⟩ := expireLease_step nodup inv ranOut
    have error : (Record.attemptFailed record).Sized e.options.maxPayloadBytes := by
      rw [record_eq]
      exact decideFailure_sized e job _ _ _ _ _
    have issued' : Issues { e with drawn } (.attemptFailed record) := issued
    have inv' : State.StateInv { e with drawn }.state fun j => j ∈ id :: ids := inv
    have roomy' : Roomy { e with drawn } (0 + jobs) (ids.length + 1) := by
      rw [Nat.zero_add]
      exact ⟨roomy.live, roomy.jobs, roomy.lsns, roomy.payload⟩
    obtain ⟨next, first, budgeted', -, roomy''⟩ := issued'.accepted inv' budgeted error roomy'
    obtain ⟨inv'', ranOut''⟩ := rest next first
    obtain ⟨e', done⟩ := ih (List.nodup_cons.1 nodup).2 inv'' ranOut'' budgeted' roomy''
    refine ⟨e', ?_⟩
    rw [expire, first]
    exact done

/-- The jobs at the start of a tick are those before it. -/
theorem jobCount_ledger {s s' : State} (same : s'.ledger = s.ledger) : s'.jobCount = s.jobCount := by
  apply State.jobCount_congr
  intro j
  have at_j : (s'.findJob j).map Job.ledger = (s.findJob j).map Job.ledger :=
    congrFun (congrArg Ledger.jobs same) j
  rw [← Option.isSome_map (f := Job.ledger), at_j, Option.isSome_map]

theorem startTick_total {iteration : IterationOrder} {wall : Int} {mono monoAgain : Nat}
    (inv : e.state.StateInv nobody) (live : e.state.replaying = false)
    (room : e.state.jobCount ≤ TimingWheel.kMaxNodes) :
    ∃ started, e.startTick iteration wall mono monoAgain = some started := by
  set now : Engine := { e with state := e.state.setNow wall mono } with now_eq
  have inv_now : now.state.StateInv nobody := inv.unindexed (Nat.le_refl _) (Nat.le_refl _)
  obtain ⟨jumped, detected⟩ : ∃ jumped, now.detectClockJump iteration monoAgain = some jumped := by
    unfold detectClockJump
    dsimp only
    split
    · exact ⟨_, rfl⟩
    · obtain ⟨state, rebuilt⟩ := @State.rebuildDerived_some now.state now.options.leaseGraceMs iteration
        inv_now.shape inv_now.tokens inv_now.fits live (Or.inr room)
      rw [rebuilt]
      exact ⟨_, rfl⟩
  obtain ⟨silent, inv_jumped, ledger, -⟩ := detectClockJump_spec inv_now detected
  have room' : jumped.state.Room := by
    refine Or.inr ?_
    rw [jobCount_ledger ledger]
    exact room
  obtain ⟨⟨state, expired⟩, advanced⟩ :=
    State.advanceTimers_some inv_jumped (silent.replaying.trans live) room'
  refine ⟨({ jumped with state }, expired), ?_⟩
  unfold startTick
  dsimp only [Option.bind_eq_bind]
  rw [detected, Option.bind_some, advanced, Option.bind_some]

theorem tick_total {iteration : IterationOrder} {wall : Int} {mono monoAgain : Nat}
    (inv : e.state.StateInv nobody) (live : e.state.replaying = false)
    (budgeted : e.state.ledger.Budgeted) (capacity : e.Capacity) :
    ∃ e', e.tick iteration wall mono monoAgain = some e' := by
  have jobs := capacity.jobs
  have lsns := capacity.lsns
  obtain ⟨⟨e₀, ids⟩, started⟩ := @startTick_total e iteration wall mono monoAgain inv live (by omega)
  obtain ⟨silent, inv₀, nodup, ranOut, ledger, -, -⟩ := startTick_spec inv live started
  have count : e₀.state.jobCount = e.state.jobCount := jobCount_ledger ledger
  have few : ids.length ≤ e₀.state.jobCount := by
    apply length_le_jobCount nodup
    intro id mem
    obtain ⟨job, found, -⟩ := ranOut id mem
    rw [found]
    rfl
  have budgeted₀ : e₀.state.ledger.Budgeted := by
    rw [ledger]
    exact budgeted
  have roomy : e₀.Roomy 0 ids.length := by
    refine ⟨silent.replaying.trans live, ?_, ?_, ?_⟩
    · omega
    · rw [silent.lastLsn]
      omega
    · rw [silent.options]
      exact capacity.payload
  obtain ⟨e₁, expired⟩ := expireLeases_total nodup inv₀ ranOut budgeted₀ roomy
  obtain ⟨logged, inv₁⟩ := expireLeases_logged nodup inv₀ ranOut expired
  have live₁ : e₁.state.replaying = false :=
    logged.appended.replaying.trans (silent.replaying.trans live)
  obtain ⟨state, collected⟩ := State.collectGarbage_some inv₁ live₁
  refine ⟨{ e₁ with state }, ?_⟩
  rw [tick_eq, started]
  show (expireLeases ids e₀).bind finishTick = _
  rw [expired]
  show e₁.state.collectGarbage.map _ = _
  rw [collected]
  rfl

/-- Every operation returns, within the capacity of the engine. -/
theorem step_total (op : EngineOp) (inv : e.state.StateInv nobody)
    (live : e.state.replaying = false) (budgeted : e.state.ledger.Budgeted) (capacity : e.Capacity) :
    ∃ e', e.step op = some e' := by
  cases tick : op.isTick with
  | false => exact request_total inv live budgeted capacity tick
  | true =>
    cases op with
    | tick iteration wall mono monoAgain => exact tick_total inv live budgeted capacity
    | _ => cases tick

end Ticks

end Engine

end Baton
