/-
# Run.Times — sums and differences of times

Times are signed 64-bit milliseconds, and the source adds and subtracts them unchecked.
Here every sum it forms is listed, operation by operation, over the integers; the question
is which of them leave 64 bits.

The operands come from different places.  The clock is below 2^49, and the decoders of the
log and of snapshots let times up to `kMaxWallTimeMs` through, but the retention times, the
lease grace and the idempotency window are whatever `parse_args` takes, which is up to
2^63 - 1.  `timesFit_iff` says exactly which command lines leave room for the sums.
-/
import Baton.Run.FromImage
import Baton.Run.Readable

namespace Baton

open Theory
open List (mem_append mem_cons mem_cons_self mem_flatMap mem_singleton)
open Option (bind_eq_some_iff map_eq_some_iff)
open ByteReader (Signed64)

set_option autoImplicit false

/-! ## What is added up -/

namespace State

/-- `mono_deadline`. -/
def deadlineSums (s : State) (deadline : Int) : List Int :=
  [deadline - s.wallNow, s.monoNow + max 0 (deadline - s.wallNow)]

/-- A timer for a time that is to come: `enter_pending`, and a timer that fired early. -/
def pendingSums (s : State) (at_ : Int) : List Int :=
  if s.wallNow < at_ then s.deadlineSums at_ else []

/-- `schedule_lease_timer`. -/
def leaseSums (s : State) (leaseExpiresAt graceMs : Int) : List Int :=
  (s.wallNow + graceMs) :: s.deadlineSums (max leaseExpiresAt (s.wallNow + graceMs))

/-- The loop of `rebuild_derived` over the jobs. -/
def rebuildSums (s : State) (graceMs : Int) : List Int :=
  s.jobs.entries.flatMap fun entry =>
    if entry.2.state.isPending then s.pendingSums entry.2.runAt
    else if entry.2.state = .kLeased then s.leaseSums entry.2.leaseExpiresAt graceMs
    else []

/-- The loop of `advance_timers`.  Each timer that fired belongs to a job of its own, so
the jobs are as they were before it. -/
def advanceSums (s : State) : List Int :=
  (s.wheel.advance s.monoNow []).2.flatMap fun event =>
    match s.findJob event.id with
    | none => []
    | some job =>
      if s.timer event.id ≠ some event.handle then []
      else if event.kind = kJobDue ∧ job.state = .kScheduled then s.pendingSums job.runAt
      else if event.kind = kLeaseExpiry ∧ job.state = .kLeased then s.pendingSums job.leaseExpiresAt
      else []

/-- The loop of `collect_garbage` over references of one kind. -/
def collectSums (now retention : Int) : List FinishedRef → List Int
  | [] => []
  | ref :: refs =>
    (ref.finishedAt + retention) ::
      if ref.finishedAt + retention ≤ now then collectSums now retention refs else []

def garbageSums (s : State) : List Int :=
  collectSums s.wallNow s.options.retainFinishedMs s.finishedGc ++
    collectSums s.wallNow s.options.retainDeadMs s.deadGc

def endReplaySums (s : State) (iteration : IterationOrder) (graceMs : Int) : List Int :=
  s.rebuildSums graceMs ++
    (({ s with replaying := false }.rebuildDerived iteration graceMs).map garbageSums).getD []

/-- What a record took to build, and takes to apply. -/
def recordSums (s : State) : Record → List Int
  | .jobEnqueued r => (if r.idemKey.isEmpty then [] else [r.idemExpiresAt]) ++ s.pendingSums r.runAt
  | .jobLeased r => r.leaseExpiresAt :: s.leaseSums r.leaseExpiresAt 0
  | .leaseExtended r => r.leaseExpiresAt :: s.leaseSums r.leaseExpiresAt 0
  | .attemptFailed r => if r.dead then [] else r.retryAt :: s.pendingSums r.retryAt
  | .deadJobRetried r => s.pendingSums r.runAt
  | .jobSucceeded _ => []
  | .jobCancelled _ => []
  | .jobsPurged _ => []

end State

namespace Engine

/-- What `enqueue` computes before it builds a record. -/
def enqueueSums (e : Engine) (request : EnqueueRequest) : List Int :=
  (request.runAt.map (· - e.state.wallNow)).toList ++
    if (e.checkEnqueue request).ok? then [e.state.wallNow + request.delayMs] else []

def tickSums (e : Engine) (iteration : IterationOrder) (wall : Int) (mono monoAgain : Nat) : List Int :=
  let now : Engine := { e with state := e.state.setNow wall mono }
  let change := wall - monoAgain - e.clockOffsetMs
  [wall - monoAgain, change] ++
    (if (change.natAbs : Int) ≤ e.options.clockJumpThresholdMs then []
      else now.state.rebuildSums e.options.leaseGraceMs) ++
    ((now.detectClockJump iteration monoAgain).map fun e => e.state.advanceSums).getD [] ++
    ((e.startTick iteration wall mono monoAgain).map fun started =>
      (expireRecords started.2 started.1).flatMap started.1.state.recordSums ++
        ((expireLeases started.2 started.1).map fun e => e.state.garbageSums).getD []).getD []

def sums (e : Engine) : EngineOp → List Int
  | .tick iteration wall mono monoAgain => e.tickSums iteration wall mono monoAgain
  | .enqueue request => e.enqueueSums request ++ (e.written (.enqueue request)).flatMap e.state.recordSums
  | op => (e.written op).flatMap e.state.recordSums

end Engine

/-! ## The runs -/

/-- What the clocks read. -/
def InClock (wall : Int) (mono : Nat) : Prop := 0 ≤ wall ∧ wall ≤ 2 ^ 49 ∧ mono ≤ 2 ^ 49

/-- The clocks are in range.  `ENQUEUE ... AT` is not negative, and cut off at
`kMaxWallTimeMs`. -/
def EngineOp.InRange : EngineOp → Prop
  | .tick _ wall mono monoAgain => InClock wall mono ∧ monoAgain ≤ 2 ^ 49
  | .enqueue request => ∀ runAt, request.runAt = some runAt → TimeInRange runAt
  | _ => True

/-- What recovery has before it ends the replay: records that were decoded, applied to an
empty state or to one that was loaded. -/
inductive State.Decoded (options : StateOptions) (platform : Platform) (s : State) : Prop where
  | log {log : List (Nat × Bytes)} {records : List Record} (decoded : decodeLog log = .ok records)
      (replayed : State.replay records (State.fresh options platform) = .ok (some s))
  | snapshot {loaded : State} {log : List (Nat × Bytes)} {records : List Record}
      (accepted : loaded.Accepted options platform) (decoded : decodeLog log = .ok records)
      (replayed : State.replay records loaded = .ok (some s))

/-- Nothing that the server adds up leaves 64 bits: at the end of the replay, when the
engine is created, or in any operation of any run after that. -/
def ServerConfig.TimesFit (config : ServerConfig) (platform : Platform) : Prop :=
  ∀ (s : State) iteration wall mono, s.Decoded config.state platform → InClock wall mono →
    (∀ x ∈ (s.setNow wall mono).endReplaySums iteration config.engine.leaseGraceMs, Signed64 x) ∧
    ∀ s' rng lastLsn log wallAgain monoAgain ops e op,
      (s.setNow wall mono).endReplay iteration config.engine.leaseGraceMs = some s' →
      InClock wallAgain monoAgain → (∀ op ∈ ops, EngineOp.InRange op) → op.InRange →
      Engine.run ops (Engine.create s' config.engine rng lastLsn log wallAgain monoAgain) = some e →
      Signed64 (wallAgain - monoAgain) ∧ ∀ x ∈ e.sums op, Signed64 x

/-- The durations that leave room.  Below the estimate for a job with a key of one byte the
memory limit refuses every job with a key, and the window is never used. -/
structure ServerConfig.LeavesRoom (config : ServerConfig) (platform : Platform) : Prop where
  retainFinished : config.state.retainFinishedMs < 2 ^ 63 - 2 ^ 50
  retainDead : config.state.retainDeadMs < 2 ^ 63 - 2 ^ 50
  leaseGrace : config.engine.leaseGraceMs < 2 ^ 63 - 2 ^ 49
  window : config.engine.idempotencyWindowMs < 2 ^ 63 - 2 ^ 49 ∨
    (config.engine.maxMemoryBytes ≠ 0 ∧ config.engine.maxMemoryBytes < platform.sizeofJob + 258)

/-! ## Sums that fit -/

namespace State

section Fit

variable {s : State} {d graceMs : Int}

theorem deadlineSums_fit (clock : InClock s.wallNow s.monoNow) (low : 0 ≤ d)
    (high : d - s.wallNow < 2 ^ 63 - 2 ^ 49) : ∀ x ∈ s.deadlineSums d, Signed64 x := by
  obtain ⟨wall, wall', mono⟩ := clock
  intro x mem
  rcases mem_cons.1 mem with rfl | mem
  · constructor <;> omega
  · rw [mem_singleton.1 mem]
    constructor <;> omega

theorem pendingSums_fit (clock : InClock s.wallNow s.monoNow) (inRange : TimeInRange d) :
    ∀ x ∈ s.pendingSums d, Signed64 x := by
  have range : kMaxWallTimeMs = 2 ^ 50 := by decide
  obtain ⟨low, high⟩ := inRange
  have wall := clock.1
  unfold pendingSums
  split
  · exact deadlineSums_fit clock low (by omega)
  · exact nofun

theorem leaseSums_fit (clock : InClock s.wallNow s.monoNow) (inRange : TimeInRange d) (low : 0 ≤ graceMs)
    (high : graceMs < 2 ^ 63 - 2 ^ 49) : ∀ x ∈ s.leaseSums d graceMs, Signed64 x := by
  have range : kMaxWallTimeMs = 2 ^ 50 := by decide
  have ⟨after, before⟩ := inRange
  have ⟨wall, wall', _⟩ := clock
  intro x mem
  rcases mem_cons.1 mem with rfl | mem
  · constructor <;> omega
  · exact deadlineSums_fit clock (by omega) (by omega) x mem

theorem collectSums_fit {now retention : Int} {refs : List FinishedRef} (low : 0 ≤ retention)
    (high : retention < 2 ^ 63 - 2 ^ 50) (inRange : ∀ ref ∈ refs, TimeInRange ref.finishedAt) :
    ∀ x ∈ collectSums now retention refs, Signed64 x := by
  induction refs with
  | nil => exact nofun
  | cons ref refs ih =>
    have range : kMaxWallTimeMs = 2 ^ 50 := by decide
    have ⟨after, before⟩ := inRange ref mem_cons_self
    intro x mem
    rcases mem_cons.1 mem with rfl | mem
    · constructor <;> omega
    · split at mem
      · exact ih (fun ref mem => inRange ref (List.mem_cons_of_mem _ mem)) x mem
      · cases mem

end Fit

end State

/-! ## Times in range -/

theorem Record.Timely.dated {r : Record} {config : ServerConfig} {wall : Int} (accepted : config.Accepted)
    (low : 0 ≤ wall) (high : wall ≤ 2 ^ 49) (timely : r.Timely config.engine wall) : r.Dated := by
  have range : kMaxWallTimeMs = 2 ^ 50 := by decide
  have delay := accepted.maxDelay
  have minLease := accepted.minLease
  have maxLease := accepted.maxLease
  cases r with
  | jobEnqueued r =>
    obtain ⟨early, late, -, -⟩ := timely
    exact ⟨by omega, by omega⟩
  | jobLeased r | leaseExtended r =>
    obtain ⟨early, late, -⟩ := timely
    exact ⟨by omega, by omega⟩
  | jobSucceeded r | jobCancelled r =>
    have now : r.at_ = wall := timely
    exact ⟨by omega, by omega⟩
  | attemptFailed r =>
    obtain ⟨now, retry⟩ := timely
    exact ⟨⟨by omega, by omega⟩, ⟨by omega, by omega⟩⟩
  | deadJobRetried r =>
    obtain ⟨due, -⟩ := timely
    exact ⟨by omega, by omega⟩
  | jobsPurged r => trivial

namespace State

/-- Every time the state holds is one that a decoder lets through. -/
structure Dated (s : State) : Prop where
  jobs : ∀ id job, s.ledger.jobs id = some job → job.Dated
  finished : ∀ ref ∈ s.finishedGc, TimeInRange ref.finishedAt
  dead : ∀ ref ∈ s.deadGc, TimeInRange ref.finishedAt

section Dated

variable {s s' : State} {away : Nat → Prop} {iteration : IterationOrder} {graceMs : Int}

theorem Dated.congr (dated : s.Dated) (ledger : s'.ledger = s.ledger)
    (finished : s'.finishedGc = s.finishedGc) (dead : s'.deadGc = s.deadGc) : s'.Dated :=
  ⟨ledger ▸ dated.jobs, finished ▸ dated.finished, dead ▸ dated.dead⟩

theorem Dated.apply {r : Record} (dated : s.Dated) (inv : s.StateInv away) (times : r.Dated)
    (applied : s.apply r = .ok (some s')) : s'.Dated := by
  have frame := apply_frame inv applied
  have step := apply_step inv applied
  refine ⟨?_, ?_, ?_⟩
  · intro id job found
    rcases step.jobs found with old | rewrite
    · exact dated.jobs id job old
    · exact rewrite.dated times dated.jobs
  · intro ref mem
    rw [frame.finishedGc] at mem
    rcases mem_append.1 mem with old | new
    · exact dated.finished ref old
    · cases r with
      | jobSucceeded r | jobCancelled r =>
        cases mem_singleton.1 new
        exact times
      | _ => cases new
  · intro ref mem
    rw [frame.deadGc] at mem
    rcases mem_append.1 mem with old | new
    · exact dated.dead ref old
    · cases r with
      | attemptFailed r =>
        have new : ref ∈ if r.dead then [⟨r.id, r.at_⟩] else [] := new
        split at new
        · cases mem_singleton.1 new
          exact times.1
        · cases new
      | _ => cases new

theorem rebuildDerived_dated (shape : Shape s) (tokens : 0 < s.nextToken)
    (fits : ∀ id job, s.findJob id = some job → JobFits s.nextJobId s.nextToken id job)
    (jobs : ∀ id job, s.ledger.jobs id = some job → job.Dated)
    (rebuilt : s.rebuildDerived iteration graceMs = some s') : s'.Dated := by
  obtain ⟨ledger, -⟩ := rebuildDerived_ledger shape tokens fits rebuilt
  obtain ⟨-, -, -, finishedGc, deadGc⟩ := rebuildDerived_spec shape tokens fits rebuilt
  refine ⟨ledger ▸ jobs, ?_, ?_⟩
  · intro ref mem
    rw [finishedGc, mem_sortRefs] at mem
    obtain ⟨id, -, made⟩ := List.mem_filterMap.1 mem
    obtain ⟨job, found, -, rfl⟩ := finishedRef_some.1 made
    exact (jobs id job found).finishedAt
  · intro ref mem
    rw [deadGc, mem_sortRefs] at mem
    obtain ⟨id, -, made⟩ := List.mem_filterMap.1 mem
    obtain ⟨job, found, -, rfl⟩ := deadRef_some.1 made
    exact (jobs id job found).finishedAt

theorem Collected.dated {finished dead : List FinishedRef} (collected : Collected s s' finished dead)
    (dated : s.Dated) : s'.Dated := by
  refine ⟨?_, ?_, ?_⟩
  · intro id job found
    obtain ⟨job', found', rfl⟩ := map_eq_some_iff.1 found
    have either := collected.jobs id
    rw [found'] at either
    split at either
    · cases either
    · exact dated.jobs id _ (ledger_jobs either.symm)
  · intro ref mem
    apply dated.finished
    rw [collected.finishedGc.parts]
    exact List.mem_append_right _ mem
  · intro ref mem
    apply dated.dead
    rw [collected.deadGc.parts]
    exact List.mem_append_right _ mem

/-- A state that recovery has is in step, and its times are in range. -/
theorem replay_dated {records : List Record} (at_s : s.Replaying)
    (dated : ∀ id job, s.ledger.jobs id = some job → job.Dated) (wire : ∀ r ∈ records, r.Wire)
    (replayed : State.replay records s = .ok (some s')) :
    s'.Replaying ∧ ∀ id job, s'.ledger.jobs id = some job → job.Dated := by
  obtain ⟨at_end, ledger⟩ := at_s.replay replayed
  refine ⟨at_end, ?_⟩
  refine Ledger.replay_keeps (P := fun _ l => ∀ id job, l.jobs id = some job → job.Dated) (n := 0) ?_ ledger dated
  intro _ l r l' mem step old id job found
  rcases step.jobs found with before | rewrite
  · exact old id job before
  · exact rewrite.dated (wire r mem).dated old

end Dated

end State

/-- What the builder takes in has its times checked. -/
theorem StateBuilder.Grows.dated {b b' : StateBuilder} (grows : Grows b b')
    (dated : ∀ id job, b.state.findJob id = some job → badTimes job = false) :
    ∀ id job, b'.state.findJob id = some job → badTimes job = false := by
  cases grows with
  | counters | queue | haveMeta => exact dated
  | @job job takes =>
    intro id job' found
    have found : (b.insertJob job).state.jobs.lookup id = some job' := found
    rw [insertJob_jobs] at found
    by_cases same : id = job.id
    · rw [same, AList.lookup_insert] at found
      cases found
      exact takes.times
    · rw [AList.lookup_insert_ne same] at found
      exact dated id job' found
  | entry key jobId expiresAt =>
    obtain ⟨order, index, node, memory, eq⟩ := State.upsertIdem_eq b.state key jobId expiresAt
    intro id job found
    rw [eq] at found
    exact dated id job found

namespace State

variable {s s' : State} {options : StateOptions} {platform : Platform}

theorem Accepted.dated (accepted : s.Accepted options platform) :
    ∀ id job, s.ledger.jobs id = some job → job.Dated := by
  obtain ⟨pieces, built⟩ := accepted.built
  obtain ⟨b, grows, rfl⟩ := StateBuilder.build_grows built
  have checked := StateBuilder.grows_invariant
    (P := fun b => ∀ id job, b.state.findJob id = some job → StateBuilder.badTimes job = false)
    (fun _ _ step => step.dated) grows nofun
  intro id entry listed
  obtain ⟨job, found, rfl⟩ := map_eq_some_iff.1 listed
  have times := checked id job found
  simp only [StateBuilder.badTimes, Bool.or_eq_false_iff, Bool.not_eq_false', timeInRange_iff] at times
  exact ⟨times.1.1.1, times.1.2, times.2⟩

theorem Decoded.spec (decoded : s.Decoded options platform) :
    s.StateInv nobody ∧ s.MadeWith options platform ∧ ∀ id job, s.ledger.jobs id = some job → job.Dated := by
  cases decoded with
  | log decoded replayed =>
    have fresh := replaying_fresh options platform
    obtain ⟨at_s, dated⟩ := replay_dated fresh (by rw [ledger_fresh]; exact nofun) (wire_of_decodeLog decoded)
      replayed
    exact ⟨at_s.inv, fresh.madeWith replayed ⟨rfl, rfl⟩, dated⟩
  | snapshot accepted decoded replayed =>
    obtain ⟨pieces, built⟩ := accepted.built
    have loaded := StateBuilder.build_replaying built
    obtain ⟨at_s, dated⟩ := replay_dated loaded accepted.dated (wire_of_decodeLog decoded) replayed
    exact ⟨at_s.inv, loaded.madeWith replayed (StateBuilder.build_madeWith built), dated⟩

end State

/-! ## Runs in range -/

namespace Engine

/-- An engine of a configuration whose clocks and times are in range. -/
structure Dated (config : ServerConfig) (platform : Platform) (e : Engine) : Prop where
  inv : e.state.StateInv State.nobody
  live : e.state.replaying = false
  options : e.options = config.engine
  made : e.state.MadeWith config.state platform
  times : e.state.Dated
  clock : InClock e.state.wallNow e.state.monoNow
  offset : -2 ^ 49 ≤ e.clockOffsetMs ∧ e.clockOffsetMs ≤ 2 ^ 49

section Dated

variable {config : ServerConfig} {platform : Platform} {e e' e₀ : Engine} {rs : List Record}
  {iteration : IterationOrder}
  {wall : Int} {mono monoAgain : Nat} {ids : List Nat} {op : EngineOp}

theorem Logged.dated (logged : Logged e rs e') (records : ∀ r ∈ rs, r.Dated) (times : e.state.Dated) :
    e'.state.Dated ∧ e'.state.monoNow = e.state.monoNow ∧ e'.clockOffsetMs = e.clockOffsetMs := by
  induction logged with
  | done e => exact ⟨times, rfl, rfl⟩
  | @log e e' r rs away state drawn inv issued applied small rest ih =>
    obtain ⟨later, mono, offset⟩ := ih (fun r mem => records r (List.mem_cons_of_mem _ mem))
      (times.apply inv (records r mem_cons_self) applied)
    exact ⟨later, mono.trans (State.apply_frame inv applied).monoNow, offset⟩

theorem detectClockJump_dated (inv : e.state.StateInv State.nobody) (times : e.state.Dated)
    (detected : e.detectClockJump iteration mono = some e') :
    e'.state.Dated ∧ e'.state.monoNow = e.state.monoNow ∧ e'.clockOffsetMs = e.state.wallNow - mono := by
  unfold detectClockJump at detected
  dsimp only at detected
  split at detected
  · cases detected
    exact ⟨times, rfl, rfl⟩
  · obtain ⟨state, rebuilt, rfl⟩ := map_eq_some_iff.1 detected
    obtain ⟨-, kept, -⟩ := State.rebuildDerived_spec inv.shape inv.tokens inv.fits rebuilt
    exact ⟨State.rebuildDerived_dated inv.shape inv.tokens inv.fits times.jobs rebuilt, kept.monoNow, rfl⟩

theorem startTick_dated (inv : e.state.StateInv State.nobody) (live : e.state.replaying = false)
    (times : e.state.Dated) (started : e.startTick iteration wall mono monoAgain = some (e₀, ids)) :
    e₀.state.Dated ∧ e₀.state.monoNow = mono ∧ e₀.clockOffsetMs = wall - monoAgain := by
  obtain ⟨jumped, detected, more⟩ := bind_eq_some_iff.1 started
  obtain ⟨⟨state, expired⟩, advanced, result⟩ := bind_eq_some_iff.1 more
  cases result
  have inv_now : State.StateInv { e with state := e.state.setNow wall mono }.state State.nobody :=
    inv.unindexed (Nat.le_refl _) (Nat.le_refl _)
  obtain ⟨dated, mono_eq, offset⟩ := detectClockJump_dated inv_now (times.congr rfl rfl rfl) detected
  obtain ⟨silent, inv_jumped, -⟩ := detectClockJump_spec inv_now detected
  have live_jumped : jumped.state.replaying = false := silent.replaying.trans live
  obtain ⟨-, -, kept, -⟩ := State.advanceTimers_spec inv_jumped live_jumped advanced
  have same := State.ledger_advanceTimers inv_jumped live_jumped advanced
  exact ⟨dated.congr same kept.finishedGc kept.deadGc, kept.monoNow.trans mono_eq, offset⟩

section

variable (dated : e.Dated config platform) (accepted : config.Accepted)

include dated accepted

/-- A tick with its clocks in range, up to the collection of garbage. -/
theorem Dated.expired {e₁ : Engine}
    (inRange : EngineOp.InRange (.tick iteration wall mono monoAgain))
    (started : e.startTick iteration wall mono monoAgain = some (e₀, ids))
    (expired : expireLeases ids e₀ = some e₁) : e₁.Dated config platform := by
  obtain ⟨⟨low, high, late⟩, again⟩ := inRange
  obtain ⟨start, inv₀, nodup, ranOut, -, clock, -⟩ := startTick_spec dated.inv dated.live started
  obtain ⟨times₀, mono₀, offset₀⟩ := startTick_dated dated.inv dated.live dated.times started
  obtain ⟨logged, inv₁⟩ := expireLeases_logged nodup inv₀ ranOut expired
  have timely := written_timely (.tick iteration wall mono monoAgain) dated.inv dated.live
  have records : e.written (.tick iteration wall mono monoAgain) = expireRecords ids e₀ := by
    unfold written
    dsimp only
    rw [started]
  rw [records, dated.options] at timely
  obtain ⟨times, mono₁, offset₁⟩ :=
    logged.dated (fun r mem => (timely r mem).dated accepted low high) times₀
  have appended := logged.appended
  refine ⟨inv₁, appended.replaying.trans (start.replaying.trans dated.live),
    appended.options.trans (start.options.trans dated.options),
    ⟨appended.stateOptions.trans (start.stateOptions.trans dated.made.1),
      appended.platform.trans (start.platform.trans dated.made.2)⟩, times, ?_, ?_⟩
  · rw [appended.wallNow, clock, mono₁, mono₀]
    exact ⟨low, high, late⟩
  · rw [offset₁, offset₀]
    omega

theorem Dated.step (inRange : op.InRange)
    (stepped : e.step op = some e') : e'.Dated config platform := by
  cases tick : op.isTick with
  | false =>
    have logged := request_logged dated.inv tick stepped
    have timely := requested_timely e op
    rw [dated.options] at timely
    obtain ⟨times, mono, offset⟩ := logged.dated
      (fun r mem => (timely r mem).dated accepted dated.clock.1 dated.clock.2.1) dated.times
    have appended := logged.appended
    exact ⟨logged.inv dated.inv, appended.replaying.trans dated.live, appended.options.trans dated.options,
      ⟨appended.stateOptions.trans dated.made.1, appended.platform.trans dated.made.2⟩, times,
      by rw [appended.wallNow, mono]; exact dated.clock, offset ▸ dated.offset⟩
  | true =>
    cases op with
    | tick iteration wall mono monoAgain =>
      have stepped : e.tick iteration wall mono monoAgain = some e' := stepped
      rw [tick_eq] at stepped
      obtain ⟨⟨e₀, ids⟩, started, more⟩ := bind_eq_some_iff.1 stepped
      obtain ⟨e₁, expired, finished⟩ := bind_eq_some_iff.1 more
      have dated₁ := dated.expired accepted inRange started expired
      obtain ⟨state, collected, rfl⟩ := map_eq_some_iff.1 finished
      obtain ⟨inv', _, _, result⟩ := State.collectGarbage_spec dated₁.inv collected
      refine ⟨inv', result.replaying.trans dated₁.live, dated₁.options,
        ⟨result.options.trans dated₁.made.1, result.platform.trans dated₁.made.2⟩, result.dated dated₁.times,
        ?_, dated₁.offset⟩
      rw [result.wallNow, result.monoNow]
      exact dated₁.clock
    | _ => cases tick

theorem Dated.run {ops : List EngineOp} (inRange : ∀ op ∈ ops, EngineOp.InRange op)
    (ran : Engine.run ops e = some e') : e'.Dated config platform := by
  induction ops generalizing e with
  | nil =>
    cases ran
    exact dated
  | cons op ops ih =>
    obtain ⟨next, first, rest⟩ := bind_eq_some_iff.1 ran
    exact ih (dated.step accepted (inRange op mem_cons_self) first)
      (fun op mem => inRange op (List.mem_cons_of_mem _ mem)) rest

end

end Dated

end Engine

/-! ## The sums of a run -/

section Fit

variable {config : ServerConfig} {platform : Platform} {s : State}

theorem State.Dated.job {id : Nat} {job : Job} (dated : s.Dated) (found : s.findJob id = some job) :
    job.ledger.Dated := dated.jobs id job.ledger (ledger_jobs found)

theorem State.rebuildSums_fit {graceMs : Int} (dated : ∀ id job, s.ledger.jobs id = some job → job.Dated)
    (clock : InClock s.wallNow s.monoNow) (low : 0 ≤ graceMs) (high : graceMs < 2 ^ 63 - 2 ^ 49) :
    ∀ x ∈ s.rebuildSums graceMs, Signed64 x := by
  intro x mem
  obtain ⟨⟨id, job⟩, listed, mem⟩ := mem_flatMap.1 mem
  have times := dated id job.ledger (ledger_jobs (Table.lookup_eq_some_iff.2 listed))
  split at mem
  · exact pendingSums_fit clock times.runAt x mem
  split at mem
  · exact leaseSums_fit clock times.leaseExpiresAt low high x mem
  · cases mem

theorem State.advanceSums_fit (dated : s.Dated) (clock : InClock s.wallNow s.monoNow) :
    ∀ x ∈ s.advanceSums, Signed64 x := by
  intro x mem
  obtain ⟨event, -, mem⟩ := mem_flatMap.1 mem
  split at mem
  · cases mem
  rename_i job found
  split at mem
  · cases mem
  split at mem
  · exact pendingSums_fit clock (dated.job found).runAt x mem
  split at mem
  · exact pendingSums_fit clock (dated.job found).leaseExpiresAt x mem
  · cases mem

theorem State.garbageSums_fit (dated : s.Dated) (same : s.options = config.state) (accepted : config.Accepted)
    (room : config.LeavesRoom platform) :
    ∀ x ∈ s.garbageSums, Signed64 x := by
  intro x mem
  unfold garbageSums at mem
  rw [same] at mem
  rcases mem_append.1 mem with mem | mem
  · exact collectSums_fit accepted.retainFinished room.retainFinished dated.finished x mem
  · exact collectSums_fit accepted.retainDead room.retainDead dated.dead x mem

theorem State.recordSums_fit {r : Record} (accepted : config.Accepted)
    (clock : InClock s.wallNow s.monoNow) (timely : r.Timely config.engine s.wallNow)
    (key : ∀ job, r = .jobEnqueued job → job.idemKey ≠ [] →
      config.engine.idempotencyWindowMs < 2 ^ 63 - 2 ^ 49) : ∀ x ∈ s.recordSums r, Signed64 x := by
  have dated := timely.dated accepted clock.1 clock.2.1
  have none_given : (0 : Int) < 2 ^ 63 - 2 ^ 49 := by decide
  have lease : ∀ {at_ : Int}, TimeInRange at_ → ∀ x ∈ at_ :: s.leaseSums at_ 0, Signed64 x := by
    intro at_ inRange x mem
    rcases mem_cons.1 mem with rfl | mem
    · exact inRange.signed
    · exact leaseSums_fit clock inRange (Int.le_refl 0) none_given x mem
  intro x mem
  cases r with
  | jobEnqueued r =>
    rcases mem_append.1 mem with mem | mem
    · split at mem
      · cases mem
      rename_i keyed
      have expires := timely.2.2.2
      have window := key r rfl (by simpa using keyed)
      have ⟨low, high, _⟩ := clock
      have positive := accepted.window.1
      rw [mem_singleton.1 mem, expires]
      constructor <;> omega
    · exact pendingSums_fit clock dated x mem
  | jobLeased r | leaseExtended r => exact lease dated x mem
  | attemptFailed r =>
    have mem : x ∈ if r.dead then [] else r.retryAt :: s.pendingSums r.retryAt := mem
    split at mem
    · cases mem
    rcases mem_cons.1 mem with rfl | mem
    · exact dated.2.signed
    · exact pendingSums_fit clock dated.2 x mem
  | deadJobRetried r => exact pendingSums_fit clock dated x mem
  | jobSucceeded r | jobCancelled r | jobsPurged r => cases mem

namespace Engine

variable {e : Engine}

theorem Dated.written_fit {op : EngineOp} {s : State} (dated : e.Dated config platform)
    (accepted : config.Accepted) (room : config.LeavesRoom platform) (clock : InClock s.wallNow s.monoNow)
    (now : s.wallNow = op.clock e.state.wallNow) : ∀ x ∈ (e.written op).flatMap s.recordSums, Signed64 x := by
  intro x mem
  obtain ⟨r, written, mem⟩ := mem_flatMap.1 mem
  have timely := written_timely op dated.inv dated.live r written
  rw [dated.options, ← now] at timely
  refine State.recordSums_fit accepted clock timely ?_ x mem
  rintro job rfl keyed
  obtain ⟨request, rfl, rfl, -, -, fits⟩ := written_enqueued dated.inv dated.live written
  have key : 0 < request.idemKey.length := List.length_pos_iff.2 keyed
  refine room.window.resolve_right ?_
  rintro ⟨limited, small⟩
  rw [dated.options] at fits
  refine fits ⟨limited, ?_⟩
  unfold estimatedJobBytes
  rw [dated.made.2]
  omega

theorem Dated.fit {op : EngineOp} (dated : e.Dated config platform) (accepted : config.Accepted)
    (room : config.LeavesRoom platform) (inRange : op.InRange) : ∀ x ∈ e.sums op, Signed64 x := by
  cases op with
  | tick iteration wall mono monoAgain =>
    have ⟨clock, again⟩ := inRange
    have offset := dated.offset
    intro x mem
    unfold sums tickSums at mem
    simp only [mem_append] at mem
    rcases mem with ((mem | mem) | mem) | mem
    · have ⟨low, high, _⟩ := clock
      rcases mem_cons.1 mem with rfl | mem
      · constructor <;> omega
      · rw [mem_singleton.1 mem]
        constructor <;> omega
    · split at mem
      · cases mem
      rw [dated.options] at mem
      exact State.rebuildSums_fit (s := e.state.setNow wall mono) dated.times.jobs clock
        accepted.leaseGrace room.leaseGrace x mem
    · cases detected : detectClockJump { e with state := e.state.setNow wall mono } iteration monoAgain with
      | none =>
        rw [detected] at mem
        cases mem
      | some jumped =>
        rw [detected] at mem
        have inv_now : State.StateInv { e with state := e.state.setNow wall mono }.state State.nobody :=
          dated.inv.unindexed (Nat.le_refl _) (Nat.le_refl _)
        obtain ⟨times, mono_eq, -⟩ :=
          detectClockJump_dated inv_now (dated.times.congr rfl rfl rfl) detected
        obtain ⟨-, -, -, wall_eq, -⟩ := detectClockJump_spec inv_now detected
        exact State.advanceSums_fit times (by rw [wall_eq, mono_eq]; exact clock) x mem
    · cases started : e.startTick iteration wall mono monoAgain with
      | none =>
        rw [started] at mem
        cases mem
      | some result =>
        obtain ⟨e₀, ids⟩ := result
        rw [started] at mem
        rcases mem_append.1 mem with mem | mem
        · obtain ⟨-, -, -, -, -, wall_eq, -⟩ := startTick_spec dated.inv dated.live started
          obtain ⟨-, mono_eq, -⟩ := startTick_dated dated.inv dated.live dated.times started
          have fit := @written_fit config platform e (.tick iteration wall mono monoAgain) e₀.state dated accepted
            room (by rw [wall_eq, mono_eq]; exact clock) wall_eq
          unfold written at fit
          dsimp only at fit
          rw [started] at fit
          exact fit x mem
        · cases expired : expireLeases ids e₀ with
          | none =>
            rw [expired] at mem
            cases mem
          | some e₁ =>
            rw [expired] at mem
            have dated₁ := dated.expired accepted inRange started expired
            exact State.garbageSums_fit dated₁.times dated₁.made.1 accepted room x mem
  | enqueue request =>
    intro x mem
    rcases mem_append.1 mem with mem | mem
    · have range : kMaxWallTimeMs = 2 ^ 50 := by decide
      have ⟨low, high, _⟩ := dated.clock
      rcases mem_append.1 mem with mem | mem
      · obtain ⟨runAt, given, rfl⟩ := map_eq_some_iff.1 (Option.mem_toList.1 mem)
        obtain ⟨after, before⟩ := inRange runAt given
        constructor <;> omega
      · split at mem
        · rename_i passed
          have checked : e.checkEnqueue request = .ok () := by
            cases checked : e.checkEnqueue request with
            | ok _ => rfl
            | error _ =>
              rw [checked] at passed
              cases passed
          obtain ⟨-, -, -, -, ⟨positive, short⟩, -⟩ := checkEnqueue_ok checked
          rw [dated.options, accepted.maxDelay] at short
          rw [mem_singleton.1 mem]
          constructor <;> omega
        · cases mem
    · exact dated.written_fit accepted room dated.clock rfl x mem
  | _ => exact dated.written_fit accepted room dated.clock rfl

end Engine

end Fit

/-! ## The durations that fit -/

theorem ServerConfig.LeavesRoom.timesFit {config : ServerConfig} {platform : Platform}
    (room : config.LeavesRoom platform) (accepted : config.Accepted) : config.TimesFit platform := by
  intro s iteration wall mono decoded clock
  obtain ⟨inv, same, jobs⟩ := decoded.spec
  have inv_now : (s.setNow wall mono).StateInv State.nobody :=
    inv.unindexed (Nat.le_refl _) (Nat.le_refl _)
  have start : ∀ t, { s.setNow wall mono with replaying := false }.rebuildDerived iteration
      config.engine.leaseGraceMs = some t →
      t.Dated ∧ t.MadeWith config.state platform ∧ t.replaying = false := by
    intro t rebuilt
    obtain ⟨-, kept, -⟩ := State.rebuildDerived_spec inv_now.shape.live inv_now.tokens inv_now.fits rebuilt
    exact ⟨State.rebuildDerived_dated inv_now.shape.live inv_now.tokens inv_now.fits jobs rebuilt,
      ⟨kept.options.trans same.1, kept.platform.trans same.2⟩, kept.replaying⟩
  constructor
  · intro x mem
    rcases mem_append.1 mem with mem | mem
    · exact State.rebuildSums_fit (s := s.setNow wall mono) jobs clock accepted.leaseGrace
        room.leaseGrace x mem
    · cases rebuilt : { s.setNow wall mono with replaying := false }.rebuildDerived iteration
          config.engine.leaseGraceMs with
      | none =>
        rw [rebuilt] at mem
        cases mem
      | some t =>
        rw [rebuilt] at mem
        obtain ⟨times, made, -⟩ := start t rebuilt
        exact State.garbageSums_fit times made.1 accepted room x mem
  · intro s' rng lastLsn log wallAgain monoAgain ops e op ended clockAgain inRange last ran
    obtain ⟨t, _, _, rebuilt, -, inv', collected⟩ := State.endReplay_spec inv_now ended
    obtain ⟨times, made, live⟩ := start t rebuilt
    have ⟨low, high, late⟩ := clockAgain
    have created : (Engine.create s' config.engine rng lastLsn log wallAgain monoAgain).Dated config platform :=
      ⟨inv'.unindexed (Nat.le_refl _) (Nat.le_refl _), collected.replaying.trans live, rfl,
        ⟨collected.options.trans made.1, collected.platform.trans made.2⟩,
        (collected.dated times).congr rfl rfl rfl, clockAgain,
        by show -2 ^ 49 ≤ wallAgain - (monoAgain : Int) ∧ wallAgain - (monoAgain : Int) ≤ 2 ^ 49; omega⟩
    refine ⟨?_, (created.run accepted inRange ran).fit accepted room last⟩
    constructor <;> omega

section Late

/-- A job with one attempt, and what its log goes on with. -/
def lateLog (last : List Record) : List Record :=
  .jobEnqueued ⟨1, [113], [], 0, 0, 1, 0, 0, [], 0, 0⟩ :: last

def lateRequest : EnqueueRequest := { queue := [113], payload := [], maxAttempts := some 1, idemKey := [107] }

variable {config : ServerConfig} {platform : Platform}

/-- With room for one job the request is carried out by an engine that knows no keys. -/
theorem lateRequest_asked {e : Engine} (accepted : config.Accepted) (same : e.options = config.engine)
    (unknown : e.state.findIdem [107] = none)
    (roomy : ¬ (e.options.maxMemoryBytes ≠ 0 ∧
      e.options.maxMemoryBytes < e.state.memoryBytes + e.estimatedJobBytes lateRequest)) :
    (e.requested (.enqueue lateRequest)).2 = [.jobEnqueued (e.enqueueRecord lateRequest)] := by
  have checked : e.checkEnqueue lateRequest = .ok () := by
    unfold Engine.checkEnqueue
    rw [same, accepted.maxDelay, accepted.attempts, if_neg (by decide), if_neg (by simp [lateRequest]),
      if_neg (by decide), if_neg (by decide), if_neg (by exact Bool.false_ne_true),
      if_neg (by exact (show ¬ ((1 : UInt32) = 0 ∨ 1000 < (1 : UInt32)) from by decide))]
  have live : e.liveIdem lateRequest = none := by
    unfold Engine.liveIdem
    rw [if_neg (by decide), show lateRequest.idemKey = [107] from rfl, unknown]
  unfold Engine.requested
  dsimp only
  rw [checked, live]
  rw [if_neg roomy]

/-- The first sum at the end of a replay is one that has to fit. -/
theorem ServerConfig.TimesFit.head {s : State} {wall x : Int} {rest : List Int} (fit : config.TimesFit platform)
    (records : List Record) (decoded : decodeLog (records.map Record.entry) = .ok records)
    (clock : InClock wall 0)
    (replayed : State.replay records (State.fresh config.state platform) = .ok (some s))
    (first : (s.setNow wall 0).endReplaySums .asListed config.engine.leaseGraceMs = x :: rest) :
    Signed64 x := by
  refine (fit s .asListed wall 0 (.log decoded replayed) clock).1 x ?_
  rw [first]
  exact mem_cons_self

theorem ServerConfig.TimesFit.leavesRoom (fit : config.TimesFit platform) (accepted : config.Accepted) :
    config.LeavesRoom platform := by
  have zero : InClock 0 0 := by unfold InClock; decide
  have late : InClock (2 ^ 49) 0 := by unfold InClock; decide
  refine ⟨?_, ?_, ?_, ?_⟩
  · have sum : Signed64 (2 ^ 50 + config.state.retainFinishedMs) :=
      fit.head (lateLog [.jobCancelled ⟨1, 2 ^ 50⟩]) (by decide +kernel) zero rfl rfl
    have ⟨_, high⟩ := sum
    omega
  · have sum : Signed64 (2 ^ 50 + config.state.retainDeadMs) :=
      fit.head (lateLog [.jobLeased ⟨1, 1, 0, 0⟩, .attemptFailed ⟨1, 1, .kWorkerFailed, [], 2 ^ 50, true, 0⟩])
        (by decide +kernel) zero rfl rfl
    have ⟨_, high⟩ := sum
    omega
  · have sum : Signed64 (2 ^ 49 + config.engine.leaseGraceMs) :=
      fit.head (lateLog [.jobLeased ⟨1, 1, 0, 0⟩]) (by decide +kernel) late rfl rfl
    have ⟨_, high⟩ := sum
    omega
  · rw [or_iff_not_imp_right]
    intro roomy
    obtain ⟨s', ended, unknown, empty, same⟩ : ∃ s', ((State.fresh config.state platform).setNow 0
        0).endReplay .asListed config.engine.leaseGraceMs = some s' ∧ s'.findIdem [107] = none ∧
        s'.memoryBytes = 0 ∧ s'.platform = platform := ⟨_, rfl, rfl, rfl, rfl⟩
    have sums := ((fit (State.fresh config.state platform) .asListed 0 0
      (.log (show decodeLog [] = .ok [] from rfl) rfl) zero).2 s' (fun _ => 0) 0 [] (2 ^ 49) 0 [] _
        (.enqueue lateRequest) ended late nofun nofun rfl).2
    generalize created : Engine.create s' config.engine (fun _ => 0) 0 [] (2 ^ 49) 0 = e at sums
    have options : e.options = config.engine := created ▸ rfl
    have now : e.state.wallNow = 2 ^ 49 := created ▸ rfl
    have asked := @lateRequest_asked config e accepted options (created ▸ unknown) (by
      have memory : e.state.memoryBytes = 0 := created ▸ empty
      have made : e.state.platform = platform := created ▸ same
      unfold Engine.estimatedJobBytes
      rw [options, memory, made, Nat.zero_add]
      exact roomy)
    have sum : Signed64 (2 ^ 49 + config.engine.idempotencyWindowMs) := by
      refine sums _ (List.mem_append_right _ ?_)
      show _ ∈ ((e.requested (.enqueue lateRequest)).2).flatMap e.state.recordSums
      rw [asked, ← now, ← options]
      exact mem_cons_self
    have ⟨_, high⟩ := sum
    omega

end Late

/-- **Which command lines keep every sum of times in 64 bits.**  Over the integers more
retention keeps a job longer, and more grace moves no lease's timer forward. -/
theorem timesFit_iff {args : List Text} {environment : Option Text} {parsed : ParsedArgs}
    (accepted : Config.parseArgs args environment = .ok parsed) :
    (∀ platform, parsed.config.TimesFit platform ↔ parsed.config.LeavesRoom platform) ∧
    (∀ (options options' : StateOptions) (job : LedgerJob) (now : Int),
      options.retainFinishedMs ≤ options'.retainFinishedMs → options.retainDeadMs ≤ options'.retainDeadMs →
      job.past options' now = true → job.past options now = true) ∧
    ∀ (s : State) (leaseExpiresAt grace grace' : Int), grace ≤ grace' →
      s.monoDeadline (max leaseExpiresAt (s.wallNow + grace)) ≤
        s.monoDeadline (max leaseExpiresAt (s.wallNow + grace')) := by
  have limits := Config.parseArgs_accepted accepted
  refine ⟨fun _ => ⟨fun fit => fit.leavesRoom limits, fun room => room.timesFit limits⟩, ?_, ?_⟩
  · intro options options' job now finished dead past
    unfold LedgerJob.past at past ⊢
    cases state : job.state <;> rw [state] at past <;> simp only [decide_eq_true_eq] at past ⊢ <;> grind
  · intro s leaseExpiresAt grace grace' more
    unfold State.monoDeadline
    dsimp only
    omega

/-- The command line that keeps finished jobs for as long as 64 bits can say. -/
def keepForever : List Text := ["--retain-finished".toList, "9223372036854775807ms".toList]

theorem keepForever_overflows : ∃ parsed, Config.parseArgs keepForever none = .ok parsed ∧
    ∀ platform, ¬ parsed.config.TimesFit platform := by
  obtain ⟨parsed, accepted, longest⟩ : ∃ parsed, Config.parseArgs keepForever none = .ok parsed ∧
      parsed.config.state.retainFinishedMs = 2 ^ 63 - 1 := ⟨_, rfl, by decide +kernel⟩
  refine ⟨parsed, accepted, fun _ fit => ?_⟩
  have room := fit.leavesRoom (Config.parseArgs_accepted accepted)
  have short := room.retainFinished
  omega

theorem timesFit_iff_default : ({} : ParsedArgs).config.TimesFit samplePlatform :=
  ((timesFit_iff (show Config.parseArgs [] none = .ok {} from rfl)).1 samplePlatform).2
    ⟨by decide, by decide, by decide, Or.inl (by decide)⟩

end Baton
