/-
# Run.FromImage — an engine on a state that was loaded

A state that the builder accepted goes through the end of the replay and serves requests.
`Sound` is what the builder would have to check and does not: a leased job has begun, a
pending job has an attempt left, a dead job may be given one.  `trusted_iff` says that it is
exactly what is needed: with it the state passes `check_invariants` and, as long as there is
room, no run from it fails a `BATON_CHECK`; without it one of the two happens.
-/
import Baton.Run.Totality
import Baton.Snapshot.Admission

namespace Baton

open Theory

set_option autoImplicit false

/-- The attempts of every job go with its state. -/
structure State.Sound (s : State) : Prop where
  begun : s.Begun
  pending : ∀ id job, s.findJob id = some job → job.state.isPending = true →
    job.attempts < job.maxAttempts
  dead : ∀ id job, s.findJob id = some job → job.state = .kDead → job.maxAttempts ≠ 0

namespace Engine

/-! ## Runs -/

/-- The operations one after the other: `none` when one of them fails a check. -/
def run : List EngineOp → Engine → Option Engine
  | [], e => some e
  | op :: ops, e => (e.step op).bind (run ops)

/-- What every engine on a sound state has, from one operation to the next. -/
structure Sane (e : Engine) : Prop where
  inv : e.state.StateInv State.nobody
  live : e.state.replaying = false
  refs : e.state.Refs
  budgeted : e.state.ledger.Budgeted

section Sane

variable {e e' : Engine} {rs : List Record} {op : EngineOp} {ops : List EngineOp}

theorem Logged.budgeted (logged : Logged e rs e') (budgeted : e.state.ledger.Budgeted) :
    e'.state.ledger.Budgeted := by
  induction logged with
  | done e => exact budgeted
  | @log e e' r rs away state drawn inv issued applied small rest ih =>
    have itself : Ledger.Sub (fun _ => True) (fun _ => True) e.state.ledger e.state.ledger :=
      Ledger.Sub.refl _
    have step := State.apply_step inv applied
    exact ih (budgeted.step (issued.vouched itself) step)

theorem Sane.step (sane : e.Sane) (stepped : e.step op = some e') : e'.Sane := by
  obtain ⟨e₀, e₁, operated⟩ := step_operated sane.inv sane.live stepped
  have appended := operated.logged.appended
  have refs : e₁.state.Refs := appended.refs (operated.startRefs sane.refs)
  have budgeted : e₁.state.ledger.Budgeted := by
    apply operated.logged.budgeted
    rw [operated.startLedger]
    exact sane.budgeted
  refine ⟨operated.inv, ?_, operated.finishRefs refs, ?_⟩
  · exact operated.finish.replaying.trans
      (appended.replaying.trans (operated.start.replaying.trans sane.live))
  · intro id job found
    exact budgeted id job ((operated.collected refs).found found)

theorem Sane.run (sane : e.Sane) (ran : Engine.run ops e = some e') : e'.Sane := by
  induction ops generalizing e with
  | nil =>
    cases ran
    exact sane
  | cons op ops ih =>
    obtain ⟨next, first, rest⟩ := Option.bind_eq_some_iff.1 ran
    exact ih (sane.step first) rest

/-- A lease of a job that is ready is accepted. -/
theorem Sane.lease (sane : e.Sane) (few : e.state.jobCount ≤ TimingWheel.kMaxNodes) {id : Nat} {job : Job}
    (found : e.state.findJob id = some job) (ready : job.state = .kReady) (expires at_ : Int) :
    ∃ t, e.state.apply (.jobLeased ⟨id, e.state.nextToken, expires, at_⟩) = .ok (some t) := by
  have entry := State.ledger_jobs found
  have pending : job.ledger.state = .kPending := by
    show toPersisted job.state = _
    rw [ready]
    rfl
  have budget := (sane.budgeted id job.ledger entry).2.2 pending
  exact State.apply_of_step sane.inv (Or.inr few) (.leased entry pending rfl budget)

end Sane

/-- Room for one more operation.  The source keeps both counters in 64 bits. -/
structure Room (e : Engine) : Prop where
  capacity : e.Capacity
  ids : e.state.nextJobId + 1 < 2 ^ 64
  tokens : e.state.nextToken + 1 < 2 ^ 64

end Engine

/-! ## Trust -/

namespace State

/-- After the replay, at any clock, the state passes its own check; and whatever an engine
on it does, as long as there is room every further operation returns and every ready job can
be leased.  The counters of the source wrap at 2^64.  They only grow, so where there is room
in the end, none has wrapped on the way. -/
def Trusted (s : State) : Prop :=
  ∀ iteration graceMs wall mono, ∃ s', (s.setNow wall mono).endReplay iteration graceMs = some s' ∧
    s'.checkInvariants = .ok () ∧
    ∀ options rng lastLsn log wallAgain monoAgain ops e,
      Engine.run ops (Engine.create s' options rng lastLsn log wallAgain monoAgain) = some e → e.Room →
        (∀ op, ∃ e', e.step op = some e') ∧
        ∀ id job, e.state.findJob id = some job → job.state = .kReady → ∀ expires at_,
          ∃ t, e.state.apply (.jobLeased ⟨id, e.state.nextToken, expires, at_⟩) = .ok (some t)

section Trusted

variable {s s' : State} {id : Nat} {job : Job}

theorem Sound.budgeted (sound : s.Sound) (inv : s.StateInv nobody) : s.ledger.Budgeted := by
  intro id entry listed
  obtain ⟨job, found, rfl⟩ := Option.map_eq_some_iff.1 listed
  have attempts := (inv.fits id job found).attempts
  have pending : toPersisted job.state = .kPending → job.attempts < job.maxAttempts := by
    intro pending
    apply sound.pending id job found
    rw [isPending_persisted]
    exact decide_eq_true pending
  refine ⟨attempts, ?_, pending⟩
  intro zero
  have zero : job.maxAttempts = 0 := zero
  rw [zero] at attempts pending
  have spent : job.attempts = 0 := UInt32.le_zero_iff.1 attempts
  show toPersisted job.state = .kSucceeded ∨ toPersisted job.state = .kCancelled
  cases state : job.state with
  | kReady | kScheduled =>
    rw [state] at pending
    exact absurd (pending rfl) (UInt32.not_lt_zero)
  | kLeased => exact absurd spent (sound.begun id job found state)
  | kDead => exact absurd zero (sound.dead id job found state)
  | kSucceeded => exact Or.inl rfl
  | kCancelled => exact Or.inr rfl

theorem Sound.trusted (sound : s.Sound) (inv : s.StateInv nobody)
    (few : s.jobCount ≤ TimingWheel.kMaxNodes) : s.Trusted := by
  intro iteration graceMs wall mono
  have inv_now : (s.setNow wall mono).StateInv nobody := inv.unindexed (Nat.le_refl _) (Nat.le_refl _)
  obtain ⟨s', ended⟩ := @endReplay_some (s.setNow wall mono) iteration graceMs inv_now few
  obtain ⟨inv', refs, live, -, -, -, sub, -⟩ := endReplay_ledger inv_now ended
  refine ⟨s', ended, checkInvariants_ok inv' ?_, ?_⟩
  · exact begun_ledger.1 fun id job found => begun_ledger.2 sound.begun id job (sub.found found)
  intro options rng lastLsn log wallAgain monoAgain ops e ran room
  have start : (Engine.create s' options rng lastLsn log wallAgain monoAgain).Sane := by
    refine ⟨inv'.unindexed (Nat.le_refl _) (Nat.le_refl _), live, refs.congr rfl rfl, ?_⟩
    intro id entry found
    exact sound.budgeted inv id entry (sub.found found)
  have sane := start.run ran
  constructor
  · intro op
    exact Engine.step_total op sane.inv sane.live sane.budgeted room.capacity
  · intro id job found ready expires at_
    exact sane.lease (Nat.le_of_lt room.capacity.jobs) found ready expires at_

/-- A lease that is applied takes an attempt the job has left. -/
theorem attempts_of_lease {token : Nat} {expires at_ : Int} (inv : s.StateInv nobody)
    (found : s.findJob id = some job)
    (applied : s.apply (.jobLeased ⟨id, token, expires, at_⟩) = .ok (some s')) :
    job.attempts < job.maxAttempts := by
  have step := apply_step inv applied
  generalize s'.ledger = l at step
  cases step with
  | leased entry pending next budget =>
    rw [show s.ledger.jobs id = _ from ledger_jobs found] at entry
    cases entry
    exact budget

variable {iteration : IterationOrder} {graceMs : Int}

/-- A pending job through the end of the replay: if it is due it is ready. -/
theorem endReplay_ready (inv : s.StateInv nobody)
    (found : s.findJob id = some job) (pending : job.state.isPending = true) (due : job.runAt ≤ s.wallNow)
    (ended : s.endReplay iteration graceMs = some s') :
    s'.findJob id = some { job with state := .kReady } := by
  obtain ⟨-, -, -, -, -, -, sub, -⟩ := endReplay_ledger inv ended
  obtain ⟨t, finished, dead, rebuilt, -, -, collected⟩ := endReplay_spec inv ended
  obtain ⟨-, -, settled, -⟩ := rebuildDerived_spec inv.shape.live inv.tokens inv.fits rebuilt
  have at_t : t.findJob id = some { job with state := .kReady } := by
    have at_s : State.findJob { s with replaying := false } id = some job := found
    rw [settled, at_s, Option.map_some]
    unfold State.settled
    rw [if_pos pending]
    unfold State.pendingJob State.pendingState
    rw [if_neg]
    rintro (replaying | later)
    · cases replaying
    · exact absurd later (Int.not_lt.2 due)
  have stays : s'.ledger.jobs id = some job.ledger := by
    refine sub.kept (ledger_jobs found) ?_
    intro past
    have terminal : (fromPersisted (toPersisted job.state)).isTerminal = true :=
      LedgerJob.isTerminal_of_past past
    rw [isTerminal_persisted] at terminal
    cases state : job.state <;> simp_all [JobState.isPending, JobState.isTerminal]
  obtain ⟨job', found', -⟩ := Option.map_eq_some_iff.1 stays
  have either := collected.jobs id
  rw [found', at_t] at either
  split at either
  · cases either
  · rw [found', either]

/-- A dead job that is not past its retention through the end of the replay. -/
theorem endReplay_dead (inv : s.StateInv nobody) (found : s.findJob id = some job)
    (dead : job.state = .kDead) (young : s.wallNow < job.finishedAt + s.options.retainDeadMs)
    (ended : s.endReplay iteration graceMs = some s') :
    ∃ job', s'.findJob id = some job' ∧ job'.state = .kDead ∧ job'.maxAttempts = job.maxAttempts := by
  obtain ⟨-, -, -, -, -, -, sub, -⟩ := endReplay_ledger inv ended
  have stays : s'.ledger.jobs id = some job.ledger := by
    refine sub.kept (ledger_jobs found) ?_
    intro past
    rw [LedgerJob.past_dead (persisted_dead.2 dead)] at past
    have past := of_decide_eq_true past
    exact absurd past (Int.not_le.2 young)
  obtain ⟨job', found', same⟩ := Option.map_eq_some_iff.1 stays
  refine ⟨job', found', ?_, congrArg LedgerJob.maxAttempts same⟩
  apply persisted_dead.1
  rw [show toPersisted job'.state = toPersisted job.state from congrArg LedgerJob.state same]
  exact persisted_dead.2 dead

/-- What a loaded state has room for: one operation more than it has jobs. -/
structure Loadable (s : State) : Prop where
  jobs : s.jobCount < TimingWheel.kMaxNodes
  ids : s.nextJobId + 1 < 2 ^ 64
  tokens : s.nextToken + 1 < 2 ^ 64

/-- An engine on the state after the replay. -/
def started (s : State) (wall : Int) : Engine := Engine.create s {} (fun _ => 0) 0 [] wall 0

theorem room_started (loadable : s.Loadable) (inv : s.StateInv nobody)
    (ended : s.endReplay iteration graceMs = some s') (wall : Int) : (started s' wall).Room := by
  obtain ⟨-, -, -, -, -, -, sub, -⟩ := endReplay_ledger inv ended
  have count : s'.jobCount ≤ s.jobCount := by
    apply jobCount_le
    intro id known
    obtain ⟨job, found⟩ := Option.isSome_iff_exists.1 known
    obtain ⟨job', found', -⟩ := Option.map_eq_some_iff.1 (sub.found (ledger_jobs found))
    exact Option.isSome_of_eq_some found'
  have jobs := loadable.jobs
  have nodes : TimingWheel.kMaxNodes = 2 ^ 32 - 1 := rfl
  refine ⟨⟨?_, ?_, ?_⟩, ?_, ?_⟩
  · show s'.jobCount < _
    omega
  · show 0 + s'.jobCount + 1 < _
    omega
  · show ({} : EngineOptions).maxPayloadBytes ≤ _
    decide
  · show s'.nextJobId + 1 < _
    rw [show s'.nextJobId = s.nextJobId from sub.nextJobId]
    exact loadable.ids
  · show s'.nextToken + 1 < _
    rw [show s'.nextToken = s.nextToken from sub.nextToken]
    exact loadable.tokens

theorem Trusted.begun (trusted : s.Trusted) (inv : s.StateInv nobody) : s.Begun := by
  obtain ⟨s', ended, checked, -⟩ := trusted .asListed 0 0 0
  have inv_now : (s.setNow 0 0).StateInv nobody := inv.unindexed (Nat.le_refl _) (Nat.le_refl _)
  obtain ⟨-, -, -, -, -, -, sub, -⟩ := endReplay_ledger inv_now ended
  have begun := begun_ledger.2 (begun_of_checkInvariants checked)
  apply begun_ledger.1
  intro id entry found leased
  refine begun id entry (sub.kept found ?_) leased
  intro past
  have terminal := LedgerJob.isTerminal_of_past past
  unfold LedgerJob.isTerminal at terminal
  rw [leased] at terminal
  cases terminal

theorem Trusted.pending (trusted : s.Trusted) (inv : s.StateInv nobody) (loadable : s.Loadable)
    (found : s.findJob id = some job) (pending : job.state.isPending = true) :
    job.attempts < job.maxAttempts := by
  -- at the time the job is due
  obtain ⟨s', ended, -, served⟩ := trusted .asListed 0 job.runAt 0
  have inv_now : (s.setNow job.runAt 0).StateInv nobody := inv.unindexed (Nat.le_refl _) (Nat.le_refl _)
  have loadable_now : (s.setNow job.runAt 0).Loadable := ⟨loadable.jobs, loadable.ids, loadable.tokens⟩
  obtain ⟨inv', -⟩ := endReplay_ledger inv_now ended
  have ready := endReplay_ready inv_now found pending (Int.le_refl _) ended
  obtain ⟨-, leasable⟩ := served {} (fun _ => 0) 0 [] job.runAt 0 [] (started s' job.runAt) rfl
    (room_started loadable_now inv_now ended _)
  obtain ⟨t, applied⟩ := leasable id _ ready rfl 0 0
  have inv_e : (started s' job.runAt).state.StateInv nobody := inv'.unindexed (Nat.le_refl _) (Nat.le_refl _)
  have attempt := attempts_of_lease inv_e (show (started s' job.runAt).state.findJob id = _ from ready) applied
  exact attempt

/-- A dead job that is retried is ready, without attempts. -/
theorem retried {e e' : Engine} (inv : e.state.StateInv nobody) (live : e.state.replaying = false)
    (room : e.Room) (found : e.state.findJob id = some job) (dead : job.state = .kDead)
    (stepped : e.step (.dlqRetry id) = some e') :
    e'.state.findJob id =
        some { job with attempts := 0, finishedAt := 0, runAt := e.state.wallNow, state := .kReady } ∧
      (e.lastLsn + TimingWheel.kMaxNodes + 2 < 2 ^ 64 → e'.Room) := by
  have requested : e.requested (.dlqRetry id) =
      (e, [.deadJobRetried ⟨id, e.state.wallNow, e.state.wallNow⟩]) := by
    unfold Engine.requested Engine.findDead
    dsimp only
    rw [found]
    dsimp only
    rw [if_neg (not_not.2 dead)]
    dsimp only
    rw [inv.shape.jobIds id job found]
  rw [Engine.request_eq _ _ rfl, requested, Engine.logAll_single] at stepped
  obtain ⟨state, applied, -, rfl⟩ := Engine.logAndApply_some stepped
  obtain ⟨job₀, at_id, -, placed⟩ := applyDeadJobRetried_spec inv applied
  rw [found] at at_id
  cases at_id
  have due : e.state.pendingState (retriedJob job ⟨id, e.state.wallNow, e.state.wallNow⟩) = .kReady := by
    unfold State.pendingState
    rw [if_neg]
    rintro (replaying | later)
    · rw [live] at replaying
      cases replaying
    · exact absurd later (Int.lt_irrefl _)
  constructor
  · show state.findJob id = _
    rw [placed.jobs]
    refine (Function.update_self _ _ _).trans ?_
    unfold State.pendingJob
    rw [due]
    rfl
  · intro lsns
    have count : state.jobCount ≤ e.state.jobCount := apply_jobCount inv applied
    have jobs := room.capacity.jobs
    refine ⟨⟨?_, ?_, room.capacity.payload⟩, ?_, ?_⟩
    · show state.jobCount < _
      omega
    · show e.lastLsn + 1 + state.jobCount + 1 < _
      omega
    · show state.nextJobId + 1 < _
      rw [placed.kept.nextJobId]
      exact room.ids
    · show state.nextToken + 1 < _
      rw [placed.kept.nextToken]
      exact room.tokens

theorem Trusted.dead (trusted : s.Trusted) (inv : s.StateInv nobody) (loadable : s.Loadable)
    (found : s.findJob id = some job) (dead : job.state = .kDead) : job.maxAttempts ≠ 0 := by
  -- before the job is collected
  set wall := job.finishedAt + s.options.retainDeadMs - 1 with wall_eq
  obtain ⟨s', ended, -, served⟩ := trusted .asListed 0 wall 0
  have inv_now : (s.setNow wall 0).StateInv nobody := inv.unindexed (Nat.le_refl _) (Nat.le_refl _)
  have loadable_now : (s.setNow wall 0).Loadable := ⟨loadable.jobs, loadable.ids, loadable.tokens⟩
  obtain ⟨inv', -, live, -⟩ := endReplay_ledger inv_now ended
  have young : (s.setNow wall 0).wallNow < job.finishedAt + (s.setNow wall 0).options.retainDeadMs := by
    show wall < job.finishedAt + s.options.retainDeadMs
    omega
  obtain ⟨job', found', dead', same⟩ := endReplay_dead inv_now found dead young ended
  have room := room_started loadable_now inv_now ended wall
  have inv_e : (started s' wall).state.StateInv nobody := inv'.unindexed (Nat.le_refl _) (Nat.le_refl _)
  have found_e : (started s' wall).state.findJob id = some job' := found'
  obtain ⟨e, stepped⟩ : ∃ e, (started s' wall).step (.dlqRetry id) = some e :=
    (served {} (fun _ => 0) 0 [] wall 0 [] _ rfl room).1 (.dlqRetry id)
  obtain ⟨again, after⟩ := retried inv_e live room found_e dead' stepped
  have ran : Engine.run [.dlqRetry id] (started s' wall) = some e := by
    rw [Engine.run, stepped]
    rfl
  have lsns : 0 + TimingWheel.kMaxNodes + 2 < 2 ^ 64 := by decide
  obtain ⟨-, leasable⟩ := served {} (fun _ => 0) 0 [] wall 0 [.dlqRetry id] e ran (after lsns)
  obtain ⟨t, leased⟩ := leasable id _ again rfl 0 0
  obtain ⟨_, _, operated⟩ := Engine.step_operated inv_e live stepped
  have attempt : (0 : UInt32) < job'.maxAttempts := attempts_of_lease operated.inv again leased
  rw [same] at attempt
  exact UInt32.pos_iff_ne_zero.1 attempt

end Trusted

/-- A state the builder accepts can be trusted if and only if its attempts are sound. -/
theorem trusted_iff {options : StateOptions} {platform : Platform} {s : State}
    (accepted : s.Accepted options platform) (loadable : s.Loadable) : s.Trusted ↔ s.Sound := by
  constructor
  · intro trusted
    have inv := accepted.inv
    exact ⟨trusted.begun inv, fun id job found pending => trusted.pending inv loadable found pending,
      fun id job found dead => trusted.dead inv loadable found dead⟩
  · intro sound
    exact sound.trusted accepted.inv (Nat.le_of_lt loadable.jobs)

/-! ## Images that are accepted and cannot be trusted -/

/-- The sections of one job of one queue. -/
def oneJob (state : PersistedState) (attempts maxAttempts : UInt32) (leaseToken : Nat) :
    List StateBuilder.Piece :=
  let job : JobImage :=
    { id := 1
      queue := 0
      payload := []
      priority := 0
      attempts
      maxAttempts
      backoffBaseMs := 0
      backoffCapMs := 0
      state
      runAt := 0
      createdAt := 0
      finishedAt := 0
      leaseExpiresAt := 0
      leaseToken
      idemKey := []
      lastError := [] }
  [.ofMeta (encodeImageMeta ⟨2, 2, [⟨[113], {}⟩], [], []⟩), .ofJobs (encodeImageJobs [job])]

/-- The sections are accepted and the replay ends at time zero; the engine on the result then
does the operations.  The outcome: what the check says, and whether they all return. -/
def outcome (pieces : List StateBuilder.Piece) (ops : List EngineOp) : Option (Result Unit × Bool) :=
  match StateBuilder.build pieces {} samplePlatform with
  | .error _ => none
  | .ok s =>
    ((s.setNow 0 0).endReplay .asListed 0).map fun s' =>
      (s'.checkInvariants, (Engine.run ops (started s' 0)).isSome)

/-- A leased job without attempts fails the check.  A pending job that has used its attempts passes
it and aborts the server when it is reserved; so does a dead job that is allowed none when it is
retried and reserved. -/
theorem accepted_untrusted :
    outcome (oneJob .kLeased 0 1 1) [] =
        some (.error (broken "job 1 is leased with zero attempts"), true) ∧
      outcome (oneJob .kPending 1 1 0) [.reserve [[113]] 500] = some (.ok (), false) ∧
      outcome (oneJob .kDead 0 0 0) [.dlqRetry 1] = some (.ok (), true) ∧
      outcome (oneJob .kDead 0 0 0) [.dlqRetry 1, .reserve [[113]] 500] = some (.ok (), false) := by
  decide +kernel

/-- A pending job with an attempt left. -/
theorem trusted_iff_pending :
    ∃ s : State, s.Accepted {} samplePlatform ∧ s.Loadable ∧ (s.Trusted ↔ s.Sound) := by
  obtain ⟨s, built⟩ : ∃ s, StateBuilder.build (oneJob .kPending 0 1 0) {} samplePlatform = .ok s := ⟨_, rfl⟩
  have small : ((StateBuilder.build (oneJob .kPending 0 1 0) {} samplePlatform).toOption.all fun s =>
      decide (s.jobCount < TimingWheel.kMaxNodes ∧ s.nextJobId + 1 < 2 ^ 64 ∧ s.nextToken + 1 < 2 ^ 64)) =
        true := by decide +kernel
  rw [built] at small
  obtain ⟨jobs, ids, tokens⟩ := of_decide_eq_true small
  have loadable : s.Loadable := ⟨jobs, ids, tokens⟩
  exact ⟨s, .sections built, loadable, trusted_iff (.sections built) loadable⟩

end State

end Baton
