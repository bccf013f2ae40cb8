/-
# State.Produced — the records an engine builds

Every field of a record comes from a checked request, from the clock or from a counter.
`Record.Sized` bounds the lengths, `Record.Timely` the times, and `Record.Numbered` the
ids and tokens; together with the options they say which records the decoder takes back.
-/
import Baton.State.EngineTotal
import Baton.State.RecordCodec

namespace Baton

open Theory

set_option autoImplicit false

/-! ## Times -/

/-- The times of a record built at the given wall time. -/
def Record.Timely (options : EngineOptions) (wall : Int) : Record → Prop
  | .jobEnqueued r =>
    wall ≤ r.runAt ∧ r.runAt ≤ wall + options.maxDelayMs ∧ r.at_ = wall ∧
      r.idemExpiresAt = if r.idemKey.isEmpty then 0 else wall + options.idempotencyWindowMs
  | .jobLeased r | .leaseExtended r =>
    wall + options.minLeaseMs ≤ r.leaseExpiresAt ∧ r.leaseExpiresAt ≤ wall + options.maxLeaseMs ∧
      r.at_ = wall
  | .jobSucceeded r | .jobCancelled r => r.at_ = wall
  | .attemptFailed r =>
    r.at_ = wall ∧
      (r.retryAt = 0 ∨ wall ≤ r.retryAt ∧ r.retryAt ≤ wall + max options.maxDelayMs (2 ^ 32))
  | .deadJobRetried r => r.runAt = wall ∧ r.at_ = wall
  | .jobsPurged _ => True

theorem backoffCeiling_le (attempts baseMs capMs : Nat) : backoffCeiling attempts baseMs capMs ≤ capMs := by
  unfold backoffCeiling
  dsimp only
  split
  · exact Nat.le_refl _
  · exact Nat.min_le_right _ _

namespace Engine

section Times

variable {e e' : Engine} {r : Record}

theorem decideFailure_timely (e : Engine) (job : Job) (reason : FailureReason) (error : Bytes)
    (retryInMs : Option Int) (noRetry : Bool)
    (checked : ∀ retry, retryInMs = some retry → 0 ≤ retry ∧ retry ≤ e.options.maxDelayMs) :
    (Record.attemptFailed (e.decideFailure job reason error retryInMs noRetry).1).Timely e.options
      e.state.wallNow := by
  unfold decideFailure
  split
  · exact ⟨rfl, Or.inl rfl⟩
  cases retryInMs with
  | some retry =>
    obtain ⟨low, high⟩ := checked retry rfl
    refine ⟨rfl, Or.inr ⟨?_, ?_⟩⟩
    · show e.state.wallNow ≤ e.state.wallNow + retry
      omega
    · show e.state.wallNow + retry ≤ _
      omega
  | none =>
    set ceiling := backoffCeiling job.attempts.toNat job.backoffBaseMs.toNat job.backoffCapMs.toNat
    have below : ceiling ≤ job.backoffCapMs.toNat := backoffCeiling_le _ _ _
    have cap := job.backoffCapMs.toNat_lt
    have drawn : e.rng e.drawn % (ceiling + 1) < ceiling + 1 := Nat.mod_lt _ (Nat.succ_pos ceiling)
    refine ⟨rfl, Or.inr ⟨?_, ?_⟩⟩
    · show e.state.wallNow ≤ e.state.wallNow + ((e.rng e.drawn % (ceiling + 1) : Nat) : Int)
      omega
    · show e.state.wallNow + ((e.rng e.drawn % (ceiling + 1) : Nat) : Int) ≤ _
      omega

theorem enqueueRecord_timely {request : EnqueueRequest} (checked : e.checkEnqueue request = .ok ()) :
    (Record.jobEnqueued (e.enqueueRecord request)).Timely e.options e.state.wallNow := by
  obtain ⟨-, -, -, -, ⟨low, high⟩, far⟩ := checkEnqueue_ok checked
  refine ⟨Int.le_max_left _ _, ?_, rfl, rfl⟩
  show max e.state.wallNow (request.runAt.getD (e.state.wallNow + request.delayMs)) ≤ _
  cases given : request.runAt with
  | none =>
    show max e.state.wallNow (e.state.wallNow + request.delayMs) ≤ _
    omega
  | some runAt =>
    have near := far runAt given
    show max e.state.wallNow runAt ≤ _
    omega

theorem Builds.timely {op : EngineOp} {built : Engine × List Record} (builds : e.Builds op built) :
    ∀ r ∈ built.2, r.Timely e.options e.state.wallNow := by
  have one : ∀ {r : Record}, r.Timely e.options e.state.wallNow →
      ∀ r' ∈ [r], r'.Timely e.options e.state.wallNow := by
    intro r timely r' mem
    rw [List.mem_singleton.1 mem]
    exact timely
  have within : ∀ {leaseMs : Int}, ¬ (leaseMs < e.options.minLeaseMs ∨ e.options.maxLeaseMs < leaseMs) →
      e.state.wallNow + e.options.minLeaseMs ≤ e.state.wallNow + leaseMs ∧
        e.state.wallNow + leaseMs ≤ e.state.wallNow + e.options.maxLeaseMs := by
    intro leaseMs lease
    omega
  cases builds with
  | enqueue admits => exact one (enqueueRecord_timely admits.checked)
  | reserve lease | heartbeat lease => exact one ⟨(within lease).1, (within lease).2, rfl⟩
  | ack | cancel => exact one rfl
  | fail retry leased =>
    apply one
    apply decideFailure_timely
    intro delay given
    rw [given] at retry
    simpa using retry
  | dlqRetry dead => exact one ⟨rfl, rfl⟩
  | dlqPurge dead => exact one trivial
  | dlqRetryAll found =>
    intro r mem
    obtain ⟨id, -, rfl⟩ := List.mem_map.1 mem
    exact ⟨rfl, rfl⟩
  | dlqPurgeAll found =>
    intro r mem
    obtain ⟨ids, -, rfl⟩ := List.mem_map.1 mem
    exact trivial

theorem requested_timely (e : Engine) (op : EngineOp) :
    ∀ r ∈ (e.requested op).2, r.Timely e.options e.state.wallNow := by
  rcases requested_builds e op with nothing | builds
  · rw [nothing]
    exact List.forall_mem_nil _
  · exact builds.timely

/-- The records of a tick, one after the other.  Each is about a job as the first finds it. -/
theorem expireRecords_each {P : Record → Prop} {start : Engine}
    (each : ∀ (e : Engine) (job : Job), e.options = start.options → e.state.wallNow = start.state.wallNow →
      start.state.findJob job.id = some job →
      P (.attemptFailed (e.decideFailure job .kLeaseExpired leaseExpired none false).1))
    {ids : List Nat} (nodup : ids.Nodup) (inv : e.state.StateInv fun j => j ∈ ids)
    (ranOut : ∀ id ∈ ids, e.state.RanOut id) (same : e.options = start.options)
    (now : e.state.wallNow = start.state.wallNow)
    (still : ∀ id ∈ ids, e.state.findJob id = start.state.findJob id) : ∀ r ∈ expireRecords ids e, P r := by
  induction ids generalizing e with
  | nil =>
    intro r mem
    cases mem
  | cons id ids ih =>
    obtain ⟨record, drawn, -, ⟨job, found, record_eq⟩, -, records, rest⟩ := expireLease_step nodup inv ranOut
    have of_id := inv.shape.jobIds id job found
    intro r mem
    rw [records] at mem
    rcases List.mem_cons.1 mem with rfl | later
    · rw [record_eq]
      refine each e job same now ?_
      rw [of_id, ← still id List.mem_cons_self, found]
    · cases first : { e with drawn }.logAndApply (.attemptFailed record) with
      | none =>
        rw [first] at later
        cases later
      | some next =>
        rw [first] at later
        obtain ⟨inv', ranOut'⟩ := rest next first
        obtain ⟨state, applied, -, rfl⟩ := logAndApply_some first
        have inv_e : State.StateInv { e with drawn }.state fun j => j ∈ id :: ids := inv
        have frame := State.apply_frame inv_e applied
        refine ih (List.nodup_cons.1 nodup).2 inv' ranOut' same (frame.wallNow.trans now) ?_ r later
        intro j mem
        rw [← still j (List.mem_cons_of_mem _ mem)]
        refine frame.others j ?_
        show j ∉ [record.id]
        rw [record_eq, (decideFailure_spec e job _ _ _ _).2.1, of_id, List.mem_singleton]
        rintro rfl
        exact (List.nodup_cons.1 nodup).1 mem

/-- What holds of the records of requests, and of what becomes of an expired lease, holds of
everything an operation builds. -/
theorem written_each {P : Record → Prop} (op : EngineOp) (inv : e.state.StateInv State.nobody)
    (live : e.state.replaying = false) (request : ∀ r ∈ (e.requested op).2, P r)
    (each : ∀ (e' : Engine) (job : Job), op.isTick = true → e'.options = e.options →
      e'.state.wallNow = op.clock e.state.wallNow → e.state.ledger.jobs job.id = some job.ledger →
      P (.attemptFailed (e'.decideFailure job .kLeaseExpired leaseExpired none false).1)) :
    ∀ r ∈ e.written op, P r := by
  cases tick : op.isTick with
  | false =>
    rw [written_request e tick]
    exact request
  | true =>
    cases op with
    | tick iteration wall mono monoAgain =>
      intro r mem
      unfold written at mem
      dsimp only at mem
      split at mem
      · cases mem
      rename_i e₀ ids started
      obtain ⟨start, inv₀, nodup, ranOut, ledger, clock, -⟩ := startTick_spec inv live started
      refine @expireRecords_each e₀ P e₀ ?_ _ nodup inv₀ ranOut rfl rfl (fun _ _ => rfl) r mem
      intro e' job same now found
      exact each e' job tick (same.trans start.options) (now.trans clock) (ledger ▸ State.ledger_jobs found)
    | _ => cases tick

theorem written_sized (op : EngineOp) (inv : e.state.StateInv State.nobody)
    (live : e.state.replaying = false) : ∀ r ∈ e.written op, r.Sized e.options.maxPayloadBytes :=
  written_each op inv live (requested_modest inv op).sized fun _ _ _ _ _ _ => decideFailure_sized _ _ _ _ _ _ _

theorem written_timely (op : EngineOp) (inv : e.state.StateInv State.nobody)
    (live : e.state.replaying = false) :
    ∀ r ∈ e.written op, r.Timely e.options (op.clock e.state.wallNow) := by
  refine written_each op inv live ?_ ?_
  · cases op with
    | tick iteration wall mono monoAgain =>
      intro r mem
      cases mem
    | _ => exact requested_timely e _
  · intro e' job _ options clock _
    rw [← options, ← clock]
    apply decideFailure_timely
    intro retry given
    cases given

end Times

end Engine

/-! ## Numbers -/

/-- The ids and tokens of a record are no larger than the bound. -/
def Record.Numbered (n : Nat) : Record → Prop
  | .jobEnqueued r => r.id ≤ n
  | .jobLeased r | .leaseExtended r => r.id ≤ n ∧ r.token ≤ n
  | .jobSucceeded r => r.id ≤ n ∧ r.token ≤ n
  | .attemptFailed r => r.id ≤ n ∧ r.token ≤ n
  | .jobCancelled r => r.id ≤ n
  | .deadJobRetried r => r.id ≤ n
  | .jobsPurged r => ∀ id ∈ r.ids, id ≤ n

namespace Ledger

section Numbers

variable {l l' : Ledger} {r : Record} {rs : List Record} {n : Nat}

theorem Step.numbered (known : Known l) (step : Step l r l') (ids : l.nextJobId ≤ n) (tokens : l.nextToken ≤ n) :
    r.Numbered n := by
  have job : ∀ {id : Nat} {job : LedgerJob}, l.jobs id = some job → id ≤ n := by
    intro id job found
    have := (known.jobs id job found).2
    omega
  have lease : ∀ {id token : Nat} {job : LedgerJob}, l.jobs id = some job → job.leaseToken = token →
      token ≤ n := by
    intro id token job found held
    have := known.leases id job found
    omega
  cases step with
  | enqueued next _ _ => exact Nat.le_trans (Nat.le_of_eq next) ids
  | leased found _ token _ => exact ⟨job found, token ▸ tokens⟩
  | extended found _ token => exact ⟨job found, lease found token⟩
  | succeeded found _ token => exact ⟨job found, lease found token⟩
  | failed found _ token => exact ⟨job found, lease found token⟩
  | cancelled found _ => exact job found
  | retried found _ => exact job found
  | purged terminal =>
    intro id mem
    obtain ⟨entry, found, -⟩ := terminal id mem
    exact job found

/-- Every record of a history takes at most one number of each kind. -/
theorem History.counters (history : History rs l) :
    l.nextJobId ≤ rs.length + 1 ∧ l.nextToken ≤ rs.length + 1 := by
  refine @History.keeps _ _ (fun rs l => l.nextJobId ≤ rs.length + 1 ∧ l.nextToken ≤ rs.length + 1) history ?_ ?_
  · exact ⟨Nat.le_refl _, Nat.le_refl _⟩
  · intro rs l r l' _ _ step before
    have ids := step.nextJobId
    have tokens := step.nextToken
    rw [List.length_append, List.length_singleton]
    omega

theorem History.numbered (history : History rs l) : ∀ r ∈ rs, r.Numbered rs.length := by
  have mono : ∀ {n m : Nat} {r : Record}, n ≤ m → r.Numbered n → r.Numbered m := by
    intro n m r le numbered
    cases r with
    | jobEnqueued r | jobCancelled r | deadJobRetried r => exact Nat.le_trans numbered le
    | jobLeased r | leaseExtended r | jobSucceeded r | attemptFailed r =>
      exact ⟨Nat.le_trans numbered.1 le, Nat.le_trans numbered.2 le⟩
    | jobsPurged r => exact fun id mem => Nat.le_trans (numbered id mem) le
  induction history with
  | nil =>
    intro r mem
    cases mem
  | @snoc rs r l l' before vouched step ih =>
    obtain ⟨ids, tokens⟩ := before.counters
    rw [List.length_append, List.length_singleton]
    intro r' mem
    rcases List.mem_append.1 mem with old | new
    · exact mono (Nat.le_succ _) (ih r' old)
    · rw [List.mem_singleton.1 new]
      exact step.numbered before.known ids tokens

end Numbers

end Ledger

end Baton
