/-
# Run.Attempts — attempts are counted, and retries are spread over the backoff

`deliveries id rs` counts the leases of a job in a log since it was enqueued or last
retried from the dead-letter queue.  It is a fold over the records, the counter
`attempts` is a field of the state, and `Accounted` says that they agree in every
history.  What a failed attempt leads to (`Decided`) is then decided by that number.

`backoffCeiling` cuts the doubling off after 32 steps and answers with the cap.  That
is the exact bound unless the base is zero.
-/
import Baton.Run.Totality
import Baton.State.Produced

namespace Baton

open Theory Function

set_option autoImplicit false

/-- The `RETRYIN` of a failure. -/
def EngineOp.retryIn : EngineOp → Option Int
  | .fail request => request.retryInMs
  | _ => none

/-- Whether `NORETRY` is given. -/
def EngineOp.noRetry : EngineOp → Bool
  | .fail request => request.noRetry
  | _ => false

/-- The ceiling of the jitter for the attempts and the backoff of a job. -/
def Job.backoff (job : Job) : Nat :=
  backoffCeiling job.attempts.toNat job.backoffBaseMs.toNat job.backoffCapMs.toNat

/-! ## What a failed attempt leads to -/

/-- The attempt was the last one, or it is retried within the backoff. -/
structure Job.Decided (job : Job) (now : Int) (retryIn : Option Int) (noRetry : Bool) (q : AttemptFailed) :
    Prop where
  dead : q.dead = true ↔ noRetry = true ∨ job.maxAttempts ≤ job.attempts
  retry : q.dead = false → retryIn = none → now ≤ q.retryAt ∧ q.retryAt ≤ now + job.backoff

namespace Engine

variable {e : Engine} {q : AttemptFailed}

theorem decideFailure_decided (e : Engine) (job : Job) (reason : FailureReason) (error : Bytes)
    (retryInMs : Option Int) (noRetry : Bool) :
    job.Decided e.state.wallNow retryInMs noRetry (e.decideFailure job reason error retryInMs noRetry).1 := by
  unfold decideFailure
  by_cases spent : noRetry = true ∨ job.maxAttempts ≤ job.attempts
  · rw [if_pos spent]
    refine ⟨iff_of_true rfl spent, ?_⟩
    intro alive
    cases alive
  rw [if_neg spent]
  cases retryInMs with
  | some delay =>
    refine ⟨iff_of_false Bool.false_ne_true spent, ?_⟩
    intro _ given
    cases given
  | none =>
    refine ⟨iff_of_false Bool.false_ne_true spent, fun _ _ => ?_⟩
    show e.state.wallNow ≤ e.state.wallNow + ((e.rng e.drawn % (job.backoff + 1) : Nat) : Int) ∧
      e.state.wallNow + ((e.rng e.drawn % (job.backoff + 1) : Nat) : Int) ≤ _
    have drawn : e.rng e.drawn % (job.backoff + 1) < job.backoff + 1 := Nat.mod_lt _ (Nat.succ_pos _)
    omega

theorem requested_failed {op : EngineOp} (mem : .attemptFailed q ∈ (e.requested op).2) :
    ∃ request job, op = .fail request ∧ e.findLeased request.id request.token = .ok job ∧
      q = (e.decideFailure job .kWorkerFailed request.error request.retryInMs request.noRetry).1 := by
  rcases requested_builds e op with nothing | builds
  · rw [nothing] at mem
    cases mem
  generalize e.requested op = built at builds mem
  cases builds with
  | @fail request job retry leased =>
    exact ⟨request, job, rfl, leased, Record.attemptFailed.inj (List.mem_singleton.1 mem)⟩
  | _ => simp at mem

/-- Every failed attempt that an operation logs is decided by the job it finds. -/
theorem written_decided {op : EngineOp} (inv : e.state.StateInv State.nobody)
    (live : e.state.replaying = false) (mem : .attemptFailed q ∈ e.written op) :
    ∃ job : Job, e.state.ledger.jobs q.id = some job.ledger ∧
      job.Decided (op.clock e.state.wallNow) op.retryIn op.noRetry q := by
  have decided := @written_each e (fun r => ∀ q, r = .attemptFailed q →
    ∃ job : Job, e.state.ledger.jobs q.id = some job.ledger ∧
      job.Decided (op.clock e.state.wallNow) op.retryIn op.noRetry q) op inv live
  refine decided ?_ ?_ _ mem q rfl
  · rintro r asked q rfl
    obtain ⟨request, job, rfl, leased, rfl⟩ := requested_failed asked
    obtain ⟨found, -, -⟩ := findLeased_ok leased
    refine ⟨job, ?_, decideFailure_decided e job _ _ _ _⟩
    rw [(decideFailure_spec e job _ _ _ _).2.1, inv.shape.jobIds _ job found]
    exact State.ledger_jobs found
  · rintro e' job tick - now listed q same
    cases same
    refine ⟨job, ?_, ?_⟩
    · rw [(decideFailure_spec e' job _ _ _ _).2.1]
      exact listed
    · cases op with
      | tick iteration wall mono monoAgain =>
        rw [← now]
        exact decideFailure_decided e' job _ _ _ _
      | _ => cases tick

end Engine

/-! ## Deliveries -/

/-- The deliveries of a job after one more record. -/
def Record.deliver (id : Nat) (n : Nat) : Record → Nat
  | .jobEnqueued r => if r.id = id then 0 else n
  | .jobLeased r => if r.id = id then n + 1 else n
  | .deadJobRetried r => if r.id = id then 0 else n
  | _ => n

/-- The leases of a job since it was enqueued or last retried from the dead-letter queue. -/
def deliveries (id : Nat) (rs : List Record) : Nat := rs.foldl (Record.deliver id) 0

@[simp] theorem deliveries_snoc (id : Nat) (rs : List Record) (r : Record) :
    deliveries id (rs ++ [r]) = r.deliver id (deliveries id rs) := by
  unfold deliveries
  rw [List.foldl_append]
  rfl

namespace Ledger

section Deliveries

variable {rs : List Record} {l l' : Ledger} {r : Record} {j : Nat}

/-- A record counts on the attempts of a job as it counts on its deliveries. -/
theorem Step.attempts {job' : LedgerJob} (step : Step l r l') (found : l'.jobs j = some job') :
    (∃ job, l.jobs j = some job ∧ job'.maxAttempts = job.maxAttempts ∧
      job'.attempts.toNat = r.deliver j job.attempts.toNat) ∨
      ∃ q, r = .jobEnqueued q ∧ q.id = j ∧ job' = LedgerJob.enqueued q := by
  cases step with
  | @enqueued q next named budget =>
    rcases of_update found with ⟨ne, old⟩ | ⟨rfl, rfl⟩
    · exact Or.inl ⟨job', old, rfl, (if_neg (Ne.symm ne)).symm⟩
    · exact Or.inr ⟨q, rfl, rfl, rfl⟩
  | @leased q job before pending token budget =>
    rcases of_update found with ⟨ne, old⟩ | ⟨rfl, rfl⟩
    · exact Or.inl ⟨job', old, rfl, (if_neg (Ne.symm ne)).symm⟩
    · refine Or.inl ⟨job, before, rfl, ?_⟩
      rw [LedgerJob.leased_attempts q budget]
      exact (if_pos rfl).symm
  | extended before leased token =>
    rcases of_update found with ⟨-, old⟩ | ⟨rfl, rfl⟩
    · exact Or.inl ⟨job', old, rfl, rfl⟩
    · exact Or.inl ⟨_, before, rfl, rfl⟩
  | succeeded before leased token =>
    rcases of_update found with ⟨-, old⟩ | ⟨rfl, rfl⟩
    · exact Or.inl ⟨job', old, rfl, rfl⟩
    · exact Or.inl ⟨_, before, rfl, rfl⟩
  | @failed q job before leased token =>
    rw [failed_jobs] at found
    rcases of_update found with ⟨-, old⟩ | ⟨rfl, rfl⟩
    · exact Or.inl ⟨job', old, rfl, rfl⟩
    · refine Or.inl ⟨job, before, ?_⟩
      unfold LedgerJob.failed
      split <;> exact ⟨rfl, rfl⟩
  | cancelled before active =>
    rcases of_update found with ⟨-, old⟩ | ⟨rfl, rfl⟩
    · exact Or.inl ⟨job', old, rfl, rfl⟩
    · exact Or.inl ⟨_, before, rfl, rfl⟩
  | retried before dead =>
    rcases of_update found with ⟨ne, old⟩ | ⟨rfl, rfl⟩
    · exact Or.inl ⟨job', old, rfl, (if_neg (Ne.symm ne)).symm⟩
    · exact Or.inl ⟨_, before, rfl, (if_pos rfl).symm⟩
  | purged terminal =>
    have found : (if j ∈ _ then none else l.jobs j) = some job' := found
    split at found
    · cases found
    · exact Or.inl ⟨job', found, rfl, rfl⟩

/-- Only a job that is there afterwards is delivered. -/
theorem Step.deliver_le (step : Step l r l') (missing : l'.jobs j = none) (n : Nat) : r.deliver j n ≤ n := by
  cases step with
  | enqueued next named budget | retried before dead =>
    unfold Record.deliver
    dsimp only
    split
    · exact Nat.zero_le n
    · exact Nat.le_refl n
  | @leased q job before pending token budget =>
    have missing : update l.jobs q.id (some (job.leased q)) j = none := missing
    have ne : q.id ≠ j := by
      rintro rfl
      rw [update_self] at missing
      cases missing
    exact Nat.le_of_eq (if_neg ne)
  | _ => exact Nat.le_refl n

/-- The attempts of a job are its deliveries, and those are within the budget it was
enqueued with, even after the job is gone. -/
structure Accounted (rs : List Record) (l : Ledger) : Prop where
  attempts : ∀ id job, l.jobs id = some job → job.attempts.toNat = deliveries id rs
  budget : ∀ q, .jobEnqueued q ∈ rs → q.id < l.nextJobId ∧ deliveries q.id rs ≤ q.maxAttempts.toNat ∧
    ∀ job, l.jobs q.id = some job → job.maxAttempts = q.maxAttempts

theorem Accounted.step (accounted : Accounted rs l) (budgeted : Budgeted l') (step : Step l r l') :
    Accounted (rs ++ [r]) l' := by
  have attempts : ∀ id job, l'.jobs id = some job → job.attempts.toNat = deliveries id (rs ++ [r]) := by
    intro id job' found
    rw [deliveries_snoc]
    rcases step.attempts found with ⟨job, old, -, count⟩ | ⟨q, rfl, rfl, rfl⟩
    · rw [count, accounted.attempts id job old]
    · exact (if_pos rfl).symm
  refine ⟨attempts, ?_⟩
  intro q mem
  have given : q.id < l'.nextJobId ∧ ∀ job, l'.jobs q.id = some job → job.maxAttempts = q.maxAttempts := by
    rcases List.mem_append.1 mem with old | new
    · obtain ⟨below, -, same⟩ := accounted.budget q old
      refine ⟨Nat.lt_of_lt_of_le below step.nextJobId.1, ?_⟩
      intro job' found
      rcases step.attempts found with ⟨job, before, limit, -⟩ | ⟨q', rfl, same_id, rfl⟩
      · exact limit.trans (same job before)
      · cases step with
        | enqueued next named budget => omega
    · cases List.mem_singleton.1 new
      cases step with
      | enqueued next named budget =>
        refine ⟨Nat.lt_succ_self _, ?_⟩
        intro job found
        have found : update l.jobs q.id (some (LedgerJob.enqueued q)) q.id = some job := found
        rw [update_self] at found
        cases found
        rfl
  refine ⟨given.1, ?_, given.2⟩
  cases found : l'.jobs q.id with
  | some job =>
    rw [← attempts q.id job found, ← given.2 job found]
    exact UInt32.le_iff_toNat_le.1 (budgeted q.id job found).1
  | none =>
    rcases List.mem_append.1 mem with old | new
    · rw [deliveries_snoc]
      exact Nat.le_trans (step.deliver_le found _) (accounted.budget q old).2.1
    · cases List.mem_singleton.1 new
      rw [deliveries_snoc]
      exact Nat.le_trans (Nat.le_of_eq (if_pos rfl)) (Nat.zero_le _)

theorem History.accounted (history : History rs l) : Accounted rs l := by
  refine @History.keeps _ _ Accounted history ?_ ?_
  · refine ⟨?_, ?_⟩
    · intro id job found
      cases found
    · intro q mem
      cases mem
  · intro rs l r l' before vouched step accounted
    exact accounted.step (before.budgeted.step vouched step) step

end Deliveries

end Ledger

namespace World

section Accounting

variable {regime : Regime} {w : World}

theorem decided_reachable (reachable : w.Reachable regime) {op : EngineOp} {q : AttemptFailed}
    (mem : .attemptFailed q ∈ w.engine.written op) :
    ∃ job, w.engine.state.findJob q.id = some job ∧
      job.Decided (op.clock w.engine.state.wallNow) op.retryIn op.noRetry q := by
  have good := good_reachable reachable
  obtain ⟨job, found, decided⟩ := Engine.written_decided good.inv good.live mem
  obtain ⟨job', found', same⟩ := Option.map_eq_some_iff.1 found
  refine ⟨job', found', ?_⟩
  have attempts : job'.attempts = job.attempts := congrArg LedgerJob.attempts same
  have maxAttempts : job'.maxAttempts = job.maxAttempts := congrArg LedgerJob.maxAttempts same
  have base : job'.backoffBaseMs = job.backoffBaseMs := congrArg LedgerJob.backoffBaseMs same
  have cap : job'.backoffCapMs = job.backoffCapMs := congrArg LedgerJob.backoffCapMs same
  refine ⟨?_, ?_⟩
  · rw [attempts, maxAttempts]
    exact decided.dead
  · unfold Job.backoff
    rw [attempts, base, cap]
    exact decided.retry

/-- The attempts of every job are its deliveries, and never more than allowed.  An
attempt is the last exactly when `NORETRY` is given or the deliveries are used up.  So
between two retries from the dead-letter queue a job is delivered at most as often as
it was enqueued for, and it is not pending once that is used up. -/
theorem attempts_accounted (reachable : w.Reachable regime) :
    (∀ id job, w.engine.state.findJob id = some job →
      job.attempts.toNat = deliveries id w.records ∧ job.attempts ≤ job.maxAttempts ∧
        (deliveries id w.records = job.maxAttempts.toNat → job.state.isPending = false)) ∧
      (∀ op q, .attemptFailed q ∈ w.engine.written op → ∃ job, w.engine.state.findJob q.id = some job ∧
        (q.dead = true ↔ op.noRetry = true ∨ deliveries q.id w.records = job.maxAttempts.toNat)) ∧
      ∀ n q, .jobEnqueued q ∈ w.records.take n →
        deliveries q.id (w.records.take n) ≤ q.maxAttempts.toNat := by
  have good := good_reachable reachable
  obtain ⟨full, history, sub⟩ := good.full
  have counted : ∀ id job, w.engine.state.findJob id = some job →
      job.attempts.toNat = deliveries id w.records ∧ job.attempts ≤ job.maxAttempts := by
    intro id job found
    have at_full := sub.found (State.ledger_jobs found)
    exact ⟨history.accounted.attempts id job.ledger at_full, (history.budgeted id job.ledger at_full).1⟩
  refine ⟨?_, ?_, ?_⟩
  · intro id job found
    obtain ⟨count, within⟩ := counted id job found
    refine ⟨count, within, ?_⟩
    intro used
    cases pending : job.state.isPending with
    | false => rfl
    | true =>
      have left := UInt32.lt_iff_toNat_lt.1 (good.attempt_left found pending)
      omega
  · intro op q mem
    obtain ⟨job, found, decided⟩ := decided_reachable reachable mem
    obtain ⟨count, within⟩ := counted q.id job found
    refine ⟨job, found, decided.dead.trans (or_congr_right ?_)⟩
    rw [← count, UInt32.le_iff_toNat_le]
    have within := UInt32.le_iff_toNat_le.1 within
    omega
  · intro n q mem
    obtain ⟨l, before⟩ := history.take n
    exact (before.accounted.budget q mem).2.1

/-- A job with two attempts fails once, and is leased for the second time. -/
def secondLease : List EngineOp :=
  [.enqueue { queue := [113], payload := [], maxAttempts := some 2 }, .reserve [[113]] 500,
    .fail { id := 1, token := 1, retryInMs := some 0 }, .reserve [[113]] 500]

theorem attempts_accounted_twice :
    ∃ w job, Reachable {} w ∧ w.engine.state.findJob 1 = some job ∧ deliveries 1 w.records = 2 ∧
      job.attempts.toNat = 2 ∧ job.maxAttempts = 2 ∧ job.state.isPending = false := by
  obtain ⟨w, ran, count, present⟩ : ∃ w, requests secondLease (start {} samplePlatform {} (fun _ => 0) 1000 0) =
      some w ∧ deliveries 1 w.records = 2 ∧
        (w.engine.state.findJob 1).any (fun job => job.maxAttempts = 2) = true :=
    ⟨_, rfl, rfl, by decide +kernel⟩
  obtain ⟨job, found, limit⟩ := (Option.any_eq_true _ _).1 present
  have limit : job.maxAttempts = 2 := of_decide_eq_true limit
  have reachable := reachable_of_start ran
  obtain ⟨attempts, -, used⟩ := (attempts_accounted reachable).1 1 job found
  rw [count] at attempts used
  exact ⟨w, job, reachable, found, count, attempts, limit, used (by rw [limit]; rfl)⟩

end Accounting

/-! ## Backoff -/

section Backoff

/-- The base doubled for every attempt after the first, up to the cap. -/
def exactBackoff (attempts baseMs capMs : Nat) : Nat := min capMs (baseMs * 2 ^ (attempts - 1))

/-- The parameters for which cutting the doubling off after 32 steps changes nothing. -/
def Doubles (attempts baseMs capMs : UInt32) : Prop := attempts ≤ 32 ∨ baseMs ≠ 0 ∨ capMs = 0

theorem backoffCeiling_eq_iff (attempts baseMs capMs : UInt32) :
    backoffCeiling attempts.toNat baseMs.toNat capMs.toNat =
      exactBackoff attempts.toNat baseMs.toNat capMs.toNat ↔ Doubles attempts baseMs capMs := by
  have few : attempts ≤ 32 ↔ attempts.toNat ≤ 32 := UInt32.le_iff_toNat_le
  unfold backoffCeiling exactBackoff Doubles
  by_cases many : 32 ≤ attempts.toNat - 1
  · have not_few : ¬ attempts ≤ 32 := by
      rw [few]
      omega
    rw [if_pos many]
    by_cases zero : baseMs = 0
    · subst zero
      have nothing : (0 : UInt32).toNat * 2 ^ (attempts.toNat - 1) = 0 := Nat.zero_mul _
      rw [nothing, Nat.min_zero, ← UInt32.toNat_inj]
      simp [not_few]
    · -- one doubling of the least base per attempt already exceeds every cap
      have least : 1 ≤ baseMs.toNat := Nat.one_le_iff_ne_zero.2 fun none => zero (UInt32.toNat_inj.1 none)
      have doubled : 2 ^ 32 ≤ 2 ^ (attempts.toNat - 1) := Nat.pow_le_pow_right (by decide) many
      have large : 2 ^ 32 ≤ baseMs.toNat * 2 ^ (attempts.toNat - 1) :=
        Nat.le_trans doubled (Nat.le_mul_of_pos_left _ least)
      have cap := capMs.toNat_lt
      exact iff_of_true (Nat.min_eq_left (by omega)).symm (Or.inr (Or.inl zero))
  · rw [if_neg many, Nat.shiftLeft_eq, Nat.min_comm]
    exact iff_of_true rfl (Or.inl (few.2 (by omega)))

/-- The shift is of a 64-bit number. -/
theorem shift_fits {attempts : Nat} (baseMs : UInt32) (few : attempts ≤ 32) :
    baseMs.toNat <<< (attempts - 1) < 2 ^ 64 := by
  have base := baseMs.toNat_lt
  have doubled : 2 ^ (attempts - 1) ≤ 2 ^ 31 := Nat.pow_le_pow_right (by decide) (by omega)
  rw [Nat.shiftLeft_eq]
  calc baseMs.toNat * 2 ^ (attempts - 1) ≤ baseMs.toNat * 2 ^ 31 := Nat.mul_le_mul_left _ doubled
    _ < 2 ^ 64 := by omega

/-- The ceiling is the base doubled for every attempt after the first, up to the cap,
exactly when the base is not zero, the attempts are few or the cap is zero.  A retry is
never later than the ceiling of its job. -/
theorem backoff_iff (attempts baseMs capMs : UInt32) (regime : Regime) (w : World) (op : EngineOp)
    (q : AttemptFailed) :
    ((backoffCeiling attempts.toNat baseMs.toNat capMs.toNat =
        exactBackoff attempts.toNat baseMs.toNat capMs.toNat ↔ Doubles attempts baseMs capMs) ∧
      (attempts.toNat - 1 < 32 → baseMs.toNat <<< (attempts.toNat - 1) < 2 ^ 64)) ∧
      (Reachable regime w → .attemptFailed q ∈ w.engine.written op → q.dead = false →
        op.retryIn = none → ∃ job, w.engine.state.findJob q.id = some job ∧
          op.clock w.engine.state.wallNow ≤ q.retryAt ∧
          q.retryAt ≤ op.clock w.engine.state.wallNow + job.backoff ∧
          (Doubles job.attempts job.backoffBaseMs job.backoffCapMs →
            q.retryAt ≤ op.clock w.engine.state.wallNow +
              exactBackoff job.attempts.toNat job.backoffBaseMs.toNat job.backoffCapMs.toNat)) := by
  refine ⟨⟨backoffCeiling_eq_iff attempts baseMs capMs, fun few => shift_fits baseMs (by omega)⟩, ?_⟩
  intro reachable mem alive given
  obtain ⟨job, found, decided⟩ := decided_reachable reachable mem
  obtain ⟨low, high⟩ := decided.retry alive given
  refine ⟨job, found, low, high, ?_⟩
  intro doubles
  rw [← (backoffCeiling_eq_iff _ _ _).2 doubles]
  exact high

/-- A failure that draws the largest delay it can. -/
theorem backoff_iff_once :
    ∃ w q job, Reachable {} w ∧ .attemptFailed q ∈ w.engine.written (.fail { id := 1, token := 1 }) ∧
      w.engine.state.findJob q.id = some job ∧ q.retryAt = 2000 ∧
      q.retryAt ≤ 1000 + (exactBackoff job.attempts.toNat job.backoffBaseMs.toNat job.backoffCapMs.toNat : Int) := by
  obtain ⟨w, q, ran, mem, alive, late, now, present⟩ : ∃ w q,
      requests [.enqueue { queue := [113], payload := [] }, .reserve [[113]] 500]
        (start {} samplePlatform {} (fun _ => 1000) 1000 0) = some w ∧
      .attemptFailed q ∈ w.engine.written (.fail { id := 1, token := 1 }) ∧ q.dead = false ∧
      q.retryAt = 2000 ∧ w.engine.state.wallNow = 1000 ∧
      (w.engine.state.findJob q.id).any (fun job => job.backoffBaseMs ≠ 0) = true :=
    ⟨_, _, rfl, List.mem_singleton.2 rfl, rfl, rfl, rfl, by decide +kernel⟩
  have reachable := reachable_of_start ran
  obtain ⟨job, found, -, -, within⟩ := (backoff_iff 0 0 0 _ w _ q).2 reachable mem alive rfl
  rw [found] at present
  refine ⟨w, q, job, reachable, mem, found, late, ?_⟩
  rw [← now]
  exact within (Or.inr (Or.inl (of_decide_eq_true present)))

/-! ### A job without a base -/

def hastyRequest : EnqueueRequest :=
  { queue := [113], payload := [], maxAttempts := some 40, backoffBaseMs := some 0, backoffCapMs := some 5 }

/-- The job of the run, in some state. -/
def Job.NoBase (state : JobState) (attempts : UInt32) (job : Job) : Prop :=
  job.state = state ∧ job.attempts = attempts ∧ job.queue = [113] ∧ job.maxAttempts = 40 ∧
    job.backoffBaseMs = 0 ∧ job.backoffCapMs = 5

instance (state : JobState) (attempts : UInt32) (job : Job) : Decidable (Job.NoBase state attempts job) :=
  inferInstanceAs (Decidable (_ ∧ _))

/-- It is the only one, and so much was logged about it. -/
structure Hasty (n : Nat) (state : JobState) (attempts : UInt32) (w : World) : Prop where
  reachable : w.Reachable {}
  options : w.engine.options = {}
  rng : w.engine.rng = fun _ => 5
  count : w.engine.lastLsn = n
  only : ∀ id job, w.engine.state.findJob id = some job → id = 1
  job : ∃ job, w.engine.state.findJob 1 = some job ∧ Job.NoBase state attempts job

section Hasty

variable {w : World} {n : Nat} {state state' : JobState} {attempts attempts' : UInt32}

theorem Hasty.next {op : EngineOp} {r : Record} {drawn : Nat} (hasty : Hasty n state attempts w) (few : n < 100)
    (no_tick : op.isTick = false) (built : w.engine.requested op = ({ w.engine with drawn }, [r]))
    (touches : r.touches = [1])
    (placed : ∀ s, w.engine.state.apply r = .ok (some s) →
      ∃ job, s.findJob 1 = some job ∧ Job.NoBase state' attempts' job) :
    ∃ w', Hasty (n + 1) state' attempts' w' := by
  have good := good_reachable hasty.reachable
  have single : w.engine.state.jobCount ≤ 1 := by
    have sub : w.engine.state.jobs.keys ⊆ [1] := by
      intro id mem
      obtain ⟨job, found⟩ := Option.isSome_iff_exists.1 (State.mem_keys.1 mem)
      exact List.mem_singleton.2 (hasty.only id job found)
    exact (List.subperm_of_subset w.engine.state.jobs.nodupKeys sub).length_le
  have capacity : w.engine.Capacity := by
    refine ⟨Nat.lt_of_le_of_lt single (by decide), ?_, ?_⟩
    · rw [hasty.count]
      omega
    · rw [hasty.options]
      decide
  obtain ⟨s, w', applied, next, engine, -⟩ := logged_next good capacity no_tick built
  have others := (State.apply_frame good.inv applied).others
  rw [touches] at others
  refine ⟨w', hasty.reachable.trans (.single (.op op nofun next)), ?_, ?_, ?_, ?_, ?_⟩
  all_goals rw [engine]
  · exact hasty.options
  · exact hasty.rng
  · exact congrArg (· + 1) hasty.count
  · intro id job found
    by_contra other
    exact other (hasty.only id job ((others id (by simpa using other)).symm.trans found))
  · exact placed s applied

theorem Hasty.lease (hasty : Hasty n .kReady attempts w) (few : n < 100) :
    ∃ w', Hasty (n + 1) .kLeased (attempts + 1) w' := by
  have good := good_reachable hasty.reachable
  obtain ⟨job, found, ready, rfl, queue, limits⟩ := hasty.job
  obtain ⟨q, known⟩ := Option.isSome_iff_exists.1 (good.inv.shape.jobQueues 1 job found)
  rw [queue] at known
  have heap : w.engine.state.readyOf [113] = some q.ready := congrArg (Option.map Queue.ready) known
  have waits : 1 ∈ q.ready := (State.mem_ready_iff good.inv heap).2 ⟨job, found, queue, ready⟩
  have first : w.engine.firstReady [[113]] = some ([113], 1) := by
    have spec := @Engine.firstReady_spec w.engine [[113]]
    cases first : w.engine.firstReady [[113]] with
    | none =>
      rw [first] at spec
      rw [spec [113] List.mem_cons_self q.ready heap] at waits
      cases waits
    | some chosen =>
      obtain ⟨name, id⟩ := chosen
      rw [first] at spec
      obtain ⟨before, after, l, split, ready, root, -⟩ := spec
      obtain ⟨other, found', -⟩ := (State.mem_ready_iff good.inv ready).1 (List.mem_of_getElem? root)
      have named : name ∈ [[113]] := by
        rw [split]
        exact List.mem_append_right _ List.mem_cons_self
      rw [hasty.only id other found', List.mem_singleton.1 named]
  refine @Hasty.next w n _ _ _ _ (.reserve [[113]] 500)
    (.jobLeased ⟨1, w.engine.state.nextToken, w.engine.state.wallNow + 500, w.engine.state.wallNow⟩) w.engine.drawn
    hasty few rfl ?_ rfl ?_
  · have within : ¬ (([[113]] : List Bytes).isEmpty = true ∨ (!([[113]] : List Bytes).all isValidQueueName) = true ∨
        500 < w.engine.options.minLeaseMs ∨ w.engine.options.maxLeaseMs < 500) := by
      rw [hasty.options]
      decide
    simp only [Engine.requested, if_neg within, first]
  · intro s applied
    obtain ⟨job', t, found', -, -, -, placed, rfl⟩ := State.applyJobLeased_spec good.inv applied
    cases found.symm.trans found'
    exact ⟨_, placed.found, rfl, rfl, queue, limits⟩

/-- What a failure of the job draws. -/
theorem Hasty.fails {job : Job} (hasty : Hasty n .kLeased attempts w) (few : attempts < 40)
    (found : w.engine.state.findJob 1 = some job) :
    w.engine.requested (.fail { id := 1, token := job.leaseToken }) =
      ({ w.engine with drawn := w.engine.drawn + 1 },
        [.attemptFailed ⟨1, job.leaseToken, .kWorkerFailed, [], w.engine.state.wallNow, false,
          w.engine.state.wallNow + (5 % (backoffCeiling attempts.toNat 0 5 + 1) : Nat)⟩]) := by
  obtain ⟨job', found', leased, rfl, -, limit, base, cap⟩ := hasty.job
  cases found.symm.trans found'
  have id := (good_reachable hasty.reachable).inv.shape.jobIds 1 job found
  have held : w.engine.findLeased 1 job.leaseToken = .ok job := by
    unfold Engine.findLeased
    rw [found]
    simp [leased]
  have budget : ¬ ((false : Bool) = true ∨ job.maxAttempts ≤ job.attempts) := by
    rw [limit]
    simpa using few
  simp only [Engine.requested, Option.any_none, held, Engine.decideFailure, if_neg budget, hasty.rng, base, cap, id]
  rfl

theorem Hasty.fail (hasty : Hasty n .kLeased attempts w) (early : attempts ≤ 32) (few : n < 100) :
    ∃ w', Hasty (n + 1) .kReady attempts w' := by
  have good := good_reachable hasty.reachable
  obtain ⟨job, found, leased, rfl, queue, limits⟩ := hasty.job
  have at_once : backoffCeiling job.attempts.toNat 0 5 = 0 := by
    have early : job.attempts.toNat ≤ 32 := UInt32.le_iff_toNat_le.1 early
    unfold backoffCeiling
    rw [if_neg (by omega), Nat.zero_shiftLeft]
    rfl
  refine hasty.next few rfl (hasty.fails (UInt32.lt_of_le_of_lt early (by decide)) found) rfl ?_
  intro s applied
  obtain ⟨job', t, found', -, -, placed, rfl⟩ := State.applyAttemptFailed_spec good.inv applied
  cases found.symm.trans found'
  refine ⟨_, placed.found, ?_, rfl, queue, limits⟩
  show State.pendingState _ _ = _
  unfold State.pendingState
  rw [at_once]
  simp [good.live]

/-- It fails again and again, and is never put off. -/
theorem hasty_run : ∀ n : Nat, n ≤ 32 → ∃ w, Hasty (2 * n + 1) .kReady (UInt32.ofNat n) w
  | 0, _ => by
    obtain ⟨w, ran, options, rng, count, keys, known⟩ : ∃ w,
        requests [.enqueue hastyRequest] (start {} samplePlatform {} (fun _ => 5) 1000 0) = some w ∧
        w.engine.options = {} ∧ w.engine.rng = (fun _ => 5) ∧ w.engine.lastLsn = 1 ∧
        w.engine.state.jobs.keys = [1] ∧
        (w.engine.state.findJob 1).any (fun job => decide (Job.NoBase .kReady 0 job)) = true :=
      ⟨_, rfl, rfl, rfl, rfl, rfl, by decide +kernel⟩
    obtain ⟨job, found, noBase⟩ := (Option.any_eq_true _ _).1 known
    refine ⟨w, reachable_of_start ran, options, rng, count, ?_, job, found, of_decide_eq_true noBase⟩
    intro id job found
    have mem : id ∈ w.engine.state.jobs.keys := State.mem_keys.2 (by rw [found]; rfl)
    rw [keys] at mem
    exact List.mem_singleton.1 mem
  | n + 1, few => by
    obtain ⟨w, ready⟩ := hasty_run n (by omega)
    obtain ⟨w', leased⟩ := ready.lease (by omega)
    have one : UInt32.ofNat n + 1 = UInt32.ofNat (n + 1) := (UInt32.ofNat_add n 1).symm
    rw [one] at leased
    refine leased.fail ?_ (by omega)
    rw [UInt32.le_iff_toNat_le, UInt32.toNat_ofNat_of_lt' (Nat.lt_of_le_of_lt few (by decide))]
    exact few

/-- At the 33rd attempt the retry is put off, although zero doubles to zero. -/
theorem backoff_cut_off :
    ∃ w job q, Reachable {} w ∧ w.engine.state.findJob 1 = some job ∧ job.attempts = 33 ∧
      job.backoffBaseMs = 0 ∧ job.backoffCapMs = 5 ∧ exactBackoff 33 0 5 = 0 ∧
      w.engine.written (.fail { id := 1, token := job.leaseToken }) = [.attemptFailed q] ∧ q.dead = false ∧
      q.retryAt = w.engine.state.wallNow + 5 := by
  obtain ⟨_, ready⟩ := hasty_run 32 (Nat.le_refl 32)
  obtain ⟨w, hasty⟩ := ready.lease (by decide)
  obtain ⟨job, found, -, attempts, -, -, base, cap⟩ := hasty.job
  have fails := hasty.fails (by decide) found
  exact ⟨w, job, _, hasty.reachable, found, attempts, base, cap, rfl, congrArg Prod.snd fails, rfl, rfl⟩

end Hasty

end Backoff

end World

end Baton
