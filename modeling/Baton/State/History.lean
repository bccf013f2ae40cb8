/-
# State.History — the ledger of a whole log, and what a run may have forgotten of it

`History rs l` says that the records `rs`, from the first on, lead to the ledger `l`,
and that the engine vouched for each of them (`Vouched`): what `apply` does not ask,
but the engine knew when it logged the record.

The engine itself forgets: garbage collection drops finished jobs and expired keys
and logs nothing.  `Sub gone lapsed live full` is that relation, and `Sub.step` says
that records do not tell the two apart: what the live ledger accepts the full one
accepts, and they stay related.  A history never forgets, so what is said about the
past of a run is said about it:

* `Known`: the ids and tokens in use are below the next ones;
* `Budgeted`: a pending job has an attempt left;
* `tokens_increase`: lease tokens are issued in increasing order;
* `Spent token`: a lease that has ended is held by no job again;
* `purged_of_missing`: an id that is missing was dead and was purged.
-/
import Baton.State.LedgerStep

namespace Baton

open Theory Function

set_option autoImplicit false

/-- The counter of a job that has an attempt left does not overflow. -/
theorem LedgerJob.leased_attempts {job : LedgerJob} (q : JobLeased) (budget : job.attempts < job.maxAttempts) :
    (job.leased q).attempts.toNat = job.attempts.toNat + 1 := by
  have lt : job.attempts.toNat < job.maxAttempts.toNat := UInt32.lt_iff_toNat_lt.1 budget
  have small := job.maxAttempts.toNat_lt
  show (job.attempts + 1).toNat = _
  exact Nat.mod_eq_of_lt (by show job.attempts.toNat + 1 < _; omega)

/-- A job that succeeded or was cancelled. -/
def LedgerJob.Settled (job : LedgerJob) : Prop := job.state = .kSucceeded ∨ job.state = .kCancelled

/-! ## A ledger that has forgotten -/

namespace Ledger

/-- `live` is `full` without some jobs that are `gone` and some keys whose expiry time
has `lapsed`. -/
structure Sub (gone : LedgerJob → Prop) (lapsed : Int → Prop) (live full : Ledger) : Prop where
  jobs : ∀ id, live.jobs id = full.jobs id ∨
    live.jobs id = none ∧ ∃ job, full.jobs id = some job ∧ gone job
  idem : ∀ key, live.idem key = full.idem key ∨
    live.idem key = none ∧ ∃ id at_, full.idem key = some (id, at_) ∧ lapsed at_
  totals : live.totals = full.totals
  nextJobId : live.nextJobId = full.nextJobId
  nextToken : live.nextToken = full.nextToken

section Sub

variable {gone gone' : LedgerJob → Prop} {lapsed lapsed' : Int → Prop} {live live' mid full : Ledger}
  {r : Record}

theorem Sub.refl (l : Ledger) : Sub gone lapsed l l :=
  ⟨fun _ => Or.inl rfl, fun _ => Or.inl rfl, rfl, rfl, rfl⟩

theorem Sub.weaken (sub : Sub gone lapsed live full) (more : ∀ job, gone job → gone' job)
    (later : ∀ at_, lapsed at_ → lapsed' at_) : Sub gone' lapsed' live full where
  __ := sub
  jobs := by
    intro id
    refine (sub.jobs id).imp_right ?_
    rintro ⟨missing, job, found, is_gone⟩
    exact ⟨missing, job, found, more job is_gone⟩
  idem := by
    intro key
    refine (sub.idem key).imp_right ?_
    rintro ⟨missing, id, at_, found, has_lapsed⟩
    exact ⟨missing, id, at_, found, later at_ has_lapsed⟩

theorem Sub.trans (first : Sub gone lapsed live mid) (second : Sub gone lapsed mid full) :
    Sub gone lapsed live full where
  jobs := by
    intro id
    rcases second.jobs id with same | missing
    · rw [← same]
      exact first.jobs id
    · rcases first.jobs id with same | ⟨-, job, found, -⟩
      · rw [same]
        exact Or.inr missing
      · rw [missing.1] at found
        cases found
  idem := by
    intro key
    rcases second.idem key with same | missing
    · rw [← same]
      exact first.idem key
    · rcases first.idem key with same | ⟨-, id, at_, found, -⟩
      · rw [same]
        exact Or.inr missing
      · rw [missing.1] at found
        cases found
  totals := first.totals.trans second.totals
  nextJobId := first.nextJobId.trans second.nextJobId
  nextToken := first.nextToken.trans second.nextToken

section

variable (sub : Sub gone lapsed live full)

include sub

/-- A job that is there is the one of the full ledger. -/
theorem Sub.found {id : Nat} {job : LedgerJob}
    (found : live.jobs id = some job) : full.jobs id = some job := by
  rcases sub.jobs id with same | ⟨missing, -⟩
  · exact same ▸ found
  · rw [missing] at found
    cases found

theorem Sub.key {key : Bytes} {entry : Nat × Int}
    (found : live.idem key = some entry) : full.idem key = some entry := by
  rcases sub.idem key with same | ⟨missing, -⟩
  · exact same ▸ found
  · rw [missing] at found
    cases found

/-- A job that is not gone is there. -/
theorem Sub.kept {id : Nat} {job : LedgerJob}
    (found : full.jobs id = some job) (stays : ¬ gone job) : live.jobs id = some job := by
  rcases sub.jobs id with same | ⟨-, job', found', is_gone⟩
  · exact same.trans found
  · rw [found] at found'
    cases found'
    exact absurd is_gone stays

/-- Both ledgers put the same job under an id. -/
theorem Sub.setJob (id : Nat) (job : LedgerJob) :
    Sub gone lapsed (live.setJob id job) (full.setJob id job) where
  __ := sub
  jobs := by
    intro j
    show update live.jobs id (some job) j = update full.jobs id (some job) j ∨
      update live.jobs id (some job) j = none ∧ _
    by_cases here : j = id
    · rw [here, update_self, update_self]
      exact Or.inl rfl
    · rw [update_of_ne here, update_of_ne here]
      have others : (full.setJob id job).jobs j = full.jobs j := update_of_ne here _ _
      rw [others]
      exact sub.jobs j

theorem Sub.addTotals (queue : Bytes) (f : QueueTotals → QueueTotals) :
    Sub gone lapsed (live.addTotals queue f) (full.addTotals queue f) where
  __ := sub
  totals := by
    show update live.totals queue _ = update full.totals queue _
    rw [sub.totals]

theorem Sub.failed (r : AttemptFailed) (job : LedgerJob) :
    Sub gone lapsed (live.failed r job) (full.failed r job) := by
  have charged := (sub.addTotals job.queue State.addFailed).setJob r.id (job.failed r)
  unfold Ledger.failed
  split
  · exact charged.addTotals job.queue State.addDead
  · exact charged

theorem Sub.enqueued (r : JobEnqueued) :
    Sub gone lapsed (live.enqueued r) (full.enqueued r) where
  jobs := (sub.setJob r.id (LedgerJob.enqueued r)).jobs
  idem := by
    intro key
    unfold Ledger.enqueued
    dsimp only
    split
    · exact sub.idem key
    · by_cases here : key = r.idemKey
      · rw [here, update_self, update_self]
        exact Or.inl rfl
      · rw [update_of_ne here, update_of_ne here]
        exact sub.idem key
  totals := by
    unfold Ledger.enqueued
    rw [sub.totals]
  nextJobId := rfl
  nextToken := sub.nextToken

theorem Sub.step (step : Step live r live') :
    ∃ full', Step full r full' ∧ Sub gone lapsed live' full' := by
  cases step with
  | enqueued next named budget =>
    exact ⟨_, .enqueued (next.trans sub.nextJobId) named budget, sub.enqueued _⟩
  | leased found pending token budget =>
    refine ⟨_, .leased (sub.found found) pending (token.trans sub.nextToken) budget, ?_⟩
    exact { sub.setJob _ _ with nextToken := rfl }
  | extended found leased token =>
    exact ⟨_, .extended (sub.found found) leased token, sub.setJob _ _⟩
  | succeeded found leased token =>
    exact ⟨_, .succeeded (sub.found found) leased token, (sub.setJob _ _).addTotals _ _⟩
  | failed found leased token => exact ⟨_, .failed (sub.found found) leased token, sub.failed _ _⟩
  | cancelled found active =>
    exact ⟨_, .cancelled (sub.found found) active, (sub.setJob _ _).addTotals _ _⟩
  | retried found dead => exact ⟨_, .retried (sub.found found) dead, sub.setJob _ _⟩
  | @purged r terminal =>
    refine ⟨_, .purged fun id mem => ?_, ?_⟩
    · obtain ⟨job, found, is_terminal⟩ := terminal id mem
      exact ⟨job, sub.found found, is_terminal⟩
    · refine { sub with jobs := ?_ }
      intro id
      dsimp only
      split
      · exact Or.inl rfl
      · exact sub.jobs id

end

/-- What was collected is missed by no range. -/
theorem Wired.sub {n : Nat} (wired : Wired n full) (sub : Sub gone lapsed live full) : Wired n live where
  ids := sub.nextJobId ▸ wired.ids
  idBound := sub.nextJobId ▸ wired.idBound
  tokenBound := sub.nextToken ▸ wired.tokenBound
  jobs := by
    intro id job found
    rw [sub.nextJobId]
    exact wired.jobs id job (sub.found found)
  tokens := fun id job found => wired.tokens id job (sub.found found)
  totals := fun name t found => wired.totals name t (sub.totals ▸ found)
  idem := by
    intro key id at_ found
    rw [sub.nextJobId]
    exact wired.idem key id at_ (sub.key found)
  apart := fun key key' id at_ at' found found' =>
    wired.apart key key' id at_ at' (sub.key found) (sub.key found')

theorem Sub.replay {rs : List Record} (sub : Sub gone lapsed live full) (replayed : live.replay rs = .ok live') :
    ∃ full', full.replay rs = .ok full' ∧ Sub gone lapsed live' full' := by
  induction rs generalizing live full with
  | nil =>
    cases replayed
    exact ⟨full, rfl, sub⟩
  | cons r rs ih =>
    rw [Ledger.replay] at replayed
    split at replayed
    · cases replayed
    rename_i next applied
    obtain ⟨full₁, step, sub₁⟩ := sub.step (apply_iff_step.1 applied)
    obtain ⟨full', rest, sub'⟩ := ih sub₁ replayed
    refine ⟨full', ?_, sub'⟩
    rw [Ledger.replay, apply_iff_step.2 step]
    exact rest

end Sub

/-! ## The history of a log -/

/-- What the engine knew of a record it logged, beyond what `apply` asks for. -/
def Vouched (l : Ledger) : Record → Prop
  | .attemptFailed r =>
    ∀ job, l.jobs r.id = some job → (r.dead = false → job.attempts < job.maxAttempts) ∧
      (r.reason = .kLeaseExpired → job.leaseExpiresAt ≤ r.at_)
  | .jobsPurged r => ∀ id ∈ r.ids, ∀ job, l.jobs id = some job → job.state = .kDead
  | _ => True

inductive History : List Record → Ledger → Prop where
  | nil : History [] {}
  | snoc {rs : List Record} {r : Record} {l l' : Ledger} (before : History rs l) (vouched : Vouched l r)
      (step : Step l r l') : History (rs ++ [r]) l'

section History

variable {rs ts : List Record} {l l' : Ledger} {r : Record}

theorem History.replay (history : History rs l) : Ledger.replay {} rs = .ok l := by
  induction history with
  | nil => rfl
  | snoc before vouched step ih =>
    rw [replay_append ih, Ledger.replay, apply_iff_step.2 step]
    rfl

/-- The end of a history, replayed from its beginning. -/
theorem History.rest {m : Ledger} (history : History (rs ++ ts) l) (before : History rs m) :
    m.replay ts = .ok l := by
  have whole := history.replay
  rwa [replay_append before.replay] at whole

theorem History.unique (history : History rs l) (history' : History rs l') : l = l' := by
  have first := history.replay
  rw [history'.replay] at first
  exact (Except.ok.inj first).symm

/-- The beginning of a history is a history. -/
theorem History.start (history : History (rs ++ ts) l) : ∃ m, History rs m := by
  generalize whole : rs ++ ts = all at history
  induction history generalizing ts with
  | nil =>
    rw [List.append_eq_nil_iff] at whole
    rw [whole.1]
    exact ⟨_, .nil⟩
  | @snoc rs' r l l' before vouched step ih =>
    cases ts using List.reverseRecOn with
    | nil =>
      rw [List.append_nil] at whole
      rw [whole]
      exact ⟨_, .snoc before vouched step⟩
    | append_singleton ts' t =>
      rw [← List.append_assoc] at whole
      exact ih (List.append_inj_left' whole rfl)

theorem History.take (history : History rs l) (n : Nat) : ∃ m, History (rs.take n) m := by
  rw [← List.take_append_drop n rs] at history
  exact history.start

/-- The last record of a history. -/
theorem History.last (history : History (rs ++ [r]) l') :
    ∃ l, History rs l ∧ Vouched l r ∧ Step l r l' := by
  generalize whole : rs ++ [r] = all at history
  cases history with
  | nil => simp at whole
  | snoc before vouched step =>
    obtain ⟨rfl, same⟩ := List.append_inj' whole rfl
    cases same
    exact ⟨_, before, vouched, step⟩

/-- What holds at the start and is kept by every record holds of every history. -/
theorem History.keeps {P : List Record → Ledger → Prop} (history : History rs l) (start : P [] {})
    (kept : ∀ rs l r l', History rs l → Vouched l r → Step l r l' → P rs l → P (rs ++ [r]) l') :
    P rs l := by
  induction history with
  | nil => exact start
  | snoc before vouched step ih => exact kept _ _ _ _ before vouched step ih

end History

/-! ## What every history keeps -/

/-- The ids in use are below the next one, and the tokens too. -/
structure Known (l : Ledger) : Prop where
  ids : 0 < l.nextJobId
  tokens : 0 < l.nextToken
  jobs : ∀ id job, l.jobs id = some job → 0 < id ∧ id < l.nextJobId
  leases : ∀ id job, l.jobs id = some job → job.leaseToken < l.nextToken

/-- A leased job has been given an attempt. -/
def Begun (l : Ledger) : Prop :=
  ∀ id job, l.jobs id = some job → job.state = .kLeased → job.attempts ≠ 0

/-- A pending job has an attempt left. -/
def Budgeted (l : Ledger) : Prop :=
  ∀ id job, l.jobs id = some job →
    job.attempts ≤ job.maxAttempts ∧
      (job.maxAttempts = 0 → job.state = .kSucceeded ∨ job.state = .kCancelled) ∧
      (job.state = .kPending → job.attempts < job.maxAttempts)

/-- A token that was issued and that no job holds a lease under. -/
structure Spent (token : Nat) (l : Ledger) : Prop where
  issued : token < l.nextToken
  free : ∀ id job, l.jobs id = some job → job.state = .kLeased → job.leaseToken ≠ token

section Keeps

variable {rs : List Record} {l l' : Ledger} {r : Record}

theorem Known.step (known : Known l) (step : Step l r l') : Known l' := by
  have ids := step.nextJobId
  have tokens := step.nextToken
  refine ⟨Nat.lt_of_lt_of_le known.ids ids.1, Nat.lt_of_lt_of_le known.tokens tokens.1, ?_, ?_⟩
  · intro id job found
    rcases step.jobs found with old | rewrite
    · have before := known.jobs id job old
      exact ⟨before.1, by omega⟩
    · exact rewrite.known step known.ids known.jobs
  · intro id job found
    rcases step.jobs found with old | rewrite
    · have before := known.leases id job old
      omega
    · rcases rewrite.leaseToken with none_here | ⟨before, old, same⟩ | ⟨q, rfl, -, -, same⟩
      · have := known.tokens
        omega
      · have := known.leases id before old
        omega
      · rw [same, step.nextToken_leased]
        exact Nat.lt_succ_self _

theorem History.known (history : History rs l) : Known l := by
  refine @History.keeps _ _ (fun _ l => Known l) history ?_ ?_
  · refine ⟨Nat.one_pos, Nat.one_pos, ?_, ?_⟩
    · intro id job found
      cases found
    · intro id job found
      cases found
  · intro rs l r l' before vouched step known
    exact known.step step

theorem Begun.step (begun : Begun l) (step : Step l r l') : Begun l' := by
  intro id job listed leased
  rcases step.jobs listed with old | rewrite
  · exact begun id job old leased
  cases rewrite with
  | @leased q old found pending token budget =>
    have next := LedgerJob.leased_attempts q budget
    intro zero
    rw [zero] at next
    cases next
  | @extended q old found held token => exact begun q.id old found held
  | failed found held token =>
    unfold LedgerJob.failed at leased
    split at leased <;> cases leased
  | _ => cases leased

theorem History.begun (history : History rs l) : Begun l :=
  @History.keeps _ _ (fun _ l => Begun l) history nofun fun _ _ _ _ _ _ step begun => begun.step step

/-- A job that is not over for good can be given an attempt. -/
theorem Budgeted.positive (budgeted : Budgeted l) {id : Nat} {job : LedgerJob} (found : l.jobs id = some job)
    (open_ : job.state ≠ .kSucceeded ∧ job.state ≠ .kCancelled) : job.maxAttempts ≠ 0 := by
  intro zero
  rcases (budgeted id job found).2.1 zero with succeeded | cancelled
  · exact open_.1 succeeded
  · exact open_.2 cancelled

theorem Budgeted.step (budgeted : Budgeted l) (vouched : Vouched l r) (step : Step l r l') :
    Budgeted l' := by
  intro id job found
  rcases step.jobs found with old | rewrite
  · exact budgeted id job old
  cases rewrite with
  | @enqueued e next =>
    cases step with
    | enqueued _ _ budget =>
      have positive : (0 : UInt32) < e.maxAttempts := UInt32.pos_iff_ne_zero.2 budget
      exact ⟨UInt32.le_of_lt positive, fun zero => absurd zero budget, fun _ => positive⟩
  | @leased q job₀ found' pending token budget =>
    have positive := budgeted.positive found' (by simp [pending])
    refine ⟨?_, fun zero => absurd zero positive, ?_⟩
    · rw [UInt32.le_iff_toNat_le, LedgerJob.leased_attempts q budget]
      exact UInt32.lt_iff_toNat_lt.1 budget
    · intro impossible
      cases impossible
  | extended found' leased token =>
    have before := budgeted _ _ found'
    exact before
  | succeeded found' leased token =>
    refine ⟨(budgeted _ _ found').1, fun _ => Or.inl rfl, ?_⟩
    intro impossible
    cases impossible
  | @failed q job₀ found' leased token =>
    have spent := (budgeted _ _ found').1
    have positive := budgeted.positive found' (by simp [leased])
    unfold LedgerJob.failed
    split
    · refine ⟨spent, fun zero => absurd zero positive, ?_⟩
      intro impossible
      cases impossible
    · rename_i lives
      exact ⟨spent, fun zero => absurd zero positive, fun _ => (vouched job₀ found').1 (eq_false_of_ne_true lives)⟩
  | cancelled found' active =>
    refine ⟨(budgeted _ _ found').1, fun _ => Or.inr rfl, ?_⟩
    intro impossible
    cases impossible
  | @retried q job₀ found' dead =>
    have positive := budgeted.positive found' (by simp [dead])
    have attempt : (0 : UInt32) < job₀.maxAttempts := UInt32.pos_iff_ne_zero.2 positive
    exact ⟨UInt32.le_of_lt attempt, fun zero => absurd zero positive, fun _ => attempt⟩

theorem History.budgeted (history : History rs l) : Budgeted l := by
  refine @History.keeps _ _ (fun _ l => Budgeted l) history ?_ ?_
  · intro id job found
    cases found
  · intro rs l r l' before vouched step budgeted
    exact budgeted.step vouched step

theorem Spent.step {token : Nat} (spent : Spent token l) (step : Step l r l') : Spent token l' := by
  have tokens := step.nextToken.1
  refine ⟨Nat.lt_of_lt_of_le spent.issued tokens, ?_⟩
  intro id job found leased
  rcases step.jobs found with old | rewrite
  · exact spent.free id job old leased
  have issued := spent.issued
  cases rewrite with
  | @leased q job₀ found' pending next budget =>
    show q.token ≠ token
    omega
  | extended found' leased' held =>
    have before := spent.free _ _ found' leased'
    exact before
  | failed found' leased' held =>
    unfold LedgerJob.failed at leased
    split at leased <;> cases leased
  | _ => cases leased

/-! ### Tokens in the log -/

/-- The token a record issues. -/
def issuedToken : Record → Option Nat
  | .jobLeased r => some r.token
  | _ => none

/-- Every token in the log is below the next one, and they increase. -/
theorem History.tokens_increase (history : History rs l) :
    (∀ token ∈ rs.filterMap issuedToken, token < l.nextToken) ∧
      (rs.filterMap issuedToken).Pairwise (· < ·) := by
  refine @History.keeps _ _
    (fun rs l => (∀ token ∈ rs.filterMap issuedToken, token < l.nextToken) ∧
      (rs.filterMap issuedToken).Pairwise (· < ·)) history ⟨by simp, List.Pairwise.nil⟩ ?_
  rintro rs l r l' before vouched step ⟨below, increasing⟩
  have more := step.nextToken.1
  rw [List.filterMap_append]
  cases issued : issuedToken r with
  | none =>
    rw [List.filterMap_cons_none issued, List.filterMap_nil, List.append_nil]
    exact ⟨fun token mem => Nat.lt_of_lt_of_le (below token mem) more, increasing⟩
  | some token =>
    rw [List.filterMap_cons_some issued, List.filterMap_nil]
    cases r with
    | jobLeased q =>
      cases issued
      have next := step.nextToken_leased
      cases step with
      | leased found pending same budget =>
        constructor
        · intro token mem
          rcases List.mem_append.1 mem with old | new
          · exact Nat.lt_of_lt_of_le (below token old) more
          · rw [List.mem_singleton.1 new, next]
            exact Nat.lt_succ_self _
        · refine List.pairwise_append.2 ⟨increasing, List.pairwise_singleton _ _, ?_⟩
          intro token mem token' mem'
          rw [List.mem_singleton.1 mem', same]
          exact below token mem
    | _ => cases issued

/-- A lease that is held was granted by a record of the log. -/
theorem History.granted (history : History rs l) {id : Nat} {job : LedgerJob}
    (found : l.jobs id = some job) (leased : job.state = .kLeased) :
    ∃ q, .jobLeased q ∈ rs ∧ q.id = id ∧ q.token = job.leaseToken := by
  refine @History.keeps _ _
    (fun rs l => ∀ id job, l.jobs id = some job → job.state = .kLeased →
      ∃ q, .jobLeased q ∈ rs ∧ q.id = id ∧ q.token = job.leaseToken) history ?_ ?_ id job found leased
  · intro id job found
    cases found
  · intro rs l r l' before vouched step granted id job found leased
    have earlier : ∀ {id : Nat} {job : LedgerJob}, l.jobs id = some job → job.state = .kLeased →
        ∃ q, .jobLeased q ∈ rs ++ [r] ∧ q.id = id ∧ q.token = job.leaseToken := by
      intro id job found leased
      obtain ⟨q, mem, of_id, of_token⟩ := granted id job found leased
      exact ⟨q, List.mem_append_left _ mem, of_id, of_token⟩
    rcases step.jobs found with old | rewrite
    · exact earlier old leased
    cases rewrite with
    | leased found' pending next budget =>
      exact ⟨_, List.mem_append_right _ List.mem_cons_self, rfl, rfl⟩
    | extended found' leased' held =>
      have before := earlier found' leased'
      exact before
    | failed found' leased' held =>
      unfold LedgerJob.failed at leased
      split at leased <;> cases leased
    | _ => cases leased

/-- A token is granted once. -/
theorem History.granted_once (history : History rs l) {q q' : JobLeased} (mem : .jobLeased q ∈ rs)
    (mem' : .jobLeased q' ∈ rs) (same : q.token = q'.token) : q = q' := by
  have increasing := history.tokens_increase.2
  rw [List.pairwise_filterMap, List.pairwise_iff_getElem] at increasing
  obtain ⟨i, inside, at_i⟩ := List.getElem_of_mem mem
  obtain ⟨j, inside', at_j⟩ := List.getElem_of_mem mem'
  rcases Nat.lt_trichotomy i j with before | here | after
  · have order := increasing i j inside inside' before q.token (by rw [at_i]; rfl) q'.token (by rw [at_j]; rfl)
    omega
  · subst here
    rw [at_i] at at_j
    cases at_j
    rfl
  · have order := increasing j i inside' inside after q'.token (by rw [at_j]; rfl) q.token (by rw [at_i]; rfl)
    omega

/-- A job that succeeded stays as it is. -/
theorem Step.succeeded_stays (known : Known l) (vouched : Vouched l r) (step : Step l r l') {id : Nat}
    {job : LedgerJob} (found : l.jobs id = some job) (done : job.state = .kSucceeded) :
    l'.jobs id = some job := by
  -- so it is not the job that the record is about
  have apart : ∀ {j : Nat} {job' : LedgerJob}, l.jobs j = some job' → job'.state ≠ .kSucceeded → id ≠ j := by
    intro j job' found' other same
    rw [← same, found] at found'
    cases found'
    exact other done
  cases step with
  | @enqueued e next named budget =>
    have old := (known.jobs id job found).2
    exact (update_of_ne (by omega) _ _).trans found
  | leased found' pending _ _ =>
    exact (update_of_ne (apart found' (by rw [pending]; decide)) _ _).trans found
  | extended found' leased _ =>
    exact (update_of_ne (apart found' (by rw [leased]; decide)) _ _).trans found
  | succeeded found' leased _ =>
    exact (update_of_ne (apart found' (by rw [leased]; decide)) _ _).trans found
  | failed found' leased _ =>
    rw [failed_jobs]
    exact (update_of_ne (apart found' (by rw [leased]; decide)) _ _).trans found
  | @cancelled _ job' found' active =>
    refine (update_of_ne (apart found' ?_) _ _).trans found
    intro succeeded
    unfold LedgerJob.isTerminal at active
    rw [succeeded] at active
    cases active
  | retried found' dead =>
    exact (update_of_ne (apart found' (by rw [dead]; decide)) _ _).trans found
  | purged terminal =>
    refine (if_neg ?_).trans found
    intro named
    have dead := vouched id named job found
    rw [done] at dead
    cases dead

/-- A job that an ack was logged for has succeeded under the token of the ack. -/
theorem History.succeeded (history : History rs l) {q : JobSucceeded} (mem : .jobSucceeded q ∈ rs) :
    ∃ job, l.jobs q.id = some job ∧ job.state = .kSucceeded ∧ job.leaseToken = q.token := by
  refine @History.keeps _ _
    (fun rs l => ∀ q, .jobSucceeded q ∈ rs →
      ∃ job, l.jobs q.id = some job ∧ job.state = .kSucceeded ∧ job.leaseToken = q.token) history ?_ ?_ q mem
  · intro q mem
    cases mem
  · intro rs l r l' before vouched step earlier q mem
    rcases List.mem_append.1 mem with old | new
    · obtain ⟨job, found, done, under⟩ := earlier q old
      exact ⟨job, step.succeeded_stays before.known vouched found done, done, under⟩
    · obtain rfl := List.mem_singleton.1 new
      cases step with
      | @succeeded _ job found leased under =>
        exact ⟨job.finished .kSucceeded q.at_, update_self _ _ _, rfl, under⟩

/-! ### Ids -/

/-- A purge named the job when it was dead. -/
def Purged (rs : List Record) (id : Nat) : Prop :=
  ∃ before r after l job, rs = before ++ .jobsPurged r :: after ∧ id ∈ r.ids ∧ History before l ∧
    l.jobs id = some job ∧ job.state = .kDead

theorem Purged.append {id : Nat} (purged : Purged rs id) (more : List Record) : Purged (rs ++ more) id := by
  obtain ⟨before, r, after, l, job, rfl, facts⟩ := purged
  exact ⟨before, r, after ++ more, l, job, by rw [List.append_assoc, List.cons_append], facts⟩

/-- A job that was enqueued and that is missing was dead, and was purged. -/
theorem History.purged_of_missing (history : History rs l) {q : JobEnqueued} (mem : .jobEnqueued q ∈ rs)
    (missing : l.jobs q.id = none) : Purged rs q.id := by
  refine @History.keeps _ _ (fun rs l => ∀ q, .jobEnqueued q ∈ rs → l.jobs q.id = none → Purged rs q.id)
    history nofun ?_ q mem missing
  intro rs l r l' history vouched step purged q mem missing
  -- a job that a record is about is there after it, unless it is purged
  have updated : ∀ {jobs : Nat → Option LedgerJob} {j : Nat} {job : LedgerJob},
      update jobs j (some job) q.id = none → q.id ≠ j ∧ jobs q.id = none := by
    intro jobs j job missing
    rw [update_apply] at missing
    split at missing
    · cases missing
    · rename_i ne
      exact ⟨ne, missing⟩
  have earlier : l.jobs q.id = none → (∀ e, r = .jobEnqueued e → q.id ≠ e.id) → Purged (rs ++ [r]) q.id := by
    intro missing other
    rcases List.mem_append.1 mem with old | new
    · exact (purged q old missing).append [r]
    · exact absurd rfl (other q (List.mem_singleton.1 new).symm)
  cases step with
  | @enqueued e next named budget =>
    obtain ⟨ne, missing⟩ := updated missing
    refine earlier missing ?_
    rintro _ ⟨⟩
    exact ne
  | leased | extended | succeeded | cancelled | retried => exact earlier (updated missing).2 nofun
  | failed =>
    rw [failed_jobs] at missing
    exact earlier (updated missing).2 nofun
  | @purged q' terminal =>
    have missing : (if q.id ∈ q'.ids then none else l.jobs q.id) = none := missing
    split at missing
    · rename_i named
      obtain ⟨job, found, -⟩ := terminal q.id named
      exact ⟨rs, q', [], l, job, rfl, named, history, found, vouched q.id named job found⟩
    · exact earlier missing nofun

/-- An id that was given out, and whose job has settled if it is there, stays so. -/
theorem Step.settled (step : Step l r l') {id : Nat} (given : id < l.nextJobId)
    (settled : ∀ job, l.jobs id = some job → LedgerJob.Settled job) :
    ∀ job, l'.jobs id = some job → LedgerJob.Settled job := by
  intro job found
  rcases step.jobs found with old | rewrite
  · exact settled job old
  cases rewrite with
  | enqueued next => omega
  | leased found' pending token budget =>
    have := settled _ found'
    simp [LedgerJob.Settled, pending] at this
  | extended found' leased token =>
    have := settled _ found'
    simp [LedgerJob.Settled, leased] at this
  | succeeded found' leased token => exact Or.inl rfl
  | failed found' leased token =>
    have := settled _ found'
    simp [LedgerJob.Settled, leased] at this
  | cancelled found' active => exact Or.inr rfl
  | retried found' dead =>
    have := settled _ found'
    simp [LedgerJob.Settled, dead] at this

end Keeps

end Ledger

end Baton
