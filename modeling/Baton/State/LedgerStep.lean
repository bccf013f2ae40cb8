/-
# State.LedgerStep — the records as transitions, and what they keep

`Ledger.Step` lists the transitions of the durable state, one per type of record,
with what each asks for and what it leaves; `apply_iff_step` says that `apply` takes
exactly these.  Every invariant of the ledger is then a case analysis over them.

The one proved here is `Wired n`: after at most `n` records that can be decoded, every
number and every time of the ledger is one that an image can carry.
-/
import Baton.State.Ledger
import Baton.State.RecordCodec

namespace Baton

open Theory

set_option autoImplicit false

namespace Ledger

/-- What an enqueued job leaves. -/
def enqueued (l : Ledger) (r : JobEnqueued) : Ledger :=
  { l with
    jobs := Function.update l.jobs r.id (some (LedgerJob.enqueued r))
    totals := Function.update l.totals r.queue (some (State.addEnqueued ((l.totals r.queue).getD {})))
    nextJobId := r.id + 1
    idem := if r.idemKey.isEmpty then l.idem
      else Function.update l.idem r.idemKey (some (r.id, r.idemExpiresAt)) }

/-- What a failed attempt leaves. -/
def failed (l : Ledger) (r : AttemptFailed) (job : LedgerJob) : Ledger :=
  if r.dead then
    ((l.addTotals job.queue State.addFailed).setJob r.id (job.failed r)).addTotals job.queue State.addDead
  else (l.addTotals job.queue State.addFailed).setJob r.id (job.failed r)

inductive Step (l : Ledger) : Record → Ledger → Prop where
  | enqueued {r : JobEnqueued} (next : r.id = l.nextJobId) (named : r.queue ≠ [])
      (budget : r.maxAttempts ≠ 0) : Step l (.jobEnqueued r) (l.enqueued r)
  | leased {r : JobLeased} {job : LedgerJob} (found : l.jobs r.id = some job)
      (pending : job.state = .kPending) (token : r.token = l.nextToken)
      (budget : job.attempts < job.maxAttempts) :
      Step l (.jobLeased r) { l.setJob r.id (job.leased r) with nextToken := r.token + 1 }
  | extended {r : LeaseExtended} {job : LedgerJob} (found : l.jobs r.id = some job)
      (leased : job.state = .kLeased) (token : job.leaseToken = r.token) :
      Step l (.leaseExtended r) (l.setJob r.id { job with leaseExpiresAt := r.leaseExpiresAt })
  | succeeded {r : JobSucceeded} {job : LedgerJob} (found : l.jobs r.id = some job)
      (leased : job.state = .kLeased) (token : job.leaseToken = r.token) :
      Step l (.jobSucceeded r)
        ((l.setJob r.id (job.finished .kSucceeded r.at_)).addTotals job.queue State.addSucceeded)
  | failed {r : AttemptFailed} {job : LedgerJob} (found : l.jobs r.id = some job)
      (leased : job.state = .kLeased) (token : job.leaseToken = r.token) :
      Step l (.attemptFailed r) (l.failed r job)
  | cancelled {r : JobCancelled} {job : LedgerJob} (found : l.jobs r.id = some job)
      (active : job.isTerminal = false) :
      Step l (.jobCancelled r)
        ((l.setJob r.id (job.finished .kCancelled r.at_)).addTotals job.queue State.addCancelled)
  | retried {r : DeadJobRetried} {job : LedgerJob} (found : l.jobs r.id = some job)
      (dead : job.state = .kDead) : Step l (.deadJobRetried r) (l.setJob r.id (job.retried r))
  | purged {r : JobsPurged}
      (terminal : ∀ id ∈ r.ids, ∃ job, l.jobs id = some job ∧ job.isTerminal = true) :
      Step l (.jobsPurged r) { l with jobs := fun id => if id ∈ r.ids then none else l.jobs id }

section Apply

variable {l l' : Ledger}

theorem requireLeased_iff {id token : Nat} {what : String} {job : LedgerJob} :
    l.requireLeased id token what = .ok job ↔
      l.jobs id = some job ∧ job.state = .kLeased ∧ job.leaseToken = token := by
  unfold requireLeased
  cases l.jobs id with
  | none => simp
  | some job' =>
    by_cases matched : job'.state ≠ .kLeased ∨ job'.leaseToken ≠ token
    · simp only [if_pos matched, reduceCtorEq, false_iff]
      rintro ⟨same, leased, held⟩
      cases same
      exact matched.elim (· leased) (· held)
    · simp only [if_neg matched, Except.ok.injEq, Option.some.injEq]
      rw [not_or, not_not, not_not] at matched
      constructor
      · rintro rfl
        exact ⟨rfl, matched⟩
      · rintro ⟨rfl, -⟩
        rfl

theorem checkPurge_iff {ids : List Nat} :
    l.checkPurge ids = .ok () ↔ ∀ id ∈ ids, ∃ job, l.jobs id = some job ∧ job.isTerminal = true := by
  induction ids with
  | nil => simp [checkPurge]
  | cons id ids ih =>
    unfold checkPurge
    cases found : l.jobs id with
    | none => simp [found]
    | some job =>
      cases terminal : job.isTerminal with
      | false => simp [found, terminal]
      | true => simpa [found, terminal] using ih

theorem apply_iff_step {r : Record} : l.apply r = .ok l' ↔ Step l r l' := by
  constructor
  · intro applied
    unfold apply at applied
    split at applied
    · split at applied
      · cases applied
      split at applied
      · cases applied
      split at applied
      · cases applied
      rename_i next named budget
      cases applied
      exact .enqueued (not_not.1 next) (by simpa using named) budget
    · split at applied
      · cases applied
      rename_i job found
      split at applied
      · cases applied
      split at applied
      · cases applied
      split at applied
      · cases applied
      rename_i pending token budget
      cases applied
      exact .leased found (not_not.1 pending) (not_not.1 token) (UInt32.not_le.1 budget)
    · split at applied
      · cases applied
      rename_i job required
      obtain ⟨found, leased, token⟩ := requireLeased_iff.1 required
      cases applied
      exact .extended found leased token
    · split at applied
      · cases applied
      rename_i job required
      obtain ⟨found, leased, token⟩ := requireLeased_iff.1 required
      cases applied
      exact .succeeded found leased token
    · split at applied
      · cases applied
      rename_i r job required
      obtain ⟨found, leased, token⟩ := requireLeased_iff.1 required
      cases applied
      exact .failed found leased token
    · split at applied
      · cases applied
      rename_i job found
      split at applied
      · cases applied
      rename_i active
      cases applied
      exact .cancelled found (by simpa using active)
    · split at applied
      · cases applied
      rename_i job found
      split at applied
      · cases applied
      rename_i dead
      cases applied
      exact .retried found (not_not.1 dead)
    · split at applied
      · cases applied
      rename_i checked
      cases applied
      exact .purged (checkPurge_iff.1 checked)
  · intro step
    cases step with
    | enqueued next named budget =>
      have named' : ¬ _ = true := fun empty => named (List.isEmpty_iff.1 empty)
      simp only [apply, if_neg (not_not.2 next), if_neg named', if_neg budget]
      rfl
    | leased found pending token budget =>
      simp only [apply, found, if_neg (not_not.2 pending), if_neg (not_not.2 token),
        if_neg (UInt32.not_le.2 budget)]
    | extended found leased token =>
      simp only [apply, requireLeased_iff.2 ⟨found, leased, token⟩]
    | succeeded found leased token =>
      simp only [apply, requireLeased_iff.2 ⟨found, leased, token⟩]
    | failed found leased token =>
      simp only [apply, requireLeased_iff.2 ⟨found, leased, token⟩]
      rfl
    | cancelled found active => simp [apply, found, active]
    | retried found dead => simp only [apply, found, if_neg (not_not.2 dead)]
    | purged terminal => simp only [apply, checkPurge_iff.2 terminal]

/-- What every record keeps, a replay keeps; the number of records is counted. -/
theorem replay_keeps {P : Nat → Ledger → Prop} {rs : List Record}
    (keeps : ∀ n l r l', r ∈ rs → Step l r l' → P n l → P (n + 1) l') {n : Nat}
    (replayed : l.replay rs = .ok l') (holds : P n l) : P (n + rs.length) l' := by
  induction rs generalizing l n with
  | nil =>
    cases replayed
    exact holds
  | cons r rs ih =>
    rw [replay] at replayed
    split at replayed
    · cases replayed
    rename_i next applied
    have later := ih (fun n l q l' mem => keeps n l q l' (List.mem_cons_of_mem _ mem)) replayed
      (keeps n l r next List.mem_cons_self (apply_iff_step.1 applied) holds)
    have count : n + (r :: rs).length = n + 1 + rs.length := by
      rw [List.length_cons]
      omega
    rw [count]
    exact later

end Apply

/-! ## What a record leaves of a job -/

section Jobs

variable {l l' : Ledger} {r : Record}

theorem failed_jobs (r : AttemptFailed) (job : LedgerJob) :
    (l.failed r job).jobs = Function.update l.jobs r.id (some (job.failed r)) := by
  unfold failed
  split <;> rfl

theorem failed_nextJobId (r : AttemptFailed) (job : LedgerJob) :
    (l.failed r job).nextJobId = l.nextJobId := by
  unfold failed
  split <;> rfl

theorem failed_nextToken (r : AttemptFailed) (job : LedgerJob) :
    (l.failed r job).nextToken = l.nextToken := by
  unfold failed
  split <;> rfl

theorem failed_idem (r : AttemptFailed) (job : LedgerJob) : (l.failed r job).idem = l.idem := by
  unfold failed
  split <;> rfl

/-- What one record makes of one job: the job a transition is about is rewritten, and
an id that is enqueued had none. -/
inductive Rewrite (l : Ledger) : Record → Nat → LedgerJob → Prop where
  | enqueued {r : JobEnqueued} (next : r.id = l.nextJobId) :
      Rewrite l (.jobEnqueued r) r.id (LedgerJob.enqueued r)
  | leased {r : JobLeased} {job : LedgerJob} (found : l.jobs r.id = some job)
      (pending : job.state = .kPending) (token : r.token = l.nextToken)
      (budget : job.attempts < job.maxAttempts) : Rewrite l (.jobLeased r) r.id (job.leased r)
  | extended {r : LeaseExtended} {job : LedgerJob} (found : l.jobs r.id = some job)
      (leased : job.state = .kLeased) (token : job.leaseToken = r.token) :
      Rewrite l (.leaseExtended r) r.id { job with leaseExpiresAt := r.leaseExpiresAt }
  | succeeded {r : JobSucceeded} {job : LedgerJob} (found : l.jobs r.id = some job)
      (leased : job.state = .kLeased) (token : job.leaseToken = r.token) :
      Rewrite l (.jobSucceeded r) r.id (job.finished .kSucceeded r.at_)
  | failed {r : AttemptFailed} {job : LedgerJob} (found : l.jobs r.id = some job)
      (leased : job.state = .kLeased) (token : job.leaseToken = r.token) :
      Rewrite l (.attemptFailed r) r.id (job.failed r)
  | cancelled {r : JobCancelled} {job : LedgerJob} (found : l.jobs r.id = some job)
      (active : job.isTerminal = false) :
      Rewrite l (.jobCancelled r) r.id (job.finished .kCancelled r.at_)
  | retried {r : DeadJobRetried} {job : LedgerJob} (found : l.jobs r.id = some job)
      (dead : job.state = .kDead) : Rewrite l (.deadJobRetried r) r.id (job.retried r)

theorem of_update {jobs : Nat → Option LedgerJob} {id j : Nat} {job job' : LedgerJob}
    (found : Function.update jobs id (some job) j = some job') :
    (j ≠ id ∧ jobs j = some job') ∨ (j = id ∧ job' = job) := by
  rw [Function.update_apply] at found
  split at found
  · rename_i same
    exact Or.inr ⟨same, (Option.some.inj found).symm⟩
  · rename_i ne
    exact Or.inl ⟨ne, found⟩

/-- A job after a record is the job before it, or what the record made of one. -/
theorem Step.jobs (step : Step l r l') {j : Nat} {job : LedgerJob} (found : l'.jobs j = some job) :
    l.jobs j = some job ∨ Rewrite l r j job := by
  cases step with
  | enqueued next named budget =>
    rcases of_update found with ⟨-, old⟩ | ⟨rfl, rfl⟩
    · exact Or.inl old
    · exact Or.inr (.enqueued next)
  | leased found' pending token budget =>
    rcases of_update found with ⟨-, old⟩ | ⟨rfl, rfl⟩
    · exact Or.inl old
    · exact Or.inr (.leased found' pending token budget)
  | extended found' leased token =>
    rcases of_update found with ⟨-, old⟩ | ⟨rfl, rfl⟩
    · exact Or.inl old
    · exact Or.inr (.extended found' leased token)
  | succeeded found' leased token =>
    rcases of_update found with ⟨-, old⟩ | ⟨rfl, rfl⟩
    · exact Or.inl old
    · exact Or.inr (.succeeded found' leased token)
  | failed found' leased token =>
    rw [failed_jobs] at found
    rcases of_update found with ⟨-, old⟩ | ⟨rfl, rfl⟩
    · exact Or.inl old
    · exact Or.inr (.failed found' leased token)
  | cancelled found' active =>
    rcases of_update found with ⟨-, old⟩ | ⟨rfl, rfl⟩
    · exact Or.inl old
    · exact Or.inr (.cancelled found' active)
  | retried found' dead =>
    rcases of_update found with ⟨-, old⟩ | ⟨rfl, rfl⟩
    · exact Or.inl old
    · exact Or.inr (.retried found' dead)
  | purged terminal =>
    have found : (if j ∈ _ then none else l.jobs j) = some job := found
    split at found
    · cases found
    · exact Or.inl found

theorem Step.nextJobId (step : Step l r l') : l.nextJobId ≤ l'.nextJobId ∧ l'.nextJobId ≤ l.nextJobId + 1 := by
  cases step with
  | enqueued next named budget =>
    show l.nextJobId ≤ _ + 1 ∧ _ + 1 ≤ l.nextJobId + 1
    omega
  | failed found leased token =>
    rw [failed_nextJobId]
    omega
  | _ => exact ⟨Nat.le_refl _, Nat.le_succ _⟩

theorem Step.nextToken (step : Step l r l') : l.nextToken ≤ l'.nextToken ∧ l'.nextToken ≤ l.nextToken + 1 := by
  cases step with
  | leased found pending token budget =>
    show l.nextToken ≤ _ + 1 ∧ _ + 1 ≤ l.nextToken + 1
    omega
  | failed found leased token =>
    rw [failed_nextToken]
    omega
  | _ => exact ⟨Nat.le_refl _, Nat.le_succ _⟩

/-- The token of a lease is used up. -/
theorem Step.nextToken_leased {q : JobLeased} (step : Step l (.jobLeased q) l') :
    l'.nextToken = q.token + 1 := by
  cases step with
  | leased _ _ _ _ => rfl

end Jobs

/-! ## Totals and keys -/

/-- No counter is more than one ahead. -/
structure Grown (t t' : QueueTotals) : Prop where
  enqueued : t'.enqueued ≤ t.enqueued + 1
  succeeded : t'.succeeded ≤ t.succeeded + 1
  failedAttempts : t'.failedAttempts ≤ t.failedAttempts + 1
  dead : t'.dead ≤ t.dead + 1
  cancelled : t'.cancelled ≤ t.cancelled + 1

section Totals

variable {l l' : Ledger} {r : Record}

theorem grown_refl (t : QueueTotals) : Grown t t :=
  ⟨Nat.le_succ _, Nat.le_succ _, Nat.le_succ _, Nat.le_succ _, Nat.le_succ _⟩

/-- The counters of a queue after some of them went up. -/
theorem of_addTotals {queue name : Bytes} {f : QueueTotals → QueueTotals} {t' : QueueTotals}
    (grows : ∀ t, Grown t (f t)) (found : (l.addTotals queue f).totals name = some t') :
    ∃ t, l.totals name = some t ∧ Grown t t' := by
  have found : Function.update l.totals queue ((l.totals queue).map f) name = some t' := found
  rw [Function.update_apply] at found
  split at found
  · rename_i same
    obtain ⟨t, known, rfl⟩ := Option.map_eq_some_iff.1 found
    exact ⟨t, same ▸ known, grows t⟩
  · exact ⟨t', found, grown_refl t'⟩

/-- What a failed attempt counts: the attempt, and the death if it was the last. -/
def charged (dead : Bool) (t : QueueTotals) : QueueTotals :=
  if dead then State.addDead (State.addFailed t) else State.addFailed t

theorem grown_charged {dead : Bool} (t : QueueTotals) : Grown t (charged dead t) := by
  unfold charged
  split
  · exact ⟨Nat.le_succ _, Nat.le_succ _, Nat.le_refl _, Nat.le_refl _, Nat.le_succ _⟩
  · exact ⟨Nat.le_succ _, Nat.le_succ _, Nat.le_refl _, Nat.le_succ _, Nat.le_succ _⟩

theorem failed_totals (r : AttemptFailed) (job : LedgerJob) :
    (l.failed r job).totals = (l.addTotals job.queue (charged r.dead)).totals := by
  unfold failed
  split
  · rename_i dies
    show Function.update (Function.update l.totals job.queue _) job.queue (Option.map _
      (Function.update l.totals job.queue _ job.queue)) = Function.update l.totals job.queue _
    rw [Function.update_self, Function.update_idem, Option.map_map]
    congr 2
    funext t
    rw [charged, if_pos dies]
    rfl
  · rename_i lives
    show Function.update l.totals job.queue _ = Function.update l.totals job.queue _
    congr 2
    funext t
    rw [charged, if_neg lives]

theorem Step.totals (step : Step l r l') {name : Bytes} {t' : QueueTotals}
    (found : l'.totals name = some t') :
    Grown ((l.totals name).getD {}) t' ∧
      ((l.totals name).isSome ∨ ∃ e, r = .jobEnqueued e ∧ e.queue = name ∧ name ≠ []) := by
  -- every transition but the first only counts on a queue that is there
  have counted : ∀ {t : QueueTotals}, l.totals name = some t → Grown t t' →
      Grown ((l.totals name).getD {}) t' ∧
        ((l.totals name).isSome ∨ ∃ e, r = .jobEnqueued e ∧ e.queue = name ∧ name ≠ []) := by
    intro t known grown
    rw [known]
    exact ⟨grown, Or.inl rfl⟩
  cases step with
  | @enqueued e next named budget =>
    have at_name : Function.update l.totals e.queue
      (some (State.addEnqueued ((l.totals e.queue).getD {}))) name = some t' := found
    rw [Function.update_apply] at at_name
    split at at_name
    · rename_i same
      subst same
      cases at_name
      refine ⟨⟨Nat.le_refl _, Nat.le_succ _, Nat.le_succ _, Nat.le_succ _, Nat.le_succ _⟩, ?_⟩
      exact Or.inr ⟨e, rfl, rfl, named⟩
    · exact counted at_name (grown_refl t')
  | leased _ _ _ _ => exact counted found (grown_refl t')
  | extended _ _ _ => exact counted found (grown_refl t')
  | succeeded _ _ _ =>
    obtain ⟨t, known, grown⟩ := of_addTotals (f := State.addSucceeded) (fun t =>
      ⟨Nat.le_succ _, Nat.le_refl _, Nat.le_succ _, Nat.le_succ _, Nat.le_succ _⟩) found
    exact counted known grown
  | failed _ _ _ =>
    rw [failed_totals] at found
    obtain ⟨t, known, grown⟩ := of_addTotals grown_charged found
    exact counted known grown
  | cancelled _ _ =>
    obtain ⟨t, known, grown⟩ := of_addTotals (f := State.addCancelled) (fun t =>
      ⟨Nat.le_succ _, Nat.le_succ _, Nat.le_succ _, Nat.le_succ _, Nat.le_refl _⟩) found
    exact counted known grown
  | retried _ _ => exact counted found (grown_refl t')
  | purged _ => exact counted found (grown_refl t')

/-- The keys after a record: only an enqueued job with a key changes them. -/
theorem Step.idem (step : Step l r l') :
    (l'.idem = l.idem ∧ ∀ e, r = .jobEnqueued e → e.idemKey = []) ∨
      ∃ e, r = .jobEnqueued e ∧ e.id = l.nextJobId ∧ e.idemKey ≠ [] ∧
        l'.idem = Function.update l.idem e.idemKey (some (e.id, e.idemExpiresAt)) := by
  cases step with
  | @enqueued e next named budget =>
    by_cases keyless : e.idemKey.isEmpty = true
    · refine Or.inl ⟨if_pos keyless, ?_⟩
      intro e' same
      cases same
      exact List.isEmpty_iff.1 keyless
    · exact Or.inr ⟨e, rfl, next, fun empty => keyless (List.isEmpty_iff.2 empty), if_neg keyless⟩
  | failed found leased token => exact Or.inl ⟨failed_idem _ _, fun e same => by cases same⟩
  | _ => exact Or.inl ⟨rfl, fun e same => by cases same⟩

end Totals

end Ledger

/-! ## Values in range -/

/-- The times of a record are ones that a decoder lets through. -/
def Record.Dated : Record → Prop
  | .jobEnqueued r => TimeInRange r.runAt
  | .jobLeased r => TimeInRange r.leaseExpiresAt
  | .leaseExtended r => TimeInRange r.leaseExpiresAt
  | .jobSucceeded r => TimeInRange r.at_
  | .attemptFailed r => TimeInRange r.at_ ∧ TimeInRange r.retryAt
  | .jobCancelled r => TimeInRange r.at_
  | .deadJobRetried r => TimeInRange r.runAt
  | .jobsPurged _ => True

structure LedgerJob.Dated (job : LedgerJob) : Prop where
  runAt : TimeInRange job.runAt
  finishedAt : TimeInRange job.finishedAt
  leaseExpiresAt : TimeInRange job.leaseExpiresAt

theorem Record.Wire.dated {r : Record} (wire : r.Wire) : r.Dated := by
  cases r with
  | jobEnqueued r => exact wire.2.2.2.1
  | jobLeased r | leaseExtended r => exact wire.2.2.1
  | jobSucceeded r => exact wire.2.2
  | attemptFailed r => exact wire.2.2.2
  | jobCancelled r => exact wire.2
  | deadJobRetried r => exact wire.2.1
  | jobsPurged r => trivial

/-- What an image can carry of a job. -/
structure LedgerJob.Wired (job : LedgerJob) : Prop extends job.Dated where
  payload : Word job.payload.length
  idemKey : Word job.idemKey.length
  lastError : Word job.lastError.length
  createdAt : TimeInRange job.createdAt

/-- No counter is above the bound. -/
structure QueueTotals.Within (n : Nat) (t : QueueTotals) : Prop where
  enqueued : t.enqueued ≤ n
  succeeded : t.succeeded ≤ n
  failedAttempts : t.failedAttempts ≤ n
  dead : t.dead ≤ n
  cancelled : t.cancelled ≤ n

namespace Ledger

/-- After at most `n` records that were decoded. -/
structure Wired (n : Nat) (l : Ledger) : Prop where
  ids : 0 < l.nextJobId
  idBound : l.nextJobId ≤ n + 1
  tokenBound : l.nextToken ≤ n + 1
  jobs : ∀ id job, l.jobs id = some job → job.Wired ∧ 0 < id ∧ id < l.nextJobId
  tokens : ∀ id job, l.jobs id = some job → job.leaseToken ≤ n
  totals : ∀ name t, l.totals name = some t → name ≠ [] ∧ Word name.length ∧ t.Within n
  idem : ∀ key id at_, l.idem key = some (id, at_) →
    key ≠ [] ∧ Word key.length ∧ id < l.nextJobId ∧ TimeInRange at_
  apart : ∀ key key' id at_ at', l.idem key = some (id, at_) → l.idem key' = some (id, at') → key = key'

theorem timeInRange_zero : TimeInRange 0 := by decide

section Wired

variable {l l' : Ledger} {r : Record} {n : Nat}

theorem wired_empty : Wired 0 {} := by
  refine ⟨Nat.one_pos, Nat.le_refl _, Nat.le_refl _, ?_, ?_, ?_, ?_, ?_⟩
  · intro id job found
    cases found
  · intro id job found
    cases found
  · intro name t found
    cases found
  · intro key id at_ found
    cases found
  · intro key key' id at_ at' found
    cases found

section

variable {job : LedgerJob} {j : Nat} (rewrite : Rewrite l r j job)

include rewrite

/-- What a record makes of a job. -/
theorem Rewrite.dated (dated : r.Dated)
    (old : ∀ id job, l.jobs id = some job → job.Dated) : job.Dated := by
  cases rewrite with
  | enqueued next => exact ⟨dated, timeInRange_zero, timeInRange_zero⟩
  | leased found _ _ _ => exact { old _ _ found with leaseExpiresAt := dated }
  | extended found _ _ => exact { old _ _ found with leaseExpiresAt := dated }
  | succeeded found _ _ => exact { old _ _ found with finishedAt := dated }
  | failed found _ _ =>
    have before := old _ _ found
    unfold LedgerJob.failed
    split
    · exact { before with finishedAt := dated.1 }
    · exact { before with runAt := dated.2 }
  | cancelled found _ => exact { old _ _ found with finishedAt := dated }
  | retried found _ => exact { old _ _ found with runAt := dated, finishedAt := timeInRange_zero }

theorem Rewrite.wired (wire : r.Wire)
    (old : ∀ id job, l.jobs id = some job → job.Wired) : job.Wired := by
  have dated := rewrite.dated wire.dated fun id job found => (old id job found).toDated
  cases rewrite with
  | enqueued next =>
    obtain ⟨-, -, payload, -, idemKey, -, at_⟩ := wire
    exact ⟨dated, payload, idemKey, Nat.two_pow_pos 64, at_⟩
  | leased found _ _ _ => exact { dated, old _ _ found with }
  | extended found _ _ => exact { dated, old _ _ found with }
  | succeeded found _ _ => exact { dated, old _ _ found with }
  | failed found _ _ =>
    have before := old _ _ found
    obtain ⟨-, -, error, -⟩ := wire
    unfold LedgerJob.failed at dated ⊢
    split_ifs at dated ⊢ <;> exact ⟨dated, before.payload, before.idemKey, error, before.createdAt⟩
  | cancelled found _ => exact { dated, old _ _ found with }
  | retried found _ => exact { dated, old _ _ found with }

/-- A record is about an id that is known after it. -/
theorem Rewrite.known (step : Step l r l')
    (ids : 0 < l.nextJobId) (old : ∀ id job, l.jobs id = some job → 0 < id ∧ id < l.nextJobId) :
    0 < j ∧ j < l'.nextJobId := by
  have more := step.nextJobId.1
  have of_old : ∀ {job : LedgerJob}, l.jobs j = some job → 0 < j ∧ j < l'.nextJobId := by
    intro job found
    have := old j job found
    omega
  cases rewrite with
  | enqueued next =>
    cases step with
    | enqueued _ _ _ =>
      show 0 < _ ∧ _ < _ + 1
      omega
  | leased found _ _ _ => exact of_old found
  | extended found _ _ => exact of_old found
  | succeeded found _ _ => exact of_old found
  | failed found _ _ => exact of_old found
  | cancelled found _ => exact of_old found
  | retried found _ => exact of_old found

/-- The token of a job after a record: none, the one it had, or the next one. -/
theorem Rewrite.leaseToken :
    job.leaseToken = 0 ∨ (∃ old, l.jobs j = some old ∧ job.leaseToken = old.leaseToken) ∨
      ∃ q, r = .jobLeased q ∧ q.id = j ∧ q.token = l.nextToken ∧ job.leaseToken = q.token := by
  cases rewrite with
  | enqueued next => exact Or.inl rfl
  | leased found pending token budget => exact Or.inr (Or.inr ⟨_, rfl, rfl, token, rfl⟩)
  | extended found leased token => exact Or.inr (Or.inl ⟨_, found, rfl⟩)
  | succeeded found leased token => exact Or.inr (Or.inl ⟨_, found, rfl⟩)
  | failed found leased token =>
    refine Or.inl ?_
    unfold LedgerJob.failed
    split <;> rfl
  | cancelled found active => exact Or.inl rfl
  | retried found dead => exact Or.inr (Or.inl ⟨_, found, rfl⟩)

end

theorem Wired.step (wired : Wired n l) (step : Step l r l') (wire : r.Wire) : Wired (n + 1) l' := by
  have ids := step.nextJobId
  have tokens := step.nextToken
  have idBound := wired.idBound
  have tokenBound := wired.tokenBound
  have positive := wired.ids
  refine ⟨by omega, by omega, by omega, ?_, ?_, ?_, ?_, ?_⟩
  · intro id job found
    rcases step.jobs found with old | rewrite
    · have before := wired.jobs id job old
      exact ⟨before.1, before.2.1, by omega⟩
    · refine ⟨rewrite.wired wire fun id job found => (wired.jobs id job found).1, ?_⟩
      exact rewrite.known step wired.ids fun id job found => (wired.jobs id job found).2
  · intro id job found
    rcases step.jobs found with old | rewrite
    · have := wired.tokens id job old
      omega
    · rcases rewrite.leaseToken with none_here | ⟨before, old, same⟩ | ⟨q, -, -, next, same⟩
      · omega
      · have := wired.tokens id before old
        omega
      · omega
  · intro name t found
    obtain ⟨grown, known⟩ := step.totals found
    have within : ((l.totals name).getD {}).Within n := by
      cases at_name : l.totals name with
      | none => exact ⟨Nat.zero_le _, Nat.zero_le _, Nat.zero_le _, Nat.zero_le _, Nat.zero_le _⟩
      | some t₀ => exact (wired.totals name t₀ at_name).2.2
    have named : name ≠ [] ∧ Word name.length := by
      rcases known with known | ⟨e, rfl, rfl, named⟩
      · obtain ⟨t₀, at_name⟩ := Option.isSome_iff_exists.1 known
        exact ⟨(wired.totals name t₀ at_name).1, (wired.totals name t₀ at_name).2.1⟩
      · exact ⟨named, wire.2.1⟩
    refine ⟨named.1, named.2, ?_⟩
    exact
      ⟨Nat.le_trans grown.enqueued (Nat.succ_le_succ within.enqueued),
        Nat.le_trans grown.succeeded (Nat.succ_le_succ within.succeeded),
        Nat.le_trans grown.failedAttempts (Nat.succ_le_succ within.failedAttempts),
        Nat.le_trans grown.dead (Nat.succ_le_succ within.dead),
        Nat.le_trans grown.cancelled (Nat.succ_le_succ within.cancelled)⟩
  · intro key id at_ found
    rcases step.idem with ⟨same, -⟩ | ⟨e, rfl, next, keyed, update⟩
    · rw [same] at found
      have before := wired.idem key id at_ found
      exact ⟨before.1, before.2.1, by omega, before.2.2.2⟩
    · rw [update, Function.update_apply] at found
      split at found
      · rename_i same
        cases found
        obtain ⟨-, -, -, -, short, time, -⟩ := wire
        refine ⟨same ▸ keyed, same ▸ short, ?_, time⟩
        cases step with
        | enqueued _ _ _ => exact Nat.lt_succ_self _
      · have before := wired.idem key id at_ found
        exact ⟨before.1, before.2.1, by omega, before.2.2.2⟩
  · intro key key' id at_ at' found found'
    rcases step.idem with ⟨same, -⟩ | ⟨e, rfl, next, keyed, update⟩
    · rw [same] at found found'
      exact wired.apart key key' id at_ at' found found'
    · -- the id of the new entry has been used for no other key
      rw [update, Function.update_apply] at found found'
      have fresh : ∀ k at', l.idem k = some (e.id, at') → False := by
        intro k at' old
        have := (wired.idem k e.id at' old).2.2.1
        omega
      split at found
      · rename_i at_key
        cases found
        split at found'
        · rename_i at_key'
          rw [at_key, at_key']
        · exact (fresh key' at' found').elim
      · split at found'
        · cases found'
          exact (fresh key at_ found).elim
        · exact wired.apart key key' id at_ at' found found'

theorem Wired.replay {rs : List Record} (wired : Wired n l) (wire : ∀ r ∈ rs, r.Wire)
    (replayed : l.replay rs = .ok l') : Wired (n + rs.length) l' :=
  replay_keeps (fun _ _ r _ mem step holds => holds.step step (wire r mem)) replayed wired

end Wired

end Ledger

/-- An accepted record is a step of the ledger. -/
theorem State.apply_step {s s' : State} {away : Nat → Prop} {r : Record} (inv : StateInv s away)
    (applied : s.apply r = .ok (some s')) : s.ledger.Step r s'.ledger :=
  Ledger.apply_iff_step.1 (apply_ledger inv applied)

end Baton
