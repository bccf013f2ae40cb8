/-
# State.Ledger — what the records say, without the machinery

The durable state as mathematics: jobs, queue totals and idempotency keys are
functions, and `Ledger.apply` is what one record does to them.  There are no
indexes, no clocks and no garbage collection here.

`State.ledger` forgets everything derived.  `apply_ledger` is the refinement: a state
in step takes a record exactly when its ledger does, and then the two agree.  In
replay mode, where every pending job is scheduled, even the refusals are the same.
-/
import Baton.State.Image
import Baton.State.Invariant
import Mathlib.Data.List.Find

namespace Baton

open Theory Function

set_option autoImplicit false

structure LedgerJob where
  queue : Bytes
  payload : Bytes
  priority : Int32
  attempts : UInt32
  maxAttempts : UInt32
  backoffBaseMs : UInt32
  backoffCapMs : UInt32
  state : PersistedState
  runAt : Int
  createdAt : Int
  finishedAt : Int
  leaseExpiresAt : Int
  leaseToken : Nat
  idemKey : Bytes
  lastError : Bytes
  deriving DecidableEq, Repr

def Job.ledger (job : Job) : LedgerJob where
  queue := job.queue
  payload := job.payload
  priority := job.priority
  attempts := job.attempts
  maxAttempts := job.maxAttempts
  backoffBaseMs := job.backoffBaseMs
  backoffCapMs := job.backoffCapMs
  state := toPersisted job.state
  runAt := job.runAt
  createdAt := job.createdAt
  finishedAt := job.finishedAt
  leaseExpiresAt := job.leaseExpiresAt
  leaseToken := job.leaseToken
  idemKey := job.idemKey.bytes
  lastError := job.lastError.bytes

namespace LedgerJob

/-- The state as replay shows it. -/
def shown (job : LedgerJob) : String := (fromPersisted job.state).toString

def isTerminal (job : LedgerJob) : Bool := (fromPersisted job.state).isTerminal

def enqueued (r : JobEnqueued) : LedgerJob where
  queue := r.queue
  payload := r.payload
  priority := r.priority
  attempts := 0
  maxAttempts := r.maxAttempts
  backoffBaseMs := r.backoffBaseMs
  backoffCapMs := r.backoffCapMs
  state := .kPending
  runAt := r.runAt
  createdAt := r.at_
  finishedAt := 0
  leaseExpiresAt := 0
  leaseToken := 0
  idemKey := r.idemKey
  lastError := []

def leased (job : LedgerJob) (r : JobLeased) : LedgerJob :=
  { job with
    state := .kLeased
    attempts := job.attempts + 1
    leaseToken := r.token
    leaseExpiresAt := r.leaseExpiresAt }

/-- A job that finished gives its token back unless it succeeded. -/
def finished (job : LedgerJob) (terminal : PersistedState) (at_ : Int) : LedgerJob :=
  { job with
    state := terminal
    finishedAt := at_
    leaseToken := if terminal ≠ .kSucceeded then 0 else job.leaseToken }

def failed (job : LedgerJob) (r : AttemptFailed) : LedgerJob :=
  if r.dead then { job with lastError := r.error }.finished .kDead r.at_
  else { job with lastError := r.error, leaseToken := 0, runAt := r.retryAt, state := .kPending }

def retried (job : LedgerJob) (r : DeadJobRetried) : LedgerJob :=
  { job with attempts := 0, finishedAt := 0, runAt := r.runAt, state := .kPending }

end LedgerJob

@[ext]
structure Ledger where
  jobs : Nat → Option LedgerJob := fun _ => none
  totals : Bytes → Option QueueTotals := fun _ => none
  nextJobId : Nat := 1
  nextToken : Nat := 1
  /-- the job and the expiry time of each key -/
  idem : Bytes → Option (Nat × Int) := fun _ => none

namespace Ledger

def setJob (l : Ledger) (id : Nat) (job : LedgerJob) : Ledger :=
  { l with jobs := update l.jobs id (some job) }

def addTotals (l : Ledger) (queue : Bytes) (f : QueueTotals → QueueTotals) : Ledger :=
  { l with totals := update l.totals queue ((l.totals queue).map f) }

def requireLeased (l : Ledger) (id token : Nat) (what : String) : Result LedgerJob :=
  match l.jobs id with
  | none => .error (mismatch s!"{what}: job {id} does not exist")
  | some job =>
    if job.state ≠ .kLeased ∨ job.leaseToken ≠ token then
      .error (mismatch (s!"{what}: job {id} is {job.shown} with token " ++
        s!"{job.leaseToken}, record has token {token}"))
    else .ok job

def checkPurge (l : Ledger) : List Nat → Result Unit
  | [] => .ok ()
  | id :: ids =>
    match l.jobs id with
    | none => .error (mismatch s!"purge: job {id} does not exist")
    | some job =>
      if !job.isTerminal then .error (mismatch s!"purge: job {id} is {job.shown}")
      else l.checkPurge ids

def apply (l : Ledger) : Record → Result Ledger
  | .jobEnqueued r =>
    if r.id ≠ l.nextJobId then
      .error (mismatch s!"enqueue: record has job id {r.id}, expected {l.nextJobId}")
    else if r.queue.isEmpty then .error (mismatch "enqueue: empty queue name")
    else if r.maxAttempts = 0 then .error (mismatch "enqueue: max_attempts is 0")
    else
      .ok { l with
        jobs := update l.jobs r.id (some (LedgerJob.enqueued r))
        totals := update l.totals r.queue
          (some (State.addEnqueued ((l.totals r.queue).getD {})))
        nextJobId := r.id + 1
        idem := if r.idemKey.isEmpty then l.idem
          else update l.idem r.idemKey (some (r.id, r.idemExpiresAt)) }
  | .jobLeased r =>
    match l.jobs r.id with
    | none => .error (mismatch s!"lease: job {r.id} does not exist")
    | some job =>
      if job.state ≠ .kPending then .error (mismatch s!"lease: job {r.id} is {job.shown}")
      else if r.token ≠ l.nextToken then
        .error (mismatch s!"lease: record has token {r.token}, expected {l.nextToken}")
      else if job.maxAttempts ≤ job.attempts then
        .error (mismatch s!"lease: job {r.id} has no attempts left")
      else .ok { l.setJob r.id (job.leased r) with nextToken := r.token + 1 }
  | .leaseExtended r =>
    match l.requireLeased r.id r.token "heartbeat" with
    | .error e => .error e
    | .ok job => .ok (l.setJob r.id { job with leaseExpiresAt := r.leaseExpiresAt })
  | .jobSucceeded r =>
    match l.requireLeased r.id r.token "ack" with
    | .error e => .error e
    | .ok job =>
      .ok ((l.setJob r.id (job.finished .kSucceeded r.at_)).addTotals job.queue State.addSucceeded)
  | .attemptFailed r =>
    match l.requireLeased r.id r.token "fail" with
    | .error e => .error e
    | .ok job =>
      let charged := (l.addTotals job.queue State.addFailed).setJob r.id (job.failed r)
      .ok (if r.dead then charged.addTotals job.queue State.addDead else charged)
  | .jobCancelled r =>
    match l.jobs r.id with
    | none => .error (mismatch s!"cancel: job {r.id} does not exist")
    | some job =>
      if job.isTerminal then .error (mismatch s!"cancel: job {r.id} is already {job.shown}")
      else
        .ok ((l.setJob r.id (job.finished .kCancelled r.at_)).addTotals job.queue
          State.addCancelled)
  | .deadJobRetried r =>
    match l.jobs r.id with
    | none => .error (mismatch s!"dlq retry: job {r.id} does not exist")
    | some job =>
      if job.state ≠ .kDead then .error (mismatch s!"dlq retry: job {r.id} is {job.shown}")
      else .ok (l.setJob r.id (job.retried r))
  | .jobsPurged r =>
    match l.checkPurge r.ids with
    | .error e => .error e
    | .ok () => .ok { l with jobs := fun id => if id ∈ r.ids then none else l.jobs id }

/-- The records one after the other. -/
def replay (l : Ledger) : List Record → Result Ledger
  | [] => .ok l
  | r :: rs =>
    match l.apply r with
    | .error e => .error e
    | .ok l => l.replay rs

theorem replay_append {l l' : Ledger} {rs ts : List Record} (first : l.replay rs = .ok l') :
    l.replay (rs ++ ts) = l'.replay ts := by
  induction rs generalizing l with
  | nil =>
    cases first
    rfl
  | cons r rs ih =>
    simp only [List.cons_append, replay] at first ⊢
    split at first
    · cases first
    · exact ih first

end Ledger

/-! ## The ledger of a state -/

theorem isTerminal_persisted (state : JobState) :
    (fromPersisted (toPersisted state)).isTerminal = state.isTerminal := by
  cases state <;> rfl

theorem isPending_persisted (state : JobState) :
    state.isPending = decide (toPersisted state = .kPending) := by
  cases state <;> rfl

variable {state : JobState}

theorem persisted_leased : toPersisted state = .kLeased ↔ state = .kLeased := by
  cases state <;> simp [toPersisted]

theorem persisted_dead : toPersisted state = .kDead ↔ state = .kDead := by
  cases state <;> simp [toPersisted]

theorem persisted_succeeded : toPersisted state = .kSucceeded ↔ state = .kSucceeded := by
  cases state <;> simp [toPersisted]

theorem fromPersisted_toPersisted (unready : state ≠ .kReady) :
    fromPersisted (toPersisted state) = state := by
  cases state <;> simp_all [fromPersisted, toPersisted]

namespace State

def ledger (s : State) : Ledger where
  jobs := fun id => (s.findJob id).map Job.ledger
  totals := s.totalsOf
  nextJobId := s.nextJobId
  nextToken := s.nextToken
  idem := fun key => (s.findIdem key).map fun entry => (entry.jobId, entry.expiresAt)

/-- No job is ready: so it is in replay, where the clock is not looked at. -/
def Unready (s : State) : Prop := ∀ id job, s.findJob id = some job → job.state ≠ .kReady

section Ledgers

variable {s s' t : State} {away : Nat → Prop} {id : Nat} {job : Job}

theorem Kept.findIdem (kept : Kept s s') : s'.findIdem = s.findIdem := by
  funext key
  unfold State.findIdem
  rw [kept.idemIndex, kept.idemOrder]

theorem ledger_ext (jobs : ∀ id, (s'.findJob id).map Job.ledger = (s.findJob id).map Job.ledger)
    (totals : s'.totalsOf = s.totalsOf) (ids : s'.nextJobId = s.nextJobId)
    (tokens : s'.nextToken = s.nextToken) (idem : s'.findIdem = s.findIdem) :
    s'.ledger = s.ledger := by
  unfold ledger
  rw [totals, ids, tokens, idem]
  congr 1
  funext id
  exact jobs id

theorem Placed.ledger (placed : Placed s t id job) : t.ledger = s.ledger.setJob id job.ledger := by
  have kept := placed.kept
  unfold State.ledger Ledger.setJob
  dsimp only
  rw [kept.totals, kept.nextJobId, kept.nextToken, kept.findIdem]
  congr 1
  funext id'
  rw [placed.jobs, update_apply, update_apply]
  split <;> rfl

theorem ledger_addTotals {name : Bytes} {f : QueueTotals → QueueTotals} :
    (s.addTotals name f).ledger = s.ledger.addTotals name f := by
  unfold State.ledger Ledger.addTotals
  have totals : (s.addTotals name f).totalsOf =
      update s.totalsOf name ((s.totalsOf name).map f) := by
    funext name'
    unfold totalsOf State.addTotals State.modifyQueue
    rw [Table.lookup_modify, update_apply]
    by_cases same : name' = name
    · subst same
      rw [if_pos rfl, if_pos rfl, Option.map_map, Option.map_map]
      rfl
    · rw [if_neg same, if_neg same]
  rw [totals]
  rfl

theorem ledger_getOrCreateQueue {name : Bytes} :
    (s.getOrCreateQueue name).ledger =
      { s.ledger with
        totals := update s.totalsOf name (some ((s.totalsOf name).getD {})) } := by
  have totals : (s.getOrCreateQueue name).totalsOf =
      update s.totalsOf name (some ((s.totalsOf name).getD {})) := by
    funext name'
    unfold totalsOf
    rw [lookup_getOrCreateQueue, update_apply]
    split
    · cases s.queues.lookup name <;> rfl
    · rfl
  unfold State.ledger
  rw [totals]
  rfl

/-- A key is found where the list has it. -/
theorem findIdem_eq (shape : Shape s) (key : Bytes) :
    s.findIdem key =
      (s.idemOrder.find? fun n => decide (n.entry.key.bytes = key)).map IdemNode.entry := by
  unfold State.findIdem
  cases indexed : s.idemIndex.lookup key with
  | none =>
    have absent : s.idemOrder.find? (fun n => decide (n.entry.key.bytes = key)) = none := by
      rw [List.find?_eq_none]
      intro n mem same
      have at_key := shape.idem.indexed n mem
      rw [of_decide_eq_true same, indexed] at at_key
      cases at_key
    rw [absent]
    rfl
  | some node =>
    have same : s.idemOrder.find? (fun n => decide (n.node = node)) =
        s.idemOrder.find? fun n => decide (n.entry.key.bytes = key) := by
      apply List.find?_congr
      intro n mem
      rw [decide_eq_decide]
      exact shape.idem.node_iff indexed mem
    dsimp only
    rw [same]

theorem findIdem_withIdem {order : List IdemNode} {index : Table Bytes Nat} {next memory : Nat}
    (shape : Shape (s.withIdem order index next memory)) (key : Bytes) :
    (s.withIdem order index next memory).findIdem key =
      (order.find? fun n => decide (n.entry.key.bytes = key)).map IdemNode.entry :=
  findIdem_eq shape key

theorem findIdem_upsertIdem (shape : Shape s) (key : Bytes) (jobId : Nat) (expiresAt : Int) :
    (s.upsertIdem key jobId expiresAt).findIdem =
      update s.findIdem key (some ⟨s.platform.string key, jobId, expiresAt⟩) := by
  obtain ⟨shape', memory, eq⟩ := shape.upsertIdem key jobId expiresAt
  funext key'
  rw [eq] at shape' ⊢
  rw [findIdem_withIdem shape', List.find?_append, update_apply]
  by_cases same : key' = key
  · subst same
    have dropped : (s.idemOrder.filter (·.entry.key.bytes ≠ key')).find?
        (fun n => decide (n.entry.key.bytes = key')) = none := by
      rw [List.find?_eq_none]
      intro n mem at_key
      simp_all
    rw [dropped, if_pos rfl]
    simp [Platform.string]
  · have kept : (s.idemOrder.filter (·.entry.key.bytes ≠ key)).find?
        (fun n => decide (n.entry.key.bytes = key')) =
          s.idemOrder.find? fun n => decide (n.entry.key.bytes = key') := by
      rw [List.find?_filter]
      apply List.find?_congr
      intro n _
      by_cases at_key : n.entry.key.bytes = key'
      · simp [at_key, same]
      · simp [at_key]
    rw [kept, if_neg same, findIdem_eq shape]
    simp [Platform.string, Ne.symm same]

theorem ledger_upsertIdem (shape : Shape s) (key : Bytes) (jobId : Nat) (expiresAt : Int) :
    (s.upsertIdem key jobId expiresAt).ledger =
      { s.ledger with idem := update s.ledger.idem key (some (jobId, expiresAt)) } := by
  have idem := findIdem_upsertIdem shape key jobId expiresAt
  obtain ⟨-, memory, eq⟩ := shape.upsertIdem key jobId expiresAt
  unfold State.ledger
  rw [idem]
  rw [eq]
  congr 1
  funext key'
  rw [update_apply, update_apply]
  split <;> rfl

theorem ledger_pendingJob (s : State) (job : Job) :
    (s.pendingJob job).ledger = { job.ledger with state := .kPending } := by
  have pending : toPersisted (s.pendingState job) = .kPending := by
    unfold pendingState
    split <;> rfl
  unfold pendingJob Job.ledger
  rw [pending]

theorem ledger_finishedJob (job : Job) (terminal : JobState) (at_ : Int) :
    (finishedJob job terminal at_).ledger = job.ledger.finished (toPersisted terminal) at_ := by
  have token : (toPersisted terminal = .kSucceeded) ↔ terminal = .kSucceeded := persisted_succeeded
  unfold finishedJob LedgerJob.finished Job.ledger
  by_cases succeeded : terminal = .kSucceeded
  · rw [if_neg (by simpa using succeeded), if_neg (by simpa using token.2 succeeded)]
  · rw [if_pos succeeded, if_pos fun same => succeeded (token.1 same)]

end Ledgers

/-! ## Refinement -/

section Refines

variable {s s' : State} {away : Nat → Prop}

theorem ledger_jobs {id : Nat} {job : Job} (found : s.findJob id = some job) :
    s.ledger.jobs id = some job.ledger := by
  show (s.findJob id).map Job.ledger = _
  rw [found]
  rfl

theorem ledger_missing {id : Nat} (missing : s.findJob id = none) : s.ledger.jobs id = none := by
  show (s.findJob id).map Job.ledger = _
  rw [missing]
  rfl

theorem ledger_requireLeased {id token : Nat} {job : Job} (what : String)
    (found : s.findJob id = some job) (leased : job.state = .kLeased) (same : job.leaseToken = token) :
    s.ledger.requireLeased id token what = .ok job.ledger := by
  unfold Ledger.requireLeased
  rw [ledger_jobs found]
  have state : job.ledger.state = .kLeased := persisted_leased.2 leased
  have held : job.ledger.leaseToken = token := same
  simp only [state, held, ne_eq, not_true_eq_false, or_self, if_false]

/-- An accepted record does to the ledger what it does to the state. -/
theorem apply_ledger {r : Record} (inv : StateInv s away) (applied : s.apply r = .ok (some s')) :
    s.ledger.apply r = .ok s'.ledger := by
  cases r with
  | jobEnqueued r =>
    obtain ⟨next, named, attempts, t, placed, result⟩ := applyJobEnqueued_spec inv applied
    have next' : ¬ r.id ≠ s.ledger.nextJobId := fun ne => ne next
    have named' : ¬ r.queue.isEmpty = true := by simpa using named
    unfold Ledger.apply
    dsimp only
    rw [if_neg next', if_neg named', if_neg attempts, result]
    have job : (s.pendingJob (newJob s.platform r)).ledger = LedgerJob.enqueued r := by
      rw [ledger_pendingJob]
      rfl
    have at_t : t.ledger = { s.ledger with
        jobs := update s.ledger.jobs r.id (some (LedgerJob.enqueued r))
        totals := update s.totalsOf r.queue (some ((s.totalsOf r.queue).getD {})) } := by
      rw [placed.ledger, job, ledger_getOrCreateQueue]
      rfl
    congr 1
    by_cases keyless : r.idemKey.isEmpty = true
    · rw [if_pos keyless, if_pos keyless]
      show _ = { (t.addTotals r.queue addEnqueued).ledger with nextJobId := r.id + 1 }
      rw [ledger_addTotals, at_t]
      simp only [Ledger.addTotals, update_self, Option.map_some, update_idem]
      rfl
    · rw [if_neg keyless, if_neg keyless]
      show _ = { ((t.upsertIdem r.idemKey r.id r.idemExpiresAt).addTotals r.queue
        addEnqueued).ledger with nextJobId := r.id + 1 }
      rw [ledger_addTotals, ledger_upsertIdem placed.shape, at_t]
      simp only [Ledger.addTotals, update_self, Option.map_some, update_idem]
      rfl
  | jobLeased r =>
    obtain ⟨job, t, found, pending, token, budget, placed, result⟩ := applyJobLeased_spec inv applied
    have pending' : job.ledger.state = .kPending := by
      rw [isPending_persisted] at pending
      exact of_decide_eq_true pending
    have token' : ¬ r.token ≠ s.ledger.nextToken := fun ne => ne token
    have budget' : ¬ job.ledger.maxAttempts ≤ job.ledger.attempts := UInt32.not_le.2 budget
    unfold Ledger.apply
    dsimp only
    rw [ledger_jobs found]
    dsimp only
    rw [if_neg fun ne => ne pending', if_neg token', if_neg budget', result]
    show _ = Except.ok { t.ledger with nextToken := r.token + 1 }
    rw [placed.ledger]
    rfl
  | leaseExtended r =>
    obtain ⟨job, found, leased, token, placed⟩ := applyLeaseExtended_spec inv applied
    unfold Ledger.apply
    dsimp only
    rw [ledger_requireLeased _ found leased token, placed.ledger]
    rfl
  | jobSucceeded r =>
    obtain ⟨job, t, found, leased, token, placed, result⟩ := applyJobSucceeded_spec inv applied
    unfold Ledger.apply
    dsimp only
    rw [ledger_requireLeased _ found leased token, result, ledger_addTotals]
    show _ = Except.ok (t.ledger.addTotals _ _)
    rw [placed.ledger, ledger_finishedJob]
    rfl
  | attemptFailed r =>
    obtain ⟨job, t, found, leased, token, outcome⟩ := applyAttemptFailed_spec inv applied
    unfold Ledger.apply
    dsimp only
    rw [ledger_requireLeased _ found leased token]
    dsimp only
    by_cases dies : r.dead = true
    · rw [if_pos dies] at outcome
      obtain ⟨placed, result⟩ := outcome
      rw [if_pos dies, result, ledger_addTotals]
      show _ = Except.ok (t.ledger.addTotals _ _)
      rw [placed.ledger, ledger_finishedJob, ledger_addTotals, LedgerJob.failed, if_pos dies]
      rfl
    · rw [if_neg dies] at outcome
      obtain ⟨placed, result⟩ := outcome
      rw [if_neg dies, result, placed.ledger, ledger_pendingJob, ledger_addTotals, LedgerJob.failed,
        if_neg dies]
      rfl
  | jobCancelled r =>
    obtain ⟨job, t, found, active, placed, result⟩ := applyJobCancelled_spec inv applied
    have active' : job.ledger.isTerminal = false := (isTerminal_persisted _).trans active
    unfold Ledger.apply
    dsimp only
    rw [ledger_jobs found]
    dsimp only
    rw [active', if_neg (by simp), result, ledger_addTotals]
    show _ = Except.ok (t.ledger.addTotals _ _)
    rw [placed.ledger, ledger_finishedJob]
    rfl
  | deadJobRetried r =>
    obtain ⟨job, found, dead, placed⟩ := applyDeadJobRetried_spec inv applied
    have dead' : job.ledger.state = .kDead := persisted_dead.2 dead
    unfold Ledger.apply
    dsimp only
    rw [ledger_jobs found]
    dsimp only
    rw [if_neg fun ne => ne dead', placed.ledger, ledger_pendingJob]
    rfl
  | jobsPurged r =>
    obtain ⟨terminal, -, kept, jobs⟩ := applyJobsPurged_spec inv applied
    have checked : ∀ ids : List Nat, (∀ id ∈ ids, id ∈ r.ids) → s.ledger.checkPurge ids = .ok () := by
      intro ids
      induction ids with
      | nil => intro _; rfl
      | cons id ids ih =>
        intro sub
        obtain ⟨job, found, done⟩ := terminal id (sub id List.mem_cons_self)
        have done' : job.ledger.isTerminal = true := (isTerminal_persisted _).trans done
        unfold Ledger.checkPurge
        rw [ledger_jobs found]
        simp only [done', Bool.not_true, Bool.false_eq_true, if_false]
        exact ih fun j mem => sub j (List.mem_cons_of_mem _ mem)
    unfold Ledger.apply
    dsimp only
    rw [checked r.ids fun _ mem => mem]
    dsimp only
    congr 1
    unfold State.ledger
    rw [kept.totals, kept.nextJobId, kept.nextToken, kept.findIdem]
    congr 1
    funext id
    rw [jobs id]
    split <;> rfl

/-- Where `x` refuses, so does `y`, and in replay for the same reason. -/
def Refuses {α β : Type} (s : State) (x : Result α) (y : Result β) : Prop :=
  ∀ e, x = .error e → ∃ e', y = .error e' ∧ (s.Unready → e' = e)

section Refuses

variable {α β : Type} {x : Result α} {y : Result β} {e e' : Error}

theorem Refuses.ok {a : α} : Refuses s (.ok a : Result α) y := nofun

theorem Refuses.error (same : s.Unready → e' = e) :
    Refuses s (.error e : Result α) (.error e' : Result β) := by
  rintro _ ⟨⟩
  exact ⟨e', rfl, same⟩

/-- A check that both make. -/
theorem Refuses.check {c c' : Prop} [Decidable c] [Decidable c'] (same : c ↔ c') (text : s.Unready → e' = e)
    (rest : Refuses s x y) : Refuses s (if c then .error e else x) (if c' then .error e' else y) := by
  by_cases fails : c
  · rw [if_pos fails, if_pos (same.1 fails)]
    exact .error text
  · rw [if_neg fails, if_neg fun fails' => fails (same.2 fails')]
    exact rest

/-- The job is looked up in both. -/
theorem Refuses.find {id : Nat} {f : Job → Result α} {g : LedgerJob → Result β}
    (each : ∀ job, s.findJob id = some job → Refuses s (f job) (g job.ledger)) :
    Refuses s (match s.findJob id with | none => .error e | some job => f job)
      (match s.ledger.jobs id with | none => .error e | some job => g job) := by
  cases found : s.findJob id with
  | none =>
    rw [ledger_missing found]
    exact .error fun _ => rfl
  | some job =>
    rw [ledger_jobs found]
    exact each job found

/-- What comes after a check that may refuse does not. -/
theorem Refuses.after {γ δ : Type} {x' : Result γ} {y' : Result δ} (first : Refuses s x y)
    (stops : ∀ e, y = .error e → y' = .error e) (goes : ∀ a, x = .ok a → ∃ b, x' = .ok b)
    (fails : ∀ e, x = .error e → x' = .error e) : Refuses s x' y' := by
  intro e refused
  cases taken : x with
  | ok a =>
    obtain ⟨b, accepted⟩ := goes a taken
    rw [accepted] at refused
    cases refused
  | error e₀ =>
    rw [fails e₀ taken] at refused
    cases refused
    obtain ⟨e', same, text⟩ := first e taken
    exact ⟨e', stops e' same, text⟩

/-- In replay the ledger shows the state of a job as it is. -/
theorem shown_ledger {id : Nat} {job : Job} (found : s.findJob id = some job) (unready : s.Unready) :
    job.state.toString = job.ledger.shown :=
  congrArg JobState.toString (fromPersisted_toPersisted (unready id job found)).symm

end Refuses

theorem requireLeased_refuses (s : State) (id token : Nat) (what : String) :
    Refuses s (s.requireLeased id token what) (s.ledger.requireLeased id token what) := by
  refine .find fun job found => .check (or_congr_left (not_congr persisted_leased.symm)) ?_ .ok
  intro unready
  rw [shown_ledger found unready]
  rfl

theorem checkPurge_refuses (s : State) (ids : List Nat) :
    Refuses s (s.checkPurge ids) (s.ledger.checkPurge ids) := by
  induction ids with
  | nil => exact .ok
  | cons id ids ih =>
    refine .find fun job found => .check ?_ (fun unready => by rw [shown_ledger found unready]) ih
    rw [show job.ledger.isTerminal = job.state.isTerminal from isTerminal_persisted _]

/-- A refused record is refused by the ledger, in replay for the same reason. -/
theorem apply_refuses (s : State) (r : Record) : Refuses s (s.apply r) (s.ledger.apply r) := by
  cases r with
  | jobEnqueued r =>
    exact .check Iff.rfl (fun _ => rfl) (.check Iff.rfl (fun _ => rfl) (.check Iff.rfl (fun _ => rfl) .ok))
  | jobLeased r =>
    refine .find fun job found => .check ?_ (fun unready => by rw [shown_ledger found unready])
      (.check Iff.rfl (fun _ => rfl) (.check Iff.rfl (fun _ => rfl) .ok))
    rw [isPending_persisted]
    simp [Job.ledger]
  | leaseExtended r =>
    refine (requireLeased_refuses s r.id r.token "heartbeat").after ?_ ?_ ?_ <;> intro a taken <;>
      simp [Ledger.apply, State.apply, applyLeaseExtended, taken]
  | jobSucceeded r =>
    refine (requireLeased_refuses s r.id r.token "ack").after ?_ ?_ ?_ <;> intro a taken <;>
      simp [Ledger.apply, State.apply, applyJobSucceeded, taken]
  | attemptFailed r =>
    refine (requireLeased_refuses s r.id r.token "fail").after ?_ ?_ ?_ <;> intro a taken
    · simp [Ledger.apply, taken]
    · by_cases dies : r.dead <;> simp [State.apply, applyAttemptFailed, taken, dies]
    · simp [State.apply, applyAttemptFailed, taken]
  | jobCancelled r =>
    refine .find fun job found => .check ?_ (fun unready => by rw [shown_ledger found unready]) .ok
    rw [show job.ledger.isTerminal = job.state.isTerminal from isTerminal_persisted _]
  | deadJobRetried r =>
    exact .find fun job found => .check (not_congr persisted_dead.symm)
      (fun unready => by rw [shown_ledger found unready]) .ok
  | jobsPurged r =>
    refine (checkPurge_refuses s r.ids).after ?_ ?_ ?_ <;> intro a taken <;>
      simp [Ledger.apply, State.apply, applyJobsPurged, taken]

end Refines

end State

end Baton
