/-
# State.Applied — what each record does

`StateInv s away` is the invariant of the state: the indexes are in step with the
tables (`Shape`), the fields of every job fit together (`JobFits`), and every job is
in exactly the index its state implies, except those that are `away`.  A lease that
ran out is away between the moment its timer fires and the record that ends it.

For each record there is one theorem that says what an accepted `apply` checked and
where the job went.  Everything else about `apply` is read off these.
-/
import Baton.State.ShapeTable

namespace Baton

open Theory Function

set_option autoImplicit false

/-- The fields of a job fit together and its numbers have been issued. -/
structure JobFits (nextJobId nextToken id : Nat) (job : Job) : Prop where
  known : id < nextJobId
  attempts : job.attempts ≤ job.maxAttempts
  token : job.state.holdsToken = decide (job.leaseToken ≠ 0)
  issued : job.leaseToken < nextToken

theorem JobFits.mono {nextJobId nextToken nextJobId' nextToken' id : Nat} {job : Job}
    (fits : JobFits nextJobId nextToken id job) (ids : nextJobId ≤ nextJobId')
    (tokens : nextToken ≤ nextToken') : JobFits nextJobId' nextToken' id job :=
  ⟨Nat.lt_of_lt_of_le fits.known ids, fits.attempts, fits.token,
    Nat.lt_of_lt_of_le fits.issued tokens⟩

namespace State

/-- The job is in exactly the index its state implies. -/
structure Indexed (s : State) (id : Nat) (job : Job) : Prop where
  heap : s.inHeap id = decide (job.state = .kReady)
  timer : s.kindOf id = expectedKind s.replaying job.state
  dead : s.inDead id = decide (job.state = .kDead)

/-- The job is in no index. -/
structure Floating (s : State) (id : Nat) : Prop where
  heap : s.inHeap id = false
  timer : s.kindOf id = none
  dead : s.inDead id = false

structure StateInv (s : State) (away : Nat → Prop) : Prop where
  shape : Shape s
  tokens : 0 < s.nextToken
  fits : ∀ id job, s.findJob id = some job → JobFits s.nextJobId s.nextToken id job
  indexed : ∀ id job, s.findJob id = some job → ¬ away id → Indexed s id job
  floating : ∀ id job, s.findJob id = some job → away id → Floating s id

section Inv

variable {s s' t : State} {away : Nat → Prop} {id : Nat} {job : Job}

/-- A change that no job and no index sees. -/
theorem StateInv.congr (inv : StateInv s away) (shape : Shape s') (jobs : s'.findJob = s.findJob)
    (heaps : s'.inHeap = s.inHeap) (kinds : s'.kindOf = s.kindOf) (deads : s'.inDead = s.inDead)
    (replaying : s'.replaying = s.replaying) (ids : s.nextJobId ≤ s'.nextJobId)
    (tokens : s.nextToken ≤ s'.nextToken) : StateInv s' away where
  shape := shape
  tokens := Nat.lt_of_lt_of_le inv.tokens tokens
  fits := by
    intro id job found
    rw [jobs] at found
    exact (inv.fits id job found).mono ids tokens
  indexed := by
    intro id job found here
    rw [jobs] at found
    have old := inv.indexed id job found here
    exact ⟨by rw [heaps, old.heap], by rw [kinds, replaying, old.timer], by rw [deads, old.dead]⟩
  floating := by
    intro id job found gone
    rw [jobs] at found
    have old := inv.floating id job found gone
    exact ⟨by rw [heaps, old.heap], by rw [kinds, old.timer], by rw [deads, old.dead]⟩

section

variable (inv : StateInv s away)

include inv

theorem StateInv.fresh (unissued : s.nextJobId ≤ id) : s.jobs.lookup id = none := by
  cases found : s.jobs.lookup id with
  | none => rfl
  | some job =>
    have known := (inv.fits id job found).known
    omega

/-- A job that is not dead is in no dead-letter set. -/
theorem StateInv.alive (found : s.findJob id = some job)
    (lives : job.state ≠ .kDead) : s.inDead id = false := by
  by_cases gone : away id
  · exact (inv.floating id job found gone).dead
  · rw [(inv.indexed id job found gone).dead, decide_eq_false lives]

/-- A terminal job holds no timer and is in no heap. -/
theorem StateInv.unarmed (found : s.findJob id = some job)
    (terminal : job.state.isTerminal = true) : s.inHeap id = false ∧ s.kindOf id = none := by
  by_cases gone : away id
  · exact ⟨(inv.floating id job found gone).heap, (inv.floating id job found gone).timer⟩
  · have indexed := inv.indexed id job found gone
    rw [indexed.heap, indexed.timer]
    unfold expectedKind
    cases state : job.state <;> simp_all [JobState.isTerminal]

/-- The one job that moved fits and is where it belongs. -/
theorem StateInv.placed (placed : Placed s t id job)
    (fits : JobFits s.nextJobId s.nextToken id job) :
    StateInv t fun j => away j ∧ j ≠ id where
  shape := placed.shape
  tokens := placed.kept.nextToken ▸ inv.tokens
  fits := by
    intro j job' found
    rw [placed.kept.nextJobId, placed.kept.nextToken]
    rw [placed.jobs, update_apply] at found
    split at found
    · rename_i same
      cases found
      exact same ▸ fits
    · exact inv.fits j job' found
  indexed := by
    intro j job' found here
    rw [placed.jobs, update_apply] at found
    split at found
    · rename_i same
      cases found
      subst same
      exact ⟨placed.heap_at, by rw [placed.kind_at, placed.kept.replaying], placed.dead_at⟩
    · rename_i ne
      have old := inv.indexed j job' found fun gone => here ⟨gone, ne⟩
      refine ⟨?_, ?_, ?_⟩
      · rw [placed.heaps, update_of_ne ne, old.heap]
      · rw [placed.kinds, update_of_ne ne, old.timer, placed.kept.replaying]
      · rw [placed.deads, update_of_ne ne, old.dead]
  floating := by
    intro j job' found gone
    obtain ⟨gone, ne⟩ := gone
    rw [placed.jobs, update_of_ne ne] at found
    have old := inv.floating j job' found gone
    refine ⟨?_, ?_, ?_⟩
    · rw [placed.heaps, update_of_ne ne, old.heap]
    · rw [placed.kinds, update_of_ne ne, old.timer]
    · rw [placed.deads, update_of_ne ne, old.dead]

theorem StateInv.removed (removed : Removed s t id) : StateInv t away where
  shape := removed.shape
  tokens := removed.kept.nextToken ▸ inv.tokens
  fits := by
    intro j job' found
    rw [removed.kept.nextJobId, removed.kept.nextToken]
    rw [removed.jobs, update_apply] at found
    split at found
    · cases found
    · exact inv.fits j job' found
  indexed := by
    intro j job' found here
    rw [removed.jobs, update_apply] at found
    split at found
    · cases found
    · rename_i ne
      have old := inv.indexed j job' found here
      refine ⟨?_, ?_, ?_⟩
      · rw [removed.heaps, update_of_ne ne, old.heap]
      · rw [removed.kinds, update_of_ne ne, old.timer, removed.kept.replaying]
      · rw [removed.deads, update_of_ne ne, old.dead]
  floating := by
    intro j job' found gone
    rw [removed.jobs, update_apply] at found
    split at found
    · cases found
    · rename_i ne
      have old := inv.floating j job' found gone
      refine ⟨?_, ?_, ?_⟩
      · rw [removed.heaps, update_of_ne ne, old.heap]
      · rw [removed.kinds, update_of_ne ne, old.timer]
      · rw [removed.deads, update_of_ne ne, old.dead]

/-- Fewer jobs are away than it seems. -/
theorem StateInv.weaken {away' : Nat → Prop}
    (fewer : ∀ id, away id ↔ away' id) : StateInv s away' := by
  have same : away = away' := funext fun id => propext (fewer id)
  exact same ▸ inv

end

theorem inDead_addTotals {name : Bytes} {f : QueueTotals → QueueTotals} :
    (s.addTotals name f).inDead = s.inDead := by
  unfold State.inDead
  have dead : (s.addTotals name f).deadOf = s.deadOf := deadOf_modifyQueue fun _ => rfl
  rw [dead]
  rfl

theorem StateInv.addTotals {name : Bytes} {f : QueueTotals → QueueTotals} (inv : StateInv s away) :
    StateInv (s.addTotals name f) away :=
  inv.congr (inv.shape.addTotals f) rfl rfl rfl inDead_addTotals rfl (Nat.le_refl _) (Nat.le_refl _)

theorem StateInv.getOrCreateQueue (inv : StateInv s away) (name : Bytes) :
    StateInv (s.getOrCreateQueue name) away := by
  obtain ⟨shape, deads⟩ := inv.shape.getOrCreateQueue name
  exact inv.congr shape rfl rfl rfl deads rfl (Nat.le_refl _) (Nat.le_refl _)

end Inv

/-! ## The records -/

def addEnqueued (t : QueueTotals) : QueueTotals := { t with enqueued := t.enqueued + 1 }
def addSucceeded (t : QueueTotals) : QueueTotals := { t with succeeded := t.succeeded + 1 }
def addFailed (t : QueueTotals) : QueueTotals := { t with failedAttempts := t.failedAttempts + 1 }
def addDead (t : QueueTotals) : QueueTotals := { t with dead := t.dead + 1 }
def addCancelled (t : QueueTotals) : QueueTotals := { t with cancelled := t.cancelled + 1 }

def leasedJob (job : Job) (r : JobLeased) : Job :=
  { job with
    state := .kLeased
    attempts := job.attempts + 1
    leaseToken := r.token
    leaseExpiresAt := r.leaseExpiresAt }

/-- A job whose attempt failed, with the error text it leaves. -/
def failedJob (platform : Platform) (job : Job) (r : AttemptFailed) : Job :=
  { job with lastError := platform.assign job.lastError r.error }

def retriedJob (job : Job) (r : DeadJobRetried) : Job :=
  { job with attempts := 0, finishedAt := 0, runAt := r.runAt }

/-- The job as a pending one. -/
def pendingJob (s : State) (job : Job) : Job := { job with state := s.pendingState job }

section Records

variable {s s' : State} {away : Nat → Prop}

theorem applyJobEnqueued_spec {r : JobEnqueued} (inv : StateInv s away)
    (applied : s.applyJobEnqueued r = .ok (some s')) :
    r.id = s.nextJobId ∧ r.queue ≠ [] ∧ r.maxAttempts ≠ 0 ∧
      ∃ t, Placed (s.getOrCreateQueue r.queue) t r.id (s.pendingJob (newJob s.platform r)) ∧
        s' = { (if r.idemKey.isEmpty then t else t.upsertIdem r.idemKey r.id r.idemExpiresAt).addTotals
          r.queue addEnqueued with nextJobId := r.id + 1 } := by
  unfold applyJobEnqueued at applied
  split at applied
  · cases applied
  rename_i next
  split at applied
  · cases applied
  rename_i named
  split at applied
  · cases applied
  rename_i attempts
  have id_eq : r.id = s.nextJobId := by simpa using next
  have fresh := inv.fresh (Nat.le_of_eq id_eq.symm)
  obtain ⟨t, entered, result⟩ := Option.map_eq_some_iff.1 (Except.ok.inj applied)
  have moved := inv.shape.moved_enqueueJob fresh
  exact ⟨id_eq, by simpa using named, attempts, t, moved.placed_pending entered, result.symm⟩

theorem applyJobLeased_spec {r : JobLeased} (inv : StateInv s away)
    (applied : s.applyJobLeased r = .ok (some s')) :
    ∃ job t, s.findJob r.id = some job ∧ job.state.isPending = true ∧ r.token = s.nextToken ∧
      job.attempts < job.maxAttempts ∧ Placed s t r.id (leasedJob job r) ∧
      s' = { t with nextToken := r.token + 1 } := by
  unfold applyJobLeased at applied
  split at applied
  · cases applied
  rename_i job found
  split at applied
  · cases applied
  rename_i pending
  split at applied
  · cases applied
  rename_i token
  split at applied
  · cases applied
  rename_i budget
  have pending' : job.state.isPending = true := by simpa using pending
  have lives : job.state ≠ .kDead := by
    intro dead
    simp [dead, JobState.isPending] at pending'
  obtain ⟨left, leave, rest⟩ := Option.bind_eq_some_iff.1 (Except.ok.inj applied)
  obtain ⟨t, scheduled, result⟩ := Option.bind_eq_some_iff.1 rest
  have moved := ((inv.shape.moved_leaveIndexes found leave).then_setState .kLeased).then_modify
    (f := fun job =>
      { job with
        attempts := job.attempts + 1
        leaseToken := r.token
        leaseExpiresAt := r.leaseExpiresAt })
    rfl rfl (Or.inl rfl) rfl rfl
  rw [inv.alive found lives] at moved
  have whole := moved.placed_leased rfl scheduled
  refine ⟨job, t, found, pending', by simpa using token, ?_, whole, (Option.some.inj result).symm⟩
  exact UInt32.not_le.1 budget

theorem requireLeased_ok {id token : Nat} {what : String} {job : Job}
    (found : s.requireLeased id token what = .ok job) :
    s.findJob id = some job ∧ job.state = .kLeased ∧ job.leaseToken = token := by
  unfold requireLeased at found
  split at found
  · cases found
  rename_i job' found'
  split at found
  · cases found
  rename_i matched
  cases found
  rw [not_or, not_not, not_not] at matched
  exact ⟨found', matched.1, matched.2⟩

theorem applyLeaseExtended_spec {r : LeaseExtended} (inv : StateInv s away)
    (applied : s.applyLeaseExtended r = .ok (some s')) :
    ∃ job, s.findJob r.id = some job ∧ job.state = .kLeased ∧ job.leaseToken = r.token ∧
      Placed s s' r.id { job with leaseExpiresAt := r.leaseExpiresAt } := by
  unfold applyLeaseExtended at applied
  split at applied
  · cases applied
  rename_i job required
  obtain ⟨found, leased, token⟩ := requireLeased_ok required
  obtain ⟨left, leave, scheduled⟩ := Option.bind_eq_some_iff.1 (Except.ok.inj applied)
  have moved := (inv.shape.moved_leaveIndexes found leave).then_modify
    (f := fun job => { job with leaseExpiresAt := r.leaseExpiresAt }) rfl rfl (Or.inl rfl) rfl rfl
  rw [inv.alive found (by simp [leased])] at moved
  exact ⟨job, found, leased, token, moved.placed_leased leased scheduled⟩

theorem applyJobSucceeded_spec {r : JobSucceeded} (inv : StateInv s away)
    (applied : s.applyJobSucceeded r = .ok (some s')) :
    ∃ job t, s.findJob r.id = some job ∧ job.state = .kLeased ∧ job.leaseToken = r.token ∧
      Placed s t r.id (finishedJob job .kSucceeded r.at_) ∧
      s' = addTotals { t with finishedGc := t.finishedGc ++ [⟨r.id, r.at_⟩] } job.queue addSucceeded := by
  unfold applyJobSucceeded at applied
  split at applied
  · cases applied
  rename_i job required
  obtain ⟨found, leased, token⟩ := requireLeased_ok required
  obtain ⟨done, finished, result⟩ := Option.map_eq_some_iff.1 (Except.ok.inj applied)
  obtain ⟨t, placed, done_eq⟩ := inv.shape.placed_finish found rfl
    (inv.alive found (by simp [leased])) finished
  exact ⟨job, t, found, leased, token, placed, by rw [← result, done_eq]; rfl⟩

theorem setLastError_addTotals {id : Nat} {error name : Bytes} {f : QueueTotals → QueueTotals} :
    (s.setLastError id error).addTotals name f = (s.addTotals name f).setLastError id error := by
  unfold setLastError
  have same : (s.addTotals name f).findJob id = s.findJob id := rfl
  rw [same]
  cases s.findJob id <;> rfl

theorem applyAttemptFailed_spec {r : AttemptFailed} (inv : StateInv s away)
    (applied : s.applyAttemptFailed r = .ok (some s')) :
    ∃ job t, s.findJob r.id = some job ∧ job.state = .kLeased ∧ job.leaseToken = r.token ∧
      if r.dead then
        Placed (s.addTotals job.queue addFailed) t r.id
          (finishedJob (failedJob s.platform job r) .kDead r.at_) ∧
        s' = addTotals { t with deadGc := t.deadGc ++ [⟨r.id, r.at_⟩] } job.queue addDead
      else
        Placed (s.addTotals job.queue addFailed) t r.id
          (s.pendingJob { failedJob s.platform job r with leaseToken := 0, runAt := r.retryAt }) ∧
        s' = t := by
  unfold applyAttemptFailed at applied
  split at applied
  · cases applied
  rename_i job required
  obtain ⟨found, leased, token⟩ := requireLeased_ok required
  -- the totals are charged first
  have swapped := @setLastError_addTotals s r.id r.error job.queue addFailed
  have inv' : StateInv (s.addTotals job.queue addFailed) away := inv.addTotals
  have found' : (s.addTotals job.queue addFailed).findJob r.id = some job := found
  have alive := inv'.alive found' (by simp [leased])
  have one := inv'.shape.moved_setLastError found' r.error
  rw [alive] at one
  split at applied
  · rename_i dies
    obtain ⟨done, finished, result⟩ := Option.map_eq_some_iff.1 (Except.ok.inj applied)
    have finished' : ((s.addTotals job.queue addFailed).setLastError r.id r.error).finish r.id .kDead r.at_
        = some done := swapped ▸ finished
    obtain ⟨t, placed, done_eq⟩ := one.shape.placed_finish one.found rfl one.dead_at finished'
    have whole := one.trans placed
    rw [one.kept.replaying] at whole
    refine ⟨job, t, found, leased, token, ?_⟩
    rw [if_pos dies]
    exact ⟨whole, by rw [← result, done_eq]; rfl⟩
  · rename_i lives
    have retried := Except.ok.inj applied
    have retried' : (((s.addTotals job.queue addFailed).setLastError r.id r.error).leaveIndexes r.id).bind
        (fun s => (s.modifyJob r.id fun job =>
          { job with leaseToken := 0, runAt := r.retryAt }).enterPending r.id) = some s' :=
      swapped ▸ retried
    obtain ⟨left, leave, entered⟩ := Option.bind_eq_some_iff.1 retried'
    have moved := (one.then_leave leave).then_modify
      (f := fun job => { job with leaseToken := 0, runAt := r.retryAt }) rfl rfl (Or.inl rfl) rfl rfl
    refine ⟨job, s', found, leased, token, ?_⟩
    rw [if_neg lives]
    exact ⟨moved.placed_pending entered, rfl⟩

theorem applyJobCancelled_spec {r : JobCancelled} (inv : StateInv s away)
    (applied : s.applyJobCancelled r = .ok (some s')) :
    ∃ job t, s.findJob r.id = some job ∧ job.state.isTerminal = false ∧
      Placed s t r.id (finishedJob job .kCancelled r.at_) ∧
      s' = addTotals { t with finishedGc := t.finishedGc ++ [⟨r.id, r.at_⟩] } job.queue addCancelled := by
  unfold applyJobCancelled at applied
  split at applied
  · cases applied
  rename_i job found
  split at applied
  · cases applied
  rename_i active
  have active' : job.state.isTerminal = false := by simpa using active
  have lives : job.state ≠ .kDead := by
    intro dead
    simp [dead, JobState.isTerminal] at active'
  obtain ⟨done, finished, result⟩ := Option.map_eq_some_iff.1 (Except.ok.inj applied)
  obtain ⟨t, placed, done_eq⟩ := inv.shape.placed_finish found rfl (inv.alive found lives) finished
  exact ⟨job, t, found, active', placed, by rw [← result, done_eq]; rfl⟩

theorem applyDeadJobRetried_spec {r : DeadJobRetried} (inv : StateInv s away)
    (applied : s.applyDeadJobRetried r = .ok (some s')) :
    ∃ job, s.findJob r.id = some job ∧ job.state = .kDead ∧
      Placed s s' r.id (s.pendingJob (retriedJob job r)) := by
  unfold applyDeadJobRetried at applied
  split at applied
  · cases applied
  rename_i job found
  split at applied
  · cases applied
  rename_i dead
  have dead' : job.state = .kDead := by simpa using dead
  have entered := Except.ok.inj applied
  obtain ⟨out, unarmed⟩ := inv.unarmed found (by simp [dead', JobState.isTerminal])
  have moved := (inv.shape.moved_eraseDead found).then_modify
    (f := fun job => { job with attempts := 0, finishedAt := 0, runAt := r.runAt })
    rfl rfl (Or.inl out) rfl rfl
  rw [out, unarmed] at moved
  exact ⟨job, found, dead', moved.placed_pending entered⟩

end Records

end State

end Baton
