/-
# State.Invariant — every record keeps the state in step

From what each record does (`State.Applied`): an accepted record keeps `StateInv`.
The record that ends a lease may be applied while other expired leases are still
away; every other record is applied when nobody is.
-/
import Baton.State.Applied

namespace Baton

open Theory

set_option autoImplicit false

namespace State

/-- No job is away. -/
def nobody (_ : Nat) : Prop := False

section Fits

variable {nextJobId nextToken id : Nat} {job : Job}

theorem untoken_of_fits (fits : JobFits nextJobId nextToken id job)
    (holds : job.state.holdsToken = false) : job.leaseToken = 0 := by
  have token := fits.token
  rw [holds] at token
  simpa using token.symm

theorem holdsToken_of_isPending {state : JobState} (pending : state.isPending = true) :
    state.holdsToken = false := by
  cases state <;> simp_all [JobState.isPending, JobState.holdsToken]

theorem holdsToken_pendingState (s : State) (job : Job) : (s.pendingState job).holdsToken = false := by
  unfold pendingState
  split <;> rfl

/-- A pending job holds no token. -/
theorem fits_pending (s : State) (known : id < nextJobId) (attempts : job.attempts ≤ job.maxAttempts)
    (untoken : job.leaseToken = 0) (tokens : 0 < nextToken) :
    JobFits nextJobId nextToken id (s.pendingJob job) where
  known := known
  attempts := attempts
  token := by
    show (s.pendingState job).holdsToken = decide (job.leaseToken ≠ 0)
    rw [holdsToken_pendingState, untoken]
    rfl
  issued := by
    show job.leaseToken < nextToken
    rw [untoken]
    exact tokens

theorem fits_finished {terminal : JobState} {at_ : Int} (fits : JobFits nextJobId nextToken id job)
    (tokens : 0 < nextToken) (is_terminal : terminal.isTerminal = true)
    (token : terminal = .kSucceeded → job.leaseToken ≠ 0) :
    JobFits nextJobId nextToken id (finishedJob job terminal at_) where
  __ := fits
  token := by
    show terminal.holdsToken = decide ((if terminal ≠ .kSucceeded then 0 else job.leaseToken) ≠ 0)
    by_cases succeeded : terminal = .kSucceeded
    · rw [if_neg (by simp [succeeded]), decide_eq_true (token succeeded), succeeded]
      rfl
    · rw [if_pos succeeded]
      cases terminal <;> simp_all [JobState.holdsToken, JobState.isTerminal]
  issued := by
    show (if terminal ≠ .kSucceeded then 0 else job.leaseToken) < nextToken
    split
    · exact tokens
    · exact fits.issued

theorem fits_leased {r : JobLeased} (fits : JobFits nextJobId nextToken id job)
    (tokens : 0 < nextToken) (token : r.token = nextToken) (budget : job.attempts < job.maxAttempts) :
    JobFits nextJobId (r.token + 1) id (leasedJob job r) := by
  -- the attempt count does not wrap around
  have bound := UInt32.toNat_lt job.maxAttempts
  have below := UInt32.lt_iff_toNat_lt.1 budget
  have next : (job.attempts + 1).toNat = job.attempts.toNat + 1 := by
    rw [UInt32.toNat_add, UInt32.toNat_one, Nat.mod_eq_of_lt (by omega)]
  refine ⟨fits.known, ?_, ?_, Nat.lt_succ_self _⟩
  · show job.attempts + 1 ≤ job.maxAttempts
    rw [UInt32.le_iff_toNat_le, next]
    omega
  · show JobState.kLeased.holdsToken = decide (r.token ≠ 0)
    rw [decide_eq_true (by omega)]
    rfl

end Fits

section Apply

variable {s s' : State} {away : Nat → Prop}

/-- The counters, the clocks, the garbage-collection queues and the notifications are
in no index. -/
theorem Shape.unindexed {ids tokens mono : Nat} {wall : Int} {finished dead : List FinishedRef}
    {notified : List Bytes} (shape : Shape s) :
    Shape { s with
      nextJobId := ids
      nextToken := tokens
      wallNow := wall
      monoNow := mono
      finishedGc := finished
      deadGc := dead
      readyNotifications := notified } :=
  { shape with }

theorem StateInv.unindexed {ids tokens mono : Nat} {wall : Int} {finished dead : List FinishedRef}
    {notified : List Bytes} (inv : StateInv s away) (more_ids : s.nextJobId ≤ ids)
    (more_tokens : s.nextToken ≤ tokens) :
    StateInv { s with
      nextJobId := ids
      nextToken := tokens
      wallNow := wall
      monoNow := mono
      finishedGc := finished
      deadGc := dead
      readyNotifications := notified } away :=
  inv.congr inv.shape.unindexed rfl rfl rfl rfl rfl more_ids more_tokens

theorem StateInv.withIdem {order : List IdemNode} {index : Table Bytes Nat} {next memory : Nat}
    (inv : StateInv s away) (shape : Shape (s.withIdem order index next memory)) :
    StateInv (s.withIdem order index next memory) away :=
  inv.congr shape rfl rfl rfl rfl rfl (Nat.le_refl _) (Nat.le_refl _)

theorem StateInv.upsertIdem (inv : StateInv s away) (key : Bytes) (jobId : Nat) (expiresAt : Int) :
    StateInv (s.upsertIdem key jobId expiresAt) away := by
  obtain ⟨shape, memory, eq⟩ := inv.shape.upsertIdem key jobId expiresAt
  rw [eq] at shape ⊢
  exact inv.withIdem shape

theorem Placed.unindexed {t : State} {id ids : Nat} {job : Job} (placed : Placed s t id job) :
    Placed { s with nextJobId := ids } { t with nextJobId := ids } id job :=
  { placed with shape := placed.shape.unindexed, kept := { placed.kept with nextJobId := rfl } }

theorem applyJobEnqueued_inv {r : JobEnqueued} (inv : StateInv s nobody)
    (applied : s.applyJobEnqueued r = .ok (some s')) : StateInv s' nobody := by
  obtain ⟨id_eq, -, attempts, t, placed, result⟩ := applyJobEnqueued_spec inv applied
  -- the id counter moves first, so that the new job fits
  have counted : StateInv { s.getOrCreateQueue r.queue with nextJobId := r.id + 1 } nobody := by
    have more : s.nextJobId ≤ r.id + 1 := by omega
    exact (inv.getOrCreateQueue r.queue).unindexed more (Nat.le_refl _)
  have fits : JobFits (r.id + 1) s.nextToken r.id (s.pendingJob (newJob s.platform r)) :=
    fits_pending s (Nat.lt_succ_self _) UInt32.zero_le rfl inv.tokens
  have inv' : StateInv { t with nextJobId := r.id + 1 } nobody :=
    (counted.placed placed.unindexed fits).weaken (by simp [nobody])
  rw [result]
  split
  · exact inv'.addTotals
  · obtain ⟨shape, memory, keyed⟩ := placed.shape.upsertIdem r.idemKey r.id r.idemExpiresAt
    rw [keyed] at shape ⊢
    exact (inv'.withIdem shape.unindexed).addTotals

theorem applyJobLeased_inv {r : JobLeased} (inv : StateInv s nobody)
    (applied : s.applyJobLeased r = .ok (some s')) : StateInv s' nobody := by
  obtain ⟨job, t, found, -, token, budget, placed, result⟩ := applyJobLeased_spec inv applied
  have fits := fits_leased (inv.fits r.id job found) inv.tokens token budget
  -- the token counter moves first, so that the new token is issued
  have counted : StateInv { s with nextToken := r.token + 1 } nobody :=
    inv.unindexed (Nat.le_refl _) (by omega)
  have moved : Placed { s with nextToken := r.token + 1 } { t with nextToken := r.token + 1 } r.id
      (leasedJob job r) :=
    { placed with shape := placed.shape.unindexed, kept := { placed.kept with nextToken := rfl } }
  rw [result]
  exact (counted.placed moved fits).weaken (by simp [nobody])

theorem applyLeaseExtended_inv {r : LeaseExtended} (inv : StateInv s nobody)
    (applied : s.applyLeaseExtended r = .ok (some s')) : StateInv s' nobody := by
  obtain ⟨job, found, -, -, placed⟩ := applyLeaseExtended_spec inv applied
  have old := inv.fits r.id job found
  have fits : JobFits s.nextJobId s.nextToken r.id { job with leaseExpiresAt := r.leaseExpiresAt } :=
    { old with }
  exact (inv.placed placed fits).weaken (by simp [nobody])

theorem applyJobSucceeded_inv {r : JobSucceeded} (inv : StateInv s nobody)
    (applied : s.applyJobSucceeded r = .ok (some s')) : StateInv s' nobody := by
  obtain ⟨job, t, found, leased, -, placed, result⟩ := applyJobSucceeded_spec inv applied
  have old := inv.fits r.id job found
  have held : job.leaseToken ≠ 0 := by
    have token := old.token
    rw [leased] at token
    exact of_decide_eq_true token.symm
  have inv' := inv.placed placed (fits_finished old inv.tokens rfl fun _ => held)
  rw [result]
  exact ((inv'.weaken (by simp [nobody])).unindexed (Nat.le_refl _) (Nat.le_refl _)).addTotals

/-- The record that ends a lease, while other leases may be away. -/
theorem applyAttemptFailed_inv {r : AttemptFailed} (inv : StateInv s away)
    (applied : s.applyAttemptFailed r = .ok (some s')) :
    StateInv s' fun j => away j ∧ j ≠ r.id := by
  obtain ⟨job, t, found, leased, -, outcome⟩ := applyAttemptFailed_spec inv applied
  have old := inv.fits r.id job found
  have charged : StateInv (s.addTotals job.queue addFailed) away := inv.addTotals
  split at outcome
  · obtain ⟨placed, result⟩ := outcome
    have failed : JobFits s.nextJobId s.nextToken r.id (failedJob s.platform job r) :=
      { old with }
    have inv' := charged.placed placed (fits_finished failed inv.tokens rfl (by simp))
    rw [result]
    exact (inv'.unindexed (Nat.le_refl _) (Nat.le_refl _)).addTotals
  · obtain ⟨placed, result⟩ := outcome
    rw [result]
    exact charged.placed placed (fits_pending s old.known old.attempts rfl inv.tokens)

theorem applyJobCancelled_inv {r : JobCancelled} (inv : StateInv s nobody)
    (applied : s.applyJobCancelled r = .ok (some s')) : StateInv s' nobody := by
  obtain ⟨job, t, found, -, placed, result⟩ := applyJobCancelled_spec inv applied
  have inv' := inv.placed placed (fits_finished (inv.fits r.id job found) inv.tokens rfl (by simp))
  rw [result]
  exact ((inv'.weaken (by simp [nobody])).unindexed (Nat.le_refl _) (Nat.le_refl _)).addTotals

theorem applyDeadJobRetried_inv {r : DeadJobRetried} (inv : StateInv s nobody)
    (applied : s.applyDeadJobRetried r = .ok (some s')) : StateInv s' nobody := by
  obtain ⟨job, found, dead, placed⟩ := applyDeadJobRetried_spec inv applied
  have old := inv.fits r.id job found
  have untoken : job.leaseToken = 0 := untoken_of_fits old (by rw [dead]; rfl)
  have fits : JobFits s.nextJobId s.nextToken r.id (s.pendingJob (retriedJob job r)) :=
    fits_pending s old.known UInt32.zero_le untoken inv.tokens
  exact (inv.placed placed fits).weaken (by simp [nobody])

/-- Erasing a job that is in step. -/
theorem StateInv.eraseJob {id : Nat} {job : Job} (inv : StateInv s away)
    (found : s.findJob id = some job) (erased : s.eraseJob id = some s') :
    StateInv s' away ∧ Removed s s' id := by
  have removed := inv.shape.removed_eraseJob found (inv.alive found) erased
  exact ⟨inv.removed removed, removed⟩

theorem purge_spec {ids : List Nat} (inv : StateInv s away) (purged : purge ids s = some s') :
    StateInv s' away ∧ Kept s s' ∧
      ∀ j, s'.findJob j = if j ∈ ids then none else s.findJob j := by
  induction ids generalizing s with
  | nil =>
    cases purged
    exact ⟨inv, Kept.refl _, by simp⟩
  | cons id ids ih =>
    unfold purge at purged
    split at purged
    · rename_i present
      obtain ⟨job, found⟩ := Option.isSome_iff_exists.1 present
      obtain ⟨t, erased, rest⟩ := Option.bind_eq_some_iff.1 purged
      obtain ⟨inv', removed⟩ := inv.eraseJob found erased
      obtain ⟨inv'', kept, jobs⟩ := ih inv' rest
      refine ⟨inv'', removed.kept.trans kept, ?_⟩
      intro j
      rw [jobs, removed.jobs, Function.update_apply]
      by_cases same : j = id <;> by_cases mem : j ∈ ids <;> simp [same, mem]
    · rename_i absent
      obtain ⟨inv', kept, jobs⟩ := ih inv purged
      refine ⟨inv', kept, ?_⟩
      intro j
      rw [jobs]
      by_cases same : j = id
      · have none_here : s.findJob id = none := by simpa using absent
        simp [same, none_here]
      · simp [same]

theorem checkPurge_ok {ids : List Nat} (checked : s.checkPurge ids = .ok ()) :
    ∀ id ∈ ids, ∃ job, s.findJob id = some job ∧ job.state.isTerminal = true := by
  induction ids with
  | nil => simp
  | cons id ids ih =>
    unfold checkPurge at checked
    split at checked
    · cases checked
    rename_i job found
    split at checked
    · cases checked
    rename_i terminal
    intro j mem
    rcases List.mem_cons.1 mem with rfl | rest
    · exact ⟨job, found, by simpa using terminal⟩
    · exact ih checked j rest

theorem applyJobsPurged_spec {r : JobsPurged} (inv : StateInv s away)
    (applied : s.applyJobsPurged r = .ok (some s')) :
    (∀ id ∈ r.ids, ∃ job, s.findJob id = some job ∧ job.state.isTerminal = true) ∧
      StateInv s' away ∧ Kept s s' ∧
      ∀ j, s'.findJob j = if j ∈ r.ids then none else s.findJob j := by
  unfold applyJobsPurged at applied
  split at applied
  · cases applied
  rename_i checked
  exact ⟨checkPurge_ok checked, purge_spec inv (Except.ok.inj applied)⟩

/-- Every accepted record keeps the invariant. -/
theorem apply_inv {r : Record} (inv : StateInv s nobody) (applied : s.apply r = .ok (some s')) :
    StateInv s' nobody := by
  cases r with
  | jobEnqueued r => exact applyJobEnqueued_inv inv applied
  | jobLeased r => exact applyJobLeased_inv inv applied
  | leaseExtended r => exact applyLeaseExtended_inv inv applied
  | jobSucceeded r => exact applyJobSucceeded_inv inv applied
  | attemptFailed r => exact (applyAttemptFailed_inv inv applied).weaken (by simp [nobody])
  | jobCancelled r => exact applyJobCancelled_inv inv applied
  | deadJobRetried r => exact applyDeadJobRetried_inv inv applied
  | jobsPurged r => exact (applyJobsPurged_spec inv applied).2.1

end Apply

/-- The heap of a queue has its ready jobs. -/
theorem mem_ready_iff {s : State} {name : Bytes} {l : List Nat} {id : Nat} (inv : StateInv s nobody)
    (ready : s.readyOf name = some l) :
    id ∈ l ↔ ∃ job, s.findJob id = some job ∧ job.queue = name ∧ job.state = .kReady := by
  constructor
  · intro mem
    have owner := inv.shape.heaps.owner name l id ready mem
    obtain ⟨job, found, in_queue⟩ := Option.map_eq_some_iff.1 owner
    obtain ⟨i, stored, -⟩ := (inv.shape.heaps.valid name l ready).mem_iff_index mem
    have heap := (inv.indexed id job found fun impossible => impossible).heap
    have inside : s.inHeap id = true := by
      unfold State.inHeap
      rw [show s.heapIndex id = some i from stored]
      rfl
    rw [inside] at heap
    exact ⟨job, found, in_queue, of_decide_eq_true heap.symm⟩
  · rintro ⟨job, found, in_queue, state⟩
    have heap := (inv.indexed id job found fun impossible => impossible).heap
    rw [state] at heap
    obtain ⟨i, stored⟩ := Option.isSome_iff_exists.1 (show (s.heapIndex id).isSome = true from heap)
    obtain ⟨name', l', queue', ready', at_i⟩ := inv.shape.heaps.stored id i stored
    rw [queueOf_of_lookup found, in_queue] at queue'
    cases queue'
    rw [ready] at ready'
    cases ready'
    exact List.mem_of_getElem? at_i

/-- A state that holds nothing is in step. -/
theorem inv_empty (options : StateOptions) (platform : Platform) (replaying : Bool) :
    StateInv { options, platform, replaying } nobody where
  shape :=
    { jobIds := by intro id job found; cases found
      jobQueues := by intro id job found; cases found
      queueNames := by intro name q found; cases found
      heaps :=
        { valid := by intro name l ready; cases ready
          short := by intro name l ready; cases ready
          owner := by intro name l id ready; cases ready
          stored := by intro id i stored; cases stored }
      timers :=
        { lists := TimingWheel.wheelInv_empty 0
          held := by intro id h armed; cases armed
          job := by intro id h armed; cases armed
          owner := by
            intro i t held
            have live : i ∈ TimingWheel.live { now := 0 } := by
              rw [TimingWheel.mem_live_iff_timer, held]
              rfl
            rw [TimingWheel.mem_live] at live
            exact absurd live.1 (Nat.not_lt_zero i) }
      deads := by intro name dead id at_name; cases at_name
      counts := by intro name c at_name; cases at_name
      memory := rfl
      idem :=
        { fresh := by intro n mem; cases mem
          nodup := List.nodup_nil
          indexed := by intro n mem; cases mem
          listed := by intro key node indexed; cases indexed } }
  tokens := Nat.one_pos
  fits := by intro id job found; cases found
  indexed := by intro id job found; cases found
  floating := by intro id job found; cases found

end State

end Baton
