/-
# Check.LeaseModel — the independent lease checker

`check/lease_model.{h,cpp}`.  The checker is fed the records of a log in order and
knows almost nothing: the current lease of each job, the largest token seen and the
next job id.  It counts every place where a record is against the rules, and keeps the
text of the first fifty.

`Tracks m l` says that the checker and a ledger agree.  One record that the engine vouches
for keeps them in agreement (`Tracks.on`), so a whole history does (`Tracks.feed`); and a
checker started from an image agrees with the state the image is of, whatever that state
had collected.  `leaseModel_agrees` says it of every run.
-/
import Baton.Run.Totality

namespace Baton

open Theory
open Function (update update_apply)

set_option autoImplicit false

structure LeaseModel.Lease where
  token : Nat := 0
  expiresAt : Int := 0
  deriving DecidableEq, Repr

structure LeaseModel.Counters where
  enqueued : Nat := 0
  leasesGranted : Nat := 0
  heartbeats : Nat := 0
  acks : Nat := 0
  workerFailures : Nat := 0
  leaseExpiries : Nat := 0
  cancellations : Nat := 0
  deriving DecidableEq, Repr

structure LeaseModel where
  lsn : Nat := 0
  nextJobId : Nat := 1
  maxToken : Nat := 0
  leases : Table Nat LeaseModel.Lease := ∅
  violations : List String := []
  violationCount : Nat := 0
  counters : LeaseModel.Counters := {}

namespace LeaseModel

def kMaxReported : Nat := 50

def openLeases (m : LeaseModel) : Nat := m.leases.entries.length

/-- The leased jobs of an image. -/
def imageLeases : List JobImage → Table Nat Lease → Table Nat Lease
  | [], leases => leases
  | job :: jobs, leases =>
    imageLeases jobs
      (if job.state = .kLeased then leases.insert job.id ⟨job.leaseToken, job.leaseExpiresAt⟩
      else leases)

def startFrom (m : LeaseModel) (image : StateImage) : LeaseModel :=
  { m with
    nextJobId := image.nextJobId
    maxToken := image.nextToken - 1
    leases := imageLeases image.jobs ∅ }

def violation (m : LeaseModel) (what : String) : LeaseModel :=
  { m with
    violationCount := m.violationCount + 1
    violations :=
      if m.violations.length < kMaxReported then m.violations ++ [s!"LSN {m.lsn}: {what}"]
      else m.violations }

/-- The lease that a record with this token must refer to; a violation if it refers
to anything else. -/
def current (m : LeaseModel) (id token : Nat) (what : String) : Option Lease × LeaseModel :=
  match m.leases.lookup id with
  | none =>
    (none, m.violation (s!"{what} for job {id} with token {token}, but the job has no current lease"))
  | some lease =>
    if lease.token ≠ token then
      (none, m.violation (s!"{what} for job {id} with stale token {token} was accepted; " ++
        s!"the current token is {lease.token}"))
    else (some lease, m)

def count (m : LeaseModel) (f : Counters → Counters) : LeaseModel := { m with counters := f m.counters }

def endLease (m : LeaseModel) (id : Nat) : LeaseModel := { m with leases := m.leases.erase id }

def checkJobEnqueued (m : LeaseModel) (r : JobEnqueued) : LeaseModel :=
  let m := m.count fun c => { c with enqueued := c.enqueued + 1 }
  let m := if r.id < m.nextJobId then m.violation s!"job id {r.id} was used before" else m
  { m with nextJobId := max m.nextJobId (r.id + 1) }

def checkJobLeased (m : LeaseModel) (r : JobLeased) : LeaseModel :=
  let m := m.count fun c => { c with leasesGranted := c.leasesGranted + 1 }
  let m :=
    if r.token ≤ m.maxToken then
      m.violation (s!"job {r.id} got token {r.token}, which is not larger than the earlier token " ++
        s!"{m.maxToken}")
    else m
  let m := { m with maxToken := max m.maxToken r.token }
  let m :=
    match m.leases.lookup r.id with
    | some lease =>
      m.violation (s!"job {r.id} was leased with token {r.token} while token {lease.token} was " ++
        "still current: two valid leases")
    | none => m
  { m with leases := m.leases.insert r.id ⟨r.token, r.leaseExpiresAt⟩ }

def checkLeaseExtended (m : LeaseModel) (r : LeaseExtended) : LeaseModel :=
  let m := m.count fun c => { c with heartbeats := c.heartbeats + 1 }
  match m.current r.id r.token "heartbeat" with
  | (some lease, m) => { m with leases := m.leases.insert r.id { lease with expiresAt := r.leaseExpiresAt } }
  | (none, m) => m

def checkJobSucceeded (m : LeaseModel) (r : JobSucceeded) : LeaseModel :=
  let m := m.count fun c => { c with acks := c.acks + 1 }
  (m.current r.id r.token "ack").2.endLease r.id

def checkAttemptFailed (m : LeaseModel) (r : AttemptFailed) : LeaseModel :=
  let expired := r.reason = .kLeaseExpired
  let m := m.count fun c =>
    if expired then { c with leaseExpiries := c.leaseExpiries + 1 }
    else { c with workerFailures := c.workerFailures + 1 }
  match m.current r.id r.token (if expired then "lease expiry" else "failure") with
  | (none, m) => m.endLease r.id
  | (some lease, m) =>
    let m :=
      if expired ∧ r.at_ < lease.expiresAt then
        m.violation (s!"the lease of job {r.id} (token {r.token}) was expired at {r.at_} ms, before its " ++
          s!"recorded expiry at {lease.expiresAt} ms")
      else m
    m.endLease r.id

/-- Cancelling a leased job ends its lease. -/
def checkJobCancelled (m : LeaseModel) (r : JobCancelled) : LeaseModel :=
  (m.count fun c => { c with cancellations := c.cancellations + 1 }).endLease r.id

def checkDeadJobRetried (m : LeaseModel) (r : DeadJobRetried) : LeaseModel :=
  if (m.leases.lookup r.id).isSome then
    m.violation s!"dead job {r.id} was retried while it had a lease"
  else m

def checkPurged : List Nat → LeaseModel → LeaseModel
  | [], m => m
  | id :: ids, m =>
    checkPurged ids
      (if (m.leases.lookup id).isSome then m.violation s!"job {id} was purged while leased" else m)

def check (m : LeaseModel) : Record → LeaseModel
  | .jobEnqueued r => m.checkJobEnqueued r
  | .jobLeased r => m.checkJobLeased r
  | .leaseExtended r => m.checkLeaseExtended r
  | .jobSucceeded r => m.checkJobSucceeded r
  | .attemptFailed r => m.checkAttemptFailed r
  | .jobCancelled r => m.checkJobCancelled r
  | .deadJobRetried r => m.checkDeadJobRetried r
  | .jobsPurged r => checkPurged r.ids m

def on (m : LeaseModel) (lsn : Nat) (record : Record) : LeaseModel := { m with lsn }.check record

/-- The records of a log from one sequence number on. -/
def feed : Nat → List Record → LeaseModel → LeaseModel
  | _, [], m => m
  | lsn, r :: rs, m => feed (lsn + 1) rs (m.on lsn r)

end LeaseModel

/-! ## Agreement with a ledger -/

/-- The lease a job has. -/
def LedgerJob.lease (job : LedgerJob) : Option LeaseModel.Lease :=
  if job.state = .kLeased then some ⟨job.leaseToken, job.leaseExpiresAt⟩ else none

def Ledger.lease (l : Ledger) (id : Nat) : Option LeaseModel.Lease := (l.jobs id).bind LedgerJob.lease

namespace LeaseModel

structure Tracks (m : LeaseModel) (l : Ledger) : Prop where
  leases : ∀ id, m.leases.lookup id = l.lease id
  maxToken : m.maxToken + 1 = l.nextToken
  nextJobId : m.nextJobId = l.nextJobId
  violations : m.violations = []
  violationCount : m.violationCount = 0

section Tracks

variable {m : LeaseModel} {l l' : Ledger} {r : Record} {id token : Nat} {job : LedgerJob}

theorem lease_leased (found : l.jobs id = some job) (leased : job.state = .kLeased) :
    l.lease id = some ⟨job.leaseToken, job.leaseExpiresAt⟩ := by
  unfold Ledger.lease LedgerJob.lease
  rw [found, Option.bind_some, if_pos leased]

theorem lease_other (found : l.jobs id = some job) (other : job.state ≠ .kLeased) : l.lease id = none := by
  unfold Ledger.lease LedgerJob.lease
  rw [found, Option.bind_some, if_neg other]

/-- The leases after one job changed. -/
theorem lease_update (changed : l'.jobs = update l.jobs id (some job)) :
    l'.lease = update l.lease id job.lease := by
  funext j
  unfold Ledger.lease
  rw [changed, update_apply, update_apply]
  split <;> rfl

/-- The checker finds the lease the record refers to. -/
theorem Tracks.current (tracks : Tracks m l) (found : l.jobs id = some job) (leased : job.state = .kLeased)
    (under : job.leaseToken = token) (what : String) :
    m.current id token what = (some ⟨token, job.leaseExpiresAt⟩, m) := by
  unfold LeaseModel.current
  rw [tracks.leases id, lease_leased found leased]
  dsimp only
  rw [if_neg (not_not.2 under), under]

/-- Counting is not looked at. -/
theorem Tracks.count (tracks : Tracks m l) (f : Counters → Counters) : Tracks (m.count f) l := { tracks with }

/-- The checker after a lease ended. -/
theorem Tracks.endLease (tracks : Tracks m l) (changed : l'.jobs = update l.jobs id (some job))
    (ended : job.state ≠ .kLeased) (tokens : l'.nextToken = l.nextToken) (ids : l'.nextJobId = l.nextJobId) :
    Tracks (m.endLease id) l' := by
  refine ⟨?_, tracks.maxToken.trans tokens.symm, tracks.nextJobId.trans ids.symm, tracks.violations,
    tracks.violationCount⟩
  intro j
  rw [lease_update changed, update_apply]
  show (m.leases.erase id).lookup j = _
  split
  · rename_i here
    rw [here, AList.lookup_erase]
    unfold LedgerJob.lease
    rw [if_neg ended]
  · rename_i other
    rw [AList.lookup_erase_ne other]
    exact tracks.leases j

/-- The checker after a lease was granted or extended. -/
theorem Tracks.setLease {lease : Lease} (tracks : Tracks m l)
    (changed : l'.jobs = update l.jobs id (some job)) (leased : job.lease = some lease)
    (tokens : l'.nextToken = l.nextToken) (ids : l'.nextJobId = l.nextJobId) :
    Tracks { m with leases := m.leases.insert id lease } l' := by
  refine ⟨?_, tracks.maxToken.trans tokens.symm, tracks.nextJobId.trans ids.symm, tracks.violations,
    tracks.violationCount⟩
  intro j
  rw [lease_update changed, update_apply]
  split
  · rename_i here
    rw [here, AList.lookup_insert, leased]
  · rename_i other
    rw [AList.lookup_insert_ne other]
    exact tracks.leases j

theorem checkPurged_quiet {ids : List Nat} (unleased : ∀ id ∈ ids, m.leases.lookup id = none) :
    checkPurged ids m = m := by
  induction ids with
  | nil => rfl
  | cons id ids ih =>
    rw [checkPurged, unleased id List.mem_cons_self]
    exact ih fun id mem => unleased id (List.mem_cons_of_mem _ mem)

/-- A record that is accepted and vouched for is within the rules. -/
theorem Tracks.on (tracks : Tracks m l) (known : Ledger.Known l) (vouched : Ledger.Vouched l r)
    (step : Ledger.Step l r l') (lsn : Nat) : Tracks (m.on lsn r) l' := by
  have tracks : Tracks { m with lsn } l := { tracks with }
  unfold LeaseModel.on
  generalize { m with lsn } = m at tracks
  cases step with
  | @enqueued e next named budget =>
    have fresh : ¬ e.id < m.nextJobId := by
      rw [tracks.nextJobId]
      omega
    have absent : l.jobs e.id = none := by
      rw [Option.eq_none_iff_forall_ne_some]
      intro job found
      have old := (known.jobs e.id job found).2
      omega
    unfold check checkJobEnqueued LeaseModel.count
    dsimp only
    rw [if_neg fresh]
    refine ⟨?_, tracks.maxToken, ?_, tracks.violations, tracks.violationCount⟩
    · intro j
      rw [@lease_update l (l.enqueued e) e.id (LedgerJob.enqueued e) rfl, update_apply]
      refine (tracks.leases j).trans ?_
      split
      · rename_i here
        unfold Ledger.lease
        rw [here, absent]
        rfl
      · rfl
    · show max m.nextJobId (e.id + 1) = e.id + 1
      omega
  | @leased q job found pending next budget =>
    have larger : ¬ q.token ≤ m.maxToken := by
      have same := tracks.maxToken
      omega
    have unleased : m.leases.lookup q.id = none :=
      (tracks.leases q.id).trans (lease_other found (by rw [pending]; decide))
    unfold check checkJobLeased LeaseModel.count
    dsimp only
    rw [if_neg larger]
    rw [unleased]
    have granted := @setLease m l (l.setJob q.id (job.leased q)) q.id (job.leased q)
      ⟨q.token, q.leaseExpiresAt⟩ tracks rfl rfl rfl rfl
    refine ⟨granted.leases, ?_, granted.nextJobId, granted.violations, granted.violationCount⟩
    show max m.maxToken q.token + 1 = q.token + 1
    omega
  | @extended q job found leased under =>
    unfold check checkLeaseExtended
    dsimp only
    have tracks := tracks.count fun c => { c with heartbeats := c.heartbeats + 1 }
    rw [tracks.current found leased under]
    refine tracks.setLease rfl ?_ rfl rfl
    unfold LedgerJob.lease
    rw [if_pos leased, under]
  | @succeeded q job found leased under =>
    unfold check checkJobSucceeded
    dsimp only
    have tracks := tracks.count fun c => { c with acks := c.acks + 1 }
    rw [tracks.current found leased under]
    exact tracks.endLease rfl PersistedState.noConfusion rfl rfl
  | @failed q job found leased under =>
    have ended : (job.failed q).state ≠ .kLeased := by
      unfold LedgerJob.failed
      split <;> exact PersistedState.noConfusion
    have in_time : ¬ (q.reason = .kLeaseExpired ∧ q.at_ < job.leaseExpiresAt) := by
      rintro ⟨expired, early⟩
      have late := (vouched job found).2 expired
      omega
    unfold check checkAttemptFailed
    dsimp only
    have tracks := tracks.count fun c =>
      if q.reason = .kLeaseExpired then { c with leaseExpiries := c.leaseExpiries + 1 }
      else { c with workerFailures := c.workerFailures + 1 }
    rw [tracks.current found leased under]
    dsimp only
    rw [if_neg in_time]
    exact tracks.endLease (Ledger.failed_jobs q job) ended (Ledger.failed_nextToken q job)
      (Ledger.failed_nextJobId q job)
  | @cancelled q job found active =>
    have tracks := tracks.count fun c => { c with cancellations := c.cancellations + 1 }
    exact tracks.endLease rfl PersistedState.noConfusion rfl rfl
  | @retried q job found dead =>
    have unleased : l.lease q.id = none := lease_other found (by rw [dead]; decide)
    unfold check checkDeadJobRetried
    dsimp only
    rw [tracks.leases q.id, unleased, if_neg (by decide)]
    refine ⟨?_, tracks.maxToken, tracks.nextJobId, tracks.violations, tracks.violationCount⟩
    intro j
    rw [@lease_update l (l.setJob q.id (job.retried q)) q.id (job.retried q) rfl, update_apply]
    refine (tracks.leases j).trans ?_
    split
    · rename_i here
      rw [here, unleased]
      rfl
    · rfl
  | @purged q terminal =>
    have unleased : ∀ id ∈ q.ids, l.lease id = none := by
      intro id named
      obtain ⟨job, found, -⟩ := terminal id named
      exact lease_other found (by rw [vouched id named job found]; decide)
    unfold check
    dsimp only
    rw [checkPurged_quiet fun id named => (tracks.leases id).trans (unleased id named)]
    refine ⟨?_, tracks.maxToken, tracks.nextJobId, tracks.violations, tracks.violationCount⟩
    intro j
    refine (tracks.leases j).trans ?_
    show l.lease j = Option.bind (if j ∈ q.ids then none else l.jobs j) LedgerJob.lease
    split
    · rename_i named
      exact unleased j named
    · rfl

/-- The rest of a history is within the rules. -/
theorem Tracks.feed {rs ts : List Record} (tracks : Tracks m l) (before : Ledger.History rs l)
    (history : Ledger.History (rs ++ ts) l') (lsn : Nat) : Tracks (LeaseModel.feed lsn ts m) l' := by
  induction ts generalizing rs l m lsn with
  | nil =>
    rw [List.append_nil] at history
    rw [history.unique before]
    exact tracks
  | cons r ts ih =>
    rw [List.append_cons] at history
    obtain ⟨next, up_to⟩ := history.start
    obtain ⟨l₀, before', vouched, step⟩ := up_to.last
    obtain rfl := before'.unique before
    exact ih (tracks.on before.known vouched step lsn) up_to history (lsn + 1)

theorem tracks_start : Tracks {} {} := ⟨fun _ => rfl, rfl, rfl, rfl, rfl⟩

/-- What was collected had no lease. -/
theorem lease_sub {gone : LedgerJob → Prop} {lapsed : Int → Prop} {live full : Ledger}
    (sub : Ledger.Sub gone lapsed live full) (ended : ∀ job, gone job → job.isTerminal = true) :
    live.lease = full.lease := by
  funext id
  unfold Ledger.lease
  rcases sub.jobs id with same | ⟨missing, job, found, is_gone⟩
  · rw [same]
  · have terminal := ended job is_gone
    have other : job.state ≠ .kLeased := by
      intro leased
      unfold LedgerJob.isTerminal at terminal
      rw [leased] at terminal
      cases terminal
    rw [missing, found, Option.bind_some, Option.bind_none]
    unfold LedgerJob.lease
    rw [if_neg other]

/-- So the checker cannot tell a ledger from one that has forgotten. -/
theorem Tracks.sub {gone : LedgerJob → Prop} {lapsed : Int → Prop} {live full : Ledger}
    (sub : Ledger.Sub gone lapsed live full) (ended : ∀ job, gone job → job.isTerminal = true) :
    Tracks m live ↔ Tracks m full := by
  have same := lease_sub sub ended
  constructor
  · intro tracks
    exact ⟨fun id => (tracks.leases id).trans (congrFun same id), tracks.maxToken.trans sub.nextToken,
      tracks.nextJobId.trans sub.nextJobId, tracks.violations, tracks.violationCount⟩
  · intro tracks
    exact ⟨fun id => (tracks.leases id).trans (congrFun same id).symm, tracks.maxToken.trans sub.nextToken.symm,
      tracks.nextJobId.trans sub.nextJobId.symm, tracks.violations, tracks.violationCount⟩

/-! ### Starting from an image -/

theorem lookup_imageLeases {jobs : List JobImage} {leases : Table Nat Lease} {lease : Lease}
    (nodup : (jobs.map JobImage.id).Nodup) (absent : ∀ job ∈ jobs, leases.lookup job.id = none) :
    (imageLeases jobs leases).lookup id = some lease ↔
      leases.lookup id = some lease ∨
        ∃ job ∈ jobs, job.id = id ∧ job.state = .kLeased ∧ lease = ⟨job.leaseToken, job.leaseExpiresAt⟩ := by
  induction jobs generalizing leases with
  | nil => simp [imageLeases]
  | cons job jobs ih =>
    rw [List.map_cons, List.nodup_cons] at nodup
    rw [imageLeases]
    have others : ∀ other ∈ jobs, other.id ≠ job.id := fun other mem same =>
      nodup.1 (List.mem_map.2 ⟨other, mem, same⟩)
    have here := absent job List.mem_cons_self
    split
    · rename_i leased
      rw [ih nodup.2 ?_]
      · constructor
        · rintro (old | ⟨other, mem, rest⟩)
          · by_cases same : id = job.id
            · rw [same, AList.lookup_insert] at old
              exact Or.inr ⟨job, List.mem_cons_self, same.symm, leased, (Option.some.inj old).symm⟩
            · rw [AList.lookup_insert_ne same] at old
              exact Or.inl old
          · exact Or.inr ⟨other, List.mem_cons_of_mem _ mem, rest⟩
        · rintro (old | ⟨other, mem, rest⟩)
          · refine Or.inl ((AList.lookup_insert_ne ?_).trans old)
            intro same
            rw [same, here] at old
            cases old
          · rcases List.mem_cons.1 mem with rfl | mem
            · obtain ⟨rfl, -, rfl⟩ := rest
              exact Or.inl (AList.lookup_insert _)
            · exact Or.inr ⟨other, mem, rest⟩
      · intro other mem
        rw [AList.lookup_insert_ne (others other mem)]
        exact absent other (List.mem_cons_of_mem _ mem)
    · rename_i unleased
      rw [ih nodup.2 fun other mem => absent other (List.mem_cons_of_mem _ mem)]
      constructor
      · rintro (old | ⟨other, mem, rest⟩)
        · exact Or.inl old
        · exact Or.inr ⟨other, List.mem_cons_of_mem _ mem, rest⟩
      · rintro (old | ⟨other, mem, rest⟩)
        · exact Or.inl old
        · rcases List.mem_cons.1 mem with rfl | mem
          · exact absurd rest.2.1 unleased
          · exact Or.inr ⟨other, mem, rest⟩

end Tracks

/-- The leases of a state. -/
theorem ledger_lease {s : State} {id : Nat} {lease : Lease} :
    s.ledger.lease id = some lease ↔
      ∃ job, s.findJob id = some job ∧ job.state = .kLeased ∧
        lease = ⟨job.leaseToken, job.leaseExpiresAt⟩ := by
  show ((s.findJob id).map Job.ledger).bind LedgerJob.lease = some lease ↔ _
  cases s.findJob id with
  | none => simp
  | some job =>
    show (if toPersisted job.state = .kLeased then _ else none) = some lease ↔ _
    constructor
    · intro held
      split at held
      · rename_i leased
        exact ⟨job, rfl, persisted_leased.1 leased, (Option.some.inj held).symm⟩
      · cases held
    · rintro ⟨job', found, leased, rfl⟩
      cases found
      exact if_pos (persisted_leased.2 leased)

/-- A checker that starts from an image agrees with the state the image is of. -/
theorem startFrom_tracks {s : State} (shape : s.Shape) (tokens : 0 < s.nextToken) (iteration : IterationOrder) :
    Tracks (startFrom {} (s.captureImage iteration)) s.ledger := by
  refine ⟨?_, Nat.sub_add_cancel tokens, rfl, rfl, rfl⟩
  intro id
  apply Option.ext
  intro lease
  show (imageLeases (s.captureImage iteration).jobs ∅).lookup id = some lease ↔ _
  rw [lookup_imageLeases (State.captured_ids_nodup shape) fun _ _ => rfl]
  constructor
  · rintro (impossible | ⟨image, listed, rfl, leased, rfl⟩)
    · cases impossible
    obtain ⟨id, job, found, rfl⟩ := (State.mem_captured_jobs shape).1 listed
    exact lease_leased found leased
  · intro held
    obtain ⟨job, found, leased⟩ := Option.bind_eq_some_iff.1 held
    unfold LedgerJob.lease at leased
    split at leased
    · rename_i is_leased
      exact Or.inr ⟨_, (State.mem_captured_jobs shape).2 ⟨id, job, found, rfl⟩, rfl, is_leased,
        (Option.some.inj leased).symm⟩
    · cases leased

/-- The open leases are the leased jobs of the state, with their tokens and expiry
times; the largest token is the one before the next; and nothing was against the
rules. -/
structure Agrees (m : LeaseModel) (s : State) : Prop where
  leases : ∀ id lease, m.leases.lookup id = some lease ↔
    ∃ job, s.findJob id = some job ∧ job.state = .kLeased ∧
      lease = ⟨job.leaseToken, job.leaseExpiresAt⟩
  openLeases : m.openLeases = (s.jobs.keysWhere fun _ job => job.state = .kLeased).length
  maxToken : m.maxToken = s.nextToken - 1
  violations : m.violations = []
  violationCount : m.violationCount = 0

theorem Tracks.agrees {m : LeaseModel} {s : State} (tracks : Tracks m s.ledger) : Agrees m s := by
  have leases : ∀ id lease, m.leases.lookup id = some lease ↔
      ∃ job, s.findJob id = some job ∧ job.state = .kLeased ∧
        lease = ⟨job.leaseToken, job.leaseExpiresAt⟩ := by
    intro id lease
    rw [tracks.leases id, ledger_lease]
  refine ⟨leases, ?_, ?_, tracks.violations, tracks.violationCount⟩
  · -- two lists without repetition that have the same members
    have perm : m.leases.keys.Perm (s.jobs.keysWhere fun _ job => job.state = .kLeased) := by
      rw [List.perm_ext_iff_of_nodup m.leases.keys_nodup Table.keysWhere_nodup]
      intro id
      rw [← AList.mem_keys, ← AList.lookup_isSome, Option.isSome_iff_exists, Table.mem_keysWhere]
      constructor
      · rintro ⟨lease, held⟩
        obtain ⟨job, found, leased, -⟩ := (leases id lease).1 held
        exact ⟨job, found, decide_eq_true leased⟩
      · rintro ⟨job, found, leased⟩
        exact ⟨_, (leases id _).2 ⟨job, found, of_decide_eq_true leased, rfl⟩⟩
    refine Eq.trans ?_ perm.length_eq
    unfold LeaseModel.openLeases AList.keys List.keys
    rw [List.length_map]
  · have next : m.maxToken + 1 = s.nextToken := tracks.maxToken
    omega

end LeaseModel

/-! ## Runs -/

namespace State

variable {s s' : State} {rs : List Record}

/-- A replay that succeeds passes through a state after each record. -/
theorem passing_covers (replayed : State.replay rs s = .ok (some s')) (n : Nat) {k : Nat}
    (within : k ≤ rs.length) : ∃ t, (n + k, t) ∈ State.passing n rs s := by
  induction rs generalizing s n k with
  | nil =>
    obtain rfl := Nat.le_zero.1 within
    exact ⟨s, List.mem_cons_self⟩
  | cons r rs ih =>
    rw [State.passing]
    cases k with
    | zero => exact ⟨s, List.mem_cons_self⟩
    | succ k =>
      rw [State.replay] at replayed
      split at replayed
      · cases replayed
      · cases replayed
      · rename_i next applied
        obtain ⟨t, mem⟩ := ih replayed (n + 1) (Nat.le_of_succ_le_succ within)
        rw [applied]
        refine ⟨t, List.mem_cons_of_mem _ ?_⟩
        rwa [Nat.add_right_comm, Nat.add_assoc] at mem

end State

namespace World

variable {regime : Regime} {w w' : World}

/-- There is a state of the run at every cut of the log. -/
structure Covered (w : World) : Prop where
  cuts : ∀ n ≤ w.records.length, ∃ s, (n, s) ∈ w.trace
  now : (w.records.length, w.engine.state) ∈ w.trace

theorem covered_step (good : Good regime w) (covered : Covered w) (step : Step regime w w') : Covered w' := by
  have good' := good_step good step
  cases step with
  | op op forward next =>
    obtain ⟨e', stepped, rfl⟩ := Option.map_eq_some_iff.1 next
    obtain ⟨e₀, e₁, operated⟩ := Engine.step_operated good.inv good.live stepped
    have count : e'.lastLsn = (w.records ++ w.engine.written op).length := good'.count
    constructor
    · intro n within
      rw [List.length_append] at within
      by_cases before : n ≤ w.records.length
      · obtain ⟨s, mem⟩ := covered.cuts n before
        exact ⟨s, List.mem_append_left _ (List.mem_append_left _ mem)⟩
      · obtain ⟨s, mem⟩ := State.passing_covers operated.logged.replay w.records.length
          (show n - w.records.length ≤ _ by omega)
        rw [Nat.add_sub_of_le (by omega)] at mem
        refine ⟨s, List.mem_append_left _ (List.mem_append_right _ ?_)⟩
        rw [operated.begun]
        exact mem
    · rw [← count]
      exact List.mem_append_right _ List.mem_cons_self
  | capture typed made => exact ⟨covered.cuts, covered.now⟩
  | @restart records s s' boot found allowed decoded recovered ended =>
    constructor
    · intro n within
      obtain ⟨s, mem⟩ := covered.cuts n (Nat.le_trans within found.length_le)
      exact ⟨s, List.mem_append_left _ (List.mem_filter.2 ⟨mem, decide_eq_true within⟩)⟩
    · exact List.mem_append_right _ List.mem_cons_self

theorem covered_reachable (reachable : Reachable regime w) : Covered w := by
  refine reachable.keeps ?_ fun _ _ good step covered => covered_step good covered step
  intro options platform engineOptions rng wall mono
  refine ⟨fun n within => ?_, List.mem_cons_self⟩
  obtain rfl := Nat.le_zero.1 within
  exact ⟨_, List.mem_cons_self⟩

/-- A state at a cut of the log: one the run passed through, or what replaying the records
up to there gives. -/
def AtCut (w : World) (n : Nat) (s : State) : Prop :=
  (n, s) ∈ w.trace ∨
    n ≤ w.records.length ∧ ∃ options platform,
      State.replay (w.records.take n) (State.fresh options platform) = .ok (some s)

theorem AtCut.passed {n : Nat} {s : State} (good : Good regime w) (at_cut : AtCut w n s) :
    Passed w.records n s := by
  rcases at_cut with mem | ⟨within, options, platform, replayed⟩
  · exact good.trace n s mem
  · obtain ⟨full, history, -⟩ := good.full
    obtain ⟨up_to, history'⟩ := history.take n
    obtain ⟨replaying, ledger⟩ := (State.replaying_fresh options platform).replay replayed
    rw [State.ledger_fresh, history'.replay] at ledger
    refine ⟨within, replaying.inv.shape, up_to, history', ?_⟩
    rw [Except.ok.inj ledger]
    exact Ledger.Sub.refl _

/-- A checker that agrees with the history at a cut, fed the records from there on. -/
theorem agrees_from {m : LeaseModel} {n k : Nat} {s t : State} (good : Good regime w)
    (passed : Passed w.records n s) (tracks : m.Tracks s.ledger) (later : n ≤ k) (mem : (k, t) ∈ w.trace) :
    (LeaseModel.feed (n + 1) ((w.records.take k).drop n) m).Agrees t := by
  obtain ⟨full, history, sub⟩ := passed.ledger
  obtain ⟨full', history', sub'⟩ := (good.trace k t mem).ledger
  have whole : w.records.take n ++ (w.records.take k).drop n = w.records.take k := by
    have split := List.take_append_drop n (w.records.take k)
    rwa [List.take_take, Nat.min_eq_left later] at split
  rw [← whole] at history'
  have fed := ((LeaseModel.Tracks.sub sub fun _ ended => ended).1 tracks).feed history history' (n + 1)
  exact ((LeaseModel.Tracks.sub sub' fun _ ended => ended).2 fed).agrees

/-- The independent checker agrees with every run.  Fed the log from its beginning, or
from a cut on after starting from the image of a state at the cut, it reports nothing; and
at each later point of the run its open leases are the leased jobs, and its largest
token is the one before the next.  The run has a state at every cut. -/
theorem leaseModel_agrees (reachable : Reachable regime w) :
    (∀ n ≤ w.records.length, ∃ s, (n, s) ∈ w.trace) ∧
      (w.records.length, w.engine.state) ∈ w.trace ∧
      (∀ n s, (n, s) ∈ w.trace → (LeaseModel.feed 1 (w.records.take n) {}).Agrees s) ∧
      (∀ n s iteration, AtCut w n s → ∀ k t, n ≤ k → (k, t) ∈ w.trace →
        (LeaseModel.feed (n + 1) ((w.records.take k).drop n)
          (LeaseModel.startFrom {} (s.captureImage iteration))).Agrees t) := by
  have good := good_reachable reachable
  have covered := covered_reachable reachable
  refine ⟨covered.cuts, covered.now, ?_, ?_⟩
  · intro n s mem
    obtain ⟨full, history, sub⟩ := (good.trace n s mem).ledger
    have fed := LeaseModel.tracks_start.feed .nil history 1
    exact ((LeaseModel.Tracks.sub sub fun _ ended => ended).2 fed).agrees
  · intro n s iteration at_cut k t later mem
    have passed := at_cut.passed good
    obtain ⟨full, history, sub⟩ := passed.ledger
    have tokens : 0 < s.nextToken := Nat.lt_of_lt_of_eq history.known.tokens sub.nextToken.symm
    exact agrees_from good passed (LeaseModel.startFrom_tracks passed.shape tokens iteration) later mem

/-- A job is leased; the checker has one open lease. -/
theorem leaseModel_agrees_leased :
    ∃ w, Reachable {} w ∧ w.records.length = 2 ∧
      (LeaseModel.feed 1 (w.records.take 2) {}).Agrees w.engine.state ∧
      (LeaseModel.feed 1 (w.records.take 2) {}).openLeases = 1 := by
  obtain ⟨w, reachable, count, one⟩ : ∃ w, Reachable {} w ∧ w.records.length = 2 ∧
      (LeaseModel.feed 1 (w.records.take 2) {}).openLeases = 1 :=
    ⟨_, ⟨{}, samplePlatform, {}, fun _ => 0, 1000, 0,
      .tail (.single (.op (.enqueue { queue := [113], payload := [7] }) nofun rfl))
        (.op (.reserve [[113]] 500) nofun rfl)⟩, rfl, rfl⟩
  obtain ⟨-, now, whole, -⟩ := leaseModel_agrees reachable
  rw [count] at now
  exact ⟨w, reachable, count, whole 2 w.engine.state now, one⟩

end World

end Baton
