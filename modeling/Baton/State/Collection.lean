/-
# State.Collection — what garbage collection forgets

`collect_garbage` takes finished jobs from the front of two queues of references,
as long as the front is past its retention, and expired keys from the front of the
idempotency list.  A reference may be stale, or come too late in the queue.

* `Collected.sub`: what is dropped is past its retention, or expired, whatever the
  queues look like; all that is needed of them is `Refs`, that a reference to a
  finished job never comes to name a dead one.
* `Collected.prune`: if the queues list every finished job and all three are in order
  of time (`Listed`), everything past its retention is dropped, and the ledger is a
  function of the ledger before and the clock.
-/
import Baton.State.Expiry
import Baton.State.Frame
import Baton.State.History
import Baton.State.Serialize
import Mathlib.Data.List.TakeWhile

namespace Baton

open Theory

set_option autoImplicit false

/-- The job is terminal and past the retention of its state. -/
def LedgerJob.past (options : StateOptions) (wall : Int) (job : LedgerJob) : Bool :=
  match job.state with
  | .kSucceeded => decide (job.finishedAt + options.retainFinishedMs ≤ wall)
  | .kCancelled => decide (job.finishedAt + options.retainFinishedMs ≤ wall)
  | .kDead => decide (job.finishedAt + options.retainDeadMs ≤ wall)
  | _ => false

/-- The ledger without what is past its retention and without expired keys. -/
def Ledger.prune (options : StateOptions) (wall : Int) (l : Ledger) : Ledger :=
  { l with
    jobs := fun id => (l.jobs id).filter fun job => !job.past options wall
    idem := fun key => (l.idem key).filter fun entry => decide (wall < entry.2) }

section Past

variable {options : StateOptions} {wall wall' : Int} {job : LedgerJob}

theorem LedgerJob.isTerminal_of_past (past : job.past options wall = true) : job.isTerminal = true := by
  unfold LedgerJob.past at past
  unfold LedgerJob.isTerminal
  split at past <;> first | rfl | (rename_i state; rw [state]; rfl) | cases past

theorem LedgerJob.past_mono (later : wall ≤ wall') (past : job.past options wall = true) :
    job.past options wall' = true := by
  unfold LedgerJob.past at past ⊢
  split at past
  · exact decide_eq_true (Int.le_trans (of_decide_eq_true past) later)
  · exact decide_eq_true (Int.le_trans (of_decide_eq_true past) later)
  · exact decide_eq_true (Int.le_trans (of_decide_eq_true past) later)
  · cases past

theorem LedgerJob.past_settled (settled : job.Settled) :
    job.past options wall = decide (job.finishedAt + options.retainFinishedMs ≤ wall) := by
  unfold LedgerJob.past
  rcases settled with state | state <;> rw [state]

theorem LedgerJob.past_dead (dead : job.state = .kDead) :
    job.past options wall = decide (job.finishedAt + options.retainDeadMs ≤ wall) := by
  unfold LedgerJob.past
  rw [dead]

end Past

namespace State

/-- A reference to a finished job names a job that succeeded or was cancelled, or none. -/
def Refs (s : State) : Prop :=
  ∀ ref ∈ s.finishedGc, ref.id < s.nextJobId ∧
    ∀ job, s.ledger.jobs ref.id = some job → job.Settled

/-- Every finished job is listed, and everything is listed in order of time. -/
structure Listed (s : State) : Prop where
  finished : ∀ id job, s.ledger.jobs id = some job → job.Settled → ⟨id, job.finishedAt⟩ ∈ s.finishedGc
  dead : ∀ id job, s.ledger.jobs id = some job → job.state = .kDead → ⟨id, job.finishedAt⟩ ∈ s.deadGc
  finishedOrder : s.finishedGc.Pairwise fun a b => a.finishedAt ≤ b.finishedAt
  deadOrder : s.deadGc.Pairwise fun a b => a.finishedAt ≤ b.finishedAt
  keyOrder : s.idemImages.Pairwise fun a b => a.expiresAt ≤ b.expiresAt

section Collected

variable {s s' : State} {finished dead : List FinishedRef} {away : Nat → Prop}

theorem settled_iff {job : Job} : job.ledger.Settled ↔ job.state.isTerminal = true ∧ job.state ≠ .kDead := by
  show toPersisted job.state = .kSucceeded ∨ toPersisted job.state = .kCancelled ↔ _
  cases job.state <;> decide

section

variable (collected : Collected s s' finished dead)

include collected

/-- A reference that takes a job was in its queue past its retention. -/
theorem Collected.past (refs : s.Refs) {j : Nat} {job : Job} (found : s.findJob j = some job)
    (taken : (s.takes false finished j || s.takes true dead j) = true) :
    job.ledger.past s.options s.wallNow = true := by
  rw [Bool.or_eq_true] at taken
  rcases taken with taken | taken
  · obtain ⟨ref, mem, takes⟩ := List.any_eq_true.1 taken
    rw [Bool.and_eq_true, decide_eq_true_eq] at takes
    obtain ⟨rfl, collects⟩ := takes
    unfold State.collects at collects
    rw [found, Option.any_some, Bool.and_eq_true, decide_eq_true_eq] at collects
    have listed : ref ∈ s.finishedGc := by
      rw [collected.finishedGc.parts]
      exact List.mem_append_left _ mem
    have settled := (refs ref listed).2 job.ledger (ledger_jobs found)
    rw [LedgerJob.past_settled settled]
    apply decide_eq_true
    show job.finishedAt + _ ≤ _
    rw [collects.1]
    exact collected.finishedGc.past ref mem
  · obtain ⟨ref, mem, takes⟩ := List.any_eq_true.1 taken
    rw [Bool.and_eq_true, decide_eq_true_eq] at takes
    obtain ⟨rfl, collects⟩ := takes
    unfold State.collects at collects
    rw [found, Option.any_some, Bool.and_eq_true, decide_eq_true_eq] at collects
    have is_dead : job.state = .kDead := of_decide_eq_true collects.2
    rw [LedgerJob.past_dead (persisted_dead.2 is_dead)]
    apply decide_eq_true
    show job.finishedAt + _ ≤ _
    rw [collects.1]
    exact collected.deadGc.past ref mem

/-- The keys after a collection. -/
theorem Collected.idemImages :
    s'.idemImages = s.idemImages.dropWhile fun entry => decide (entry.expiresAt ≤ s.wallNow) := by
  unfold State.idemImages
  rw [collected.idemOrder, List.dropWhile_map]
  rfl

theorem Collected.sub (shape : Shape s) (shape' : Shape s') (refs : s.Refs) :
    Ledger.Sub (fun job => job.past s.options s.wallNow = true) (· ≤ s.wallNow) s'.ledger s.ledger where
  __ := collected
  jobs := by
    intro id
    show (s'.findJob id).map Job.ledger = (s.findJob id).map Job.ledger ∨
      (s'.findJob id).map Job.ledger = none ∧ _
    rw [collected.jobs id]
    split
    · rename_i taken
      cases found : s.findJob id with
      | none => exact Or.inl rfl
      | some job =>
        exact Or.inr ⟨rfl, job.ledger, ledger_jobs found, collected.past refs found taken⟩
    · exact Or.inl rfl
  idem := by
    intro key
    have same := collected.idemImages
    cases at_key : s.ledger.idem key with
    | none =>
      refine Or.inl ?_
      cases at_key' : s'.ledger.idem key with
      | none => rfl
      | some entry =>
        have mem := (@mem_idemImages _ ⟨key, entry.1, entry.2⟩ shape').2 at_key'
        rw [same] at mem
        have mem := (mem_idemImages shape).1 (List.dropWhile_subset _ mem)
        rw [at_key] at mem
        cases mem
    | some entry =>
      have mem := (@mem_idemImages _ ⟨key, entry.1, entry.2⟩ shape).2 at_key
      have parts := @List.takeWhile_append_dropWhile _ (fun entry => decide (entry.expiresAt ≤ s.wallNow))
        s.idemImages
      rw [← parts, ← same, List.mem_append] at mem
      rcases mem with expired | stays
      · have lapsed : entry.2 ≤ s.wallNow := by
          have of_taken := List.mem_takeWhile_imp expired
          exact of_decide_eq_true of_taken
        cases at_key' : s'.ledger.idem key with
        | none => exact Or.inr ⟨rfl, entry.1, entry.2, rfl, lapsed⟩
        | some entry' =>
          refine Or.inl ?_
          have mem' := (@mem_idemImages _ ⟨key, entry'.1, entry'.2⟩ shape').2 at_key'
          rw [same] at mem'
          have old := (mem_idemImages shape).1 (List.dropWhile_subset _ mem')
          rw [at_key] at old
          exact old.symm
      · exact Or.inl ((mem_idemImages shape').1 stays)

theorem Collected.refs (shape : Shape s) (shape' : Shape s') (refs : s.Refs) : s'.Refs := by
  intro ref mem
  have listed : ref ∈ s.finishedGc := by
    rw [collected.finishedGc.parts]
    exact List.mem_append_right _ mem
  obtain ⟨given, settled⟩ := refs ref listed
  refine ⟨collected.nextJobId ▸ given, ?_⟩
  intro job found
  exact settled job ((collected.sub shape shape' refs).found found)

end

/-- In a queue in order of time, a collection takes everything past its retention. -/
theorem TakenFrom.taken {refs taken rest : List FinishedRef} {retention wall : Int}
    (from_ : TakenFrom refs taken rest retention wall)
    (order : refs.Pairwise fun a b => a.finishedAt ≤ b.finishedAt) {ref : FinishedRef}
    (mem : ref ∈ refs) (past : ref.finishedAt + retention ≤ wall) : ref ∈ taken := by
  rw [from_.parts] at mem order
  rcases List.mem_append.1 mem with taken | stays
  · exact taken
  · obtain ⟨first, more, split⟩ := List.exists_cons_of_ne_nil (List.ne_nil_of_mem stays)
    have young := from_.young first (by rw [split]; rfl)
    have ordered := (List.pairwise_append.1 order).2.1
    rw [split] at stays ordered
    rcases List.mem_cons.1 stays with rfl | later
    · omega
    · have := (List.pairwise_cons.1 ordered).1 ref later
      omega

variable {ref : FinishedRef} {job : Job}

theorem collects_false (found : s.findJob ref.id = some job) (settled : job.ledger.Settled)
    (same : job.finishedAt = ref.finishedAt) : s.collects false ref = true := by
  unfold State.collects
  rw [found, Option.any_some, Bool.and_eq_true]
  exact ⟨decide_eq_true same, (settled_iff.1 settled).1⟩

theorem collects_true (found : s.findJob ref.id = some job) (dead : job.state = .kDead)
    (same : job.finishedAt = ref.finishedAt) : s.collects true ref = true := by
  unfold State.collects
  rw [found, Option.any_some, Bool.and_eq_true]
  exact ⟨decide_eq_true same, decide_eq_true dead⟩

/-- A job past its retention is taken. -/
theorem Collected.taken (collected : Collected s s' finished dead) (listed : s.Listed) {j : Nat}
    {job : Job} (found : s.findJob j = some job) (past : job.ledger.past s.options s.wallNow = true) :
    (s.takes false finished j || s.takes true dead j) = true := by
  have entry := ledger_jobs found
  have terminal := LedgerJob.isTerminal_of_past past
  rw [Bool.or_eq_true]
  by_cases is_dead : job.state = .kDead
  · refine Or.inr (List.any_eq_true.2 ⟨⟨j, job.finishedAt⟩, ?_, ?_⟩)
    · rw [LedgerJob.past_dead (persisted_dead.2 is_dead)] at past
      exact collected.deadGc.taken listed.deadOrder (listed.dead j _ entry (persisted_dead.2 is_dead))
        (of_decide_eq_true past)
    · rw [Bool.and_eq_true]
      exact ⟨decide_eq_true rfl, collects_true found is_dead rfl⟩
  · have settled : job.ledger.Settled := by
      rw [settled_iff]
      refine ⟨?_, is_dead⟩
      rw [← isTerminal_persisted]
      exact terminal
    refine Or.inl (List.any_eq_true.2 ⟨⟨j, job.finishedAt⟩, ?_, ?_⟩)
    · rw [LedgerJob.past_settled settled] at past
      exact collected.finishedGc.taken listed.finishedOrder (listed.finished j _ entry settled)
        (of_decide_eq_true past)
    · rw [Bool.and_eq_true]
      exact ⟨decide_eq_true rfl, collects_false found settled rfl⟩

/-- Keys in order of their expiry: those that stay have not expired. -/
theorem Collected.alive (collected : Collected s s' finished dead) (listed : s.Listed)
    {entry : IdemImage} (stays : entry ∈ s'.idemImages) : s.wallNow < entry.expiresAt := by
  rw [collected.idemImages] at stays
  set rest := s.idemImages.dropWhile fun entry => decide (entry.expiresAt ≤ s.wallNow) with rest_eq
  obtain ⟨first, more, split⟩ := List.exists_cons_of_ne_nil (List.ne_nil_of_mem stays)
  have ordered : rest.Pairwise fun a b => a.expiresAt ≤ b.expiresAt :=
    listed.keyOrder.sublist (List.dropWhile_sublist _)
  have head : s.wallNow < first.expiresAt := by
    have stops := List.head?_dropWhile_not (fun entry : IdemImage => decide (entry.expiresAt ≤ s.wallNow))
      s.idemImages
    rw [← rest_eq, split] at stops
    exact Int.not_le.1 (of_decide_eq_false stops)
  rw [split] at stays ordered
  rcases List.mem_cons.1 stays with rfl | later
  · exact head
  · have := (List.pairwise_cons.1 ordered).1 entry later
    omega

theorem Collected.prune (collected : Collected s s' finished dead) (shape : Shape s) (shape' : Shape s')
    (refs : s.Refs) (listed : s.Listed) : s'.ledger = s.ledger.prune s.options s.wallNow := by
  have sub := collected.sub shape shape' refs
  apply Ledger.ext
  · funext id
    show (s'.findJob id).map Job.ledger = ((s.findJob id).map Job.ledger).filter _
    rw [collected.jobs id]
    cases found : s.findJob id with
    | none =>
      rw [ite_self]
      rfl
    | some job =>
      cases past : job.ledger.past s.options s.wallNow with
      | true =>
        rw [if_pos (collected.taken listed found past), Option.map_some, Option.filter_some, past]
        rfl
      | false =>
        have kept : ¬ (s.takes false finished id || s.takes true dead id) = true := by
          intro taken
          rw [collected.past refs found taken] at past
          cases past
        rw [if_neg kept, Option.map_some, Option.filter_some, past]
        rfl
  · exact sub.totals
  · exact sub.nextJobId
  · exact sub.nextToken
  · funext key
    show s'.ledger.idem key = (s.ledger.idem key).filter _
    cases at_key : s.ledger.idem key with
    | none =>
      rcases sub.idem key with same | ⟨missing, -⟩
      · rw [same, at_key]
        rfl
      · exact missing
    | some entry =>
      rw [Option.filter_some]
      by_cases alive : s.wallNow < entry.2
      · rw [if_pos (decide_eq_true alive)]
        rcases sub.idem key with same | ⟨-, id, at_, found, lapsed⟩
        · rw [same, at_key]
        · rw [at_key] at found
          cases found
          exact absurd alive (Int.not_lt.2 lapsed)
      · rw [if_neg (by simpa using alive)]
        cases at_key' : s'.ledger.idem key with
        | none => rfl
        | some entry' =>
          have same := sub.key at_key'
          rw [at_key] at same
          cases same
          have mem := (@mem_idemImages _ ⟨key, entry.1, entry.2⟩ shape').2 at_key'
          exact absurd (collected.alive listed mem) alive

end Collected

/-! ## The queues through records, timers and rebuilds -/

section Upkeep

variable {s s' : State} {away : Nat → Prop}

theorem Refs.apply {r : Record} (refs : s.Refs) (inv : s.StateInv away)
    (applied : s.apply r = .ok (some s')) : s'.Refs := by
  have frame := apply_frame inv applied
  have step := apply_step inv applied
  have more : s.nextJobId ≤ s'.nextJobId := step.nextJobId.1
  intro ref mem
  rw [frame.finishedGc] at mem
  rcases List.mem_append.1 mem with old | new
  · obtain ⟨given, settled⟩ := refs ref old
    exact ⟨Nat.lt_of_lt_of_le given more, step.settled given settled⟩
  · -- the record itself settled the job
    have known : ∀ {id : Nat} {job : LedgerJob}, s.ledger.jobs id = some job → id < s'.nextJobId := by
      intro id job found
      obtain ⟨job', found', -⟩ := Option.map_eq_some_iff.1 found
      exact Nat.lt_of_lt_of_le (inv.fits id job' found').known more
    cases r with
    | jobSucceeded r =>
      cases List.mem_singleton.1 new
      generalize s'.ledger = l' at step ⊢
      cases step with
      | succeeded found leased token =>
        refine ⟨known found, ?_⟩
        intro job found'
        rcases Ledger.of_update found' with ⟨ne, -⟩ | ⟨-, rfl⟩
        · exact absurd rfl ne
        · exact Or.inl rfl
    | jobCancelled r =>
      cases List.mem_singleton.1 new
      generalize s'.ledger = l' at step ⊢
      cases step with
      | cancelled found active =>
        refine ⟨known found, ?_⟩
        intro job found'
        rcases Ledger.of_update found' with ⟨ne, -⟩ | ⟨-, rfl⟩
        · exact absurd rfl ne
        · exact Or.inr rfl
    | _ => cases new

/-- A state with the same ledger and the same queue. -/
theorem Refs.congr (refs : s.Refs) (ledger : s'.ledger = s.ledger) (same : s'.finishedGc = s.finishedGc) :
    s'.Refs := by
  intro ref mem
  rw [same] at mem
  have next : s'.nextJobId = s.nextJobId := congrArg Ledger.nextJobId ledger
  rw [next, ledger]
  exact refs ref mem

/-- Timers change no ledger. -/
theorem ledger_advanceTimers {expired : List Nat} (inv : s.StateInv nobody) (live : s.replaying = false)
    (advanced : s.advanceTimers = some (s', expired)) : s'.ledger = s.ledger := by
  obtain ⟨-, -, kept, ripened, -⟩ := advanceTimers_spec inv live advanced
  refine ledger_ext ?_ kept.totals kept.nextJobId kept.nextToken kept.findIdem
  intro id
  rcases ripened id with same | ⟨job, found, scheduled, -, ready⟩
  · rw [same]
  · rw [ready, found]
    show some (Job.ledger _) = some job.ledger
    unfold Job.ledger
    rw [scheduled]
    rfl

variable {iteration : IterationOrder} {graceMs : Int}

theorem ledger_settled (job : Job) : (s.settled job).ledger = job.ledger := by
  unfold State.settled
  split
  · rename_i pending
    rw [ledger_pendingJob]
    have persisted : PersistedState.kPending = toPersisted job.state := by
      cases state : job.state <;> first | rfl | (rw [state] at pending; cases pending)
    rw [persisted]
    rfl
  · rfl

variable {ref : FinishedRef} {id : Nat}

theorem mem_sortRefs {refs : List FinishedRef} : ref ∈ sortRefs refs ↔ ref ∈ refs :=
  (List.perm_insertionSort _ _).mem_iff

theorem sortRefs_order (refs : List FinishedRef) :
    (sortRefs refs).Pairwise fun a b => a.finishedAt ≤ b.finishedAt := by
  exact List.pairwise_insertionSort _ _

theorem refWhere_some {p : Job → Prop} [DecidablePred p] {P : LedgerJob → Prop}
    (same : ∀ job : Job, P job.ledger ↔ p job) :
    refWhere p s id = some ref ↔ ∃ job, s.ledger.jobs id = some job ∧ P job ∧ ref = ⟨id, job.finishedAt⟩ := by
  unfold refWhere
  cases found : s.findJob id with
  | none => simp [ledger_missing found]
  | some job =>
    rw [ledger_jobs found]
    dsimp only
    constructor
    · intro listed
      split at listed
      · rename_i holds
        exact ⟨job.ledger, rfl, (same job).2 holds, (Option.some.inj listed).symm⟩
      · cases listed
    · rintro ⟨job', here, holds, rfl⟩
      cases here
      rw [if_pos ((same job).1 holds)]
      rfl

theorem finishedRef_some :
    s.finishedRef id = some ref ↔
      ∃ job, s.ledger.jobs id = some job ∧ job.Settled ∧ ref = ⟨id, job.finishedAt⟩ :=
  refWhere_some fun _ => settled_iff

theorem deadRef_some :
    s.deadRef id = some ref ↔
      ∃ job, s.ledger.jobs id = some job ∧ job.state = .kDead ∧ ref = ⟨id, job.finishedAt⟩ :=
  refWhere_some fun _ => persisted_dead

/-- A rebuild changes no ledger, and lists the finished jobs again. -/
theorem rebuildDerived_ledger (shape : Shape s) (tokens : 0 < s.nextToken)
    (fits : ∀ id job, s.findJob id = some job → JobFits s.nextJobId s.nextToken id job)
    (rebuilt : s.rebuildDerived iteration graceMs = some s') :
    s'.ledger = s.ledger ∧ s'.Refs ∧
      (s.idemImages.Pairwise (fun a b => a.expiresAt ≤ b.expiresAt) → s'.Listed) := by
  obtain ⟨-, kept, jobs, finishedGc, deadGc⟩ := rebuildDerived_spec shape tokens fits rebuilt
  have ledger : s'.ledger = s.ledger := by
    refine ledger_ext ?_ kept.totals kept.nextJobId kept.nextToken kept.findIdem
    intro id
    rw [jobs id, Option.map_map]
    congr 1
    funext job
    exact ledger_settled job
  have named : ∀ {id : Nat} {job : LedgerJob}, s.ledger.jobs id = some job →
      id ∈ iteration.order s.jobs.keys ∧ id < s.nextJobId := by
    intro id job found
    obtain ⟨job', found', -⟩ := Option.map_eq_some_iff.1 found
    refine ⟨?_, (fits id job' found').known⟩
    exact (iteration.perm _).mem_iff.2 (mem_keys.2 (Option.isSome_of_eq_some found'))
  have next : s'.nextJobId = s.nextJobId := kept.nextJobId
  refine ⟨ledger, ?_, ?_⟩
  · intro ref mem
    rw [finishedGc, mem_sortRefs, List.mem_filterMap] at mem
    obtain ⟨id, -, listed⟩ := mem
    obtain ⟨job, found, settled, rfl⟩ := finishedRef_some.1 listed
    rw [next, ledger]
    refine ⟨(named found).2, ?_⟩
    intro job' found'
    rw [found] at found'
    cases found'
    exact settled
  · intro order
    refine ⟨?_, ?_, ?_, ?_, ?_⟩
    · intro id job found settled
      rw [ledger] at found
      rw [finishedGc, mem_sortRefs, List.mem_filterMap]
      exact ⟨id, (named found).1, finishedRef_some.2 ⟨job, found, settled, rfl⟩⟩
    · intro id job found dead
      rw [ledger] at found
      rw [deadGc, mem_sortRefs, List.mem_filterMap]
      exact ⟨id, (named found).1, deadRef_some.2 ⟨job, found, dead, rfl⟩⟩
    · rw [finishedGc]
      exact sortRefs_order _
    · rw [deadGc]
      exact sortRefs_order _
    · have same : s'.idemImages = s.idemImages := by
        unfold State.idemImages
        rw [show s'.idemOrder = s.idemOrder from kept.idemOrder]
      rw [same]
      exact order

/-- The end of a replay forgets what is past its retention, and nothing else if the
keys are in order. -/
theorem endReplay_ledger (inv : s.StateInv nobody) (ended : s.endReplay iteration graceMs = some s') :
    s'.StateInv nobody ∧ s'.Refs ∧ s'.replaying = false ∧ s'.options = s.options ∧
      s'.platform = s.platform ∧ s'.wallNow = s.wallNow ∧
      Ledger.Sub (fun job => job.past s.options s.wallNow = true) (· ≤ s.wallNow) s'.ledger s.ledger ∧
      (s.idemImages.Pairwise (fun a b => a.expiresAt ≤ b.expiresAt) →
        s'.ledger = s.ledger.prune s.options s.wallNow) := by
  obtain ⟨t, finished, dead, rebuilt, inv_t, inv', collected⟩ := endReplay_spec inv ended
  obtain ⟨ledger, refs, listed⟩ := rebuildDerived_ledger inv.shape.live inv.tokens inv.fits rebuilt
  obtain ⟨-, kept, -⟩ := rebuildDerived_spec inv.shape.live inv.tokens inv.fits rebuilt
  have same : t.ledger = s.ledger := ledger
  have options : t.options = s.options := kept.options
  have wallNow : t.wallNow = s.wallNow := kept.wallNow
  have sub := collected.sub inv_t.shape inv'.shape refs
  have prune := collected.prune inv_t.shape inv'.shape refs
  rw [same, options, wallNow] at sub prune
  refine ⟨inv', collected.refs inv_t.shape inv'.shape refs, collected.replaying.trans kept.replaying,
    collected.options.trans options, collected.platform.trans kept.platform,
    collected.wallNow.trans wallNow, sub, ?_⟩
  intro order
  exact prune (listed order)

end Upkeep

end State

end Baton
