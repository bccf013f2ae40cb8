/-
# Sdk.Worker — the contexts a worker keeps alive

`_run_job` puts the context of a delivery into `_running` under the id of its job, and
takes the entry of that id out again when it is through.  `_heartbeat` visits what
`_snapshot` finds there.  A job whose lease is lost may be delivered again, to another
thread of the same worker, while the handler of the first delivery still runs; then two
runs share one entry.

`heartbeated_iff`: a step makes the worker forget a delivery that is running under the
current lease exactly when it registers, or takes out, another delivery of that job.
-/
import Baton.Theory.Table
import Baton.Theory.Transition

namespace Baton.Sdk

open Theory Function

set_option autoImplicit false

structure JobContext where
  id : Nat
  token : Nat
  deriving DecidableEq, Repr

/-- How far a thread is with a delivery. -/
inductive RunPhase where
  /-- `RESERVE` has returned it -/
  | received
  /-- it is registered, and its handler runs -/
  | running
  /-- its handler has returned or raised -/
  | reporting
  | left
  deriving DecidableEq, Repr

/-- The threads of a worker, and the leases of the server. -/
structure Worker where
  /-- `_running` -/
  running : Table Nat JobContext := ∅
  /-- the job and the phase of each delivery to this worker, by token -/
  deliveries : Nat → Option (Nat × RunPhase) := fun _ => none
  /-- the current lease of each job -/
  lease : Nat → Option Nat := fun _ => none
  nextToken : Nat := 1

namespace Worker

inductive Label where
  /-- the server leases the job, to this worker or to another -/
  | grants (job : Nat) (here : Bool)
  /-- the lease of the job ends: acked, failed, expired or cancelled -/
  | loses (job : Nat)
  /-- the first section of `_run_job` -/
  | registers (token : Nat)
  /-- the handler returns or raises -/
  | finishes (token : Nat)
  /-- the last section of `_run_job` -/
  | leaves (token : Nat)

def step (label : Label) (s : Worker) : Option Worker :=
  match label with
  | .grants job here =>
    if s.lease job = none then
      some { s with
        lease := update s.lease job (some s.nextToken)
        nextToken := s.nextToken + 1
        deliveries := if here then update s.deliveries s.nextToken (some (job, .received))
          else s.deliveries }
    else none
  | .loses job => some { s with lease := update s.lease job none }
  | .registers token =>
    match s.deliveries token with
    | some (job, .received) =>
      some { s with
        running := s.running.insert job ⟨job, token⟩
        deliveries := update s.deliveries token (some (job, .running)) }
    | _ => none
  | .finishes token =>
    match s.deliveries token with
    | some (job, .running) =>
      some { s with deliveries := update s.deliveries token (some (job, .reporting)) }
    | _ => none
  | .leaves token =>
    match s.deliveries token with
    | some (job, .reporting) =>
      some { s with
        running := s.running.erase job
        deliveries := update s.deliveries token (some (job, .left)) }
    | _ => none

/-- `_snapshot`: the contexts the next round of heartbeats visits. -/
def snapshot (s : Worker) : List JobContext := s.running.entries.map fun e => e.2

/-- A delivery whose handler runs under the current lease of its job. -/
def Runs (s : Worker) (job token : Nat) : Prop :=
  s.deliveries token = some (job, .running) ∧ s.lease job = some token

instance (s : Worker) (job token : Nat) : Decidable (s.Runs job token) :=
  inferInstanceAs (Decidable (_ ∧ _))

/-- Every delivery that runs under the current lease has its own context registered, and
is visited. -/
def Heartbeated (s : Worker) : Prop :=
  ∀ job token, s.Runs job token →
    s.running.lookup job = some ⟨job, token⟩ ∧ (⟨job, token⟩ : JobContext) ∈ s.snapshot

/-- No other delivery of the job runs under its current lease. -/
def alone (s : Worker) (token : Nat) : Bool :=
  match s.deliveries token with
  | none => true
  | some (job, _) =>
    match s.lease job with
    | none => true
    | some holder => holder = token ∨ ¬ s.Runs job holder

/-- The entry of a job changes only for the delivery that runs under its lease. -/
def Orderly (label : Label) (s : Worker) : Prop :=
  match label with
  | .registers token | .leaves token => s.alone token = true
  | _ => True

instance (label : Label) (s : Worker) : Decidable (Orderly label s) :=
  match label with
  | .registers token | .leaves token => inferInstanceAs (Decidable (s.alone token = true))
  | .grants _ _ | .loses _ | .finishes _ => inferInstanceAs (Decidable True)

def orderlyStep (label : Label) (s : Worker) : Option Worker :=
  if Orderly label s then step label s else none

section Safety

variable {s t : Worker} {label : Label} {job token : Nat}

theorem alone_iff {phase : RunPhase} (delivered : s.deliveries token = some (job, phase)) :
    s.alone token = true ↔ ∀ holder, s.Runs job holder → holder = token := by
  unfold alone
  rw [delivered]
  dsimp only
  cases lease : s.lease job with
  | none =>
    refine iff_of_true rfl ?_
    rintro holder ⟨-, held⟩
    rw [lease] at held
    cases held
  | some current =>
    rw [decide_eq_true_iff]
    constructor
    · rintro free holder ⟨running, held⟩
      rw [lease] at held
      cases held
      exact free.resolve_right (not_not.2 ⟨running, lease⟩)
    · intro only
      by_cases runs : s.Runs job current
      · exact Or.inl (only current runs)
      · exact Or.inr runs

theorem snapshot_of_lookup {context : JobContext} (found : s.running.lookup job = some context) :
    context ∈ s.snapshot :=
  List.mem_map.2 ⟨_, Table.lookup_eq_some_iff.1 found, rfl⟩

/-- What every run keeps: tokens are issued once, and every delivery is visited. -/
structure Inv (s : Worker) : Prop where
  fresh : ∀ token, s.nextToken ≤ token → s.deliveries token = none
  heard : Heartbeated s

theorem step_fresh (inv : Inv s) (taken : step label s = some t) :
    ∀ token, t.nextToken ≤ token → t.deliveries token = none := by
  -- a delivery that moves on was there before
  have moved : ∀ {token : Nat} {before after : Nat × RunPhase}, s.deliveries token = some before →
      ∀ token', s.nextToken ≤ token' → update s.deliveries token (some after) token' = none := by
    intro token before after found token' new
    have unknown := inv.fresh token' new
    rw [update_of_ne, unknown]
    rintro rfl
    rw [found] at unknown
    cases unknown
  cases label with
  | grants job here =>
    rw [step] at taken
    split at taken
    · cases taken
      intro token new
      have new : s.nextToken + 1 ≤ token := new
      have unknown := inv.fresh token (by omega)
      cases here with
      | true =>
        show update s.deliveries s.nextToken _ token = none
        rw [update_of_ne (by omega), unknown]
      | false => exact unknown
    · cases taken
  | loses job =>
    cases taken
    exact inv.fresh
  | registers token | finishes token | leaves token =>
    rw [step] at taken
    split at taken
    · rename_i found
      cases taken
      exact moved found
    · cases taken

/-- A step keeps every delivery visited exactly if it is orderly. -/
theorem step_heard (inv : Inv s) (taken : step label s = some t) : Heartbeated t ↔ Orderly label s := by
  cases label with
  | grants job here =>
    refine iff_of_true ?_ trivial
    rw [step] at taken
    split at taken
    · cases taken
      rintro job' token ⟨running, held⟩
      -- the new token is not registered yet
      have old : token ≠ s.nextToken := by
        rintro rfl
        have unknown := inv.fresh s.nextToken (Nat.le_refl _)
        cases here with
        | true =>
          have running : update s.deliveries s.nextToken _ s.nextToken = some (job', .running) := running
          rw [update_self] at running
          cases running
        | false =>
          have running : s.deliveries s.nextToken = some (job', .running) := running
          rw [unknown] at running
          cases running
      have running : s.deliveries token = some (job', .running) := by
        cases here with
        | true =>
          have running : update s.deliveries s.nextToken _ token = some (job', .running) := running
          rwa [update_of_ne old] at running
        | false => exact running
      have held : update s.lease job (some s.nextToken) job' = some token := held
      have other : job' ≠ job := by
        rintro rfl
        rw [update_self] at held
        exact old (Option.some.inj held).symm
      rw [update_of_ne other] at held
      exact inv.heard job' token ⟨running, held⟩
    · cases taken
  | loses job =>
    refine iff_of_true ?_ trivial
    cases taken
    rintro job' token ⟨running, held⟩
    have held : update s.lease job none job' = some token := held
    have other : job' ≠ job := by
      rintro rfl
      rw [update_self] at held
      cases held
    rw [update_of_ne other] at held
    exact inv.heard job' token ⟨running, held⟩
  | finishes token =>
    refine iff_of_true ?_ trivial
    rw [step] at taken
    split at taken
    · cases taken
      rintro job' token' ⟨running, held⟩
      have running : update s.deliveries token _ token' = some (job', .running) := running
      have other : token' ≠ token := by
        rintro rfl
        rw [update_self] at running
        cases running
      rw [update_of_ne other] at running
      exact inv.heard job' token' ⟨running, held⟩
    · cases taken
  | registers token =>
    rw [step] at taken
    split at taken
    · rename_i job found
      cases taken
      refine Iff.trans ?_ (alone_iff found).symm
      constructor
      · -- the entry is the new context, whoever holds the lease
        rintro heard holder ⟨running, held⟩
        by_contra other
        have still : update s.deliveries token (some (job, .running)) holder = some (job, .running) := by
          rw [update_of_ne other]
          exact running
        have entry := (heard job holder ⟨still, held⟩).1
        rw [AList.lookup_insert] at entry
        cases entry
        exact other rfl
      · rintro only job' token' ⟨moved, held⟩
        have running : update s.deliveries token _ token' = some (job', .running) := moved
        have entry : (s.running.insert job ⟨job, token⟩).lookup job' = some ⟨job', token'⟩ := by
          by_cases own : token' = token
          · subst own
            rw [update_self] at running
            cases running
            exact AList.lookup_insert _
          · rw [update_of_ne own] at running
            have other : job' ≠ job := by
              rintro rfl
              exact own (only token' ⟨running, held⟩)
            rw [AList.lookup_insert_ne other]
            exact (inv.heard job' token' ⟨running, held⟩).1
        exact ⟨entry, snapshot_of_lookup entry⟩
    · cases taken
  | leaves token =>
    rw [step] at taken
    split at taken
    · rename_i job found
      cases taken
      refine Iff.trans ?_ (alone_iff found).symm
      constructor
      · rintro heard holder ⟨running, held⟩
        by_contra other
        have still : update s.deliveries token (some (job, .left)) holder = some (job, .running) := by
          rw [update_of_ne other]
          exact running
        have entry : (s.running.erase job).lookup job = some ⟨job, holder⟩ := (heard job holder ⟨still, held⟩).1
        rw [AList.lookup_erase] at entry
        cases entry
      · rintro only job' token' ⟨moved, held⟩
        have running : update s.deliveries token _ token' = some (job', .running) := moved
        have own : token' ≠ token := by
          rintro rfl
          rw [update_self] at running
          cases running
        rw [update_of_ne own] at running
        have other : job' ≠ job := by
          rintro rfl
          exact own (only token' ⟨running, held⟩)
        have entry : (s.running.erase job).lookup job' = some ⟨job', token'⟩ := by
          rw [AList.lookup_erase_ne other]
          exact (inv.heard job' token' ⟨running, held⟩).1
        exact ⟨entry, snapshot_of_lookup entry⟩
    · cases taken

theorem inv_orderly (label : Label) (s t : Worker) (taken : orderlyStep label s = some t) (inv : Inv s) : Inv t := by
  unfold orderlyStep at taken
  split at taken
  · rename_i orderly
    exact ⟨step_fresh inv taken, (step_heard inv taken).2 orderly⟩
  · cases taken

/-- In every run of orderly steps, whatever its interleaving, every delivery that runs
under the current lease is visited by the next round of heartbeats; and a further step
keeps that exactly if it is orderly. -/
theorem heartbeated_iff (labels : List Label) (s : Worker) (run : runs orderlyStep labels {} = some s) :
    Heartbeated s ∧ ∀ label t, step label s = some t → (Heartbeated t ↔ Orderly label s) := by
  have start : Inv {} := ⟨fun _ _ => rfl, by rintro job token ⟨running, -⟩; cases running⟩
  have inv := runs_invariant inv_orderly run start
  exact ⟨inv.heard, fun label t taken => step_heard inv taken⟩

/-- The job is delivered, lost, and delivered again after the first run has left. -/
theorem heartbeated_iff_again :
    ∃ s, runs orderlyStep [.grants 1 true, .registers 1, .loses 1, .finishes 1, .leaves 1, .grants 1 true,
      .registers 2] {} = some s ∧ s.Runs 1 2 ∧ (⟨1, 2⟩ : JobContext) ∈ s.snapshot := by
  obtain ⟨s, run, running⟩ : ∃ s, runs orderlyStep [.grants 1 true, .registers 1, .loses 1, .finishes 1, .leaves 1,
      .grants 1 true, .registers 2] {} = some s ∧ s.Runs 1 2 := ⟨_, rfl, ⟨rfl, rfl⟩⟩
  exact ⟨s, run, running, ((heartbeated_iff _ s run).1 1 2 running).2⟩

/-- The first run outlives its lease and leaves after its successor has registered: it
takes the context of the successor with it. -/
theorem successor_forgotten :
    ∃ s, runs step [.grants 1 true, .registers 1, .loses 1, .grants 1 true, .registers 2, .finishes 1,
      .leaves 1] {} = some s ∧ s.Runs 1 2 ∧ s.snapshot = [] :=
  ⟨_, rfl, ⟨rfl, rfl⟩, rfl⟩

end Safety

end Worker

end Baton.Sdk
