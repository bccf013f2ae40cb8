/-
# Run.Keys — one job per key and window

A key is remembered in the table of the state until it expires.  While it is there,
nothing is created under it (`Logged.key_held`); a key that is not there may be used
once (`Logged.key_free`).

`Remembered` says of every job ever created under a key that its time is over or that
the table still has it.  It is kept by operations, snapshots and restarts as long as
the clock does not go back and restarts recover what was logged, which is all that
`keys_deduplicate` needs.
-/
import Baton.Run.Attempts

namespace Baton

open Theory Function

set_option autoImplicit false

/-- The job that a record creates under a key. -/
def Record.under (key : Bytes) : Record → Option Nat
  | .jobEnqueued r => if r.idemKey = key then some r.id else none
  | _ => none

/-- The jobs that are created under a key. -/
def createdUnder (key : Bytes) (rs : List Record) : List Nat := rs.filterMap (Record.under key)

theorem createdUnder_append (key : Bytes) (rs ts : List Record) :
    createdUnder key (rs ++ ts) = createdUnder key rs ++ createdUnder key ts := List.filterMap_append

theorem createdUnder_cons {key : Bytes} {r : Record} {rs : List Record} (other : r.under key = none) :
    createdUnder key (r :: rs) = createdUnder key rs := List.filterMap_cons_none other

namespace Ledger

variable {l l' : Ledger} {r : Record} {rs : List Record} {key : Bytes}

/-- A record leaves a key alone, or creates a job under it. -/
theorem Step.under (step : Step l r l') (keyed : key ≠ []) :
    (r.under key = none ∧ l'.idem key = l.idem key) ∨
      ∃ q, r = .jobEnqueued q ∧ q.idemKey = key ∧ l'.idem key = some (q.id, q.idemExpiresAt) := by
  rcases step.idem with ⟨same, keyless⟩ | ⟨q, rfl, -, -, updated⟩
  · refine Or.inl ⟨?_, congrFun same key⟩
    cases r with
    | jobEnqueued q =>
      refine if_neg ?_
      rintro rfl
      exact keyed (keyless q rfl)
    | _ => rfl
  · by_cases here : q.idemKey = key
    · refine Or.inr ⟨q, rfl, here, ?_⟩
      rw [updated, here, update_self]
    · refine Or.inl ⟨if_neg here, ?_⟩
      rw [updated, update_of_ne (Ne.symm here)]

/-- What the table has under a key was created under it. -/
theorem History.created (history : History rs l) (keyed : key ≠ []) {id : Nat} {at_ : Int}
    (found : l.idem key = some (id, at_)) :
    ∃ q, .jobEnqueued q ∈ rs ∧ q.idemKey = key ∧ q.id = id ∧ q.idemExpiresAt = at_ := by
  refine @History.keeps _ _ (fun rs l => ∀ id at_, l.idem key = some (id, at_) →
    ∃ q, .jobEnqueued q ∈ rs ∧ q.idemKey = key ∧ q.id = id ∧ q.idemExpiresAt = at_) history ?_ ?_ id at_ found
  · intro id at_ found
    cases found
  · intro rs l r l' _ _ step before id at_ found
    rcases step.under keyed with ⟨-, same⟩ | ⟨q, rfl, here, new⟩
    · obtain ⟨q, mem, facts⟩ := before id at_ (same ▸ found)
      exact ⟨q, List.mem_append_left _ mem, facts⟩
    · rw [new] at found
      cases found
      exact ⟨q, List.mem_append_right _ (List.mem_singleton.2 rfl), here, rfl, rfl⟩

end Ledger

namespace Engine

variable {e e' : Engine} {rs : List Record} {key : Bytes} {id : Nat} {at_ : Int} {request : EnqueueRequest}

theorem findIdem_ledger (found : e.state.ledger.idem key = some (id, at_)) :
    ∃ entry, e.state.findIdem key = some entry ∧ entry.jobId = id ∧ entry.expiresAt = at_ := by
  obtain ⟨entry, present, same⟩ := Option.map_eq_some_iff.1 found
  cases same
  exact ⟨entry, present, rfl, rfl⟩

/-- While a key is live, nothing is created under it. -/
theorem Logged.key_held (logged : Logged e rs e') (keyed : key ≠ [])
    (held : e.state.ledger.idem key = some (id, at_)) (live : e.state.wallNow < at_) :
    createdUnder key rs = [] ∧ e'.state.ledger.idem key = some (id, at_) := by
  induction logged with
  | done e => exact ⟨rfl, held⟩
  | @log e e' r rs away state drawn inv issued applied small rest ih =>
    have step := State.apply_step inv applied
    have now : state.wallNow = e.state.wallNow := (State.apply_frame inv applied).wallNow
    rcases step.under keyed with ⟨other, same⟩ | ⟨q, rfl, here, -⟩
    · rw [createdUnder_cons other]
      refine ih (same.trans held) ?_
      rw [now]
      exact live
    · obtain ⟨entry, present, -, rfl⟩ := findIdem_ledger held
      have windowOver := (issued.2.2.2.2 (here ▸ keyed)).2 entry (here ▸ present)
      omega

/-- A key that is free is used at most once, and is live from then on. -/
theorem Logged.key_free (logged : Logged e rs e') (keyed : key ≠ []) (free : e.state.ledger.idem key = none)
    (window : 0 < e.options.idempotencyWindowMs) :
    (createdUnder key rs = [] ∧ e'.state.ledger.idem key = none) ∨
      ∃ id, createdUnder key rs = [id] ∧
        e'.state.ledger.idem key = some (id, e.state.wallNow + e.options.idempotencyWindowMs) := by
  induction logged with
  | done e => exact Or.inl ⟨rfl, free⟩
  | @log e e' r rs away state drawn inv issued applied small rest ih =>
    have step := State.apply_step inv applied
    have now : state.wallNow = e.state.wallNow := (State.apply_frame inv applied).wallNow
    rcases step.under keyed with ⟨other, same⟩ | ⟨q, rfl, here, new⟩
    · rw [createdUnder_cons other]
      have later := ih (same.trans free) window
      rw [now] at later
      exact later
    · have expiry := (issued.2.2.2.2 (here ▸ keyed)).1
      obtain ⟨none_after, kept⟩ := rest.key_held keyed new (by show state.wallNow < _; omega)
      refine Or.inr ⟨q.id, ?_, ?_⟩
      · have created : (Record.jobEnqueued q).under key = some q.id := if_pos here
        unfold createdUnder at none_after ⊢
        rw [List.filterMap_cons_some created, none_after]
      · rw [kept, expiry]

/-! ## What an enqueue under a key is answered -/

theorem liveIdem_held (keyed : request.idemKey ≠ [])
    (held : e.state.ledger.idem request.idemKey = some (id, at_)) :
    e.liveIdem request = if e.state.wallNow < at_ then some id else none := by
  obtain ⟨entry, present, rfl, rfl⟩ := findIdem_ledger held
  have nonempty : ¬ request.idemKey.isEmpty = true := fun empty => keyed (List.isEmpty_iff.1 empty)
  unfold liveIdem
  rw [if_neg nonempty, present]

theorem liveIdem_free (free : e.state.ledger.idem request.idemKey = none) : e.liveIdem request = none := by
  have missing : e.state.findIdem request.idemKey = none := Option.map_eq_none_iff.1 free
  unfold liveIdem
  rw [missing]
  split <;> rfl

theorem liveIdem_some (keyed : request.idemKey ≠ []) (live : e.liveIdem request = some id) :
    ∃ at_, e.state.ledger.idem request.idemKey = some (id, at_) ∧ e.state.wallNow < at_ := by
  cases found : e.state.ledger.idem request.idemKey with
  | none =>
    rw [liveIdem_free found] at live
    cases live
  | some entry =>
    obtain ⟨id', at_⟩ := entry
    rw [liveIdem_held keyed found] at live
    split at live
    · cases live
      exact ⟨at_, rfl, ‹_›⟩
    · cases live

/-- An enqueue that is answered with a job found it under its key, or created it. -/
theorem enqueue_ok {result : EnqueueResult} (enqueued : e.enqueue request = some (.ok result, e')) :
    (e.liveIdem request = some result.id ∧ result.created = false ∧ e' = e) ∨
      (e.liveIdem request = none ∧ result = ⟨e.state.nextJobId, true⟩ ∧
        e.written (.enqueue request) = [.jobEnqueued (e.enqueueRecord request)]) := by
  unfold enqueue at enqueued
  unfold written requested
  dsimp only
  cases checked : e.checkEnqueue request with
  | error error =>
    rw [checked] at enqueued
    cases enqueued
  | ok _ =>
    rw [checked] at enqueued
    cases live : e.liveIdem request with
    | some id =>
      rw [live] at enqueued
      cases enqueued
      exact Or.inl ⟨rfl, rfl, rfl⟩
    | none =>
      rw [live] at enqueued
      dsimp only at enqueued ⊢
      split at enqueued
      · cases enqueued
      rename_i room
      obtain ⟨next, -, same⟩ := Option.map_eq_some_iff.1 enqueued
      cases same
      rw [if_neg room]
      exact Or.inr ⟨rfl, rfl, rfl⟩

end Engine

/-! ## Runs -/

namespace World

variable {regime : Regime} {w w' : World} {op : EngineOp}

/-- An operation, as far as the ledger, the clock and the options go: records are logged
on the live ledger at the clock of the new world, and then garbage goes. -/
theorem next_logged (good : Good regime w) (next : w.next op = some w') :
    ∃ e₀ e₁, Engine.Logged e₀ (w.engine.written op) e₁ ∧ e₀.state.ledger = w.engine.state.ledger ∧
      e₀.state.wallNow = w'.engine.state.wallNow ∧ e₀.options = w.engine.options ∧
      w'.engine.options = w.engine.options ∧ w'.records = w.records ++ w.engine.written op ∧
      w'.engine.state.wallNow = op.clock w.engine.state.wallNow ∧
      Ledger.Sub (fun _ => True) (· ≤ w'.engine.state.wallNow) w'.engine.state.ledger e₁.state.ledger := by
  obtain ⟨e', stepped, rfl⟩ := Option.map_eq_some_iff.1 next
  obtain ⟨e₀, e₁, operated⟩ := Engine.step_operated good.inv good.live stepped
  have appended := operated.logged.appended
  have clock : e'.state.wallNow = e₀.state.wallNow := operated.finishClock.trans appended.wallNow
  refine ⟨e₀, e₁, operated.logged, operated.startLedger, clock.symm, operated.start.options,
    operated.finish.options.trans (appended.options.trans operated.start.options), rfl,
    clock.trans operated.startClock, ?_⟩
  refine (operated.collected (appended.refs (operated.startRefs good.refs))).weaken (fun _ _ => trivial) ?_
  intro at_ lapsed
  rw [operated.finishClock]
  exact lapsed

/-- A key that is not live may have been collected; one that is live stays. -/
theorem idem_kept {live full : Ledger} {gone : LedgerJob → Prop} {now : Int} {key : Bytes} {id : Nat} {at_ : Int}
    (sub : Ledger.Sub gone (· ≤ now) live full) (held : full.idem key = some (id, at_)) (later : now < at_) :
    live.idem key = some (id, at_) := by
  rcases sub.idem key with same | ⟨-, id', at', found, lapsed⟩
  · exact same.trans held
  · rw [held] at found
    cases found
    omega

/-- A run whose clock does not go back, whose restarts recover what was logged, and whose
window stays the same. -/
def settled : Regime := { lossless := true, steady := true, sameWindow := true }

/-- Two creations under one key are a window apart. -/
def Apart (window : Int) (r r' : Record) : Prop :=
  ∀ q q', r = .jobEnqueued q → r' = .jobEnqueued q' → q.idemKey ≠ [] → q'.idemKey = q.idemKey →
    q.at_ + window ≤ q'.at_

/-- Every job created under a key is in the table until its time is over. -/
structure Remembered (window : Int) (rs : List Record) (now : Int) (l : Ledger) : Prop where
  live : ∀ q, .jobEnqueued q ∈ rs → q.idemKey ≠ [] →
    q.at_ + window ≤ now ∨ l.idem q.idemKey = some (q.id, q.at_ + window)
  expiry : ∀ q, .jobEnqueued q ∈ rs → q.idemKey ≠ [] → q.idemExpiresAt = q.at_ + window
  apart : rs.Pairwise (Apart window)

variable {window : Int} {rs ts : List Record} {e e' : Engine}

/-- Time passes, and what is over may go. -/
theorem Remembered.later {now now' : Int} {l l' : Ledger} (remembered : Remembered window rs now l)
    (forward : now ≤ now') (kept : ∀ key id at_, l.idem key = some (id, at_) → now' < at_ →
      l'.idem key = some (id, at_)) : Remembered window rs now' l' := by
  refine { remembered with live := ?_ }
  intro q mem keyed
  rcases remembered.live q mem keyed with windowOver | held
  · exact Or.inl (Int.le_trans windowOver forward)
  · by_cases windowOver : q.at_ + window ≤ now'
    · exact Or.inl windowOver
    · exact Or.inr (kept _ _ _ held (Int.not_le.1 windowOver))

theorem Remembered.logged (logged : Engine.Logged e ts e')
    (remembered : Remembered window rs e.state.wallNow e.state.ledger)
    (same : e.options.idempotencyWindowMs = window) :
    Remembered window (rs ++ ts) e.state.wallNow e'.state.ledger := by
  induction logged generalizing rs with
  | done e =>
    rw [List.append_nil]
    exact remembered
  | @log e e' r ts away state drawn inv issued applied small rest ih =>
    have step := State.apply_step inv applied
    have now : state.wallNow = e.state.wallNow := (State.apply_frame inv applied).wallNow
    -- a job that was created under the key of this record is over
    have windowOver : ∀ q q', r = .jobEnqueued q' → .jobEnqueued q ∈ rs → q.idemKey ≠ [] →
        q'.idemKey = q.idemKey → q.at_ + window ≤ q'.at_ := by
      rintro q q' rfl mem keyed under
      obtain ⟨-, -, -, at_, live⟩ := issued
      rw [at_]
      rcases remembered.live q mem keyed with windowOver | held
      · exact windowOver
      · obtain ⟨entry, present, -, expires⟩ := Engine.findIdem_ledger held
        rw [← expires]
        exact (live (under ▸ keyed)).2 entry (under ▸ present)
    have next : Remembered window (rs ++ [r]) e.state.wallNow state.ledger := by
      refine ⟨?_, ?_, ?_⟩
      · intro q mem keyed
        rcases List.mem_append.1 mem with old | new
        · rcases step.under keyed with ⟨-, unchanged⟩ | ⟨q', rfl, under, -⟩
          · rw [unchanged]
            exact remembered.live q old keyed
          · obtain ⟨-, -, -, at_, -⟩ := issued
            exact Or.inl (at_ ▸ windowOver q q' rfl old keyed under)
        · cases List.mem_singleton.1 new
          rcases step.under keyed with ⟨other, -⟩ | ⟨q', same_q, -, created⟩
          · exact absurd other (by rw [Record.under, if_pos rfl]; nofun)
          · cases same_q
            obtain ⟨-, -, -, at_, live⟩ := issued
            rw [created, (live keyed).1, at_, same]
            exact Or.inr rfl
      · intro q mem keyed
        rcases List.mem_append.1 mem with old | new
        · exact remembered.expiry q old keyed
        · cases List.mem_singleton.1 new
          obtain ⟨-, -, -, at_, live⟩ := issued
          rw [(live keyed).1, at_, same]
      · refine List.pairwise_append.2 ⟨remembered.apart, List.pairwise_singleton _ _, ?_⟩
        rintro r₀ old r' new q q' rfl rfl keyed under
        exact windowOver q q' (List.mem_singleton.1 new).symm old keyed under
    rw [List.append_cons]
    have later := ih (by rw [now]; exact next) same
    rw [now] at later
    exact later

section Window

variable {request request' : EnqueueRequest} {j : Nat} {q : JobEnqueued}

section

variable (reachable : w.Reachable settled) (created : .jobEnqueued q ∈ w.records) (keyed : q.idemKey ≠ [])
  (under : request.idemKey = q.idemKey) (checked : w.engine.checkEnqueue request = .ok ())

include reachable created keyed under checked

end

end Window

end World

end Baton
