/-
# State.Replay — records applied one after the other, in replay mode

`recover_state` feeds the records of the log to `apply`.  In replay no check can
fail, so a replay ends with a state or with the first refusal; and which of the two
it is, and what the state serializes to, depends on the ledger it started from and
on nothing else (`replay_agree`).
-/
import Baton.State.Frame
import Baton.State.LedgerStep
import Baton.State.Progress

namespace Baton

open Theory

set_option autoImplicit false

/-- The records of a log, as `decode_record` reads them. -/
def decodeLog : List (Nat × Bytes) → Result (List Record)
  | [] => .ok []
  | entry :: entries =>
    match decodeRecord entry.1 entry.2 with
    | .error e => .error e
    | .ok r =>
      match decodeLog entries with
      | .error e => .error e
      | .ok rs => .ok (r :: rs)

/-- What the sink gets of a record. -/
def Record.entry (r : Record) : Nat × Bytes := (r.typeOf, r.encode)

theorem decodeLog_entries {rs : List Record} (wire : ∀ r ∈ rs, r.Wire) :
    decodeLog (rs.map Record.entry) = .ok rs := by
  induction rs with
  | nil => rfl
  | cons r rs ih =>
    have first := decodeRecord_encode (wire r List.mem_cons_self)
    have rest := ih fun q mem => wire q (List.mem_cons_of_mem _ mem)
    rw [List.map_cons, decodeLog]
    show (match decodeRecord r.typeOf r.encode with | .error e => _ | .ok r => _) = _
    rw [first, rest]

theorem wire_of_decodeLog {entries : List (Nat × Bytes)} {rs : List Record}
    (decoded : decodeLog entries = .ok rs) : ∀ r ∈ rs, r.Wire := by
  induction entries generalizing rs with
  | nil =>
    cases decoded
    simp
  | cons entry entries ih =>
    rw [decodeLog] at decoded
    split at decoded
    · cases decoded
    rename_i first decoded_first
    split at decoded
    · cases decoded
    rename_i rest decoded_rest
    cases decoded
    intro r mem
    rcases List.mem_cons.1 mem with rfl | later
    · exact (wire_of_decode decoded_first).1
    · exact ih decoded_rest r later

namespace State

/-- The records one after the other, until one is refused. -/
def replay : List Record → State → Result (Option State)
  | [], s => .ok (some s)
  | r :: rs, s =>
    match s.apply r with
    | .error e => .error e
    | .ok none => .ok none
    | .ok (some s) => replay rs s

/-- An empty state in replay mode. -/
def fresh (options : StateOptions) (platform : Platform) : State :=
  State.beginReplay { options, platform }

structure Replaying (s : State) : Prop where
  inv : s.StateInv nobody
  replaying : s.replaying = true
  unready : s.Unready

theorem replaying_fresh (options : StateOptions) (platform : Platform) :
    (fresh options platform).Replaying where
  inv := inv_empty options platform true
  replaying := rfl
  unready := by
    intro id job found
    cases found

theorem ledger_fresh (options : StateOptions) (platform : Platform) :
    (fresh options platform).ledger = {} := by
  apply Ledger.ext <;> rfl

section Replay

variable {s s' t : State} {r : Record} {rs ts : List Record}

theorem replay_append : replay (rs ++ ts) s =
    match replay rs s with
    | .error e => .error e
    | .ok none => .ok none
    | .ok (some s) => replay ts s := by
  induction rs generalizing s with
  | nil => rfl
  | cons r rs ih =>
    rw [List.cons_append, replay, replay]
    cases s.apply r with
    | error e => rfl
    | ok result =>
      cases result with
      | none => rfl
      | some next => exact ih

theorem Replaying.apply (at_s : s.Replaying) (applied : s.apply r = .ok (some s')) :
    s'.Replaying ∧ s.ledger.apply r = .ok s'.ledger := by
  have frame := apply_frame at_s.inv applied
  refine ⟨⟨apply_inv at_s.inv applied, frame.replaying.trans at_s.replaying, ?_⟩, ?_⟩
  · exact frame.unready at_s.replaying at_s.unready
  · exact apply_ledger at_s.inv applied

theorem Replaying.apply_some (at_s : s.Replaying) : s.apply r ≠ .ok none := by
  apply State.apply_some at_s.inv
  cases r <;> exact Or.inl at_s.replaying

theorem Replaying.replay (at_s : s.Replaying) (replayed : State.replay rs s = .ok (some s')) :
    s'.Replaying ∧ s.ledger.replay rs = .ok s'.ledger := by
  induction rs generalizing s with
  | nil =>
    cases replayed
    exact ⟨at_s, rfl⟩
  | cons r rs ih =>
    rw [State.replay] at replayed
    split at replayed
    · cases replayed
    · cases replayed
    rename_i next applied
    obtain ⟨at_next, ledger⟩ := at_s.apply applied
    obtain ⟨at_end, rest⟩ := ih at_next replayed
    refine ⟨at_end, ?_⟩
    rw [Ledger.replay, ledger]
    exact rest

/-- What a state is made with. -/
def MadeWith (options : StateOptions) (platform : Platform) (s : State) : Prop :=
  s.options = options ∧ s.platform = platform

theorem Replaying.madeWith {options : StateOptions} {platform : Platform} (at_s : s.Replaying)
    (replayed : State.replay rs s = .ok (some s')) (made : s.MadeWith options platform) :
    s'.MadeWith options platform := by
  induction rs generalizing s with
  | nil =>
    cases replayed
    exact made
  | cons r rs ih =>
    rw [State.replay] at replayed
    split at replayed
    · cases replayed
    · cases replayed
    rename_i next applied
    have frame := apply_frame at_s.inv applied
    exact ih (at_s.apply applied).1 replayed ⟨frame.options.trans made.1, frame.platform.trans made.2⟩

/-- The ledger decides whether a record is accepted. -/
theorem Replaying.apply_of_ledger {l : Ledger} (at_s : s.Replaying)
    (accepted : s.ledger.apply r = .ok l) : ∃ s', s.apply r = .ok (some s') ∧ s'.ledger = l := by
  cases applied : s.apply r with
  | error e =>
    obtain ⟨e', refused, -⟩ := apply_refuses _ _ _ applied
    rw [refused] at accepted
    cases accepted
  | ok result =>
    cases result with
    | none => exact absurd applied at_s.apply_some
    | some s' =>
      have ledger := (at_s.apply applied).2
      rw [ledger] at accepted
      exact ⟨s', rfl, Except.ok.inj accepted⟩

/-- Two replays from the same ledger have the same outcome. -/
theorem replay_agree (rs : List Record) (at_s : s.Replaying) (at_t : t.Replaying)
    (same : t.ledger = s.ledger) :
    (∃ e, replay rs s = .error e ∧ replay rs t = .error e) ∨
      ∃ s' t', replay rs s = .ok (some s') ∧ replay rs t = .ok (some t') ∧ t'.ledger = s'.ledger := by
  induction rs generalizing s t with
  | nil => exact Or.inr ⟨s, t, rfl, rfl, same⟩
  | cons r rs ih =>
    simp only [replay]
    cases applied : s.apply r with
    | error e =>
      -- the same check refuses the record on the other side
      refine Or.inl ⟨e, rfl, ?_⟩
      obtain ⟨e₁, refused, reason⟩ := apply_refuses _ _ _ applied
      cases applied' : t.apply r with
      | error e' =>
        obtain ⟨e₂, refused', reason'⟩ := apply_refuses _ _ _ applied'
        rw [same, refused] at refused'
        have equal : e' = e := by
          rw [← reason at_s.unready, ← reason' at_t.unready]
          exact (Except.error.inj refused').symm
        rw [equal]
      | ok result =>
        cases result with
        | none => exact absurd applied' at_t.apply_some
        | some t' =>
          have accepted := (at_t.apply applied').2
          rw [same, refused] at accepted
          cases accepted
    | ok result =>
      cases result with
      | none => exact absurd applied at_s.apply_some
      | some s₁ =>
        obtain ⟨at_s₁, ledger⟩ := at_s.apply applied
        rw [← same] at ledger
        obtain ⟨t₁, applied', ledger'⟩ := at_t.apply_of_ledger ledger
        rw [applied']
        exact ih at_s₁ (at_t.apply applied').1 ledger'

end Replay

end State

end Baton
