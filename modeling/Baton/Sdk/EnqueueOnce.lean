/-
# Sdk.EnqueueOnce — `Client.enqueue` against the engine

A call makes attempts (`Sdk.Client`), and the engine executes some of the requests they
send, each at most once, in any order, between any other operations (`Serving`).
`Delivered` is what the network may do: a request is executed only if it was sent, an
attempt that is answered with a job was executed and is told the truth, and an attempt
that is answered with an error was refused by the engine or by the server before it.

With a key, whatever is executed within the window finds or creates the one job of the
key.  Without one, everything before the last attempt was certainly not executed.
-/
import Baton.Run.Keys
import Baton.Sdk.Client

namespace Baton.Sdk

open Theory

set_option autoImplicit false

/-! ## The server's side of a call -/

/-- All that the clock reads during a call lies within one window. -/
def Within (low : Int) (w : World) : Prop :=
  low ≤ w.engine.state.wallNow ∧ w.engine.state.wallNow < low + w.engine.options.idempotencyWindowMs

/-- The engine during a call: what it executes of the call, each with the number of the
attempt it came from, and other operations between. -/
inductive Serving (request : EnqueueRequest) (low : Int) :
    World → List (Nat × Result EnqueueResult) → World → Prop where
  | done {w : World} (within : Within low w) : Serving request low w [] w
  | execute {w w' w'' : World} {i : Nat} {answer : Result EnqueueResult} {engine : Engine}
      {executed : List (Nat × Result EnqueueResult)} (within : Within low w)
      (answered : w.engine.enqueue request = some (answer, engine))
      (next : w.next (.enqueue request) = some w') (rest : Serving request low w' executed w'') :
      Serving request low w ((i, answer) :: executed) w''
  | other {w w' w'' : World} {op : EngineOp} {executed : List (Nat × Result EnqueueResult)}
      (within : Within low w) (next : w.next op = some w') (rest : Serving request low w' executed w'') :
      Serving request low w executed w''

section Keyed

variable {regime : Regime} {request : EnqueueRequest} {low : Int} {w w' : World} {op : EngineOp}
  {executed : List (Nat × Result EnqueueResult)}

theorem Serving.within (serving : Serving request low w executed w') : Within low w := by
  cases serving with
  | done within => exact within
  | execute within _ _ _ => exact within
  | other within _ _ => exact within

/-- Nothing was created under the key, or one job was and the key is live to the end of
the window. -/
def Under (key : Bytes) (high : Int) (w : World) : Option Nat → Prop
  | none => createdUnder key w.records = [] ∧ w.engine.state.ledger.idem key = none
  | some id => createdUnder key w.records = [id] ∧
      ∃ at_, w.engine.state.ledger.idem key = some (id, at_) ∧ high ≤ at_

theorem Under.next {key : Bytes} {job : Option Nat} (good : World.Good regime w) (keyed : key ≠ [])
    (next : w.next op = some w') (after : Within low w')
    (under : Under key (low + w.engine.options.idempotencyWindowMs) w job) :
    w'.engine.options = w.engine.options ∧ ∃ job',
      Under key (low + w.engine.options.idempotencyWindowMs) w' job' ∧ (∀ id, job = some id → job' = some id) ∧
      ∀ id, createdUnder key (w.engine.written op) = [id] → job' = some id := by
  obtain ⟨e₀, e₁, logged, ledger, clock, options₀, options, records, -, sub⟩ := World.next_logged good next
  refine ⟨options, ?_⟩
  obtain ⟨low_now, now_high⟩ := after
  rw [options] at now_high
  have positive : 0 < e₀.options.idempotencyWindowMs := by
    rw [options₀]
    omega
  have kept : ∀ id at_, e₁.state.ledger.idem key = some (id, at_) →
      low + w.engine.options.idempotencyWindowMs ≤ at_ →
      w'.engine.state.ledger.idem key = some (id, at_) := by
    intro id at_ held live
    exact World.idem_kept sub held (by omega)
  have grown := createdUnder_append key w.records (w.engine.written op)
  rw [← records] at grown
  cases job with
  | some id =>
    obtain ⟨one, at_, held, live⟩ := under
    obtain ⟨nothing, held'⟩ := logged.key_held keyed (ledger ▸ held) (by rw [clock]; omega)
    rw [one, nothing] at grown
    refine ⟨some id, ⟨grown, at_, kept id at_ held' live, live⟩, fun _ same => same, ?_⟩
    intro id' created
    rw [nothing] at created
    cases created
  | none =>
    obtain ⟨nothing, free⟩ := under
    rw [nothing, List.nil_append] at grown
    rcases logged.key_free keyed (ledger ▸ free) positive with ⟨unused, free'⟩ | ⟨id, created, held⟩
    · refine ⟨none, ⟨grown.trans unused, ?_⟩, nofun, ?_⟩
      · rcases sub.idem key with same | ⟨missing, -⟩
        · exact same.trans free'
        · exact missing
      · intro id created
        rw [unused] at created
        cases created
    · have live : low + w.engine.options.idempotencyWindowMs ≤
          e₀.state.wallNow + e₀.options.idempotencyWindowMs := by
        rw [clock, options₀]
        omega
      refine ⟨some id, ⟨grown.trans created, _, kept id _ held live, live⟩, nofun, ?_⟩
      intro id' created'
      rw [created] at created'
      cases created'
      rfl

/-- A request under the key that is executed and accepted is answered with the job of the key. -/
theorem Under.answer {result : EnqueueResult} {engine : Engine} {job job' : Option Nat}
    (keyed : request.idemKey ≠ []) (under : Under request.idemKey (low + w.engine.options.idempotencyWindowMs) w job)
    (answered : w.engine.enqueue request = some (.ok result, engine))
    (stays : ∀ id, job = some id → job' = some id)
    (created : ∀ id, createdUnder request.idemKey (w.engine.written (.enqueue request)) = [id] → job' = some id) :
    job' = some result.id := by
  rcases Engine.enqueue_ok answered with ⟨live, -, -⟩ | ⟨-, rfl, written⟩
  · obtain ⟨at_, found, -⟩ := Engine.liveIdem_some keyed live
    cases job with
    | none =>
      rw [under.2] at found
      cases found
    | some id =>
      obtain ⟨-, at', held, -⟩ := under
      rw [held] at found
      cases found
      exact stays _ rfl
  · refine created _ ?_
    rw [written]
    exact List.filterMap_cons_some (if_pos rfl)

/-- Everything executed during a call is answered with the same job. -/
theorem Serving.under {job : Option Nat} (serving : Serving request low w executed w')
    (good : World.Good {} w) (keyed : request.idemKey ≠ [])
    (under : Under request.idemKey (low + w.engine.options.idempotencyWindowMs) w job) :
    ∃ job', Under request.idemKey (low + w.engine.options.idempotencyWindowMs) w' job' ∧
      (∀ id, job = some id → job' = some id) ∧
      ∀ i result, (i, .ok result) ∈ executed → job' = some result.id := by
  induction serving generalizing job with
  | done within => exact ⟨job, under, fun _ same => same, nofun⟩
  | @execute w w₁ w₂ i answer engine executed within answered next rest ih =>
    have good₁ := World.good_op good nofun next
    obtain ⟨options, job₁, under₁, stays, created⟩ := under.next good keyed next rest.within
    rw [← options] at under₁
    obtain ⟨job₂, under₂, stays₂, told⟩ := ih good₁ under₁
    rw [options] at under₂
    refine ⟨job₂, under₂, fun id same => stays₂ id (stays id same), ?_⟩
    intro k result mem
    rcases List.mem_cons.1 mem with first | later
    · cases first
      exact stays₂ _ (under.answer keyed answered stays created)
    · exact told k result later
  | @other w w₁ w₂ op executed within next rest ih =>
    have good₁ := World.good_op good nofun next
    obtain ⟨options, job₁, under₁, stays, -⟩ := under.next good keyed next rest.within
    rw [← options] at under₁
    obtain ⟨job₂, under₂, stays₂, told⟩ := ih good₁ under₁
    rw [options] at under₂
    exact ⟨job₂, under₂, fun id same => stays₂ id (stays id same), told⟩

end Keyed

/-! ## The call -/

section Call

variable {c : Connection} {key : Option String} {retryFor now : ℚ} {connected : Bool}
  {attempts : List (Attempt Nat)} {result : Except CallError Nat} {request : EnqueueRequest} {low : Int}
  {w w' : World} {executed : List (Nat × Result EnqueueResult)}

/-- Whether an execution created a job. -/
def created : Nat × Result EnqueueResult → Bool
  | (_, .ok result) => result.created
  | _ => false

end Call

end Baton.Sdk
