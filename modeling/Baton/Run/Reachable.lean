/-
# Run.Reachable — the invariant of every run

`good_step` is the one induction step of everything that is proved about runs: an
operation adds what it logs to the history and forgets only what is past its
retention; a snapshot holds a state of the past; and a restart leads back to the
history it replayed.
-/
import Baton.Run.World
import Baton.Snapshot.Building

namespace Baton

open Theory

set_option autoImplicit false

namespace World

variable {regime : Regime} {w w' : World}

/-! ## Jobs and keys that may be gone -/

section Gone

variable {s s' : State} {job : LedgerJob} {at_ : Int}

/-- What a regime says of a later state. -/
structure Later (regime : Regime) (s s' : State) : Prop where
  clock : regime.steady = true → s.wallNow ≤ s'.wallNow
  options : regime.sameRetention = true → s'.options = s.options

/-- Once gone, gone for good. -/
theorem Gone.later (later : Later regime s s') (gone : Gone regime s job) : Gone regime s' job := by
  refine ⟨gone.1, ?_⟩
  intro steady same
  rw [later.options same]
  exact LedgerJob.past_mono (later.clock steady) (gone.2 steady same)

theorem Lapsed.later (later : Later regime s s') (lapsed : Lapsed regime s at_) : Lapsed regime s' at_ :=
  fun steady => Int.le_trans (lapsed steady) (later.clock steady)

theorem gone_of_past (past : job.past s.options s.wallNow = true) : Gone regime s job :=
  ⟨LedgerJob.isTerminal_of_past past, fun _ _ => past⟩

/-- The related ledgers at a later time. -/
theorem sub_later {live full : Ledger} (later : Later regime s s')
    (sub : Ledger.Sub (Gone regime s) (Lapsed regime s) live full) :
    Ledger.Sub (Gone regime s') (Lapsed regime s') live full :=
  sub.weaken (fun _ gone => gone.later later) (fun _ lapsed => lapsed.later later)

end Gone

variable {full : Ledger} {records : List Record} {s : State} {ops : List EngineOp}

/-- The past does not change when records are added. -/
theorem Passed.append {n : Nat} (passed : Passed records n s)
    (more : List Record) : Passed (records ++ more) n s := by
  refine ⟨?_, passed.shape, ?_⟩
  · rw [List.length_append]
    exact Nat.le_trans passed.reached (Nat.le_add_right _ _)
  · rw [List.take_append_of_le_length passed.reached]
    exact passed.ledger

/-- The past before a point is that of the records up to there. -/
theorem Passed.restart {records kept : List Record} {n : Nat} {s : State} (passed : Passed records n s)
    (found : kept <+: records) (reached : n ≤ kept.length) : Passed kept n s := by
  refine ⟨reached, passed.shape, ?_⟩
  obtain ⟨lost, whole⟩ := found
  rw [← @List.take_append_of_le_length _ _ lost _ reached, whole]
  exact passed.ledger

theorem Captured.later {n : Nat} {file : Bytes} {s : State} (captured : w.Captured regime n file s)
    (reached : n ≤ w'.records.length) (same : w'.records.take n = w.records.take n)
    (later : Later regime w.engine.state w'.engine.state) : w'.Captured regime n file s := by
  obtain ⟨full, history, sub⟩ := captured.ledger
  refine ⟨reached, captured.inv, captured.made, full, ?_, sub_later later sub⟩
  rw [same]
  exact history

/-! ## The start -/

theorem good_start (options : StateOptions) (platform : Platform) (engineOptions : EngineOptions)
    (rng : Nat → Nat) (wall : Int) (mono : Nat) :
    Good regime (start options platform engineOptions rng wall mono) := by
  have inv : State.StateInv (start options platform engineOptions rng wall mono).engine.state State.nobody :=
    (State.inv_empty options platform false).unindexed (Nat.le_refl _) (Nat.le_refl _)
  have empty : (start options platform engineOptions rng wall mono).engine.state.ledger = {} := by
    apply Ledger.ext <;> rfl
  refine ⟨inv, rfl, ?_, ⟨{}, .nil, ?_⟩, rfl, rfl, Nat.two_pow_pos 64, ?_, ?_⟩
  · intro ref mem
    cases mem
  · rw [empty]
    exact Ledger.Sub.refl _
  · intro n file mem
    cases mem
  · intro n s mem
    cases List.mem_singleton.1 mem
    refine ⟨Nat.le_refl _, inv.shape, {}, .nil, ?_⟩
    show Ledger.Sub _ _ (start options platform engineOptions rng wall mono).engine.state.ledger {}
    exact Ledger.Sub.refl _

/-! ## Operations -/

/-- The states between the records of an operation. -/
theorem passing_passed {e e' : Engine} {rs before : List Record} {n m : Nat}
    (logged : Engine.Logged e rs e') (last : e'.state.Shape) (count : n = before.length)
    (history : Ledger.History before full)
    (sub : Ledger.Sub (fun job => job.isTerminal = true) (fun _ => True) e.state.ledger full)
    (mem : (m, s) ∈ State.passing n rs e.state) : Passed (before ++ rs) m s := by
  induction logged generalizing before full n with
  | done e =>
    cases List.mem_singleton.1 mem
    rw [List.append_nil, count]
    refine ⟨Nat.le_refl _, last, full, ?_, sub⟩
    rw [List.take_length]
    exact history
  | @log e e' r rs away state drawn inv issued applied small rest ih =>
    have step := State.apply_step inv applied
    obtain ⟨full', step', sub'⟩ := sub.step step
    rw [State.passing, applied] at mem
    rcases List.mem_cons.1 mem with first | later
    · cases first
      have here : Passed before before.length e.state := by
        refine ⟨Nat.le_refl _, inv.shape, full, ?_, sub⟩
        rw [List.take_length]
        exact history
      rw [count]
      exact here.append _
    · rw [List.append_cons]
      refine ih last ?_ (history.snoc (issued.vouched sub) step') sub' later
      rw [List.length_append, count]
      rfl

theorem good_op {op : EngineOp} (good : Good regime w)
    (forward : regime.steady = true → op.Forward w.engine.state.wallNow) (next : w.next op = some w') :
    Good regime w' := by
  obtain ⟨e', stepped, rfl⟩ := Option.map_eq_some_iff.1 next
  obtain ⟨e₀, e₁, operated⟩ := Engine.step_operated good.inv good.live stepped
  obtain ⟨full, history, sub⟩ := good.full
  have appended := operated.logged.appended
  have refs₁ : e₁.state.Refs := appended.refs (operated.startRefs good.refs)
  have options : e'.state.options = w.engine.state.options :=
    operated.finish.stateOptions.trans (appended.stateOptions.trans operated.start.stateOptions)
  have clock : e'.state.wallNow = op.clock w.engine.state.wallNow :=
    operated.finishClock.trans (appended.wallNow.trans operated.startClock)
  have later : Later regime w.engine.state e'.state := by
    refine ⟨fun steady => ?_, fun _ => options⟩
    rw [clock]
    have moved := forward steady
    cases op with
    | tick iteration wall mono monoAgain => exact moved
    | _ => exact Int.le_refl _
  have sub₀ : Ledger.Sub (Gone regime e'.state) (Lapsed regime e'.state) e₀.state.ledger full := by
    rw [operated.startLedger]
    exact sub_later later sub
  obtain ⟨full', history', sub'⟩ := operated.logged.history history sub₀
  have collected : Ledger.Sub (Gone regime e'.state) (Lapsed regime e'.state) e'.state.ledger
      e₁.state.ledger := by
    refine (operated.collected refs₁).weaken ?_ ?_
    · intro job past
      rw [← operated.finish.stateOptions, ← operated.finishClock] at past
      exact gone_of_past past
    · intro at_ expired _
      rw [operated.finishClock]
      exact expired
  have log : e'.log = (w.records ++ w.engine.written op).map Record.entry := by
    rw [operated.finish.log, appended.log, operated.start.log, good.log, List.map_append]
  have count : e'.lastLsn = (w.records ++ w.engine.written op).length := by
    rw [operated.finish.lastLsn, appended.lastLsn, operated.start.lastLsn, good.count, List.length_append]
  refine ⟨operated.inv, ?_, operated.finishRefs refs₁, ⟨full', history', collected.trans sub'⟩, log, count,
    ?_, ?_, ?_⟩
  · exact operated.finish.replaying.trans
      (appended.replaying.trans (operated.start.replaying.trans good.live))
  · show e'.lastLsn < _
    rw [operated.finish.lastLsn]
    apply appended.small
    rw [operated.start.lastLsn]
    exact good.small
  · intro n file mem
    obtain ⟨s, captured⟩ := good.images n file mem
    refine ⟨s, captured.later ?_ ?_ later⟩
    · show n ≤ (w.records ++ w.engine.written op).length
      rw [List.length_append]
      exact Nat.le_trans captured.reached (Nat.le_add_right _ _)
    · show (w.records ++ w.engine.written op).take n = _
      exact List.take_append_of_le_length captured.reached
  · intro n s mem
    -- states of the past, states between the records, and the state at the end
    rcases List.mem_append.1 mem with mem | last
    · rcases List.mem_append.1 mem with past | between
      · exact (good.trace n s past).append _
      · rw [operated.begun] at between
        have terminal : Ledger.Sub (fun job => job.isTerminal = true) (fun _ => True) e₀.state.ledger full :=
          sub₀.weaken (fun _ gone => gone.1) (fun _ _ => trivial)
        exact passing_passed operated.logged operated.loggedInv.shape rfl history terminal between
    · cases List.mem_singleton.1 last
      rw [count]
      refine ⟨Nat.le_refl _, operated.inv.shape, full', ?_, ?_⟩
      · rw [List.take_length]
        exact history'
      · exact (collected.trans sub').weaken (fun _ gone => gone.1) (fun _ _ => trivial)

/-! ## Snapshots -/

theorem good_capture {iteration : IterationOrder} {createdAt : Int} {file : Bytes} (good : Good regime w)
    (typed : (w.engine.state.captureImage iteration).Typed)
    (made : snapshotFile (w.engine.state.captureImage iteration) w.engine.lastLsn createdAt = some file) :
    Good regime { w with images := w.images ++ [(w.engine.lastLsn, file)] } := by
  refine { good with images := ?_ }
  intro n file' mem
  rcases List.mem_append.1 mem with old | new
  · obtain ⟨s, captured⟩ := good.images n file' old
    exact ⟨s, captured.later captured.reached rfl ⟨fun _ => Int.le_refl _, fun _ => rfl⟩⟩
  · cases List.mem_singleton.1 new
    obtain ⟨full, history, sub⟩ := good.full
    refine ⟨w.engine.state, Nat.le_of_eq good.count, good.inv, ⟨iteration, createdAt, typed, made⟩, full, ?_, sub⟩
    rw [good.count, List.take_length]
    exact history

/-! ## Restarts -/

/-- What recovery replays is the history of the records it found, without what a
snapshot had already forgotten. -/
theorem recovered_ledger {options : StateOptions} {platform : Platform} (good : Good regime w)
    (found : records <+: w.records) (history : Ledger.History records full) (recovered : w.Recovered records options platform s) :
    s.Replaying ∧ s.options = options ∧
      Ledger.Sub (Gone regime w.engine.state) (Lapsed regime w.engine.state) s.ledger full := by
  cases recovered with
  | log replayed =>
    have fresh := State.replaying_fresh options platform
    obtain ⟨at_s, ledger⟩ := fresh.replay replayed
    rw [State.ledger_fresh, history.replay] at ledger
    refine ⟨at_s, (fresh.madeWith replayed ⟨rfl, rfl⟩).1, ?_⟩
    rw [← Except.ok.inj ledger]
    exact Ledger.Sub.refl _
  | @snapshot n file sizes info loaded written reached load replayed =>
    obtain ⟨image, captured⟩ := good.images n file written
    obtain ⟨iteration, createdAt, typed, made⟩ := captured.made
    obtain ⟨before, history_n, sub⟩ := captured.ledger
    have small : n < 2 ^ 64 := by
      have := captured.reached
      have := good.small
      rw [good.count] at this
      omega
    obtain ⟨lsn, restored⟩ :=
      (loadSnapshot_image captured.inv typed small made sizes options platform).1 info loaded load
    rw [lsn] at replayed
    have at_loaded := restored.state
    obtain ⟨at_s, ledger⟩ := at_loaded.replay replayed
    rw [restored.ledger] at ledger
    obtain ⟨full', rest, sub'⟩ := sub.replay ledger
    have same : w.records.take n = records.take n := by
      obtain ⟨lost, whole⟩ := found
      rw [← whole, List.take_append_of_le_length reached]
    rw [same] at history_n
    have history_all := history
    rw [← List.take_append_drop n records] at history_all
    rw [history_all.rest history_n] at rest
    cases rest
    exact ⟨at_s, (at_loaded.madeWith replayed (loadSnapshot_madeWith load)).1, sub'⟩

theorem good_restart {s' : State} (boot : Boot) (good : Good regime w)
    (found : records <+: w.records) (allowed : boot.Allowed regime w records)
    (recovered : w.Recovered records boot.options boot.platform s)
    (ended : (s.setNow boot.wall boot.mono).endReplay boot.iteration boot.engineOptions.leaseGraceMs =
      some s') : Good regime (w.restarted boot records s') := by
  obtain ⟨lost, whole⟩ := found
  obtain ⟨all, history_all, -⟩ := good.full
  rw [← whole] at history_all
  obtain ⟨full, history⟩ := history_all.start
  obtain ⟨at_s, options, sub⟩ := recovered_ledger good ⟨lost, whole⟩ history recovered
  have inv_now : State.StateInv (s.setNow boot.wall boot.mono) State.nobody :=
    at_s.inv.unindexed (Nat.le_refl _) (Nat.le_refl _)
  obtain ⟨inv', refs, live, options', -, wallNow, collected, -⟩ := State.endReplay_ledger inv_now ended
  have options' : s'.options = boot.options := options'.trans options
  set w' := w.restarted boot records s' with w'_eq
  have inv_w' : w'.engine.state.StateInv State.nobody := inv'.unindexed (Nat.le_refl _) (Nat.le_refl _)
  -- the clock is read again when the engine is created
  have later : Later regime w.engine.state w'.engine.state := by
    refine ⟨fun steady => ?_, fun same => options'.trans (allowed.sameRetention same)⟩
    obtain ⟨forward, again⟩ := allowed.steady steady
    exact Int.le_trans forward again
  have forgotten : Ledger.Sub (Gone regime w'.engine.state) (Lapsed regime w'.engine.state) s'.ledger s.ledger := by
    refine collected.weaken ?_ ?_
    · intro job past
      refine ⟨LedgerJob.isTerminal_of_past past, ?_⟩
      intro steady _
      show job.past s'.options boot.wallAgain = true
      rw [options', ← options]
      exact LedgerJob.past_mono (allowed.steady steady).2 past
    · intro at_ expired steady
      exact Int.le_trans expired (allowed.steady steady).2
  have sub' : Ledger.Sub (Gone regime w'.engine.state) (Lapsed regime w'.engine.state) s'.ledger full :=
    forgotten.trans (sub_later later sub)
  have length : records.length ≤ w.records.length := by
    rw [← whole, List.length_append]
    exact Nat.le_add_right _ _
  refine ⟨inv_w', live, refs.congr rfl rfl, ⟨full, history, sub'⟩, ?_, rfl, ?_, ?_, ?_⟩
  · show w.engine.log.take records.length = records.map Record.entry
    rw [good.log, ← whole, List.map_append, List.take_left' (List.length_map _)]
  · show records.length < 2 ^ 64
    have := good.small
    rw [good.count] at this
    omega
  · intro n file mem
    obtain ⟨written, reached⟩ := List.mem_filter.1 mem
    have reached : n ≤ records.length := of_decide_eq_true reached
    obtain ⟨image, captured⟩ := good.images n file written
    refine ⟨image, captured.later reached ?_ later⟩
    show records.take n = w.records.take n
    rw [← whole, List.take_append_of_le_length reached]
  · intro n passed mem
    rcases List.mem_append.1 mem with past | last
    · obtain ⟨past, reached⟩ := List.mem_filter.1 past
      exact (good.trace n passed past).restart ⟨lost, whole⟩ (of_decide_eq_true reached)
    · cases List.mem_singleton.1 last
      refine ⟨Nat.le_refl _, inv_w'.shape, full, ?_, ?_⟩
      · show Ledger.History (records.take records.length) full
        rw [List.take_length]
        exact history
      · exact sub'.weaken (fun _ gone => gone.1) (fun _ _ => trivial)

/-! ## Runs -/

theorem good_step (good : Good regime w) (step : Step regime w w') : Good regime w' := by
  cases step with
  | op op forward next => exact good_op good forward next
  | capture typed made => exact good_capture good typed made
  | restart boot found allowed decoded recovered ended => exact good_restart boot good found allowed recovered ended

theorem good_runs (good : Good regime w) (run : Runs regime w w') : Good regime w' := by
  induction run with
  | refl => exact good
  | tail before step ih => exact good_step ih step

/-- Where restarts recover what was logged, the log only grows. -/
theorem records_grow (lossless : regime.lossless = true) (step : Step regime w w') :
    w.records <+: w'.records := by
  cases step with
  | op op forward next =>
    obtain ⟨engine, -, rfl⟩ := Option.map_eq_some_iff.1 next
    exact List.prefix_append _ _
  | capture typed made => exact List.prefix_refl _
  | restart boot found allowed decoded recovered ended =>
    rw [← allowed.lossless lossless]
    exact List.prefix_refl _

theorem runs_grow (lossless : regime.lossless = true) (run : Runs regime w w') : w.records <+: w'.records := by
  induction run with
  | refl => exact List.prefix_refl _
  | tail _ step ih => exact ih.trans (records_grow lossless step)

theorem good_reachable (reachable : Reachable regime w) : Good regime w := by
  obtain ⟨options, platform, engineOptions, rng, wall, mono, run⟩ := reachable
  exact good_runs (good_start options platform engineOptions rng wall mono) run

theorem Reachable.trans (reachable : Reachable regime w) (run : Runs regime w w') : Reachable regime w' := by
  obtain ⟨options, platform, engineOptions, rng, wall, mono, before⟩ := reachable
  exact ⟨options, platform, engineOptions, rng, wall, mono, before.trans run⟩

/-- What the start has and every step keeps, every reachable world has. -/
theorem Reachable.keeps {P : World → Prop} (reachable : Reachable regime w)
    (first : ∀ options platform engineOptions rng wall mono, P (start options platform engineOptions rng wall mono))
    (step_keeps : ∀ w w', Good regime w → Step regime w w' → P w → P w') : P w := by
  obtain ⟨options, platform, engineOptions, rng, wall, mono, run⟩ := reachable
  induction run with
  | refl => exact first _ _ _ _ _ _
  | tail before step ih => exact step_keeps _ _ (good_runs (good_start _ _ _ _ _ _) before) step ih

/-- The requests one after the other. -/
def requests : List EngineOp → World → Option World
  | [], w => some w
  | op :: ops, w => (w.next op).bind (requests ops)

theorem reachable_requests (reachable : w.Reachable {})
    (ran : requests ops w = some w') : w'.Reachable {} := by
  induction ops generalizing w with
  | nil =>
    cases ran
    exact reachable
  | cons op ops ih =>
    obtain ⟨next, stepped, rest⟩ := Option.bind_eq_some_iff.1 ran
    exact ih (reachable.trans (.single (.op op nofun stepped))) rest

theorem reachable_of_start {engineOptions : EngineOptions} {rng : Nat → Nat} {wall : Int}
    (ran : requests ops (start {} samplePlatform engineOptions rng wall 0) = some w) : w.Reachable {} :=
  reachable_requests ⟨{}, samplePlatform, engineOptions, rng, wall, 0, .refl⟩ ran

/-- Three jobs: the first is dead, the second is leased, the third waits. -/
def mixedJobs : List EngineOp :=
  [.enqueue { queue := [113], payload := [7], maxAttempts := some 1 }, .reserve [[113]] 500,
    .fail { id := 1, token := 1 }, .enqueue { queue := [113], payload := [8] }, .reserve [[113]] 500,
    .enqueue { queue := [114], payload := [9] }]

def jobStates (w : World) : List (Option JobState) :=
  [1, 2, 3].map fun id => (w.engine.state.findJob id).map Job.state

end World

end Baton
