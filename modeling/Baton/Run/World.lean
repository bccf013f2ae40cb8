/-
# Run.World — the engine, its log, its snapshots and its restarts

A run of the server as far as the state is concerned: operations of the engine,
snapshots captured between them, and restarts.  A restart reads the log, from the
beginning or from a snapshot on, ends the replay at what the clocks read then, and
creates a new engine.

Beside the engine a world has what proofs need to name: the records that were logged
(the log has their bytes), the snapshot files that were written, and every state the
run passed through, each with the number of records logged by then.

A `Regime` says what is assumed of a run: whether a restart recovers everything that
was logged, whether the wall clock never goes back, and whether the retention and the
idempotency window stay the same over restarts.
-/
import Baton.Snapshot.Tail
import Baton.State.EngineOps
import Mathlib.Logic.Relation

namespace Baton

open Theory

set_option autoImplicit false

structure Regime where
  lossless : Bool := false
  steady : Bool := false
  sameRetention : Bool := false
  sameWindow : Bool := false

/-- The wall clock does not go back. -/
def EngineOp.Forward (now : Int) : EngineOp → Prop
  | .tick _ wall _ _ => now ≤ wall
  | _ => True

/-- The states between the records, each with the number of records before it. -/
def State.passing : Nat → List Record → State → List (Nat × State)
  | n, [], s => [(n, s)]
  | n, r :: rs, s =>
    (n, s) ::
      match s.apply r with
      | .ok (some s) => passing (n + 1) rs s
      | _ => []

structure World where
  engine : Engine
  records : List Record := []
  images : List (Nat × Bytes) := []
  trace : List (Nat × State) := []

namespace World

/-- An engine on an empty state. -/
def start (options : StateOptions) (platform : Platform) (engineOptions : EngineOptions)
    (rng : Nat → Nat) (wall : Int) (mono : Nat) : World :=
  let engine := Engine.create { options, platform } engineOptions rng 0 [] wall mono
  { engine, trace := [(0, engine.state)] }

def next (w : World) (op : EngineOp) : Option World :=
  (w.engine.step op).map fun engine =>
    { w with
      engine
      records := w.records ++ w.engine.written op
      trace := w.trace ++
        ((w.engine.begun op).map (State.passing w.records.length (w.engine.written op))).getD [] ++
        [(engine.lastLsn, engine.state)] }

/-- The state `recover_state` has before it ends the replay: from the whole log, or
from a snapshot that the log reaches and the records after it. -/
inductive Recovered (w : World) (records : List Record) (options : StateOptions) (platform : Platform)
    (s : State) : Prop where
  | log (replayed : State.replay records (State.fresh options platform) = .ok (some s))
  | snapshot {n : Nat} {file : Bytes} {sizes : ReadSizes} {info : SnapshotInfo} {loaded : State}
      (written : (n, file) ∈ w.images) (reached : n ≤ records.length)
      (load : loadSnapshot (snapshotFileName n) file sizes options platform = .ok (info, loaded))
      (replayed : State.replay (records.drop info.lsn) loaded = .ok (some s))

/-- What a restart is given: the options, the generator, and what the clocks read
during recovery and when the engine is created. -/
structure Boot where
  options : StateOptions
  platform : Platform
  engineOptions : EngineOptions
  rng : Nat → Nat
  iteration : IterationOrder
  wall : Int
  mono : Nat
  wallAgain : Int
  monoAgain : Nat

/-- What a regime asks of a restart. -/
structure Boot.Allowed (boot : Boot) (regime : Regime) (w : World) (records : List Record) : Prop where
  lossless : regime.lossless = true → records = w.records
  steady : regime.steady = true → w.engine.state.wallNow ≤ boot.wall ∧ boot.wall ≤ boot.wallAgain
  sameRetention : regime.sameRetention = true → boot.options = w.engine.state.options
  sameWindow : regime.sameWindow = true →
    boot.engineOptions.idempotencyWindowMs = w.engine.options.idempotencyWindowMs

/-- The world after a restart that found the first records of the log, and recovered
the state `s` from them. -/
def restarted (w : World) (boot : Boot) (records : List Record) (s : State) : World :=
  let engine := Engine.create s boot.engineOptions boot.rng records.length
    (w.engine.log.take records.length) boot.wallAgain boot.monoAgain
  { engine
    records
    images := w.images.filter fun image => image.1 ≤ records.length
    trace := (w.trace.filter fun passed => passed.1 ≤ records.length) ++ [(records.length, engine.state)] }

inductive Step (regime : Regime) : World → World → Prop where
  | op {w w' : World} (op : EngineOp) (forward : regime.steady = true → op.Forward w.engine.state.wallNow)
      (next : w.next op = some w') : Step regime w w'
  | capture {w : World} {iteration : IterationOrder} {createdAt : Int} {file : Bytes}
      -- every field of an image is a machine word
      (typed : (w.engine.state.captureImage iteration).Typed)
      (made : snapshotFile (w.engine.state.captureImage iteration) w.engine.lastLsn createdAt = some file) :
      Step regime w { w with images := w.images ++ [(w.engine.lastLsn, file)] }
  | restart {w : World} {records : List Record} {s s' : State} (boot : Boot)
      (found : records <+: w.records) (allowed : boot.Allowed regime w records)
      (decoded : decodeLog (w.engine.log.take records.length) = .ok records)
      (recovered : w.Recovered records boot.options boot.platform s)
      (ended : (s.setNow boot.wall boot.mono).endReplay boot.iteration boot.engineOptions.leaseGraceMs =
        some s') :
      Step regime w (w.restarted boot records s')

abbrev Runs (regime : Regime) : World → World → Prop := Relation.ReflTransGen (Step regime)

/-- A world that a run from an empty state leads to. -/
def Reachable (regime : Regime) (w : World) : Prop :=
  ∃ options platform engineOptions rng wall mono,
    Runs regime (start options platform engineOptions rng wall mono) w

/-! ## What every run keeps -/

/-- A job that may have been collected: past its retention, or only terminal where the
clock may have gone back or the retention have grown since. -/
def Gone (regime : Regime) (s : State) (job : LedgerJob) : Prop :=
  job.isTerminal = true ∧
    (regime.steady = true → regime.sameRetention = true → job.past s.options s.wallNow = true)

/-- An expiry time whose key may have been collected. -/
def Lapsed (regime : Regime) (s : State) (at_ : Int) : Prop :=
  regime.steady = true → at_ ≤ s.wallNow

/-- A state of the past is the history up to then without what it had collected. -/
structure Passed (records : List Record) (n : Nat) (s : State) : Prop where
  reached : n ≤ records.length
  shape : s.Shape
  ledger : ∃ full, Ledger.History (records.take n) full ∧
    Ledger.Sub (fun job => job.isTerminal = true) (fun _ => True) s.ledger full

/-- A snapshot file holds the image of a state of the past. -/
structure Captured (regime : Regime) (w : World) (n : Nat) (file : Bytes) (s : State) : Prop where
  reached : n ≤ w.records.length
  inv : s.StateInv State.nobody
  made : ∃ iteration createdAt, (s.captureImage iteration).Typed ∧
    snapshotFile (s.captureImage iteration) n createdAt = some file
  ledger : ∃ full, Ledger.History (w.records.take n) full ∧
    Ledger.Sub (Gone regime w.engine.state) (Lapsed regime w.engine.state) s.ledger full

structure Good (regime : Regime) (w : World) : Prop where
  inv : w.engine.state.StateInv State.nobody
  live : w.engine.state.replaying = false
  refs : w.engine.state.Refs
  full : ∃ full, Ledger.History w.records full ∧
    Ledger.Sub (Gone regime w.engine.state) (Lapsed regime w.engine.state) w.engine.state.ledger full
  log : w.engine.log = w.records.map Record.entry
  count : w.engine.lastLsn = w.records.length
  small : w.engine.lastLsn < 2 ^ 64
  images : ∀ n file, (n, file) ∈ w.images → ∃ s, w.Captured regime n file s
  trace : ∀ n s, (n, s) ∈ w.trace → Passed w.records n s

end World

end Baton
