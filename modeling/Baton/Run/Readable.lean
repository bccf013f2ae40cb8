/-
# Run.Readable — what the server logs, it reads back

The decoder takes times up to `kMaxWallTimeMs`.  With the clock below 2^49, every time an
engine computes stays below that but one: the expiry of an idempotency key, which is the
clock plus a window that the command line bounds by 2^63 only.

`readable_iff` is exact: the records of an operation come back from their bytes if and
only if a key it records expires in the decoder's range.  `unreadable_window` is a
command line that is accepted, and a log that is refused at the next start.
-/
import Baton.Run.Reachable
import Baton.Server.Config
import Baton.State.Produced

namespace Baton

open Theory

set_option autoImplicit false

/-- The bytes of a record fit a frame, and are read back as the record. -/
def Record.Readable (r : Record) : Prop :=
  r.encode.length ≤ kMaxRecordPayload ∧ decodeRecord r.typeOf r.encode = .ok r

theorem Record.wire_of_readable {r : Record} (readable : r.Readable) : r.Wire :=
  (wire_of_decode readable.2).1

/-- The key of a job that is enqueued, if it has one, expires within the range of the
decoder. -/
def Engine.KeyInRange (e : Engine) (op : EngineOp) : Prop :=
  ∀ request, op = .enqueue request → request.idemKey ≠ [] → e.Admits request →
    e.state.wallNow + e.options.idempotencyWindowMs ≤ kMaxWallTimeMs

section Wire

variable {config : ServerConfig} {wall : Int} {n : Nat} {r : Record}

/-- Within the limits of an accepted command line, only the expiry of a key can be out
of range. -/
theorem Record.wire_of_limits (accepted : config.Accepted) (clock : 0 ≤ wall ∧ wall ≤ 2 ^ 49)
    (few : n < 2 ^ 64) (sized : r.Sized config.engine.maxPayloadBytes) (timely : r.Timely config.engine wall)
    (numbered : r.Numbered n)
    (key : ∀ job, r = .jobEnqueued job → job.idemKey ≠ [] →
      wall + config.engine.idempotencyWindowMs ≤ kMaxWallTimeMs) : r.Wire := by
  have range : kMaxWallTimeMs = 2 ^ 50 := by decide
  obtain ⟨low, high⟩ := clock
  have payload := accepted.maxPayload.2
  have delay := accepted.maxDelay
  have minLease := accepted.minLease
  have maxLease := accepted.maxLease
  have window := accepted.window.1
  cases r with
  | jobEnqueued r =>
    obtain ⟨queue, body, name⟩ := sized
    obtain ⟨early, late, now, expires⟩ := timely
    simp only [kMaxQueueNameBytes, kMaxIdemKeyBytes] at queue name
    refine ⟨?_, ?_, ?_, ?_, ?_, ?_, ?_⟩
    · exact Nat.lt_of_le_of_lt numbered few
    · show r.queue.length < 2 ^ 64
      omega
    · show r.payload.length < 2 ^ 64
      omega
    · exact ⟨by omega, by omega⟩
    · show r.idemKey.length < 2 ^ 64
      omega
    · rw [expires]
      split
      · exact ⟨Int.le_refl _, by omega⟩
      · rename_i keyed
        have inRange := key r rfl (by simpa using keyed)
        exact ⟨by omega, inRange⟩
    · exact ⟨by omega, by omega⟩
  | jobLeased r | leaseExtended r =>
    obtain ⟨early, late, now⟩ := timely
    exact ⟨Nat.lt_of_le_of_lt numbered.1 few, Nat.lt_of_le_of_lt numbered.2 few, ⟨by omega, by omega⟩,
      ⟨by omega, by omega⟩⟩
  | jobSucceeded r =>
    have timely : r.at_ = wall := timely
    exact ⟨Nat.lt_of_le_of_lt numbered.1 few, Nat.lt_of_le_of_lt numbered.2 few, ⟨by omega, by omega⟩⟩
  | attemptFailed r =>
    obtain ⟨now, retry⟩ := timely
    have text : r.error.length ≤ 1024 := sized
    refine ⟨Nat.lt_of_le_of_lt numbered.1 few, Nat.lt_of_le_of_lt numbered.2 few, ?_, ⟨by omega, by omega⟩,
      ⟨by omega, by omega⟩⟩
    show r.error.length < 2 ^ 64
    omega
  | jobCancelled r =>
    have timely : r.at_ = wall := timely
    exact ⟨Nat.lt_of_le_of_lt numbered few, ⟨by omega, by omega⟩⟩
  | deadJobRetried r =>
    obtain ⟨due, now⟩ := timely
    exact ⟨Nat.lt_of_le_of_lt numbered few, ⟨by omega, by omega⟩, ⟨by omega, by omega⟩⟩
  | jobsPurged r =>
    have count : r.ids.length ≤ Engine.kPurgeChunk := sized
    simp only [Engine.kPurgeChunk] at count
    refine ⟨?_, fun id mem => Nat.lt_of_le_of_lt (numbered id mem) few⟩
    show r.ids.length < 2 ^ 64
    omega

end Wire

namespace Engine

variable {e : Engine} {op : EngineOp}

/-- Only an enqueue that is admitted asks for a new job. -/
theorem requested_enqueued {job : JobEnqueued} (mem : .jobEnqueued job ∈ (e.requested op).2) :
    ∃ request, op = .enqueue request ∧ job = e.enqueueRecord request ∧ e.Admits request := by
  rcases requested_builds e op with nothing | builds
  · rw [nothing] at mem
    cases mem
  generalize e.requested op = built at builds mem
  cases builds with
  | @enqueue request admits =>
    cases List.mem_singleton.1 mem
    exact ⟨request, rfl, rfl, admits⟩
  | _ => simp at mem

theorem written_enqueued {job : JobEnqueued} (inv : e.state.StateInv State.nobody)
    (live : e.state.replaying = false) (mem : .jobEnqueued job ∈ e.written op) :
    ∃ request, op = .enqueue request ∧ job = e.enqueueRecord request ∧ e.Admits request := by
  have asked : Record.jobEnqueued job ∈ (e.requested op).2 := by
    refine @written_each e (fun r => ∀ job, r = .jobEnqueued job → r ∈ (e.requested op).2) op inv live
      (fun r asked _ _ => asked) ?_ _ mem job rfl
    intro e' failed _ _ _ _ job same
    cases same
  exact requested_enqueued asked

end Engine

namespace World

variable {regime : Regime} {w w' : World} {op : EngineOp} {config : ServerConfig}

/-- Every record of an operation is within the range of the decoder, where its key is. -/
theorem written_wire (good : Good regime w) (good' : Good regime w') (next : w.next op = some w')
    (accepted : config.Accepted) (configured : w.engine.options = config.engine)
    (clock : 0 ≤ op.clock w.engine.state.wallNow ∧ op.clock w.engine.state.wallNow ≤ 2 ^ 49)
    (keys : w.engine.KeyInRange op) : ∀ r ∈ w.engine.written op, r.Wire := by
  obtain ⟨e', stepped, rfl⟩ := Option.map_eq_some_iff.1 next
  obtain ⟨full, history, -⟩ := good'.full
  have few : (w.records ++ w.engine.written op).length < 2 ^ 64 := by
    rw [← good'.count]
    exact good'.small
  intro r mem
  have sized := Engine.written_sized op good.inv good.live r mem
  have timely := Engine.written_timely op good.inv good.live r mem
  rw [configured] at sized timely
  refine Record.wire_of_limits accepted clock few sized timely
    (history.numbered r (List.mem_append_right _ mem)) ?_
  rintro job rfl keyed
  obtain ⟨request, rfl, rfl, admits⟩ := Engine.written_enqueued good.inv good.live mem
  have inRange := keys request rfl keyed admits
  rw [configured] at inRange
  exact inRange

/-- The log goes on to be readable exactly where the new records are. -/
theorem decodeLog_next (good' : Good regime w') (next : w.next op = some w')
    (before : decodeLog w.engine.log = .ok w.records) :
    decodeLog w'.engine.log = .ok w'.records ↔ ∀ r ∈ w.engine.written op, r.Wire := by
  obtain ⟨e', stepped, rfl⟩ := Option.map_eq_some_iff.1 next
  rw [good'.log]
  constructor
  · intro decoded r mem
    exact wire_of_decodeLog decoded r (List.mem_append_right _ mem)
  · intro wire
    apply decodeLog_entries
    intro r mem
    rcases List.mem_append.1 mem with old | new
    · exact wire_of_decodeLog before r old
    · exact wire r new

/-- Whatever the command line that was accepted, and with the clock between 0 and 2^49:
each record that an operation logs fits a frame and is read back as it was, and a log that
could be read can still be read, if and only if the key that the operation records, if
any, expires within the range of the decoder. -/
theorem readable_iff {args : List Text} {environment : Option Text} {parsed : ParsedArgs}
    (accepted : Config.parseArgs args environment = .ok parsed) (reachable : w.Reachable regime)
    (configured : w.engine.options = parsed.config.engine)
    (forward : regime.steady = true → op.Forward w.engine.state.wallNow) (next : w.next op = some w')
    (clock : 0 ≤ op.clock w.engine.state.wallNow ∧ op.clock w.engine.state.wallNow ≤ 2 ^ 49) :
    ((∀ r ∈ w.engine.written op, r.Readable) ↔ w.engine.KeyInRange op) ∧
      (decodeLog w.engine.log = .ok w.records →
        (decodeLog w'.engine.log = .ok w'.records ↔ w.engine.KeyInRange op)) := by
  have limits := Config.parseArgs_accepted accepted
  have good := good_reachable reachable
  have good' := good_op good forward next
  have wire : (∀ r ∈ w.engine.written op, r.Wire) ↔ w.engine.KeyInRange op := by
    constructor
    · rintro wire request rfl keyed admits
      have mem : .jobEnqueued (w.engine.enqueueRecord request) ∈
          (w.engine.requested (.enqueue request)).2 := by
        rw [admits.requested]
        exact List.mem_singleton_self _
      obtain ⟨-, -, -, -, -, expires, -⟩ := wire _ mem
      have keyed : ¬ request.idemKey.isEmpty = true := by simpa using keyed
      have expires : TimeInRange (if request.idemKey.isEmpty then 0 else _) := expires
      rw [if_neg keyed] at expires
      exact expires.2
    · exact written_wire good good' next limits configured clock
  refine ⟨⟨?_, ?_⟩, ?_⟩
  · intro readable
    exact wire.1 fun r mem => Record.wire_of_readable (readable r mem)
  · intro keys r mem
    have sized := Engine.written_sized op good.inv good.live r mem
    rw [configured] at sized
    exact ⟨sized.encode limits.maxPayload.2, decodeRecord_encode (wire.2 keys r mem)⟩
  · intro before
    exact (decodeLog_next good' next before).trans wire

/-- The job with a key that both poles enqueue. -/
def keyedRequest : EnqueueRequest := { queue := [113], payload := [7], idemKey := [107] }

/-- The arguments of a window of two hours. -/
def shortWindow : List Text := [Config.Flag.text .idempotencyWindow, ['2', 'h']]

/-- With one job dead, one leased and one that waits, the log with the new key is read back. -/
theorem readable_iff_mixed :
    ∃ parsed w w', Config.parseArgs shortWindow none = .ok parsed ∧ Reachable {} w ∧
      w.engine.options = parsed.config.engine ∧ w.jobStates = [some .kDead, some .kLeased, some .kReady] ∧
      w.next (.enqueue keyedRequest) = some w' ∧ w'.records.length = 7 ∧
      decodeLog w'.engine.log = .ok w'.records := by
  obtain ⟨parsed, accepted, options⟩ : ∃ parsed, Config.parseArgs shortWindow none = .ok parsed ∧
      parsed.config.engine = { idempotencyWindowMs := 2 * 3600000 } := ⟨_, rfl, rfl⟩
  have mixed : (requests mixedJobs (start {} samplePlatform { idempotencyWindowMs := 2 * 3600000 }
      (fun _ => 0) 1000 0)).any (fun w =>
      w.jobStates == [some .kDead, some .kLeased, some .kReady] && w.engine.state.wallNow == 1000 &&
        w.engine.options == { idempotencyWindowMs := 2 * 3600000 } && decodeLog w.engine.log == .ok w.records &&
        (w.next (.enqueue keyedRequest)).any (·.records.length == 7)) = true := by
    decide +kernel
  obtain ⟨w, ran, facts⟩ := (Option.any_eq_true _ _).1 mixed
  simp only [Bool.and_eq_true, beq_iff_eq] at facts
  obtain ⟨⟨⟨⟨states, now⟩, configured⟩, before⟩, grows⟩ := facts
  obtain ⟨w', next, count⟩ := (Option.any_eq_true _ _).1 grows
  have reachable := reachable_of_start ran
  have keys : w.engine.KeyInRange (.enqueue keyedRequest) := by
    intro _ _ _ _
    rw [now, configured]
    decide
  have clock : 0 ≤ w.engine.state.wallNow ∧ w.engine.state.wallNow ≤ 2 ^ 49 := by
    rw [now]
    decide
  rw [← options] at configured
  have readable := (readable_iff accepted reachable configured nofun next clock).2 before
  exact ⟨parsed, w, w', accepted, reachable, configured, states, next, beq_iff_eq.1 count, readable.2 keys⟩

/-- The first request of a run, with a key. -/
def firstKeyed (options : EngineOptions) : Option World :=
  (start {} samplePlatform options (fun _ => 0) 0 0).next (.enqueue keyedRequest)

/-- The arguments of a window of twenty million days. -/
def longWindow : List Text :=
  [Config.Flag.text .idempotencyWindow, ['2', '0', '0', '0', '0', '0', '0', '0', 'd']]

/-- They are accepted; the first job with a key is logged, and the log is refused. -/
theorem unreadable_window :
    ∃ parsed w', Config.parseArgs longWindow none = .ok parsed ∧
      firstKeyed parsed.config.engine = some w' ∧ Reachable {} w' ∧ w'.records.length = 1 ∧
      (decodeLog w'.engine.log).ok? = false := by
  obtain ⟨parsed, accepted, options⟩ : ∃ parsed, Config.parseArgs longWindow none = .ok parsed ∧
      parsed.config.engine = { idempotencyWindowMs := 20000000 * 86400000 } := ⟨_, rfl, rfl⟩
  have refused : (firstKeyed { idempotencyWindowMs := 20000000 * 86400000 }).any (fun w' =>
      decide (w'.records.length = 1) && !(decodeLog w'.engine.log).ok?) = true := by decide +kernel
  rw [← options] at refused
  obtain ⟨w', next, found⟩ := (Option.any_eq_true _ _).1 refused
  obtain ⟨count, unread⟩ := Bool.and_eq_true_iff.1 found
  refine ⟨parsed, w', accepted, next, ?_, of_decide_eq_true count, by simpa using unread⟩
  exact ⟨{}, samplePlatform, parsed.config.engine, fun _ => 0, 0, 0, .single (.op _ nofun next)⟩

end World

end Baton
