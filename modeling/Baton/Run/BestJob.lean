/-
# Run.BestJob — a reservation is the best job of the first queue that has one

The heap of a queue holds exactly its ready jobs, whatever was cancelled from its
middle and however often it was rebuilt, and its root is before every other job in it.
So `reserve` finds a job exactly when there is one to find, and the one it leases runs
before all the others of its queue.
-/
import Baton.Run.Attempts

namespace Baton

open Theory

set_option autoImplicit false

/-- The job runs earlier: higher priority first, then by the time to run, then by id. -/
def Job.Ahead (a b : Job) : Prop :=
  b.priority.toInt < a.priority.toInt ∨
    (a.priority.toInt = b.priority.toInt ∧ (a.runAt < b.runAt ∨ (a.runAt = b.runAt ∧ a.id < b.id)))

namespace State

/-- A ready job of a queue. -/
def Ready (s : State) (name : Bytes) (id : Nat) (job : Job) : Prop :=
  s.findJob id = some job ∧ job.queue = name ∧ job.state = .kReady

variable {s : State} {name : Bytes} {l : List Nat} {id id' : Nat} {job job' : Job}

theorem ready_nonempty_iff (inv : StateInv s nobody) :
    (∃ l, s.readyOf name = some l ∧ l ≠ []) ↔ ∃ id job, s.Ready name id job := by
  constructor
  · rintro ⟨l, ready, some_job⟩
    obtain ⟨id, mem⟩ := List.exists_mem_of_ne_nil l some_job
    obtain ⟨job, is_ready⟩ := (mem_ready_iff inv ready).1 mem
    exact ⟨id, job, is_ready⟩
  · rintro ⟨id, job, is_ready⟩
    -- the queue of a job is there
    obtain ⟨q, queue⟩ := Option.isSome_iff_exists.1 (inv.shape.jobQueues id job is_ready.1)
    have ready : s.readyOf name = some q.ready := by
      unfold readyOf
      rw [← is_ready.2.1, queue]
      rfl
    exact ⟨q.ready, ready, List.ne_nil_of_mem ((mem_ready_iff inv ready).2 ⟨job, is_ready⟩)⟩

/-- The job at the root of a heap is ahead of every other ready job of the queue. -/
theorem root_ahead (inv : StateInv s nobody) (ready : s.readyOf name = some l) (root : l[0]? = some id)
    (at_root : s.findJob id = some job) (other : s.Ready name id' job') (ne : id' ≠ id) : job.Ahead job' := by
  have valid := inv.shape.heaps.valid name l ready
  obtain ⟨j, at_j⟩ := List.mem_iff_getElem?.1 ((mem_ready_iff inv ready).2 ⟨job', other⟩)
  have not_first : s.before id' id = false := valid.root_first s.before_strict root at_j
  have job_id := inv.shape.jobIds id job at_root
  have job_id' := inv.shape.jobIds id' job' other.1
  have lookup : s.jobs.lookup id = some job := at_root
  have lookup' : s.jobs.lookup id' = some job' := other.1
  unfold State.before at not_first
  rw [lookup, lookup', Option.getD_some, Option.getD_some, Bool.eq_false_iff, ne_eq, Job.before_iff] at not_first
  unfold Job.Ahead
  omega

end State

namespace Engine

variable {e e' : Engine} {queues : List Bytes} {leaseMs : Int}

/-- The arguments of `reserve` that are not refused. -/
structure Reservable (e : Engine) (queues : List Bytes) (leaseMs : Int) : Prop where
  named : queues ≠ []
  valid : ∀ name ∈ queues, isValidQueueName name = true
  low : e.options.minLeaseMs ≤ leaseMs
  high : leaseMs ≤ e.options.maxLeaseMs

theorem reserve_eq (valid : e.Reservable queues leaseMs) :
    e.reserve queues leaseMs =
      match e.firstReady queues with
      | none => some (.ok none, e)
      | some (queue, id) =>
        (e.logAndApply (.jobLeased ⟨id, e.state.nextToken, e.state.wallNow + leaseMs, e.state.wallNow⟩)).map
          fun e => (.ok (reservation e.state queue id), e) := by
  have named : ¬ queues.isEmpty = true := fun empty => valid.named (List.isEmpty_iff.1 empty)
  have names : ¬ (!queues.all isValidQueueName) = true := by
    rw [List.all_eq_true.2 valid.valid]
    exact Bool.false_ne_true
  have within : ¬ (leaseMs < e.options.minLeaseMs ∨ e.options.maxLeaseMs < leaseMs) := by
    have low := valid.low
    have high := valid.high
    omega
  exact (if_neg named).trans ((if_neg names).trans (if_neg within))

/-- What is handed out: the root of the first heap that has one. -/
theorem reserve_some {answer : Result (Option Reservation)} (inv : e.state.StateInv State.nobody)
    (valid : e.Reservable queues leaseMs) (reserved : e.reserve queues leaseMs = some (answer, e')) :
    (answer = .ok none ∧ ∀ name ∈ queues, ∀ l, e.state.readyOf name = some l → l = []) ∨
      ∃ given before after l, answer = .ok (some given) ∧ queues = before ++ given.queue :: after ∧
        e.state.readyOf given.queue = some l ∧ l[0]? = some given.id ∧
        ∀ name ∈ before, ∀ l, e.state.readyOf name = some l → l = [] := by
  rw [reserve_eq valid] at reserved
  have spec := e.firstReady_spec queues
  cases first : e.firstReady queues with
  | none =>
    rw [first] at reserved spec
    cases reserved
    exact Or.inl ⟨rfl, spec⟩
  | some found =>
    obtain ⟨queue, id⟩ := found
    rw [first] at reserved spec
    obtain ⟨before, after, l, split, ready, root, idle⟩ := spec
    obtain ⟨after', logged, result⟩ := Option.map_eq_some_iff.1 reserved
    cases result
    obtain ⟨state, applied, -, rfl⟩ := logAndApply_some logged
    obtain ⟨job, t, found, -, -, -, placed, rfl⟩ := State.applyJobLeased_spec inv applied
    have leased : t.findJob id = _ := placed.found
    refine Or.inr ⟨⟨job.id, e.state.nextToken, queue, job.payload, job.attempts + 1, job.maxAttempts,
      e.state.wallNow + leaseMs⟩, before, after, l, ?_, split, ready, ?_, idle⟩
    · show Except.ok (reservation t queue id) = _
      unfold reservation
      rw [leased]
      rfl
    · rw [root]
      exact congrArg some (inv.shape.jobIds id job found).symm

end Engine

namespace World

variable {regime : Regime} {w : World} {queues : List Bytes} {leaseMs : Int}

/-- In every state that can be reached, `reserve` returns (within the capacity of the
engine), hands out a job exactly when a queue it names has a ready one, takes it from
the first such queue, and takes the one that is ahead of all others there. -/
theorem reserve_best (reachable : w.Reachable regime) (valid : w.engine.Reservable queues leaseMs) :
    (w.engine.Capacity → ∃ answered, w.engine.reserve queues leaseMs = some answered) ∧
      ∀ answer e', w.engine.reserve queues leaseMs = some (answer, e') →
        ∃ given, answer = .ok given ∧
          (given.isSome = true ↔ ∃ name ∈ queues, ∃ id job, w.engine.state.Ready name id job) ∧
          ∀ r, given = some r → ∃ before after job, queues = before ++ r.queue :: after ∧
            w.engine.state.Ready r.queue r.id job ∧
            (∀ name ∈ before, ∀ id' job', ¬ w.engine.state.Ready name id' job') ∧
            ∀ id' job', w.engine.state.Ready r.queue id' job' → id' ≠ r.id → job.Ahead job' := by
  have good := good_reachable reachable
  refine ⟨?_, ?_⟩
  · intro capacity
    obtain ⟨e', stepped⟩ := Engine.step_total (.reserve queues leaseMs) good.inv good.live good.budgeted capacity
    obtain ⟨answered, reserved, -⟩ := Option.map_eq_some_iff.1 stepped
    exact ⟨answered, reserved⟩
  -- a queue whose heap is empty has no ready job
  have idle : ∀ {name}, (∀ l, w.engine.state.readyOf name = some l → l = []) →
      ∀ id job, ¬ w.engine.state.Ready name id job := by
    intro name empty id job is_ready
    obtain ⟨l, ready, some_job⟩ := (State.ready_nonempty_iff good.inv).2 ⟨id, job, is_ready⟩
    exact some_job (empty l ready)
  intro answer e' reserved
  rcases Engine.reserve_some good.inv valid reserved with
    ⟨rfl, empty⟩ | ⟨r, before, after, l, rfl, split, ready, root, empty⟩
  · refine ⟨none, rfl, ⟨nofun, ?_⟩, nofun⟩
    rintro ⟨name, named, id, job, is_ready⟩
    exact absurd is_ready (idle (empty name named) id job)
  · obtain ⟨job, is_ready⟩ := (State.mem_ready_iff good.inv ready).1 (List.mem_of_getElem? root)
    have named : r.queue ∈ queues := by
      rw [split]
      exact List.mem_append_right before List.mem_cons_self
    refine ⟨some r, rfl, ⟨fun _ => ⟨r.queue, named, r.id, job, is_ready⟩, fun _ => rfl⟩, ?_⟩
    intro r' same
    cases same
    refine ⟨before, after, job, split, is_ready, fun name mem => idle (empty name mem), ?_⟩
    intro id' job' other ne
    exact State.root_ahead good.inv ready root is_ready.1 other ne

/-- Three jobs wait in the second queue named; the one at the root is cancelled. -/
def threeWaiting : List EngineOp :=
  [.enqueue { queue := [113], payload := [1] }, .enqueue { queue := [113], payload := [2], priority := 5 },
    .enqueue { queue := [113], payload := [3], priority := 7 }, .cancel 3]

theorem reserve_best_three :
    ∃ w r e', Reachable {} w ∧ w.engine.Reservable [[114], [113]] 500 ∧
      w.engine.reserve [[114], [113]] 500 = some (.ok (some r), e') ∧ r.id = 2 ∧ r.queue = [113] ∧
      ∃ job, w.engine.state.Ready [113] 2 job ∧
        ∀ id' job', w.engine.state.Ready [113] id' job' → id' ≠ 2 → job.Ahead job' := by
  obtain ⟨w, r, e', ran, low, high, reserved, of_id, of_queue⟩ : ∃ w r e',
      requests threeWaiting (start {} samplePlatform {} (fun _ => 0) 1000 0) = some w ∧
      w.engine.options.minLeaseMs = 100 ∧ w.engine.options.maxLeaseMs = 86400000 ∧
      w.engine.reserve [[114], [113]] 500 = some (.ok (some r), e') ∧ r.id = 2 ∧ r.queue = [113] :=
    ⟨_, _, _, rfl, rfl, rfl, rfl, rfl, rfl⟩
  have reachable := reachable_of_start ran
  have valid : w.engine.Reservable [[114], [113]] 500 :=
    ⟨nofun, by decide, by rw [low]; decide, by rw [high]; decide⟩
  obtain ⟨given, same, -, best⟩ := (reserve_best reachable valid).2 _ _ reserved
  cases same
  obtain ⟨-, -, job, -, is_ready, -, ahead⟩ := best r rfl
  rw [of_id, of_queue] at is_ready
  rw [of_id, of_queue] at ahead
  exact ⟨w, r, e', reachable, valid, reserved, of_id, of_queue, job, is_ready, ahead⟩

end World

end Baton
