/-
# State.Checked — the structural check finds nothing

`check_invariants` of a state in step (`StateInv`) whose leased jobs have begun (`Begun`)
returns ok: every job passes its checks, the recount of the loop gives the totals the indexes keep, and the sizes of
the heaps, the dead-letter sets, the wheel and the idempotency index agree with it.
-/
import Baton.State.CheckInvariants
import Baton.State.Expiry
import Baton.State.History

namespace Baton

open Theory

set_option autoImplicit false

namespace State

/-- A leased job has been given an attempt. -/
def Begun (s : State) : Prop :=
  ∀ id job, s.findJob id = some job → job.state = .kLeased → job.attempts ≠ 0

theorem begun_ledger {s : State} : s.ledger.Begun ↔ s.Begun := by
  have leased (state : JobState) : toPersisted state = .kLeased ↔ state = .kLeased := by
    cases state <;> simp [toPersisted]
  constructor
  · intro begun id job found held
    exact begun id job.ledger (ledger_jobs found) ((leased _).2 held)
  · intro begun id entry listed held
    obtain ⟨job, found, rfl⟩ := Option.map_eq_some_iff.1 listed
    exact begun id job found ((leased _).1 held)

section Jobs

variable {s : State} {id : Nat} {job : Job}

theorem checkJob_ok (inv : StateInv s nobody) (begun : s.Begun) (found : s.jobs.lookup id = some job) :
    s.checkJob id job = .ok () := by
  have shape := inv.shape
  have fits := inv.fits id job found
  have indexed := inv.indexed id job found fun impossible => impossible
  obtain ⟨q, queue⟩ := Option.isSome_iff_exists.1 (shape.jobQueues id job found)
  have here : s.queueOf id = some job.queue := queueOf_of_lookup found
  have dead : decide (id ∈ q.dead) = decide (job.state = .kDead) := by
    have in_dead := indexed.dead
    unfold State.inDead State.deadOf at in_dead
    rw [here, Option.bind_some, queue] at in_dead
    exact in_dead
  have heap : (s.heapIndex id).isSome = decide (job.state = .kReady) := indexed.heap
  have timer : (s.timer id).isSome
      = decide (s.replaying = false ∧ (job.state = .kScheduled ∨ job.state = .kLeased)) := by
    rw [shape.timers.isSome_timer]
    have kind : timerKind s.wheel s.timer id = expectedKind s.replaying job.state := indexed.timer
    rw [kind]
    cases s.replaying <;> cases job.state <;> rfl
  have position : ¬ ((s.heapIndex id).isSome = true ∧ (s.heapIndex id).bind (q.ready[·]?) ≠ some id) := by
    rintro ⟨inside, wrong⟩
    obtain ⟨i, stored⟩ := Option.isSome_iff_exists.1 inside
    obtain ⟨name, l, queue', ready, at_i⟩ := shape.heaps.stored id i stored
    rw [here] at queue'
    cases queue'
    unfold State.readyOf at ready
    rw [queue] at ready
    cases ready
    rw [stored] at wrong
    exact wrong at_i
  unfold State.checkJob State.findQueue
  rw [if_neg (by simp [shape.jobIds id job found]), if_neg (Nat.not_le.2 fits.known), queue]
  dsimp only
  rw [if_neg (UInt32.not_lt.2 fits.attempts), if_neg (by rw [heap]; simp), if_neg position]
  rw [if_neg (by rw [timer]; cases s.replaying <;> simp), if_neg (by rw [dead]; simp),
    if_neg (by rw [fits.token]; simp), if_neg (Nat.not_le.2 fits.issued)]
  rw [if_neg]
  rintro ⟨leased, zero⟩
  exact begun id job found leased zero

/-- What the loop over the jobs adds to a recount. -/
theorem recount_foldl (entries : List ((_ : Nat) × Job)) (start : Recount) :
    let recount := entries.foldl (fun r e => s.recountJob r e.1 e.2) start
    (∀ name state, recount.counts name state =
      start.counts name state + (entries.map fun e => countIn name state e.1 e.2).sum) ∧
    recount.memory = start.memory + (entries.map fun e => s.platform.jobBytes e.2).sum ∧
    recount.timers = start.timers + (entries.map fun e => if (s.timer e.1).isSome then 1 else 0).sum := by
  induction entries generalizing start with
  | nil => simp
  | cons e entries ih =>
    obtain ⟨counts, memory, timers⟩ := ih (s.recountJob start e.1 e.2)
    refine ⟨?_, ?_, ?_⟩
    · intro name state
      rw [List.foldl_cons, counts, List.map_cons, List.sum_cons, ← Nat.add_assoc]
      simp only [State.recountJob, Function.update_apply, countIn]
      by_cases here : name = e.2.queue
      · subst here
        by_cases same : state = e.2.state
        · simp [same]
        · simp [same, Ne.symm same]
      · simp [here, Ne.symm here]
    · rw [List.foldl_cons, memory, List.map_cons, List.sum_cons, ← Nat.add_assoc]
      rfl
    · rw [List.foldl_cons, timers, List.map_cons, List.sum_cons, ← Nat.add_assoc]
      simp only [State.recountJob]
      split <;> rfl

theorem checkJobs_ok (entries : List ((_ : Nat) × Job)) (start : Recount)
    (each : ∀ e ∈ entries, s.checkJob e.1 e.2 = .ok ()) :
    s.checkJobs entries start = .ok (entries.foldl (fun r e => s.recountJob r e.1 e.2) start) := by
  induction entries generalizing start with
  | nil => rfl
  | cons e entries ih =>
    unfold State.checkJobs
    rw [each e (by simp)]
    exact ih _ fun e' mem => each e' (by simp [mem])

/-- As many jobs hold a timer as the wheel has timers. -/
theorem timers_counted (shape : Shape s) :
    Table.total (fun id _ => if (s.timer id).isSome then 1 else 0) s.jobs = s.wheel.size := by
  have timers := shape.timers
  rw [timers.lists.counted]
  set holders := Table.keysWhere (fun id (_ : Job) => (s.timer id).isSome) s.jobs
  have counted := @Table.length_keysWhere Nat Job s.jobs fun id (_ : Job) => (s.timer id).isSome
  rw [← counted]
  -- the timers of the holders are the live entries of the wheel, each once
  have indices : (holders.map fun id => ((s.timer id).map TimerHandle.index).getD 0).toFinset
      = s.wheel.live := by
    ext i
    rw [List.mem_toFinset, List.mem_map, TimingWheel.mem_live_iff_timer]
    constructor
    · rintro ⟨id, mem, rfl⟩
      obtain ⟨job, -, armed⟩ := Table.mem_keysWhere.1 mem
      obtain ⟨h, armed'⟩ := Option.isSome_iff_exists.1 armed
      obtain ⟨t, held, -, -⟩ := timers.held id h armed'
      simp [armed', held]
    · intro live
      obtain ⟨t, held⟩ := Option.isSome_iff_exists.1 live
      have armed := timers.owner i t held
      have known := timers.job t.id _ armed
      obtain ⟨name, queue⟩ := Option.ne_none_iff_exists'.1 known
      obtain ⟨job, found, -⟩ := Option.map_eq_some_iff.1 queue
      exact ⟨t.id, Table.mem_keysWhere.2 ⟨job, found, by simp [armed]⟩, by simp [armed]⟩
  have nodup : (holders.map fun id => ((s.timer id).map TimerHandle.index).getD 0).Nodup := by
    refine List.Nodup.map_on ?_ Table.keysWhere_nodup
    intro a mem_a b mem_b same
    obtain ⟨-, -, armed_a⟩ := Table.mem_keysWhere.1 mem_a
    obtain ⟨-, -, armed_b⟩ := Table.mem_keysWhere.1 mem_b
    obtain ⟨x, at_a⟩ := Option.isSome_iff_exists.1 armed_a
    obtain ⟨y, at_b⟩ := Option.isSome_iff_exists.1 armed_b
    obtain ⟨t, held_a, -, id_a⟩ := timers.held a x at_a
    obtain ⟨u, held_b, -, id_b⟩ := timers.held b y at_b
    have index : x.index = y.index := by simpa [at_a, at_b] using same
    rw [index, held_b] at held_a
    cases held_a
    exact id_a.symm.trans id_b
  rw [← indices, List.toFinset_card_of_nodup nodup, List.length_map]

end Jobs

section Queues

variable {s : State} {name : Bytes} {q : Queue}

theorem isConsistent_of_valid {ready : List Nat}
    (valid : IndexedHeap.Valid s.before ⟨ready, s.heapIndex⟩) : s.isConsistent ready = true := by
  unfold State.isConsistent
  rw [List.all_eq_true]
  intro i _
  unfold State.isConsistentAt
  cases at_i : ready[i]? with
  | none => rfl
  | some id =>
    have stored : s.heapIndex id = some i := valid.stored i id at_i
    dsimp only
    rw [stored]
    cases above : ready[IndexedHeap.parent i]? with
    | none => simp
    | some parent =>
      by_cases positive : 0 < i
      · have order : s.before id parent = false := valid.ordered i id parent positive at_i above
        simp [order]
      · simp [positive]

/-- The jobs of a queue in some state are as many as it counts. -/
theorem countsOf_eq_length (shape : Shape s) (queue : s.queues.lookup name = some q) {state : JobState}
    {l : List Nat} (nodup : l.Nodup)
    (members : ∀ id, id ∈ l ↔ ∃ job, s.jobs.lookup id = some job ∧ job.queue = name ∧ job.state = state) :
    l.length = q.counts state := by
  have counts := shape.counts name q.counts (by simp [State.countsOf, queue]) state
  have listed := @Table.length_eq_total Nat Job _ s.jobs
    (fun _ job => decide (job.queue = name ∧ job.state = state)) l nodup (by simpa using members)
  rw [counts, listed]
  apply Table.total_congr
  intro id job _
  simp [countIn]

section

variable (inv : StateInv s nobody) (queue : s.queues.lookup name = some q)

include inv queue

theorem ready_length : q.ready.length = q.counts .kReady := by
  have shape := inv.shape
  have ready : s.readyOf name = some q.ready := by simp [State.readyOf, queue]
  have valid := shape.heaps.valid name q.ready ready
  exact countsOf_eq_length shape queue valid.nodup fun id => mem_ready_iff inv ready

theorem dead_card : q.dead.card = q.counts .kDead := by
  have shape := inv.shape
  have dead : s.deadOf name = some q.dead := by simp [State.deadOf, queue]
  rw [← Finset.length_toList]
  refine countsOf_eq_length shape queue q.dead.nodup_toList ?_
  intro id
  rw [Finset.mem_toList]
  constructor
  · intro mem
    have owner := shape.deads name q.dead id dead mem
    obtain ⟨job, found, in_queue⟩ := Option.map_eq_some_iff.1 owner
    have in_dead := (inv.indexed id job found fun impossible => impossible).dead
    unfold State.inDead at in_dead
    rw [owner, Option.bind_some, dead] at in_dead
    refine ⟨job, found, in_queue, ?_⟩
    simpa [mem] using in_dead
  · rintro ⟨job, found, in_queue, state⟩
    have in_dead := (inv.indexed id job found fun impossible => impossible).dead
    unfold State.inDead at in_dead
    rw [queueOf_of_lookup found, in_queue, Option.bind_some, dead, state] at in_dead
    simpa using in_dead

theorem checkQueue_ok {recount : Recount} (counts : recount.counts name = q.counts) :
    s.checkQueue recount name q = .ok () := by
  have shape := inv.shape
  have ready : s.readyOf name = some q.ready := by simp [State.readyOf, queue]
  unfold State.checkQueue
  rw [if_neg (by simp [shape.queueNames name q queue]),
    if_neg (by simp [isConsistent_of_valid (shape.heaps.valid name q.ready ready)]),
    if_neg (by simp [counts]), if_neg (by simp [ready_length inv queue]),
    if_neg (by simp [dead_card inv queue])]

end

theorem checkQueues_ok {recount : Recount} (entries : List ((_ : Bytes) × Queue))
    (each : ∀ e ∈ entries, s.checkQueue recount e.1 e.2 = .ok ()) :
    s.checkQueues recount entries = .ok () := by
  induction entries with
  | nil => rfl
  | cons e entries ih =>
    unfold State.checkQueues
    rw [each e (by simp)]
    exact ih fun e' mem => each e' (by simp [mem])

end Queues

section Idem

variable {s : State} {order : List IdemNode} {index : Table Bytes Nat} {next : Nat}

/-- The index has one entry for each node. -/
theorem idem_length (inv : IdemInv order index next) : index.entries.length = order.length := by
  have keys : (order.map fun n => n.entry.key.bytes).Perm index.keys := by
    have nodup : (order.map fun n => n.entry.key.bytes).Nodup := by
      refine List.Nodup.map_on ?_ (inv.nodup.of_map _)
      intro a mem_a b mem_b same
      have node := (inv.node_iff (inv.indexed b mem_b) mem_a).2 same
      exact List.inj_on_of_nodup_map inv.nodup mem_a mem_b node
    rw [List.perm_ext_iff_of_nodup nodup index.keys_nodup]
    intro key
    rw [List.mem_map, ← AList.mem_keys, ← AList.lookup_isSome]
    constructor
    · rintro ⟨n, mem, rfl⟩
      rw [inv.indexed n mem]
      rfl
    · intro known
      obtain ⟨node, indexed⟩ := Option.isSome_iff_exists.1 known
      obtain ⟨n, mem, -, key_eq⟩ := inv.listed key node indexed
      exact ⟨n, mem, key_eq⟩
  have lengths := keys.length_eq
  rw [List.length_map] at lengths
  rw [lengths]
  simp [AList.keys, List.keys]

theorem checkIdem_ok (nodes : List IdemNode) (memory : Nat)
    (indexed : ∀ n ∈ nodes, s.idemIndex.lookup n.entry.key.bytes = some n.node) :
    s.checkIdem nodes memory = .ok (memory + entriesMemory s.platform nodes) := by
  induction nodes generalizing memory with
  | nil => rfl
  | cons n nodes ih =>
    unfold State.checkIdem
    rw [if_neg (by simp [indexed n (by simp)]), ih _ fun n' mem => indexed n' (by simp [mem])]
    simp only [entriesMemory, List.map_cons, List.sum_cons, Nat.add_assoc]

end Idem

/-- The check finds nothing in a state that is in step and whose leased jobs have begun. -/
theorem checkInvariants_ok {s : State} (inv : StateInv s nobody) (begun : s.Begun) : s.checkInvariants = .ok () := by
  have shape := inv.shape
  have jobs := checkJobs_ok s.jobs.entries {} fun e mem =>
    checkJob_ok inv begun (Table.lookup_eq_some_iff.2 mem)
  obtain ⟨counts, memory, timers⟩ := @recount_foldl s s.jobs.entries {}
  set recount := s.jobs.entries.foldl (fun r e => s.recountJob r e.1 e.2) {}
  have timers' : recount.timers = s.wheel.size := by
    rw [timers, ← timers_counted shape]
    exact Nat.zero_add _
  have queues : s.checkQueues recount s.queues.entries = .ok () := by
    refine checkQueues_ok s.queues.entries fun e mem => ?_
    have queue : s.queues.lookup e.1 = some e.2 := Table.lookup_eq_some_iff.2 mem
    refine checkQueue_ok inv queue (funext fun state => ?_)
    rw [counts, shape.counts e.1 e.2.counts (by simp [State.countsOf, queue]) state]
    exact Nat.zero_add _
  have idem := checkIdem_ok s.idemOrder recount.memory shape.idem.indexed
  have estimate : recount.memory + entriesMemory s.platform s.idemOrder = s.memoryBytes := by
    rw [memory, shape.memory]
    rw [Nat.zero_add]
    rfl
  unfold State.checkInvariants
  rw [jobs]
  dsimp only
  rw [if_neg (by simp [timers']), queues]
  rw [if_neg (by simp [idem_length shape.idem]), idem]
  dsimp only
  rw [if_neg (by simp [estimate])]

/-- The check reaches every job. -/
theorem begun_of_checkInvariants {s : State} (checked : s.checkInvariants = .ok ()) : s.Begun := by
  have each : ∀ (entries : List ((_ : Nat) × Job)) (recount recount' : Recount),
      s.checkJobs entries recount = .ok recount' → ∀ e ∈ entries, s.checkJob e.1 e.2 = .ok () := by
    intro entries
    induction entries with
    | nil =>
      intro _ _ _ e mem
      cases mem
    | cons entry entries ih =>
      intro recount recount' passed e mem
      rw [State.checkJobs] at passed
      split at passed
      · cases passed
      rename_i first
      rcases List.mem_cons.1 mem with rfl | later
      · exact first
      · exact ih _ _ passed e later
  intro id job found leased zero
  unfold State.checkInvariants at checked
  split at checked
  · cases checked
  rename_i recount passed
  have here := each _ _ _ passed ⟨id, job⟩ (Table.lookup_eq_some_iff.1 found)
  obtain ⟨-, here⟩ := Result.check_ok here
  obtain ⟨-, here⟩ := Result.check_ok here
  split at here
  · cases here
  -- the last of the eight checks behind the queue
  obtain ⟨-, here⟩ := Result.check_ok here
  obtain ⟨-, here⟩ := Result.check_ok here
  obtain ⟨-, here⟩ := Result.check_ok here
  obtain ⟨-, here⟩ := Result.check_ok here
  obtain ⟨-, here⟩ := Result.check_ok here
  obtain ⟨-, here⟩ := Result.check_ok here
  obtain ⟨-, here⟩ := Result.check_ok here
  obtain ⟨attempted, -⟩ := Result.check_ok here
  exact attempted ⟨leased, zero⟩

end State

end Baton
