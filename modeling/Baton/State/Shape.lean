/-
# State.Shape — what the indexes say about the job table

The state keeps several indexes beside the job table.  `Shape` is what relates them
to it whatever the state of each job is: the heaps and the timers belong to the jobs
that point at them, the dead-letter sets list jobs of their own queue, the counts and
the memory estimate are what a recount gives, and the idempotency index names the
nodes of its list.  Every helper of `state.cpp` keeps it, on its own.

Whether a job is in a heap, holds a timer of some kind, or is in the dead-letter set
is three functions of its id (`inHeap`, `kindOf`, `inDead`).  The helpers change them
at one id, and leave the rest to `State.Invariant`.
-/
import Baton.State.Derived
import Baton.State.Indexes

namespace Baton

open Theory Function

set_option autoImplicit false

/-- The idempotency list and its index name the same nodes. -/
structure IdemInv (order : List IdemNode) (index : Table Bytes Nat) (next : Nat) : Prop where
  fresh : ∀ n ∈ order, n.node < next
  nodup : (order.map IdemNode.node).Nodup
  indexed : ∀ n ∈ order, index.lookup n.entry.key.bytes = some n.node
  listed : ∀ key node, index.lookup key = some node →
    ∃ n ∈ order, n.node = node ∧ n.entry.key.bytes = key

namespace State

def queueOf (s : State) (id : Nat) : Option Bytes := (s.jobs.lookup id).map Job.queue
def readyOf (s : State) (name : Bytes) : Option (List Nat) := (s.queues.lookup name).map Queue.ready
def deadOf (s : State) (name : Bytes) : Option (Finset Nat) := (s.queues.lookup name).map Queue.dead
def countsOf (s : State) (name : Bytes) : Option (JobState → Nat) :=
  (s.queues.lookup name).map Queue.counts

def inHeap (s : State) (id : Nat) : Bool := (s.heapIndex id).isSome
def kindOf (s : State) : Nat → Option Nat := timerKind s.wheel s.timer
def inDead (s : State) (id : Nat) : Bool :=
  ((s.queueOf id).bind s.deadOf).any fun dead => decide (id ∈ dead)

/-- Whether a job counts for a queue and a state. -/
def countIn (name : Bytes) (state : JobState) (_ : Nat) (job : Job) : Nat :=
  if job.queue = name ∧ job.state = state then 1 else 0

theorem mem_keys {s : State} {id : Nat} : id ∈ s.jobs.keys ↔ (s.findJob id).isSome := by
  rw [← AList.mem_keys, ← AList.lookup_isSome]
  rfl

structure Shape (s : State) : Prop where
  jobIds : ∀ id job, s.jobs.lookup id = some job → job.id = id
  jobQueues : ∀ id job, s.jobs.lookup id = some job → (s.queues.lookup job.queue).isSome
  queueNames : ∀ name q, s.queues.lookup name = some q → q.name = name
  heaps : HeapInv s.before s.queueOf s.readyOf s.heapIndex
  timers : TimerInv s.queueOf s.wheel s.timer
  deads : ∀ name dead id, s.deadOf name = some dead → id ∈ dead → s.queueOf id = some name
  counts : ∀ name c, s.countsOf name = some c → ∀ state, c state = Table.total (countIn name state) s.jobs
  memory : s.memoryBytes = Table.total (fun _ => s.platform.jobBytes) s.jobs + s.idemMemory
  idem : IdemInv s.idemOrder s.idemIndex s.nextNode

/-- The tables say nothing of the mode. -/
theorem Shape.live {s : State} (shape : Shape s) : Shape { s with replaying := false } :=
  { shape with }

/-! ## The order of the heaps -/

theorem before_strict (s : State) : IndexedHeap.StrictOrder s.before where
  asymm := by
    intro a b first
    unfold before at first ⊢
    rw [Job.before_iff] at first
    rw [Bool.eq_false_iff, ne_eq, Job.before_iff]
    omega
  trans := by
    intro a b c one two
    unfold before at one two ⊢
    rw [Bool.eq_false_iff, ne_eq, Job.before_iff] at one two ⊢
    omega

/-- The order reads the priority, the run time and the id of the two jobs. -/
theorem before_congr {s s' : State} {a b : Nat}
    (same : ∀ id, id = a ∨ id = b → ∀ job, s.jobs.lookup id = some job →
      ∃ job', s'.jobs.lookup id = some job' ∧ job'.priority = job.priority ∧
        job'.runAt = job.runAt ∧ job'.id = job.id)
    (known_a : (s.jobs.lookup a).isSome) (known_b : (s.jobs.lookup b).isSome) :
    s'.before a b = s.before a b := by
  obtain ⟨x, found_a⟩ := Option.isSome_iff_exists.1 known_a
  obtain ⟨y, found_b⟩ := Option.isSome_iff_exists.1 known_b
  obtain ⟨x', found_a', pa, ra, ia⟩ := same a (Or.inl rfl) x found_a
  obtain ⟨y', found_b', pb, rb, ib⟩ := same b (Or.inr rfl) y found_b
  simp only [before, found_a, found_b, found_a', found_b', Option.getD_some, Job.before, pa, ra, ia,
    pb, rb, ib]

section Views

variable {s s' : State} {id : Nat} {job : Job} {name : Bytes} {f : Queue → Queue}

theorem queueOf_of_lookup (found : s.jobs.lookup id = some job) : s.queueOf id = some job.queue := by
  simp [queueOf, found]

theorem readyOf_modifyQueue (keeps : ∀ q, (f q).ready = q.ready) :
    (s.modifyQueue name f).readyOf = s.readyOf := by
  funext name'
  exact Table.map_lookup_modify keeps name'

theorem deadOf_modifyQueue (keeps : ∀ q, (f q).dead = q.dead) :
    (s.modifyQueue name f).deadOf = s.deadOf := by
  funext name'
  exact Table.map_lookup_modify keeps name'

theorem countsOf_modifyQueue (keeps : ∀ q, (f q).counts = q.counts) :
    (s.modifyQueue name f).countsOf = s.countsOf := by
  funext name'
  exact Table.map_lookup_modify keeps name'

theorem isSome_lookup_modifyQueue (name' : Bytes) :
    ((s.modifyQueue name f).queues.lookup name').isSome = (s.queues.lookup name').isSome := by
  have same := @Table.map_lookup_modify _ _ _ s.queues name _ (fun _ => ()) f (fun _ => rfl) name'
  show ((Table.modify name f s.queues).lookup name').isSome = _
  simpa using congrArg Option.isSome same

theorem queueName_modifyQueue (keeps : ∀ q, (f q).name = q.name)
    (names : ∀ name q, s.queues.lookup name = some q → q.name = name) :
    ∀ name' q, (s.modifyQueue name f).queues.lookup name' = some q → q.name = name' := by
  intro name' q found
  have same := @Table.map_lookup_modify _ _ _ s.queues name _ Queue.name f keeps name'
  have found' : (Table.modify name f s.queues).lookup name' = some q := found
  rw [found', Option.map_some] at same
  obtain ⟨q', found'', name_eq⟩ := Option.map_eq_some_iff.1 same.symm
  rw [← name_eq]
  exact names name' q' found''

end Views

/-! ## Changes to a queue -/

section Queues

variable {s : State} {id : Nat} {job : Job} {name : Bytes} {f : Queue → Queue}

/-- A change that no index sees. -/
theorem Shape.modifyQueue (shape : Shape s) (names : ∀ q, (f q).name = q.name)
    (ready : ∀ q, (f q).ready = q.ready) (dead : ∀ q, (f q).dead = q.dead)
    (counts : ∀ q, (f q).counts = q.counts) : Shape (s.modifyQueue name f) where
  __ := shape
  jobQueues := by
    intro id job found
    rw [isSome_lookup_modifyQueue]
    exact shape.jobQueues id job found
  queueNames := queueName_modifyQueue names shape.queueNames
  heaps := by
    rw [readyOf_modifyQueue ready]
    exact shape.heaps
  deads := by
    rw [deadOf_modifyQueue dead]
    exact shape.deads
  counts := by
    rw [countsOf_modifyQueue counts]
    exact shape.counts

theorem Shape.addTotals (shape : Shape s) (g : QueueTotals → QueueTotals) :
    Shape (s.addTotals name g) :=
  shape.modifyQueue (fun _ => rfl) (fun _ => rfl) (fun _ => rfl) (fun _ => rfl)

/-- A change of the dead-letter set of a queue at one of its jobs. -/
theorem Shape.changeDead (shape : Shape s) (found : s.jobs.lookup id = some job)
    (g : Finset Nat → Finset Nat) (member : Bool) (here : ∀ d, id ∈ g d ↔ member = true)
    (others : ∀ d id', id' ≠ id → (id' ∈ g d ↔ id' ∈ d)) :
    Shape (s.modifyQueue job.queue fun q => { q with dead := g q.dead }) ∧
      (s.modifyQueue job.queue fun q => { q with dead := g q.dead }).inDead
        = update s.inDead id member := by
  obtain ⟨q, queue⟩ := Option.isSome_iff_exists.1 (shape.jobQueues id job found)
  set s' := s.modifyQueue job.queue fun q => { q with dead := g q.dead }
  have dead : s'.deadOf = update s.deadOf job.queue (some (g q.dead)) :=
    Table.map_lookup_modify_update queue
  have dead_old : s.deadOf job.queue = some q.dead := by simp [deadOf, queue]
  refine ⟨⟨shape.jobIds, ?_, queueName_modifyQueue (fun _ => rfl) shape.queueNames, ?_, shape.timers,
    ?_, ?_, shape.memory, shape.idem⟩, ?_⟩
  · intro id' job' found'
    have := shape.jobQueues id' job' found'
    rwa [← isSome_lookup_modifyQueue] at this
  · have ready : s'.readyOf = s.readyOf := readyOf_modifyQueue fun _ => rfl
    rw [ready]
    exact shape.heaps
  · intro name' dead' id' at_name mem
    rw [dead, update_apply] at at_name
    split at at_name
    · rename_i same
      cases at_name
      rw [same]
      by_cases this : id' = id
      · rw [this]
        exact queueOf_of_lookup found
      · exact shape.deads job.queue q.dead id' dead_old ((others _ id' this).1 mem)
    · exact shape.deads name' dead' id' at_name mem
  · have counts : s'.countsOf = s.countsOf := countsOf_modifyQueue fun _ => rfl
    rw [counts]
    exact shape.counts
  · funext id'
    have same_queue : s'.queueOf = s.queueOf := rfl
    rw [update_apply]
    unfold inDead
    rw [same_queue, dead]
    split
    · rename_i same
      subst same
      simp [queueOf_of_lookup found, here]
    · rename_i ne
      cases queue' : s.queueOf id' with
      | none => rfl
      | some name' =>
        simp only [Option.bind_some, update_apply]
        split
        · rename_i same
          rw [same, dead_old]
          simp [others _ id' ne]
        · rfl

theorem Shape.insertDead (shape : Shape s) (found : s.jobs.lookup id = some job) :
    Shape (s.insertDead job.queue id) ∧
      (s.insertDead job.queue id).inDead = update s.inDead id true :=
  shape.changeDead found (insert id) true (by simp) (by simp +contextual)

theorem Shape.eraseDead (shape : Shape s) (found : s.jobs.lookup id = some job) :
    Shape (s.eraseDead job.queue id) ∧
      (s.eraseDead job.queue id).inDead = update s.inDead id false :=
  shape.changeDead found (·.erase id) false (by simp) (by simp +contextual)

end Queues

/-! ## Changes to a job -/

section Jobs

variable {s : State} {id : Nat} {job job' : Job}

theorem lookup_insert (id' : Nat) :
    (s.jobs.insert id job').lookup id' = if id' = id then some job' else s.jobs.lookup id' := by
  split
  · rename_i same
    rw [same, AList.lookup_insert]
  · rename_i ne
    rw [AList.lookup_insert_ne ne]

/-- The table with another value for a job it has. -/
def setJob (s : State) (id : Nat) (job : Job) : State := { s with jobs := s.jobs.insert id job }

theorem queueOf_setJob (found : s.jobs.lookup id = some job) (queue : job'.queue = job.queue) :
    (s.setJob id job').queueOf = s.queueOf := by
  funext id'
  show ((s.jobs.insert id job').lookup id').map Job.queue = (s.jobs.lookup id').map Job.queue
  rw [lookup_insert]
  split
  · rename_i same
    rw [same, found, Option.map_some, Option.map_some, queue]
  · rfl

/-- The heaps stay in order if the job keeps its place in the order, or has none. -/
theorem Shape.heaps_setJob (shape : Shape s) (found : s.jobs.lookup id = some job)
    (same_id : job'.id = job.id)
    (order : s.heapIndex id = none ∨ (job'.priority = job.priority ∧ job'.runAt = job.runAt)) :
    HeapInv (s.setJob id job').before s.queueOf s.readyOf s.heapIndex := by
  refine shape.heaps.congr ?_ (fun _ _ => rfl)
  intro a b in_a in_b
  have known : ∀ c, s.heapIndex c ≠ none → (s.jobs.lookup c).isSome := by
    intro c in_c
    obtain ⟨i, stored⟩ := Option.ne_none_iff_exists'.1 in_c
    obtain ⟨name, l, queue', -, -⟩ := shape.heaps.stored c i stored
    obtain ⟨job, found, -⟩ := Option.map_eq_some_iff.1 queue'
    simp [found]
  refine before_congr ?_ (known a in_a) (known b in_b)
  intro c either job₀ found₀
  show ∃ job₁, (s.jobs.insert id job').lookup c = some job₁ ∧ _
  rw [lookup_insert]
  split
  · rename_i same
    subst same
    rw [found] at found₀
    cases found₀
    have in_c : s.heapIndex c ≠ none := by
      rcases either with rfl | rfl
      · exact in_a
      · exact in_b
    rcases order with out | ⟨priority, runAt⟩
    · exact absurd out in_c
    · exact ⟨job', rfl, priority, runAt, same_id⟩
  · exact ⟨job₀, found₀, rfl, rfl, rfl⟩

/-- A change that neither the counts nor the memory estimate sees. -/
theorem Shape.setJob (shape : Shape s) (found : s.jobs.lookup id = some job)
    (queue : job'.queue = job.queue) (same_id : job'.id = job.id)
    (order : s.heapIndex id = none ∨ (job'.priority = job.priority ∧ job'.runAt = job.runAt))
    (state : job'.state = job.state) (bytes : s.platform.jobBytes job' = s.platform.jobBytes job) :
    Shape (s.setJob id job') := by
  have queues := queueOf_setJob found queue
  refine ⟨?_, ?_, shape.queueNames, ?_, ?_, ?_, ?_, ?_, shape.idem⟩
  · intro id' job₀ found₀
    rw [State.setJob, lookup_insert] at found₀
    split at found₀
    · rename_i same
      cases found₀
      rw [same, same_id]
      exact shape.jobIds id job found
    · exact shape.jobIds id' job₀ found₀
  · intro id' job₀ found₀
    rw [State.setJob, lookup_insert] at found₀
    split at found₀
    · cases found₀
      rw [queue]
      exact shape.jobQueues id job found
    · exact shape.jobQueues id' job₀ found₀
  · rw [queues]
    exact shape.heaps_setJob found same_id order
  · rw [queues]
    exact shape.timers
  · rw [queues]
    exact shape.deads
  · intro name c at_name state'
    rw [shape.counts name c at_name state']
    symm
    apply Table.total_insert_same found
    simp only [countIn, queue, state]
  · show s.memoryBytes = Table.total _ (s.jobs.insert id job') + s.idemMemory
    rw [Table.total_insert_same found bytes]
    exact shape.memory

theorem modifyJob_eq {f : Job → Job} (found : s.jobs.lookup id = some job) :
    s.modifyJob id f = s.setJob id (f job) := by
  unfold State.modifyJob State.setJob
  rw [Table.modify_of_lookup found]

theorem setState_eq {state : JobState} (found : s.jobs.lookup id = some job) :
    s.setState id state
      = (s.modifyQueue job.queue fun q => (q.decrCount job.state).incrCount state).setJob id
          { job with state } := by
  unfold setState findJob
  rw [found]
  exact modifyJob_eq found

/-- `--counts[old]; ++counts[new]` on counts that are a recount. -/
theorem recounted {q : Queue} {old new : JobState} (before after : JobState → Nat)
    (counted : ∀ x, q.counts x = before x) (positive : 0 < before old)
    (moved : ∀ x, after x + (if x = old then 1 else 0) = before x + (if x = new then 1 else 0))
    (x : JobState) : ((q.decrCount old).incrCount new).counts x = after x := by
  have at_x := moved x
  simp only [Queue.incrCount, Queue.decrCount, update_apply, counted]
  by_cases arrives : x = new
  · rw [if_pos arrives] at at_x ⊢
    by_cases same : new = old
    · rw [if_pos same]
      rw [if_pos (arrives.trans same), arrives.trans same] at at_x
      rw [arrives.trans same]
      omega
    · rw [if_neg same]
      rw [if_neg (fun eq => same (arrives.symm.trans eq)), arrives] at at_x
      rw [arrives]
      omega
  · rw [if_neg arrives] at at_x ⊢
    by_cases leaves : x = old
    · rw [if_pos leaves] at at_x ⊢
      rw [leaves] at at_x ⊢
      omega
    · rw [if_neg leaves] at at_x ⊢
      omega

theorem Shape.setState {state : JobState} (shape : Shape s) (found : s.jobs.lookup id = some job) :
    Shape (s.setState id state) := by
  obtain ⟨q, queue⟩ := Option.isSome_iff_exists.1 (shape.jobQueues id job found)
  rw [setState_eq found]
  set counted := s.modifyQueue job.queue fun q => (q.decrCount job.state).incrCount state
  set job' : Job := { job with state }
  have found' : counted.jobs.lookup id = some job := found
  have queues : (counted.setJob id job').queueOf = s.queueOf := queueOf_setJob found' rfl
  have ready : counted.readyOf = s.readyOf := readyOf_modifyQueue fun _ => rfl
  have dead : counted.deadOf = s.deadOf := deadOf_modifyQueue fun _ => rfl
  have counts : counted.countsOf = update s.countsOf job.queue
      (some ((q.decrCount job.state).incrCount state).counts) := Table.map_lookup_modify_update queue
  have old : s.countsOf job.queue = some q.counts := by simp [countsOf, queue]
  refine ⟨?_, ?_, queueName_modifyQueue (fun _ => rfl) shape.queueNames, ?_, ?_, ?_, ?_, ?_, shape.idem⟩
  · intro id' job₀ found₀
    rw [State.setJob, lookup_insert] at found₀
    split at found₀
    · rename_i same
      cases found₀
      rw [same]
      exact shape.jobIds id job found
    · exact shape.jobIds id' job₀ found₀
  · intro id' job₀ found₀
    show (counted.queues.lookup job₀.queue).isSome
    rw [isSome_lookup_modifyQueue]
    rw [State.setJob, lookup_insert] at found₀
    split at found₀
    · cases found₀
      exact shape.jobQueues id job found
    · exact shape.jobQueues id' job₀ found₀
  · rw [queues]
    show HeapInv _ _ counted.readyOf _
    rw [ready]
    exact shape.heaps_setJob found rfl (Or.inr ⟨rfl, rfl⟩)
  · rw [queues]
    exact shape.timers
  · rw [queues]
    show ∀ name d id', counted.deadOf name = some d → _
    rw [dead]
    exact shape.deads
  · intro name c at_name x
    have at_name' : counted.countsOf name = some c := at_name
    rw [counts, update_apply] at at_name'
    split at at_name'
    · rename_i same
      cases at_name'
      rw [same]
      refine recounted (fun y => Table.total (countIn job.queue y) s.jobs)
        (fun y => Table.total (countIn job.queue y) (s.jobs.insert id job'))
        (shape.counts job.queue q.counts old) ?_ ?_ x
      · have held := Table.total_erase (f := countIn job.queue job.state) found
        have here : countIn job.queue job.state id job = 1 := by simp [countIn]
        omega
      intro y
      have moved := Table.total_insert_old (f := countIn job.queue y) (v := job') found
      have here : countIn job.queue y id job = if y = job.state then 1 else 0 := by
        simp [countIn, eq_comm]
      have there : countIn job.queue y id job' = if y = state then 1 else 0 := by
        simp [countIn, job', eq_comm]
      rw [here, there] at moved
      exact moved
    · rename_i ne
      rw [shape.counts name c at_name' x]
      symm
      apply Table.total_insert_same found
      simp [countIn, job', Ne.symm ne]
  · show s.memoryBytes = Table.total _ (s.jobs.insert id job') + s.idemMemory
    have bytes : s.platform.jobBytes job' = s.platform.jobBytes job := rfl
    rw [Table.total_insert_same found bytes]
    exact shape.memory

/-- The new error text is charged to the memory estimate. -/
theorem Shape.setLastError (shape : Shape s) (found : s.jobs.lookup id = some job) (error : Bytes) :
    Shape (s.setLastError id error) := by
  unfold State.setLastError findJob
  rw [found]
  set job' : Job := { job with lastError := s.platform.assign job.lastError error }
  have queues : (s.setJob id job').queueOf = s.queueOf := queueOf_setJob found rfl
  have charged := Table.total_insert_old (f := fun _ => s.platform.jobBytes) (v := job') found
  have memory := shape.memory
  refine ⟨?_, ?_, shape.queueNames, ?_, ?_, ?_, ?_, ?_, shape.idem⟩
  · intro id' job₀ found₀
    rw [lookup_insert] at found₀
    split at found₀
    · rename_i same
      cases found₀
      rw [same]
      exact shape.jobIds id job found
    · exact shape.jobIds id' job₀ found₀
  · intro id' job₀ found₀
    rw [lookup_insert] at found₀
    split at found₀
    · cases found₀
      exact shape.jobQueues id job found
    · exact shape.jobQueues id' job₀ found₀
  · show HeapInv _ (s.setJob id job').queueOf _ _
    rw [queues]
    exact shape.heaps_setJob found rfl (Or.inr ⟨rfl, rfl⟩)
  · show TimerInv (s.setJob id job').queueOf _ _
    rw [queues]
    exact shape.timers
  · show ∀ name d id', _ → _ → (s.setJob id job').queueOf id' = some name
    rw [queues]
    exact shape.deads
  · intro name c at_name x
    rw [shape.counts name c at_name x]
    symm
    apply Table.total_insert_same found
    simp [countIn]
  · show s.memoryBytes - s.platform.jobBytes job + s.platform.jobBytes job'
      = Table.total (fun _ => s.platform.jobBytes) (s.jobs.insert id job') + s.idemMemory
    have held : s.platform.jobBytes job ≤ Table.total (fun _ => s.platform.jobBytes) s.jobs := by
      have := Table.total_erase (f := fun _ => s.platform.jobBytes) found
      omega
    omega

end Jobs

/-! ## Changes to the indexes -/

section Indexes

variable {s s' : State} {id : Nat} {job : Job}

/-- The options, the platform, the clocks and the mode are the same. -/
structure SameSetting (s s' : State) : Prop where
  options : s'.options = s.options
  platform : s'.platform = s.platform
  wallNow : s'.wallNow = s.wallNow
  monoNow : s'.monoNow = s.monoNow
  replaying : s'.replaying = s.replaying

theorem SameSetting.trans {s'' : State} (one : SameSetting s s') (two : SameSetting s' s'') :
    SameSetting s s'' where
  options := two.options.trans one.options
  platform := two.platform.trans one.platform
  wallNow := two.wallNow.trans one.wallNow
  monoNow := two.monoNow.trans one.monoNow
  replaying := two.replaying.trans one.replaying

/-- So are the counters, the keys and the lists of the collection. -/
structure SameBooks (s s' : State) : Prop extends SameSetting s s' where
  nextJobId : s'.nextJobId = s.nextJobId
  nextToken : s'.nextToken = s.nextToken
  idemOrder : s'.idemOrder = s.idemOrder
  idemIndex : s'.idemIndex = s.idemIndex
  nextNode : s'.nextNode = s.nextNode
  finishedGc : s'.finishedGc = s.finishedGc
  deadGc : s'.deadGc = s.deadGc

theorem SameBooks.trans {s'' : State} (one : SameBooks s s') (two : SameBooks s' s'') : SameBooks s s'' where
  __ := one.toSameSetting.trans two.toSameSetting
  nextJobId := two.nextJobId.trans one.nextJobId
  nextToken := two.nextToken.trans one.nextToken
  idemOrder := two.idemOrder.trans one.idemOrder
  idemIndex := two.idemIndex.trans one.idemIndex
  nextNode := two.nextNode.trans one.nextNode
  finishedGc := two.finishedGc.trans one.finishedGc
  deadGc := two.deadGc.trans one.deadGc

/-- The jobs are the same too. -/
structure SameJobs (s s' : State) : Prop extends SameBooks s s' where
  jobs : s'.jobs = s.jobs

namespace SameJobs

theorem findJob (same : SameJobs s s') : s'.findJob = s.findJob := by
  funext id
  unfold State.findJob
  rw [same.jobs]

theorem queueOf (same : SameJobs s s') : s'.queueOf = s.queueOf := by
  funext id
  unfold State.queueOf
  rw [same.jobs]

theorem before (same : SameJobs s s') : s'.before = s.before := by
  funext a b
  unfold State.before
  rw [same.jobs]

theorem inDead (same : SameJobs s s') (deads : s'.deadOf = s.deadOf) : s'.inDead = s.inDead := by
  funext id
  unfold State.inDead
  rw [same.queueOf, deads]

end SameJobs

/-- What the heaps leave alone in a queue. -/
def Queue.unordered (q : Queue) : Bytes × QueueTotals × Finset Nat × (JobState → Nat) :=
  (q.name, q.totals, q.dead, q.counts)

/-- What the index operations leave alone: everything but the heaps, the positions,
the wheel, the timers and the notifications. -/
structure SameTables (s s' : State) : Prop extends SameJobs s s' where
  queues : ∀ name, (s'.queues.lookup name).map Queue.unordered = (s.queues.lookup name).map Queue.unordered
  memoryBytes : s'.memoryBytes = s.memoryBytes

theorem SameTables.of_indexes (s : State) {queues : Table Bytes Queue} (wheel : TimingWheel)
    (heapIndex : Nat → Option Nat) (timer : Nat → Option TimerHandle) (notified : List Bytes)
    (same : ∀ name, (queues.lookup name).map Queue.unordered = (s.queues.lookup name).map Queue.unordered) :
    SameTables s { s with queues, wheel, heapIndex, timer, readyNotifications := notified } :=
  ⟨⟨⟨⟨rfl, rfl, rfl, rfl, rfl⟩, rfl, rfl, rfl, rfl, rfl, rfl, rfl⟩, rfl⟩, same, rfl⟩

theorem SameTables.refl (s : State) : SameTables s s :=
  SameTables.of_indexes s s.wheel s.heapIndex s.timer s.readyNotifications fun _ => rfl

theorem SameTables.trans {s'' : State} (one : SameTables s s') (two : SameTables s' s'') :
    SameTables s s'' where
  __ := one.toSameBooks.trans two.toSameBooks
  jobs := two.jobs.trans one.jobs
  queues := fun name => (two.queues name).trans (one.queues name)
  memoryBytes := two.memoryBytes.trans one.memoryBytes

/-- What is read off the same view is the same. -/
theorem map_view {β γ : Type} {view : Queue → β} {q q' : Option Queue} (same : q'.map view = q.map view)
    (g : β → γ) : q'.map (fun q => g (view q)) = q.map fun q => g (view q) := by
  have mapped := congrArg (Option.map g) same
  simpa [Option.map_map, comp_def] using mapped

theorem SameTables.deadOf (same : SameTables s s') : s'.deadOf = s.deadOf := by
  funext name
  exact map_view (same.queues name) (·.2.2.1)

theorem SameTables.countsOf (same : SameTables s s') : s'.countsOf = s.countsOf := by
  funext name
  exact map_view (same.queues name) (·.2.2.2)

/-- New indexes that are in step, beside the same tables. -/
theorem Shape.ofSameTables (shape : Shape s) (same : SameTables s s')
    (heaps : HeapInv s.before s.queueOf s'.readyOf s'.heapIndex)
    (timers : TimerInv s.queueOf s'.wheel s'.timer) : Shape s' where
  jobIds := by
    rw [same.jobs]
    exact shape.jobIds
  jobQueues := by
    intro id job found
    rw [same.jobs] at found
    have known := congrArg Option.isSome (map_view (same.queues job.queue) fun _ => ())
    simp only [Option.isSome_map] at known
    rw [known]
    exact shape.jobQueues id job found
  queueNames := by
    intro name q found
    have names := map_view (same.queues name) (·.1)
    rw [found, Option.map_some] at names
    obtain ⟨q', found', name_eq⟩ := Option.map_eq_some_iff.1 names.symm
    exact name_eq.symm.trans (shape.queueNames name q' found')
  heaps := by
    rw [same.before, same.queueOf]
    exact heaps
  timers := by
    rw [same.queueOf]
    exact timers
  deads := by
    rw [same.deadOf, same.queueOf]
    exact shape.deads
  counts := by
    rw [same.countsOf, same.jobs]
    exact shape.counts
  memory := by
    have idem : s'.idemMemory = s.idemMemory := by
      unfold idemMemory
      rw [same.idemOrder, same.platform]
    rw [same.memoryBytes, same.jobs, same.platform, idem]
    exact shape.memory
  idem := by
    rw [same.idemOrder, same.idemIndex, same.nextNode]
    exact shape.idem

theorem sameTables_ready {name : Bytes} (heap : IndexedHeap Nat) :
    SameTables s ({ s with heapIndex := heap.index }.modifyQueue name
      fun q => { q with ready := heap.heap }) := by
  refine SameTables.of_indexes s s.wheel heap.index s.timer s.readyNotifications ?_
  intro name'
  apply Table.map_lookup_modify
  intro q
  rfl

theorem readyOf_setReady {name : Bytes} {q : Queue} (heap : IndexedHeap Nat)
    (queue : s.queues.lookup name = some q) :
    ({ s with heapIndex := heap.index }.modifyQueue name fun q => { q with ready := heap.heap }).readyOf
      = update s.readyOf name (some heap.heap) :=
  Table.map_lookup_modify_update queue

/-- `push`: the job is in the heap of its queue. -/
theorem Shape.pushReady (shape : Shape s) (found : s.jobs.lookup id = some job)
    (pushed : s.pushReady job.queue id = some s') :
    Shape s' ∧ SameTables s s' ∧ s'.inHeap = update s.inHeap id true ∧
      s'.kindOf = s.kindOf ∧ s'.timer = s.timer := by
  unfold State.pushReady findQueue at pushed
  split at pushed
  · cases pushed
  rename_i q queue
  split at pushed
  swap
  · cases pushed
  rename_i checks
  cases pushed
  have ready : s.readyOf job.queue = some q.ready := by simp [readyOf, queue]
  obtain ⟨heaps, inside⟩ := shape.heaps.push s.before_strict ready (queueOf_of_lookup found)
    checks.1 checks.2
  have same := @sameTables_ready s job.queue (IndexedHeap.push s.before id ⟨q.ready, s.heapIndex⟩)
  refine ⟨shape.ofSameTables same ?_ shape.timers, same, ?_, rfl, rfl⟩
  · rw [readyOf_setReady _ queue]
    exact heaps
  · funext j
    rw [update_apply]
    exact inside j

/-- `remove`: the job is in no heap. -/
theorem Shape.removeReady (shape : Shape s) (removed : s.removeReady job.queue id = some s') :
    Shape s' ∧ SameTables s s' ∧ s'.inHeap = update s.inHeap id false ∧
      s'.kindOf = s.kindOf ∧ s'.timer = s.timer := by
  unfold State.removeReady findQueue at removed
  split at removed
  · cases removed
  rename_i q queue
  obtain ⟨heap, taken, result⟩ := Option.map_eq_some_iff.1 removed
  subst result
  have ready : s.readyOf job.queue = some q.ready := by simp [readyOf, queue]
  obtain ⟨heaps, inside⟩ := shape.heaps.remove s.before_strict ready taken
  have same := @sameTables_ready s job.queue heap
  refine ⟨shape.ofSameTables same ?_ shape.timers, same, ?_, rfl, rfl⟩
  · rw [readyOf_setReady _ queue]
    exact heaps
  · funext j
    rw [update_apply]
    exact inside j

theorem Shape.armTimer {deadline kind : Nat} (shape : Shape s) (found : s.jobs.lookup id = some job)
    (unarmed : s.timer id = none) (armed : s.armTimer deadline kind id = some s') :
    Shape s' ∧ SameTables s s' ∧ s'.inHeap = s.inHeap ∧
      s'.kindOf = update s.kindOf id (some kind) := by
  obtain ⟨⟨handle, wheel⟩, scheduled, result⟩ := Option.map_eq_some_iff.1 armed
  subst result
  have known : s.queueOf id ≠ none := by simp [queueOf_of_lookup found]
  obtain ⟨timers, kinds⟩ := shape.timers.arm scheduled known unarmed
  have same := SameTables.of_indexes s wheel s.heapIndex (update s.timer id (some handle))
    s.readyNotifications fun _ => rfl
  exact ⟨shape.ofSameTables same shape.heaps timers, same, rfl, kinds⟩

theorem Shape.cancelTimer (shape : Shape s) (id : Nat) :
    Shape (s.cancelTimer id) ∧ SameTables s (s.cancelTimer id) ∧
      (s.cancelTimer id).inHeap = s.inHeap ∧ (s.cancelTimer id).heapIndex = s.heapIndex ∧
      (s.cancelTimer id).kindOf = update s.kindOf id none ∧
      (s.cancelTimer id).timer id = none := by
  unfold State.cancelTimer
  split
  · rename_i unarmed
    refine ⟨shape, SameTables.refl s, rfl, rfl, ?_, unarmed⟩
    have none_here : s.kindOf id = none := TimerInv.timerKind_none unarmed
    rw [← none_here, update_eq_self]
  · rename_i handle armed
    obtain ⟨timers, kinds⟩ := shape.timers.cancel armed
    have same := SameTables.of_indexes s (s.wheel.cancel handle).2 s.heapIndex
      (update s.timer id none) s.readyNotifications fun _ => rfl
    exact ⟨shape.ofSameTables same shape.heaps timers, same, rfl, rfl, kinds, by simp⟩

/-- Out of every index. -/
theorem Shape.leaveIndexes (shape : Shape s) (left : s.leaveIndexes id = some s') :
    Shape s' ∧ SameTables s s' ∧ s'.inHeap = update s.inHeap id false ∧
      s'.kindOf = update s.kindOf id none ∧ s'.heapIndex id = none ∧ s'.timer id = none := by
  unfold State.leaveIndexes findJob at left
  split at left
  · cases left
  rename_i job found
  split at left
  · obtain ⟨out, removed, result⟩ := Option.map_eq_some_iff.1 left
    subst result
    obtain ⟨shape', same, inside, kinds, timers⟩ := shape.removeReady removed
    obtain ⟨shape'', same', inside', index', kinds', timer'⟩ := shape'.cancelTimer id
    refine ⟨shape'', same.trans same', inside'.trans inside, ?_, ?_, timer'⟩
    · rw [kinds', kinds]
    · have here := congrFun inside id
      rw [update_self] at here
      rw [index']
      simpa [State.inHeap] using here
  · rename_i outside
    cases left
    obtain ⟨shape', same', inside', index', kinds', timer'⟩ := shape.cancelTimer id
    have out : s.heapIndex id = none := by simpa using outside
    refine ⟨shape', same', ?_, kinds', by rw [index']; exact out, timer'⟩
    have here : s.inHeap id = false := by simp [State.inHeap, out]
    rw [inside', ← here, update_eq_self]

end Indexes

end State

end Baton
