/-
# State.ShapeTable — jobs and idempotency keys come and go

`Shape` under the operations that change which jobs and which keys there are: a new
job, a job erased, an idempotency entry added or dropped.
-/
import Baton.State.Placement

namespace Baton

open Theory Function

set_option autoImplicit false

namespace State

/-! ## A new job -/

section NewJob

variable {s : State} {name : Bytes}

theorem lookup_getOrCreateQueue (name' : Bytes) :
    (s.getOrCreateQueue name).queues.lookup name' =
      if name' = name then some ((s.queues.lookup name).getD { name })
      else s.queues.lookup name' := by
  unfold State.getOrCreateQueue findQueue
  cases found : s.queues.lookup name with
  | some q =>
    rw [if_pos (by simp)]
    by_cases same : name' = name
    · rw [if_pos same, same, found]
      rfl
    · rw [if_neg same]
  | none =>
    by_cases same : name' = name
    · rw [if_pos same, same]
      exact AList.lookup_insert _
    · rw [if_neg same]
      exact AList.lookup_insert_ne same

theorem Shape.getOrCreateQueue (shape : Shape s) (name : Bytes) :
    Shape (s.getOrCreateQueue name) ∧ (s.getOrCreateQueue name).inDead = s.inDead := by
  cases found : s.queues.lookup name with
  | some q =>
    have same : s.getOrCreateQueue name = s := by
      unfold State.getOrCreateQueue findQueue
      rw [found]
      rfl
    rw [same]
    exact ⟨shape, rfl⟩
  | none =>
    set s' := s.getOrCreateQueue name
    have lookup : ∀ name', s'.queues.lookup name' =
        if name' = name then some { name } else s.queues.lookup name' := by
      intro name'
      rw [lookup_getOrCreateQueue, found]
      rfl
    have unused : ∀ id job, s.jobs.lookup id = some job → job.queue ≠ name := by
      intro id job found' same
      have known := shape.jobQueues id job found'
      rw [same, found] at known
      cases known
    have ready : s'.readyOf = update s.readyOf name (some []) := by
      funext name'
      unfold State.readyOf
      rw [lookup, update_apply]
      split <;> rfl
    have absent : s.readyOf name = none := by simp [State.readyOf, found]
    refine ⟨⟨shape.jobIds, ?_, ?_, ?_, shape.timers, ?_, ?_, shape.memory, shape.idem⟩, ?_⟩
    · intro id job found'
      rw [lookup, if_neg (unused id job found')]
      exact shape.jobQueues id job found'
    · intro name' q found'
      rw [lookup] at found'
      split at found'
      · rename_i same
        cases found'
        exact same.symm
      · exact shape.queueNames name' q found'
    · rw [ready]
      exact shape.heaps.newQueue absent
    · intro name' dead id at_name mem
      unfold State.deadOf at at_name
      rw [lookup] at at_name
      split at at_name
      · cases at_name
        simp at mem
      · exact shape.deads name' dead id at_name mem
    · intro name' c at_name state
      unfold State.countsOf at at_name
      rw [lookup] at at_name
      split at at_name
      · rename_i same
        cases at_name
        symm
        apply Table.total_eq_zero
        intro id job found'
        simp [countIn, same, unused id job found']
      · exact shape.counts name' c at_name state
    · funext id
      have same_queue : s'.queueOf = s.queueOf := rfl
      unfold State.inDead
      rw [same_queue]
      cases queue : s.queueOf id with
      | none => rfl
      | some name' =>
        obtain ⟨job, found', eq⟩ := Option.map_eq_some_iff.1 queue
        have ne : name' ≠ name := eq ▸ unused id job found'
        simp only [Option.bind_some, State.deadOf, lookup, if_neg ne]

section

variable {id : Nat} (shape : Shape s) (fresh : s.jobs.lookup id = none)

include shape fresh

/-- A job the table does not have is in no index. -/
theorem Shape.unknown :
    s.heapIndex id = none ∧ s.timer id = none ∧ s.inDead id = false ∧
      ∀ name dead, s.deadOf name = some dead → id ∉ dead := by
  have no_queue : s.queueOf id = none := by simp [State.queueOf, fresh]
  refine ⟨?_, ?_, by simp [State.inDead, no_queue], ?_⟩
  · cases stored : s.heapIndex id with
    | none => rfl
    | some i =>
      obtain ⟨name, l, queue, -, -⟩ := shape.heaps.stored id i stored
      rw [no_queue] at queue
      cases queue
  · cases armed : s.timer id with
    | none => rfl
    | some h => exact absurd no_queue (shape.timers.job id h armed)
  · intro name dead at_name mem
    have queue := shape.deads name dead id at_name mem
    rw [no_queue] at queue
    cases queue

/-- A new job of a queue that exists, counted and charged. -/
theorem Shape.addJob {job : Job} {q : Queue} (named : job.id = id) (queue : s.queues.lookup job.queue = some q) :
    let s' := { s with
      jobs := s.jobs.insert id job
      memoryBytes := s.memoryBytes + s.platform.jobBytes job }.modifyQueue job.queue
        (Queue.incrCount job.state)
    Shape s' ∧ s'.inDead = s.inDead := by
  intro s'
  obtain ⟨out, unarmed, not_dead, no_dead⟩ := shape.unknown fresh
  have jobs : s'.jobs = s.jobs.insert id job := rfl
  have queues : ∀ id', id' ≠ id → s'.queueOf id' = s.queueOf id' := by
    intro id' ne
    unfold State.queueOf
    rw [jobs, lookup_insert, if_neg ne]
  have queue_here : s'.queueOf id = some job.queue := by
    unfold State.queueOf
    rw [jobs, lookup_insert, if_pos rfl]
    rfl
  have dead : s'.deadOf = s.deadOf := deadOf_modifyQueue fun _ => rfl
  have ready : s'.readyOf = s.readyOf := readyOf_modifyQueue fun _ => rfl
  have counts : s'.countsOf = update s.countsOf job.queue
      (some (q.incrCount job.state).counts) := Table.map_lookup_modify_update queue
  have in_queue : ∀ id' name', s.queueOf id' = some name' → s'.queueOf id' = some name' := by
    intro id' name' old
    rw [queues id' ?_, old]
    intro same
    have missing : s.queueOf id = none := by simp [State.queueOf, fresh]
    rw [same, missing] at old
    cases old
  refine ⟨⟨?_, ?_, queueName_modifyQueue (fun _ => rfl) shape.queueNames, ?_, ?_, ?_, ?_, ?_,
    shape.idem⟩, ?_⟩
  · intro id' job' found
    rw [jobs, lookup_insert] at found
    split at found
    · rename_i same
      cases found
      exact named.trans same.symm
    · exact shape.jobIds id' job' found
  · intro id' job' found
    rw [isSome_lookup_modifyQueue]
    rw [jobs, lookup_insert] at found
    split at found
    · cases found
      rw [queue]
      rfl
    · exact shape.jobQueues id' job' found
  · rw [ready]
    refine shape.heaps.congr ?_ ?_
    · intro a b in_a in_b
      have keep : ∀ c, s.heapIndex c ≠ none → s'.jobs.lookup c = s.jobs.lookup c := by
        intro c in_c
        rw [jobs, lookup_insert, if_neg]
        intro same
        exact in_c (same ▸ out)
      unfold State.before
      rw [keep a in_a, keep b in_b]
    · intro id' in_id
      exact queues id' fun same => in_id (same ▸ out)
  · refine shape.timers.congr ?_
    intro id' _ known
    obtain ⟨name', old⟩ := Option.ne_none_iff_exists'.1 known
    simp [in_queue id' name' old]
  · intro name' dead' id' at_name mem
    rw [dead] at at_name
    exact in_queue id' name' (shape.deads name' dead' id' at_name mem)
  · intro name' c at_name state
    rw [counts, update_apply] at at_name
    have added := Table.total_insert_new (f := countIn name' state) (v := job) fresh
    rw [jobs, added]
    split at at_name
    · rename_i same
      cases at_name
      have old := shape.counts job.queue q.counts (by simp [State.countsOf, queue]) state
      rw [same, ← old]
      simp only [Queue.incrCount, update_apply, countIn, true_and]
      by_cases here : state = job.state
      · simp [here]
      · simp [here, Ne.symm here]
    · rename_i ne
      rw [shape.counts name' c at_name state]
      simp [countIn, Ne.symm ne]
  · show s.memoryBytes + s.platform.jobBytes job
      = Table.total (fun _ => s.platform.jobBytes) (s.jobs.insert id job) + s.idemMemory
    rw [Table.total_insert_new fresh, shape.memory]
    omega
  · funext id'
    unfold State.inDead
    rw [dead]
    by_cases same : id' = id
    · subst same
      have missing : s.queueOf id' = none := by simp [State.queueOf, fresh]
      rw [queue_here, missing]
      cases at_name : s.deadOf job.queue with
      | none => simp [at_name]
      | some d => simp [at_name, no_dead job.queue d at_name]
    · rw [queues id' same]

/-- A new job of a queue that exists is in no index yet. -/
theorem Shape.moved_addJob {job : Job} {q : Queue} (named : job.id = id)
    (queue : s.queues.lookup job.queue = some q) : Moved s ({ s with
      jobs := s.jobs.insert id job
      memoryBytes := s.memoryBytes + s.platform.jobBytes job }.modifyQueue job.queue
        (Queue.incrCount job.state)) id job false none false := by
  obtain ⟨out, unarmed, alive, -⟩ := shape.unknown fresh
  obtain ⟨added, deads⟩ := shape.addJob fresh named queue
  have totals := @totalsOf_modifyQueue s job.queue (Queue.incrCount job.state) fun _ => rfl
  have kind : s.kindOf id = none := TimerInv.timerKind_none unarmed
  refine ⟨added, { Kept.refl s with totals }, ?_, ?_, ?_, ?_⟩
  · funext id'
    rw [update_apply]
    exact lookup_insert id'
  · have here : s.inHeap id = false := by simp [State.inHeap, out]
    rw [← here, update_eq_self]
    rfl
  · rw [← kind, update_eq_self]
    rfl
  · rw [← alive, update_eq_self]
    exact deads

end

theorem Shape.moved_enqueueJob {r : JobEnqueued} (shape : Shape s) (fresh : s.jobs.lookup r.id = none) :
    Moved (s.getOrCreateQueue r.queue) (s.enqueueJob r) r.id (newJob s.platform r) false none false := by
  obtain ⟨shape', -⟩ := shape.getOrCreateQueue r.queue
  obtain ⟨q, queue⟩ : ∃ q, (s.getOrCreateQueue r.queue).queues.lookup r.queue = some q :=
    ⟨_, by rw [lookup_getOrCreateQueue, if_pos rfl]⟩
  exact shape'.moved_addJob fresh rfl queue

end NewJob

/-! ## A job erased -/

section Erase

variable {s s' s'' : State} {id : Nat} {job : Job}

/-- The job is gone; no other job moved. -/
structure Removed (s s' : State) (id : Nat) : Prop where
  shape : Shape s'
  kept : Kept s s'
  jobs : s'.findJob = update s.findJob id none
  heaps : s'.inHeap = update s.inHeap id false
  kinds : s'.kindOf = update s.kindOf id none
  deads : s'.inDead = update s.inDead id false

theorem Moved.removed {heap dead : Bool} {kind : Option Nat}
    (moved : Moved s s' id job heap kind dead) (removed : Removed s' s'' id) : Removed s s'' id where
  shape := removed.shape
  kept := moved.kept.trans removed.kept
  jobs := by rw [removed.jobs, moved.jobs, update_idem]
  heaps := by rw [removed.heaps, moved.heaps, update_idem]
  kinds := by rw [removed.kinds, moved.kinds, update_idem]
  deads := by rw [removed.deads, moved.deads, update_idem]

theorem lookup_erase (id' : Nat) :
    (s.jobs.erase id).lookup id' = if id' = id then none else s.jobs.lookup id' := by
  by_cases same : id' = id
  · rw [if_pos same, same, AList.lookup_erase]
  · rw [if_neg same, AList.lookup_erase_ne same]

/-- A job in no index goes, with its count and its charge. -/
theorem Shape.dropJob (shape : Shape s) (found : s.jobs.lookup id = some job)
    (out : s.inHeap id = false) (unarmed : s.kindOf id = none) (alive : s.inDead id = false) :
    Removed s
      { s.modifyQueue job.queue (Queue.decrCount job.state) with
        memoryBytes := s.memoryBytes - s.platform.jobBytes job
        jobs := s.jobs.erase id } id := by
  obtain ⟨q, queue⟩ := Option.isSome_iff_exists.1 (shape.jobQueues id job found)
  set counted := s.modifyQueue job.queue (Queue.decrCount job.state)
  set s' : State :=
    { counted with
      memoryBytes := s.memoryBytes - s.platform.jobBytes job
      jobs := s.jobs.erase id }
  have jobs : ∀ id', s'.jobs.lookup id' = if id' = id then none else s.jobs.lookup id' :=
    fun id' => lookup_erase id'
  have queues : ∀ id', id' ≠ id → s'.queueOf id' = s.queueOf id' := by
    intro id' ne
    unfold State.queueOf
    rw [jobs, if_neg ne]
  have no_queue : s'.queueOf id = none := by
    unfold State.queueOf
    rw [jobs, if_pos rfl]
    rfl
  have dead : s'.deadOf = s.deadOf := deadOf_modifyQueue fun _ => rfl
  have ready : s'.readyOf = s.readyOf := readyOf_modifyQueue fun _ => rfl
  have counts : s'.countsOf = update s.countsOf job.queue
      (some (q.decrCount job.state).counts) := Table.map_lookup_modify_update queue
  have totals : s'.totalsOf = s.totalsOf := totalsOf_modifyQueue fun _ => rfl
  have no_dead : ∀ name d, s.deadOf name = some d → id ∉ d := by
    intro name d at_name mem
    have at_queue := shape.deads name d id at_name mem
    unfold State.inDead at alive
    rw [at_queue, Option.bind_some, at_name] at alive
    simp [mem] at alive
  refine ⟨⟨?_, ?_, queueName_modifyQueue (fun _ => rfl) shape.queueNames, ?_, ?_, ?_, ?_, ?_, shape.idem⟩,
    { Kept.refl s with totals }, ?_, ?_, ?_, ?_⟩
  · intro id' job' found'
    rw [jobs] at found'
    split at found'
    · cases found'
    · exact shape.jobIds id' job' found'
  · intro id' job' found'
    rw [jobs] at found'
    split at found'
    · cases found'
    · show (counted.queues.lookup job'.queue).isSome
      rw [isSome_lookup_modifyQueue]
      exact shape.jobQueues id' job' found'
  · rw [ready]
    have not_here : ∀ c, s.heapIndex c ≠ none → c ≠ id := by
      rintro c inside rfl
      exact inside (heapIndex_none out)
    refine shape.heaps.congr ?_ (fun id' inside => queues id' (not_here id' inside))
    intro a b in_a in_b
    unfold State.before
    rw [jobs, jobs, if_neg (not_here a in_a), if_neg (not_here b in_b)]
  · refine shape.timers.congr ?_
    intro id' armed known
    rw [queues id']
    · exact known
    · rintro rfl
      exact armed (shape.timer_none unarmed)
  · intro name d id' at_name mem
    rw [dead] at at_name
    rw [queues id']
    · exact shape.deads name d id' at_name mem
    · rintro rfl
      exact no_dead name d at_name mem
  · intro name c at_name state
    have erased := Table.total_erase (f := countIn name state) found
    show c state = Table.total (countIn name state) (s.jobs.erase id)
    rw [counts, update_apply] at at_name
    split at at_name
    · rename_i same
      cases at_name
      have old := shape.counts job.queue q.counts (by simp [State.countsOf, queue]) state
      rw [same] at erased ⊢
      simp only [Queue.decrCount, update_apply]
      by_cases here : state = job.state
      · rw [if_pos here, ← here]
        have one : countIn job.queue state id job = 1 := by simp [countIn, here]
        omega
      · rw [if_neg here]
        have none_here : countIn job.queue state id job = 0 := by simp [countIn, Ne.symm here]
        omega
    · rename_i ne
      have old := shape.counts name c at_name state
      have none_here : countIn name state id job = 0 := by simp [countIn, Ne.symm ne]
      omega
  · show s.memoryBytes - s.platform.jobBytes job
      = Table.total (fun _ => s.platform.jobBytes) (s.jobs.erase id) + s.idemMemory
    have erased := Table.total_erase (f := fun _ => s.platform.jobBytes) found
    have memory := shape.memory
    omega
  · funext id'
    rw [update_apply]
    exact jobs id'
  · rw [← out, update_eq_self]
    rfl
  · rw [← unarmed, update_eq_self]
    rfl
  · funext id'
    rw [update_apply]
    unfold State.inDead
    split
    · rename_i same
      rw [same, no_queue]
      rfl
    · rename_i ne
      rw [queues id' ne, dead]

theorem Shape.removed_eraseJob (shape : Shape s) (found : s.jobs.lookup id = some job)
    (alive : job.state ≠ .kDead → s.inDead id = false) (erased : s.eraseJob id = some s') :
    Removed s s' id := by
  unfold State.eraseJob State.findJob at erased
  rw [found] at erased
  obtain ⟨left, leave, result⟩ := Option.map_eq_some_iff.1 erased
  have one := shape.moved_leaveIndexes found leave
  subst result
  split
  · have two := one.shape.moved_eraseDead one.found
    rw [one.heap_at, one.kind_at] at two
    exact (one.trans two).removed (two.shape.dropJob two.found two.heap_at two.kind_at two.dead_at)
  · rename_i lives
    rw [alive lives] at one
    exact one.removed (one.shape.dropJob one.found one.heap_at one.kind_at one.dead_at)

end Erase

end State

/-! ## Idempotency keys -/

section Idem

variable {key : Bytes} {order : List IdemNode} {index : Table Bytes Nat} {next : Nat}

/-- The nodes of a key are the nodes its index entry names. -/
theorem IdemInv.node_iff (inv : IdemInv order index next) {node : Nat}
    (indexed : index.lookup key = some node) {n : IdemNode} (mem : n ∈ order) :
    n.node = node ↔ n.entry.key.bytes = key := by
  constructor
  · intro same
    obtain ⟨m, mem', node_eq, key_eq⟩ := inv.listed key node indexed
    have eq : n = m := List.inj_on_of_nodup_map inv.nodup mem mem' (same.trans node_eq.symm)
    rw [eq]
    exact key_eq
  · intro same
    have at_key := inv.indexed n mem
    rw [same, indexed] at at_key
    exact (Option.some.inj at_key).symm

theorem IdemInv.drop (inv : IdemInv order index next) (key : Bytes) :
    IdemInv (order.filter (·.entry.key.bytes ≠ key)) (index.erase key) next where
  fresh := fun n mem => inv.fresh n (List.mem_filter.1 mem).1
  nodup := inv.nodup.sublist (List.filter_sublist.map _)
  indexed := by
    intro n mem
    obtain ⟨mem', ne⟩ := List.mem_filter.1 mem
    rw [AList.lookup_erase_ne (by simpa using ne)]
    exact inv.indexed n mem'
  listed := by
    intro key' node indexed
    by_cases same : key' = key
    · rw [same, AList.lookup_erase] at indexed
      cases indexed
    · rw [AList.lookup_erase_ne same] at indexed
      obtain ⟨n, mem, node_eq, key_eq⟩ := inv.listed key' node indexed
      exact ⟨n, List.mem_filter.2 ⟨mem, by simpa [key_eq] using same⟩, node_eq, key_eq⟩

theorem IdemInv.add {entry : IdemEntry} (inv : IdemInv order index next)
    (absent : index.lookup entry.key.bytes = none) :
    IdemInv (order ++ [⟨next, entry⟩]) (index.insert entry.key.bytes next) (next + 1) where
  fresh := by
    intro n mem
    rcases List.mem_append.1 mem with old | new
    · exact Nat.lt_succ_of_lt (inv.fresh n old)
    · rw [List.mem_singleton.1 new]
      exact Nat.lt_succ_self next
  nodup := by
    rw [List.map_append, List.map_cons, List.map_nil, List.nodup_append]
    refine ⟨inv.nodup, List.nodup_singleton _, ?_⟩
    intro a old b new
    obtain ⟨n, mem, rfl⟩ := List.mem_map.1 old
    rw [List.mem_singleton.1 new]
    exact Nat.ne_of_lt (inv.fresh n mem)
  indexed := by
    intro n mem
    rcases List.mem_append.1 mem with old | new
    · rw [AList.lookup_insert_ne]
      · exact inv.indexed n old
      · intro same
        have at_key := inv.indexed n old
        rw [same, absent] at at_key
        cases at_key
    · rw [List.mem_singleton.1 new]
      exact AList.lookup_insert _
  listed := by
    intro key' node indexed
    by_cases same : key' = entry.key.bytes
    · rw [same, AList.lookup_insert] at indexed
      cases indexed
      exact ⟨⟨next, entry⟩, by simp, rfl, same.symm⟩
    · rw [AList.lookup_insert_ne same] at indexed
      obtain ⟨n, mem, node_eq, key_eq⟩ := inv.listed key' node indexed
      exact ⟨n, List.mem_append.2 (Or.inl mem), node_eq, key_eq⟩

end Idem

namespace State

section IdemTable

variable {s : State} {order : List IdemNode} {index : Table Bytes Nat} {next : Nat}

/-- A state with another idempotency list and another memory estimate. -/
def withIdem (s : State) (order : List IdemNode) (index : Table Bytes Nat) (next memory : Nat) : State :=
  { s with idemOrder := order, idemIndex := index, nextNode := next, memoryBytes := memory }

/-- The memory the entries of a list take. -/
def entriesMemory (platform : Platform) (order : List IdemNode) : Nat :=
  (order.map fun n => platform.idemBytes n.entry).sum

theorem Shape.withIdem {memory : Nat} (shape : Shape s) (inv : IdemInv order index next)
    (charged : memory + s.idemMemory = s.memoryBytes + entriesMemory s.platform order) :
    Shape (s.withIdem order index next memory) where
  __ := shape
  memory := by
    show memory = Table.total (fun _ => s.platform.jobBytes) s.jobs + entriesMemory s.platform order
    have old := shape.memory
    omega
  idem := inv

/-- The memory of the entries of one key. -/
theorem entriesMemory_drop (inv : IdemInv order index next) {n : IdemNode} (mem : n ∈ order)
    (platform : Platform) :
    entriesMemory platform (order.filter (·.entry.key.bytes ≠ n.entry.key.bytes))
      + platform.idemBytes n.entry = entriesMemory platform order := by
  have others : order.filter (·.entry.key.bytes ≠ n.entry.key.bytes) = order.erase n := by
    rw [(inv.nodup.of_map _).erase_eq_filter]
    apply List.filter_congr
    intro m mem'
    have same := inv.node_iff (inv.indexed n mem) mem'
    have eq_iff : m = n ↔ m.entry.key.bytes = n.entry.key.bytes := by
      rw [← same]
      exact ⟨fun eq => eq ▸ rfl, fun eq => List.inj_on_of_nodup_map inv.nodup mem' mem eq⟩
    simp [← eq_iff, bne, beq_eq_decide]
  have parts := List.sum_map_erase (fun n => platform.idemBytes n.entry) mem
  rw [others]
  unfold entriesMemory
  omega

/-- `dropIdem` filters the list by the key. -/
theorem Shape.dropIdem (shape : Shape s) (key : Bytes) :
    Shape (s.dropIdem key) ∧ ∃ memory, s.dropIdem key =
      s.withIdem (s.idemOrder.filter (·.entry.key.bytes ≠ key)) (s.idemIndex.erase key) s.nextNode
        memory := by
  have inv := shape.idem
  unfold State.dropIdem
  cases indexed : s.idemIndex.lookup key with
  | none =>
    have all : s.idemOrder.filter (·.entry.key.bytes ≠ key) = s.idemOrder := by
      rw [List.filter_eq_self]
      intro n mem
      have at_key := inv.indexed n mem
      rw [decide_eq_true_iff]
      rintro rfl
      rw [indexed] at at_key
      cases at_key
    have same : s.idemIndex.erase key = s.idemIndex := by
      apply AList.ext
      exact List.kerase_of_notMem_keys (AList.lookup_eq_none.1 indexed)
    refine ⟨shape, s.memoryBytes, ?_⟩
    rw [all, same]
    rfl
  | some node =>
    obtain ⟨n, mem, node_eq, key_eq⟩ := inv.listed key node indexed
    have first : s.idemOrder.find? (·.node = node) = some n := by
      cases at_node : s.idemOrder.find? (·.node = node) with
      | none =>
        have none_there := List.find?_eq_none.1 at_node n mem
        simp [node_eq] at none_there
      | some m =>
        have holds := List.find?_some at_node
        have same : m.node = n.node := (by simpa using holds : m.node = node).trans node_eq.symm
        rw [List.inj_on_of_nodup_map inv.nodup (List.mem_of_find?_eq_some at_node) mem same]
    have filtered : s.idemOrder.filter (·.node ≠ node)
        = s.idemOrder.filter (·.entry.key.bytes ≠ key) := by
      apply List.filter_congr
      intro m mem'
      simp [inv.node_iff indexed mem']
    dsimp only
    rw [first]
    rw [filtered]
    have dropped := entriesMemory_drop inv mem s.platform
    rw [key_eq] at dropped
    have memory := shape.memory
    have all : s.idemMemory = entriesMemory s.platform s.idemOrder := rfl
    refine ⟨shape.withIdem (inv.drop key) ?_, _, rfl⟩
    omega

theorem Shape.upsertIdem (shape : Shape s) (key : Bytes) (jobId : Nat) (expiresAt : Int) :
    Shape (s.upsertIdem key jobId expiresAt) ∧ ∃ memory, s.upsertIdem key jobId expiresAt =
      s.withIdem
        (s.idemOrder.filter (·.entry.key.bytes ≠ key) ++
          [⟨s.nextNode, ⟨s.platform.string key, jobId, expiresAt⟩⟩])
        ((s.idemIndex.erase key).insert key s.nextNode) (s.nextNode + 1) memory := by
  obtain ⟨shape', memory, dropped⟩ := shape.dropIdem key
  unfold State.upsertIdem
  rw [dropped] at shape' ⊢
  set entry : IdemEntry := ⟨s.platform.string key, jobId, expiresAt⟩
  have absent : (s.idemIndex.erase key).lookup entry.key.bytes = none := AList.lookup_erase _ _
  refine ⟨shape'.withIdem (shape'.idem.add absent) ?_, _, rfl⟩
  show memory + s.platform.idemBytes entry + entriesMemory s.platform _
    = memory + entriesMemory s.platform (_ ++ [(⟨s.nextNode, entry⟩ : IdemNode)])
  unfold entriesMemory
  rw [List.map_append, List.sum_append, List.map_cons, List.map_nil, List.sum_singleton]
  show memory + s.platform.idemBytes entry + _ = memory + (_ + s.platform.idemBytes entry)
  omega

theorem Shape.eraseIdemFront {front : IdemNode} {rest : List IdemNode} (shape : Shape s)
    (order : s.idemOrder = front :: rest) :
    Shape s.eraseIdemFront ∧ ∃ memory, s.eraseIdemFront =
      s.withIdem rest (s.idemIndex.erase front.entry.key.bytes) s.nextNode memory := by
  have inv := shape.idem
  have mem : front ∈ s.idemOrder := by simp [order]
  -- no later entry has the key of the first
  have others : s.idemOrder.filter (·.entry.key.bytes ≠ front.entry.key.bytes) = rest := by
    rw [order, List.filter_cons_of_neg (by simp), List.filter_eq_self]
    intro n later
    rw [decide_eq_true_iff]
    intro same
    have mem' : n ∈ s.idemOrder := by simp [order, later]
    have node := (inv.node_iff (inv.indexed front mem) mem').2 same
    have nodup := inv.nodup
    rw [order, List.map_cons, List.nodup_cons] at nodup
    exact nodup.1 (node ▸ List.mem_map_of_mem later)
  have dropped := entriesMemory_drop inv mem s.platform
  rw [others] at dropped
  have kept := inv.drop front.entry.key.bytes
  rw [others] at kept
  have memory := shape.memory
  have all : s.idemMemory = entriesMemory s.platform s.idemOrder := rfl
  unfold State.eraseIdemFront
  rw [order]
  refine ⟨shape.withIdem kept ?_, _, rfl⟩
  omega

end IdemTable

end State

end Baton
