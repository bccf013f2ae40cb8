/-
# State.Indexes — the ready heaps and the timers of the jobs

The two indexes that share a field of every job: the ready heaps, with the position
each job stores, and the timing wheel, with the handle each job holds.  `HeapInv` and
`TimerInv` are what keeps them in step with the job table; both are stated over what
they depend on (which queue a job belongs to, which ids a heap lists), so that a
change elsewhere does not touch them.
-/
import Baton.State.State
import Baton.Sched.WheelTime

namespace Baton

open Theory Function

set_option autoImplicit false

/-! ## The ready heaps -/

/-- Every heap is in order, is no longer than its positions go and lists jobs of its own
queue, and a job that stores a position is there. -/
structure HeapInv (before : Nat → Nat → Bool) (queueOf : Nat → Option Bytes)
    (readyOf : Bytes → Option (List Nat)) (heapIndex : Nat → Option Nat) : Prop where
  valid : ∀ name l, readyOf name = some l → IndexedHeap.Valid before ⟨l, heapIndex⟩
  short : ∀ name l, readyOf name = some l → l.length ≤ kNotInHeap
  owner : ∀ name l id, readyOf name = some l → id ∈ l → queueOf id = some name
  stored : ∀ id i, heapIndex id = some i →
    ∃ name l, queueOf id = some name ∧ readyOf name = some l ∧ l[i]? = some id

namespace HeapInv

variable {before before' : Nat → Nat → Bool} {queueOf queueOf' : Nat → Option Bytes}
  {readyOf : Bytes → Option (List Nat)} {heapIndex : Nat → Option Nat}

section

variable (inv : HeapInv before queueOf readyOf heapIndex)

include inv

/-- A job without a position is in no heap. -/
theorem not_mem {name : Bytes} {l : List Nat}
    {id : Nat} (ready : readyOf name = some l) (out : heapIndex id = none) : id ∉ l := by
  intro mem
  obtain ⟨i, at_i⟩ := List.mem_iff_getElem?.1 mem
  have stored : heapIndex id = some i := (inv.valid name l ready).stored i id at_i
  rw [out] at stored
  cases stored

/-- Only the jobs with a position matter. -/
theorem congr (order : ∀ a b, heapIndex a ≠ none → heapIndex b ≠ none → before' a b = before a b)
    (queues : ∀ id, heapIndex id ≠ none → queueOf' id = queueOf id) :
    HeapInv before' queueOf' readyOf heapIndex where
  valid := by
    intro name l ready
    refine (inv.valid name l ready).congr ?_ (fun _ _ => rfl)
    intro a mem_a b mem_b
    exact order a b (fun out => inv.not_mem ready out mem_a) (fun out => inv.not_mem ready out mem_b)
  short := inv.short
  owner := by
    intro name l id ready mem
    rw [queues id (fun out => inv.not_mem ready out mem)]
    exact inv.owner name l id ready mem
  stored := by
    intro id i stored
    obtain ⟨name, l, queue, ready, at_i⟩ := inv.stored id i stored
    exact ⟨name, l, (queues id (by simp [stored])).trans queue, ready, at_i⟩

/-- Another list of heaps, in which a new one may only be empty. -/
theorem newQueue {name : Bytes} (absent : readyOf name = none) :
    HeapInv before queueOf (update readyOf name (some [])) heapIndex where
  valid := by
    intro name' l ready
    by_cases same : name' = name
    · subst same
      rw [update_self] at ready
      cases ready
      exact ⟨List.nodup_nil, by simp, fun _ _ _ _ at_j => by simp at at_j⟩
    · rw [update_of_ne same] at ready
      exact inv.valid name' l ready
  short := by
    intro name' l ready
    rw [update_apply] at ready
    split at ready
    · cases ready
      exact Nat.zero_le _
    · exact inv.short name' l ready
  owner := by
    intro name' l id ready mem
    by_cases same : name' = name
    · subst same
      rw [update_self] at ready
      cases ready
      simp at mem
    · rw [update_of_ne same] at ready
      exact inv.owner name' l id ready mem
  stored := by
    intro id i stored
    obtain ⟨name', l, queue, ready, at_i⟩ := inv.stored id i stored
    have ne : name' ≠ name := by
      intro same
      rw [same, absent] at ready
      cases ready
    exact ⟨name', l, queue, by rw [update_of_ne ne]; exact ready, at_i⟩

end

section Change

variable (inv : HeapInv before queueOf readyOf heapIndex) {name : Bytes} {l : List Nat} {id : Nat}

include inv

/-- What is common to the two operations: one heap and the positions of its members
change, and the members are jobs of its queue. -/
theorem replace {h : IndexedHeap Nat} (ready : readyOf name = some l)
    (valid : IndexedHeap.Valid before h) (short : h.heap.length ≤ kNotInHeap)
    (members : ∀ j, j ∈ h.heap → queueOf j = some name)
    (gone : ∀ j, j ∈ l → j ∉ h.heap → h.index j = none)
    (frame : ∀ j, j ∉ l → j ∉ h.heap → h.index j = heapIndex j) :
    HeapInv before queueOf (update readyOf name (some h.heap)) h.index where
  valid := by
    intro name' l' ready'
    by_cases same : name' = name
    · subst same
      rw [update_self] at ready'
      cases ready'
      exact valid
    · rw [update_of_ne same] at ready'
      refine (inv.valid name' l' ready').congr (fun _ _ _ _ => rfl) ?_
      intro j mem
      have queue := inv.owner name' l' j ready' mem
      refine frame j ?_ ?_
      · intro other
        rw [inv.owner name l j ready other] at queue
        exact same (Option.some.inj queue).symm
      · intro other
        rw [members j other] at queue
        exact same (Option.some.inj queue).symm
  short := by
    intro name' l' ready'
    rw [update_apply] at ready'
    split at ready'
    · cases ready'
      exact short
    · exact inv.short name' l' ready'
  owner := by
    intro name' l' j ready' mem
    by_cases same : name' = name
    · subst same
      rw [update_self] at ready'
      cases ready'
      exact members j mem
    · rw [update_of_ne same] at ready'
      exact inv.owner name' l' j ready' mem
  stored := by
    intro j i stored
    by_cases here : j ∈ h.heap
    · obtain ⟨i', stored', at_i'⟩ := valid.mem_iff_index here
      rw [stored] at stored'
      cases stored'
      exact ⟨name, h.heap, members j here, by simp, at_i'⟩
    · by_cases there : j ∈ l
      · rw [gone j there here] at stored
        cases stored
      · rw [frame j there here] at stored
        obtain ⟨name', l', queue, ready', at_i⟩ := inv.stored j i stored
        have ne : name' ≠ name := by
          intro same
          subst same
          rw [ready] at ready'
          cases ready'
          exact there (List.mem_of_getElem? at_i)
        exact ⟨name', l', queue, by rw [update_of_ne ne]; exact ready', at_i⟩

theorem push (strict : IndexedHeap.StrictOrder before) (ready : readyOf name = some l)
    (queue : queueOf id = some name) (out : heapIndex id = none) (room : l.length < kNotInHeap) :
    let h := IndexedHeap.push before id ⟨l, heapIndex⟩
    HeapInv before queueOf (update readyOf name (some h.heap)) h.index ∧
      ∀ j, (h.index j).isSome = if j = id then true else (heapIndex j).isSome := by
  intro h
  have valid := inv.valid name l ready
  have fresh : id ∉ l := inv.not_mem ready out
  obtain ⟨valid', perm, frame⟩ := IndexedHeap.push_valid strict valid fresh
  have mem_iff : ∀ j, j ∈ h.heap ↔ j = id ∨ j ∈ l := by
    intro j
    rw [perm.mem_iff, List.mem_cons]
  refine ⟨inv.replace ready valid' (perm.length_eq ▸ room) ?_ ?_ ?_, ?_⟩
  · intro j mem
    rcases (mem_iff j).1 mem with same | old
    · exact same ▸ queue
    · exact inv.owner name l j ready old
  · intro j old other
    exact absurd ((mem_iff j).2 (Or.inr old)) other
  · intro j old other
    have ne : j ≠ id := fun same => other ((mem_iff j).2 (Or.inl same))
    exact frame j ne old
  · intro j
    by_cases same : j = id
    · obtain ⟨i, stored, -⟩ := valid'.mem_iff_index ((mem_iff j).2 (Or.inl same))
      rw [if_pos same, stored]
      rfl
    · rw [if_neg same]
      by_cases old : j ∈ l
      · obtain ⟨i, stored, -⟩ := valid'.mem_iff_index ((mem_iff j).2 (Or.inr old))
        obtain ⟨i', stored', -⟩ := valid.mem_iff_index old
        have stored'' : heapIndex j = some i' := stored'
        rw [stored, stored'']
        rfl
      · rw [frame j same old]

theorem remove (strict : IndexedHeap.StrictOrder before) (ready : readyOf name = some l) {h : IndexedHeap Nat}
    (removed : IndexedHeap.remove before id ⟨l, heapIndex⟩ = some h) :
    HeapInv before queueOf (update readyOf name (some h.heap)) h.index ∧
      ∀ j, (h.index j).isSome = if j = id then false else (heapIndex j).isSome := by
  have valid := inv.valid name l ready
  obtain ⟨valid', perm, gone, frame⟩ := IndexedHeap.remove_valid strict valid removed
  have mem_iff : ∀ j, j ∈ l ↔ j = id ∨ j ∈ h.heap := by
    intro j
    rw [perm.mem_iff, List.mem_cons]
  have longer := perm.length_eq ▸ inv.short name l ready
  refine ⟨inv.replace ready valid' (Nat.le_of_succ_le longer) ?_ ?_ ?_, ?_⟩
  · intro j mem
    exact inv.owner name l j ready ((mem_iff j).2 (Or.inr mem))
  · intro j old other
    rcases (mem_iff j).1 old with same | mem
    · exact same ▸ gone
    · exact absurd mem other
  · intro j old _
    exact frame j old
  · intro j
    by_cases same : j = id
    · simp [same, gone]
    · rw [if_neg same]
      by_cases old : j ∈ l
      · rcases (mem_iff j).1 old with same' | mem
        · exact absurd same' same
        · obtain ⟨i, stored, -⟩ := valid'.mem_iff_index mem
          obtain ⟨i', stored', -⟩ := valid.mem_iff_index old
          have stored'' : heapIndex j = some i' := stored'
          rw [stored, stored'']
          rfl
      · rw [frame j old]

end Change

end HeapInv

/-! ## The timers -/

/-- A job that holds a handle has that timer in the wheel, and every timer in the
wheel is held by the job it names. -/
structure TimerInv (queueOf : Nat → Option Bytes) (wheel : TimingWheel)
    (timer : Nat → Option TimerHandle) : Prop where
  lists : wheel.WheelInv []
  held : ∀ id h, timer id = some h →
    ∃ t, wheel.timer? h.index = some t ∧ t.generation = h.generation ∧ t.id = id
  job : ∀ id h, timer id = some h → queueOf id ≠ none
  owner : ∀ i t, wheel.timer? i = some t → timer t.id = some ⟨i, t.generation⟩

/-- The kind of the timer a job holds. -/
def timerKind (wheel : TimingWheel) (timer : Nat → Option TimerHandle) (id : Nat) : Option Nat :=
  (timer id).bind fun h => (wheel.timer? h.index).map TimingWheel.Timer.kind

namespace TimerInv

variable {queueOf queueOf' : Nat → Option Bytes} {wheel wheel' : TimingWheel}
  {timer : Nat → Option TimerHandle} {id : Nat}

theorem congr (inv : TimerInv queueOf wheel timer)
    (jobs : ∀ id, timer id ≠ none → queueOf id ≠ none → queueOf' id ≠ none) :
    TimerInv queueOf' wheel timer where
  __ := inv
  job := fun id h armed => jobs id (by simp [armed]) (inv.job id h armed)

theorem isSome_timer (inv : TimerInv queueOf wheel timer) :
    (timer id).isSome = (timerKind wheel timer id).isSome := by
  unfold timerKind
  cases armed : timer id with
  | none => rfl
  | some h =>
    obtain ⟨t, held, -, -⟩ := inv.held id h armed
    simp [held]

theorem timerKind_none (unarmed : timer id = none) : timerKind wheel timer id = none := by
  simp [timerKind, unarmed]

/-- A job without a timer gets one. -/
theorem arm (inv : TimerInv queueOf wheel timer) {deadline kind : Nat} {handle : TimerHandle}
    (scheduled : wheel.schedule deadline kind id = some (handle, wheel')) (known : queueOf id ≠ none)
    (unarmed : timer id = none) :
    TimerInv queueOf wheel' (update timer id (some handle)) ∧
      timerKind wheel' (update timer id (some handle))
        = update (timerKind wheel timer) id (some kind) := by
  obtain ⟨wheel_inv, unused, timers⟩ := TimingWheel.schedule_spec inv.lists scheduled
  -- the timers of other jobs are at other indices
  have apart : ∀ j h, timer j = some h → h.index ≠ handle.index := by
    intro j h armed same
    obtain ⟨t, held, -, -⟩ := inv.held j h armed
    rw [same, unused] at held
    cases held
  refine ⟨⟨wheel_inv, ?_, ?_, ?_⟩, ?_⟩
  · intro j h armed
    by_cases same : j = id
    · subst same
      rw [update_self] at armed
      cases armed
      exact ⟨_, by rw [timers, update_self], rfl, rfl⟩
    · rw [update_of_ne same] at armed
      rw [timers, update_of_ne (apart j h armed)]
      exact inv.held j h armed
  · intro j h armed
    by_cases same : j = id
    · exact same ▸ known
    · rw [update_of_ne same] at armed
      exact inv.job j h armed
  · intro i t held
    rw [timers] at held
    by_cases same : i = handle.index
    · subst same
      rw [update_self] at held
      cases held
      simp
    · rw [update_of_ne same] at held
      have armed := inv.owner i t held
      have ne : t.id ≠ id := by
        intro same'
        rw [same', unarmed] at armed
        cases armed
      rw [update_of_ne ne]
      exact armed
  · funext j
    by_cases same : j = id
    · subst same
      simp [timerKind, timers]
    · rw [update_of_ne same]
      unfold timerKind
      rw [update_of_ne same]
      cases armed : timer j with
      | none => rfl
      | some h =>
        simp only [Option.bind_some]
        rw [timers, update_of_ne (apart j h armed)]

/-- Timers that leave the wheel leave the jobs that held them. -/
theorem drop (inv : TimerInv queueOf wheel timer) (gone : Nat → Prop) [DecidablePred gone]
    (wheel_inv : wheel'.WheelInv [])
    (timers : ∀ i, wheel'.timer? i = if ∃ t, wheel.timer? i = some t ∧ gone t.id then none
      else wheel.timer? i) :
    TimerInv queueOf wheel' (fun j => if gone j then none else timer j) ∧
      ∀ j, timerKind wheel' (fun j => if gone j then none else timer j) j
        = if gone j then none else timerKind wheel timer j := by
  have kept : ∀ j h t, timer j = some h → ¬ gone j → wheel.timer? h.index = some t →
      wheel'.timer? h.index = some t := by
    intro j h t armed stays held
    rw [timers, if_neg, held]
    rintro ⟨t', held', gone'⟩
    obtain ⟨t'', held'', -, id''⟩ := inv.held j h armed
    rw [held''] at held'
    cases held'
    exact stays (id'' ▸ gone')
  refine ⟨⟨wheel_inv, ?_, ?_, ?_⟩, ?_⟩
  · intro j h armed
    split at armed
    · cases armed
    · rename_i stays
      obtain ⟨t, held, generation, id'⟩ := inv.held j h armed
      exact ⟨t, kept j h t armed stays held, generation, id'⟩
  · intro j h armed
    split at armed
    · cases armed
    · exact inv.job j h armed
  · intro i t held
    rw [timers] at held
    split at held
    · cases held
    · rename_i stays
      rw [if_neg (fun gone' => stays ⟨t, held, gone'⟩)]
      exact inv.owner i t held
  · intro j
    unfold timerKind
    by_cases leaves : gone j
    · simp [leaves]
    · simp only [leaves, if_false]
      cases armed : timer j with
      | none => rfl
      | some h =>
        obtain ⟨t, held, -, -⟩ := inv.held j h armed
        simp [kept j h t armed leaves held, held]

/-- The timer of one job is cancelled. -/
theorem cancel (inv : TimerInv queueOf wheel timer) {handle : TimerHandle}
    (armed : timer id = some handle) :
    TimerInv queueOf (wheel.cancel handle).2 (update timer id none) ∧
      timerKind (wheel.cancel handle).2 (update timer id none)
        = update (timerKind wheel timer) id none := by
  obtain ⟨t, held, generation, owner⟩ := inv.held id handle armed
  obtain ⟨wheel_inv, timers⟩ := TimingWheel.cancel_spec inv.lists held generation
  have dropped := inv.drop (fun j => j = id) wheel_inv (by
    intro i
    rw [timers, update_apply]
    by_cases same : i = handle.index
    · rw [if_pos same, if_pos]
      exact ⟨t, same ▸ held, owner⟩
    · rw [if_neg same, if_neg]
      rintro ⟨t', held', owner'⟩
      have armed' := inv.owner i t' held'
      rw [owner', armed] at armed'
      cases armed'
      exact same rfl)
  have same : update timer id none = fun j => if j = id then none else timer j := by
    funext j
    rw [update_apply]
  rw [same]
  refine ⟨dropped.1, ?_⟩
  funext j
  rw [dropped.2 j, update_apply]

end TimerInv

end Baton
