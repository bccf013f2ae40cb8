/-
# State.Expiry — fired timers and collected garbage

`advance_timers`: the wheel fires, and each fired timer belongs to a job that was
scheduled or leased.  A scheduled job becomes ready or waits again, a lease is armed
again or reported; the reported leases are away until the record that ends them.

`collect_garbage` erases finished jobs and idempotency keys, nothing else.
-/
import Baton.State.Rebuild

namespace Baton

open Theory Function

set_option autoImplicit false

namespace State

/-! ## Timers -/

/-- The job of `s` under an id is that of `base`, or it became ready since. -/
def Ripened (base s : State) (j : Nat) : Prop :=
  s.findJob j = base.findJob j ∨
    ∃ job, base.findJob j = some job ∧ job.state = .kScheduled ∧ job.runAt ≤ base.wallNow ∧
      s.findJob j = some { job with state := .kReady }

/-- The job an event is about. -/
def Due (s : State) (e : TimerEvent) : Prop :=
  ∃ job, s.findJob e.id = some job ∧
    ((e.kind = kJobDue ∧ job.state = .kScheduled) ∨ (e.kind = kLeaseExpiry ∧ job.state = .kLeased))

/-- A lease that ran out. -/
def RanOut (s : State) (id : Nat) : Prop :=
  ∃ job, s.findJob id = some job ∧ job.state = .kLeased ∧ job.leaseExpiresAt ≤ s.wallNow

/-- Before the events `es`, with the leases `expired` reported; `v` is the twin without
the timers that fired. -/
structure Handling (base : State) (es : List TimerEvent) (expired : List Nat) (s v : State) : Prop where
  twin : Lockstep true (fun _ => True) (fun j => j ∉ es.map TimerEvent.id) s v
  inv : StateInv v fun j => j ∈ es.map TimerEvent.id ∨ j ∈ expired
  live : s.replaying = false
  nodup : (es.map TimerEvent.id ++ expired).Nodup
  current : ∀ e ∈ es, s.timer e.id = some e.handle
  due : ∀ e ∈ es, s.Due e
  ranOut : ∀ id ∈ expired, s.RanOut id
  kept : Kept base s
  jobs : ∀ j, Ripened base s j

section Handle

variable {base s s' v v' : State} {e : TimerEvent} {es : List TimerEvent} {expired expired' : List Nat}
  {id : Nat} {job job' : Job}

section

variable (handling : Handling base (e :: es) expired s v) (found : s.findJob e.id = some job)

include handling found

/-- The job of the first event is placed; the rest is as before. -/
theorem Handling.placed
    (twin : Lockstep true (fun _ => True) (fun j => j ∉ es.map TimerEvent.id) s' v')
    (placed : Placed v v' e.id job') (same : job' = job ∨
      (job.state = .kScheduled ∧ job.runAt ≤ s.wallNow ∧ job' = { job with state := .kReady }))
    (fits : JobFits v.nextJobId v.nextToken e.id job')
    (timers : ∀ j, j ≠ e.id → s'.timer j = s.timer j) : Handling base es expired s' v' := by
  have nodup := handling.nodup
  rw [List.map_cons, List.cons_append, List.nodup_cons] at nodup
  obtain ⟨fresh, rest⟩ := nodup
  have jobs : s'.findJob = update s.findJob e.id (some job') := by
    rw [← twin.findJob, placed.jobs, handling.twin.findJob]
  have kept : Kept s s' := (handling.twin.kept.trans placed.kept).trans twin.symm.kept
  have ne : ∀ j, j ∈ es.map TimerEvent.id ∨ j ∈ expired → j ≠ e.id := by
    rintro j mem rfl
    exact fresh (List.mem_append.2 mem)
  refine ⟨twin, (handling.inv.placed placed fits).weaken ?_, kept.replaying.trans handling.live, rest,
    ?_, ?_, ?_, handling.kept.trans kept, ?_⟩
  · intro j
    rw [List.map_cons, List.mem_cons]
    constructor
    · rintro ⟨(same | mem) | mem, other⟩
      · exact absurd same other
      · exact Or.inl mem
      · exact Or.inr mem
    · intro mem
      exact ⟨mem.imp_left Or.inr, ne j mem⟩
  · intro e' mem
    rw [timers e'.id (ne _ (Or.inl (List.mem_map_of_mem mem)))]
    exact handling.current e' (by simp [mem])
  · intro e' mem
    unfold State.Due
    rw [jobs, update_of_ne (ne _ (Or.inl (List.mem_map_of_mem mem)))]
    exact handling.due e' (by simp [mem])
  · intro id' mem
    unfold State.RanOut
    rw [jobs, update_of_ne (ne _ (Or.inr mem)), kept.wallNow]
    exact handling.ranOut id' mem
  · intro j
    have old := handling.jobs j
    by_cases here : j = e.id
    · subst here
      unfold State.Ripened at old ⊢
      rw [jobs, update_self]
      rw [found] at old
      rcases old with unchanged | ⟨job₀, found₀, scheduled, ripe, ready⟩
      · rcases same with rfl | ⟨scheduled, ripe, rfl⟩
        · exact Or.inl unchanged
        · refine Or.inr ⟨job, unchanged.symm, scheduled, ?_, rfl⟩
          rw [← handling.kept.wallNow]
          exact ripe
      · cases ready
        rcases same with rfl | ⟨impossible, -, -⟩
        · exact Or.inr ⟨job₀, found₀, scheduled, ripe, rfl⟩
        · cases impossible
    · unfold State.Ripened at old ⊢
      rw [jobs, update_of_ne here]
      exact old

/-- The timer of the first event is forgotten. -/
theorem Handling.forget :
    Lockstep true (fun _ => True) (fun j => j ∉ es.map TimerEvent.id)
      { s with timer := update s.timer e.id none } v ∧
      Floating v e.id ∧ v.findJob e.id = some job := by
  have twin := handling.twin
  have in_v : v.findJob e.id = some job := by
    rw [twin.findJob]
    exact found
  have floating : Floating v e.id := handling.inv.floating e.id job in_v (Or.inl (by simp))
  have unarmed : v.timer e.id = none := handling.inv.shape.timer_none floating.timer
  refine ⟨?_, floating, in_v⟩
  exact
    { twin with
      timer := by
        intro j later
        show v.timer j = update s.timer e.id none j
        by_cases here : j = e.id
        · rw [here, update_self, unarmed]
        · rw [update_of_ne here]
          apply twin.timer
          rw [List.map_cons, List.mem_cons, not_or]
          exact ⟨here, later⟩ }

/-- The timer of the first event is armed again. -/
theorem Handling.rearm {deadline kind : Nat} (waits : expectedKind false job.state = some kind)
    (unready : job.state ≠ .kReady) (lives : job.state ≠ .kDead)
    (armed : State.armTimer { s with timer := update s.timer e.id none } deadline kind e.id =
      some s') : ∃ v', Handling base es expired s' v' := by
  obtain ⟨twin, floating, in_v⟩ := handling.forget found
  obtain ⟨v', armed', twin'⟩ := twin.armTimer armed
  have moved := handling.inv.shape.moved_armTimer in_v floating.timer armed'
  rw [floating.heap, floating.dead] at moved
  have live : v.replaying = false := handling.twin.replaying.trans handling.live
  refine ⟨v', handling.placed found twin' ?_ (Or.inl rfl) (handling.inv.fits e.id job in_v) ?_⟩
  · unfold Placed
    rw [live, waits, decide_eq_false unready, decide_eq_false lives]
    exact moved
  · intro j ne
    exact ((armTimer_same armed).2 j ne).trans (update_of_ne ne _ _)

end

theorem handleEvent_spec (handling : Handling base (e :: es) expired s v)
    (handled : s.handleEvent expired e = some (s', expired')) :
    ∃ v', Handling base es expired' s' v' := by
  obtain ⟨job, found, kinds⟩ := handling.due e (by simp)
  have current := handling.current e (by simp)
  obtain ⟨twin, floating, in_v⟩ := handling.forget found
  have shape := handling.inv.shape
  have fits := handling.inv.fits e.id job in_v
  have live : v.replaying = false := handling.twin.replaying.trans handling.live
  have others : ∀ j, j ≠ e.id → update s.timer e.id none j = s.timer j :=
    fun j ne => update_of_ne ne _ _
  unfold State.handleEvent at handled
  rw [found] at handled
  dsimp only at handled
  rw [if_neg (by simp [current])] at handled
  rcases kinds with ⟨kind, scheduled⟩ | ⟨kind, leased⟩
  · rw [if_pos ⟨kind, scheduled⟩] at handled
    split at handled
    · -- the wall clock is behind: the timer is armed again
      obtain ⟨t, armed, result⟩ := Option.map_eq_some_iff.1 handled
      cases result
      exact handling.rearm found (by rw [scheduled]; rfl) (by simp [scheduled]) (by simp [scheduled]) armed
    · rename_i ripe
      obtain ⟨t, entered, result⟩ := Option.map_eq_some_iff.1 handled
      cases result
      obtain ⟨v', entered', twin'⟩ := twin.enterPending trivial entered
      have placed := shape.placed_enterPending in_v floating.heap floating.timer floating.dead entered'
      have ripe' : job.runAt ≤ s.wallNow := Int.not_lt.1 ripe
      have ready : v.pendingState job = .kReady := by
        unfold State.pendingState
        rw [if_neg]
        rw [live, twin.wallNow]
        rintro (impossible | waits)
        · cases impossible
        · exact ripe waits
      rw [ready] at placed
      refine ⟨v', handling.placed found twin' placed (Or.inr ⟨scheduled, ripe', rfl⟩) ?_ ?_⟩
      · refine ⟨fits.known, fits.attempts, ?_, fits.issued⟩
        have token := fits.token
        rw [scheduled] at token
        exact token
      · intro j ne
        have found' : State.findJob { s with timer := update s.timer e.id none } e.id = some job := found
        exact ((enterPending_same found' entered).2 j ne).trans (others j ne)
  · have not_due : ¬ (e.kind = kJobDue ∧ job.state = .kScheduled) := by
      rintro ⟨-, scheduled⟩
      rw [leased] at scheduled
      cases scheduled
    rw [if_neg not_due, if_pos ⟨kind, leased⟩] at handled
    split at handled
    · obtain ⟨t, armed, result⟩ := Option.map_eq_some_iff.1 handled
      cases result
      exact handling.rearm found (by rw [leased]; rfl) (by simp [leased]) (by simp [leased]) armed
    · -- the lease is reported and stays away
      rename_i ran_out
      cases handled
      have nodup := handling.nodup
      rw [List.map_cons, List.cons_append, List.nodup_cons] at nodup
      refine ⟨v, twin, handling.inv.weaken ?_, handling.live, ?_, ?_, ?_, ?_, ?_, handling.jobs⟩
      · intro j
        rw [List.map_cons, List.mem_cons, List.mem_append, List.mem_singleton]
        tauto
      · rw [← List.append_assoc, List.nodup_append]
        refine ⟨nodup.2, List.nodup_singleton _, ?_⟩
        intro a mem b last
        rw [List.mem_singleton.1 last]
        rintro rfl
        exact nodup.1 mem
      · intro e' mem
        show update s.timer e.id none e'.id = some e'.handle
        rw [others]
        · exact handling.current e' (by simp [mem])
        · intro same
          exact nodup.1 (List.mem_append.2 (Or.inl (same ▸ List.mem_map_of_mem mem)))
      · intro e' mem
        exact handling.due e' (by simp [mem])
      · intro id' mem
        rcases List.mem_append.1 mem with old | new
        · exact handling.ranOut id' old
        · rw [List.mem_singleton.1 new]
          exact ⟨job, found, leased, Int.not_lt.1 ran_out⟩
      · exact { handling.kept with }

theorem handleEvents_spec (handling : Handling base es expired s v)
    (handled : handleEvents es s expired = some (s', expired')) :
    ∃ v', Handling base [] expired' s' v' := by
  induction es generalizing s v expired with
  | nil =>
    cases handled
    exact ⟨v, handling⟩
  | cons e es ih =>
    obtain ⟨⟨t, expired₁⟩, first, rest⟩ := Option.bind_eq_some_iff.1 handled
    obtain ⟨w, next⟩ := handleEvent_spec handling first
    exact ih next rest

/-- The wheel has fired: the events are about jobs, each about its own. -/
theorem handling_start (inv : StateInv s nobody) (live : s.replaying = false) :
    let advanced := s.wheel.advance s.monoNow []
    Handling s advanced.2 [] { s with wheel := advanced.1 }
      { s with
        wheel := advanced.1
        timer := fun j => if j ∈ advanced.2.map TimerEvent.id then none else s.timer j } := by
  intro advanced
  have shape := inv.shape
  obtain ⟨⟨wheel_inv, fires, -⟩, -⟩ := TimingWheel.advance_spec shape.timers.lists s.monoNow
  have current : ∀ e ∈ advanced.2, s.timer e.id = some e.handle := by
    intro e mem
    exact shape.timers.owner _ _ (fires.held e mem)
  have kinds : ∀ e ∈ advanced.2, s.kindOf e.id = some e.kind := by
    intro e mem
    show timerKind s.wheel s.timer e.id = some e.kind
    unfold timerKind
    rw [current e mem, Option.bind_some, fires.held e mem]
    rfl
  have due : ∀ e ∈ advanced.2, s.Due e := by
    intro e mem
    have known := shape.timers.job e.id e.handle (current e mem)
    obtain ⟨name, queue⟩ := Option.ne_none_iff_exists'.1 known
    obtain ⟨job, found, -⟩ := Option.map_eq_some_iff.1 queue
    have kind := (inv.indexed e.id job found id).timer
    rw [kinds e mem, live] at kind
    refine ⟨job, found, ?_⟩
    unfold expectedKind at kind
    rw [if_neg (by simp)] at kind
    split at kind
    · rename_i scheduled
      exact Or.inl ⟨Option.some.inj kind, scheduled⟩
    · split at kind
      · rename_i leased
        exact Or.inr ⟨Option.some.inj kind, leased⟩
      · cases kind
  have nodup : (advanced.2.map TimerEvent.id).Nodup := by
    refine List.Nodup.of_map (fun j => (s.timer j).map TimerHandle.index) ?_
    rw [List.map_map]
    have indices : advanced.2.map ((fun j => (s.timer j).map TimerHandle.index) ∘ TimerEvent.id)
        = (advanced.2.map (·.handle.index)).map some := by
      rw [List.map_map]
      apply List.map_congr_left
      intro e mem
      simp [current e mem]
    rw [indices]
    exact fires.nodup.map (Option.some_injective _)
  have dropped := shape.timers.drop (fun j => j ∈ advanced.2.map TimerEvent.id) wheel_inv (by
    intro i
    rw [fires.rest i]
    -- an index is among the events if its timer is of a job among them
    have same : i ∈ advanced.2.map (·.handle.index) ↔
        ∃ t, s.wheel.timer? i = some t ∧ t.id ∈ advanced.2.map TimerEvent.id := by
      constructor
      · intro mem
        obtain ⟨e, mem', rfl⟩ := List.mem_map.1 mem
        exact ⟨_, fires.held e mem', List.mem_map_of_mem mem'⟩
      · rintro ⟨t, held, mem⟩
        obtain ⟨e, mem', same_id⟩ := List.mem_map.1 mem
        have owner := shape.timers.owner i t held
        rw [← same_id, current e mem'] at owner
        have index : e.handle.index = i := congrArg TimerHandle.index (Option.some.inj owner)
        rw [← index]
        exact List.mem_map_of_mem mem'
    by_cases mem : i ∈ advanced.2.map (·.handle.index)
    · rw [if_pos mem, if_pos (same.1 mem)]
    · rw [if_neg mem, if_neg (fun other => mem (same.2 other))])
  obtain ⟨timers, kinds'⟩ := dropped
  have books := (Kept.refl s).toSameBooks
  refine ⟨⟨⟨{ books with }, rfl⟩, fun _ => rfl, rfl, fun _ _ => rfl, ?_, rfl, fun _ => rfl⟩,
    ⟨{ shape with timers }, inv.tokens, inv.fits, ?_, ?_⟩,
    live, by rwa [List.append_nil], current, due, by simp, { Kept.refl s with }, fun _ => Or.inl rfl⟩
  · intro j later
    exact if_neg later
  · intro id job found here
    have old := inv.indexed id job found fun impossible => impossible
    have not_fired : id ∉ advanced.2.map TimerEvent.id := fun mem => here (Or.inl mem)
    refine ⟨old.heap, ?_, old.dead⟩
    have kind := kinds' id
    rw [if_neg not_fired] at kind
    exact kind.trans old.timer
  · intro id job found gone
    have fired : id ∈ advanced.2.map TimerEvent.id := gone.resolve_right (by simp)
    have old := inv.indexed id job found fun impossible => impossible
    obtain ⟨e, mem, same_id⟩ := List.mem_map.1 fired
    obtain ⟨job', found', states⟩ := due e mem
    rw [same_id] at found'
    have found'' : s.findJob id = some job := found
    rw [found''] at found'
    cases found'
    have kind := kinds' id
    rw [if_pos fired] at kind
    refine ⟨?_, kind, ?_⟩
    · refine old.heap.trans (decide_eq_false ?_)
      rcases states with ⟨-, state⟩ | ⟨-, state⟩ <;> simp [state]
    · refine old.dead.trans (decide_eq_false ?_)
      rcases states with ⟨-, state⟩ | ⟨-, state⟩ <;> simp [state]

/-- The leases reported are the ones that are away. -/
theorem advanceTimers_spec (inv : StateInv s nobody) (live : s.replaying = false)
    (advanced : s.advanceTimers = some (s', expired)) :
    StateInv s' (fun j => j ∈ expired) ∧ expired.Nodup ∧ Kept s s' ∧
      (∀ j, Ripened s s' j) ∧ ∀ id ∈ expired, s'.RanOut id := by
  obtain ⟨v, done⟩ := handleEvents_spec (handling_start inv live) advanced
  have twin : Lockstep true (fun _ => True) (fun _ => True) s' v :=
    done.twin.see (fun _ _ => by simp) (fun _ _ => by simp)
  have shape : Shape s' := by
    have same : Lockstep false (fun _ => True) (fun _ => True) s' v :=
      { twin with
        queues := fun name => map_view (twin.queues name) fun t => (t.1, t.2.1, t.2.2.1, t.2.2.2.1, none)
        memory := by simp }
    have counts : v.countsOf = s'.countsOf :=
      funext fun name => map_view (twin.queues name) (·.2.2.2.2.getD fun _ => 0)
    refine same.shape done.inv.shape ?_ ?_
    · rw [← counts, ← twin.jobs]
      exact done.inv.shape.counts
    · have memory := done.inv.shape.memory
      have idem : v.idemMemory = s'.idemMemory := by
        unfold State.idemMemory
        rw [twin.idemOrder, twin.platform]
      rw [twin.memory rfl, twin.jobs, twin.platform, idem] at memory
      exact memory
  refine ⟨(twin.inv done.inv shape).weaken (by simp), by simpa using done.nodup, done.kept, done.jobs,
    done.ranOut⟩

end Handle

/-! ## Garbage collection -/

/-- A reference names a job that it may take: the job finished then, and is still in
the state the reference was kept for. -/
def collects (s : State) (dead : Bool) (ref : FinishedRef) : Bool :=
  (s.findJob ref.id).any fun job =>
    decide (job.finishedAt = ref.finishedAt) &&
      if dead then decide (job.state = .kDead) else job.state.isTerminal

/-- Some reference of a list takes the job. -/
def takes (s : State) (dead : Bool) (refs : List FinishedRef) (j : Nat) : Bool :=
  refs.any fun ref => decide (ref.id = j) && s.collects dead ref

section Collect

variable {s s' : State} {away : Nat → Prop} {dead : Bool} {ref : FinishedRef}

theorem collectRef_eq :
    s.collectRef dead ref = if s.collects dead ref then s.eraseJob ref.id else some s := by
  unfold State.collectRef State.collects
  cases s.findJob ref.id with
  | none => rfl
  | some job =>
    by_cases same : job.finishedAt = ref.finishedAt
    · cases dead with
      | false => cases terminal : job.state.isTerminal <;> simp [same, terminal]
      | true => by_cases state : job.state = .kDead <;> simp [same, state]
    · simp [same]

theorem collectRef_spec (inv : StateInv s away) (collected : s.collectRef dead ref = some s') :
    StateInv s' away ∧ Kept s s' ∧
      ∀ j, s'.findJob j = if ref.id = j ∧ s.collects dead ref = true then none else s.findJob j := by
  rw [collectRef_eq] at collected
  split at collected
  · rename_i takes
    obtain ⟨job, found⟩ : ∃ job, s.findJob ref.id = some job := by
      cases found : s.findJob ref.id with
      | none => simp [State.collects, found] at takes
      | some job => exact ⟨job, rfl⟩
    obtain ⟨inv', removed⟩ := inv.eraseJob found collected
    refine ⟨inv', removed.kept, ?_⟩
    intro j
    rw [removed.jobs, update_apply]
    by_cases here : j = ref.id
    · rw [if_pos here, if_pos ⟨here.symm, takes⟩]
    · rw [if_neg here, if_neg (fun both => here both.1.symm)]
  · rename_i leaves
    cases collected
    exact ⟨inv, Kept.refl _, by simp [leaves]⟩

/-- Which references take a job depends on that job alone. -/
theorem takes_congr {j : Nat} (same : s'.findJob j = s.findJob j) (refs : List FinishedRef) :
    s'.takes dead refs j = s.takes dead refs j := by
  unfold State.takes
  rw [Bool.eq_iff_iff, List.any_eq_true, List.any_eq_true]
  have each : ∀ r : FinishedRef,
      (decide (r.id = j) && s'.collects dead r) = (decide (r.id = j) && s.collects dead r) := by
    intro r
    by_cases at_j : r.id = j
    · subst at_j
      simp only [State.collects, same]
    · simp [at_j]
  simp only [each]

theorem collect_spec {retention : Int} {refs rest : List FinishedRef} (inv : StateInv s away)
    (collected : collect retention dead refs s = some (rest, s')) :
    ∃ taken, refs = taken ++ rest ∧ (∀ r ∈ taken, r.finishedAt + retention ≤ s.wallNow) ∧
      (∀ r, rest.head? = some r → s.wallNow < r.finishedAt + retention) ∧
      StateInv s' away ∧ Kept s s' ∧
      ∀ j, s'.findJob j = if s.takes dead taken j then none else s.findJob j := by
  induction refs generalizing s with
  | nil =>
    cases collected
    exact ⟨[], rfl, by simp, by simp, inv, Kept.refl _, by simp [State.takes]⟩
  | cons ref refs ih =>
    unfold State.collect at collected
    split at collected
    · rename_i past
      obtain ⟨t, first, more⟩ := Option.bind_eq_some_iff.1 collected
      obtain ⟨inv', kept, jobs⟩ := collectRef_spec inv first
      obtain ⟨taken, parts, pasts, next, inv'', kept', jobs'⟩ := ih inv' more
      rw [kept.wallNow] at pasts next
      refine ⟨ref :: taken, by rw [parts]; rfl, ?_, next, inv'', kept.trans kept', ?_⟩
      · intro r mem
        rcases List.mem_cons.1 mem with rfl | mem
        · exact past
        · exact pasts r mem
      · intro j
        rw [jobs' j, jobs j]
        -- a job the first reference takes is gone for the others
        by_cases first_takes : ref.id = j ∧ s.collects dead ref = true
        · simp [State.takes, first_takes.1, first_takes.2]
        · rw [if_neg first_takes]
          have same : t.takes dead taken j = s.takes dead taken j :=
            takes_congr ((jobs j).trans (if_neg first_takes)) taken
          rw [same]
          have skips : s.takes dead (ref :: taken) j = s.takes dead taken j := by
            unfold State.takes
            rw [List.any_cons]
            have no : (decide (ref.id = j) && s.collects dead ref) = false := by
              simpa using first_takes
            rw [no, Bool.false_or]
          rw [skips]
    · rename_i young
      cases collected
      refine ⟨[], rfl, by simp, ?_, inv, Kept.refl _, by simp [State.takes]⟩
      intro r head
      cases head
      exact Int.not_le.1 young

/-- Whether an idempotency entry has expired. -/
def expiredBy (wall : Int) (n : IdemNode) : Bool := decide (n.entry.expiresAt ≤ wall)

theorem collectIdem_spec {fuel : Nat} (inv : StateInv s away) (enough : s.idemOrder.length ≤ fuel) :
    StateInv (collectIdem fuel s) away ∧ ∃ index memory, collectIdem fuel s =
      s.withIdem (s.idemOrder.dropWhile (expiredBy s.wallNow)) index s.nextNode memory := by
  induction fuel generalizing s with
  | zero =>
    have empty : s.idemOrder = [] := List.length_eq_zero_iff.1 (Nat.le_zero.1 enough)
    refine ⟨inv, s.idemIndex, s.memoryBytes, ?_⟩
    rw [empty, List.dropWhile_nil, ← empty]
    rfl
  | succ fuel ih =>
    unfold State.collectIdem
    cases order : s.idemOrder with
    | nil =>
      refine ⟨inv, s.idemIndex, s.memoryBytes, ?_⟩
      show s = s.withIdem [] s.idemIndex s.nextNode s.memoryBytes
      rw [← order]
      rfl
    | cons front rest =>
      dsimp only
      split
      · rename_i expired
        obtain ⟨shape, memory, erased⟩ := inv.shape.eraseIdemFront order
        have inv' : StateInv s.eraseIdemFront away := by
          rw [erased] at shape ⊢
          exact inv.withIdem shape
        have shorter : s.eraseIdemFront.idemOrder.length ≤ fuel := by
          rw [erased]
          show rest.length ≤ fuel
          rw [order, List.length_cons] at enough
          omega
        obtain ⟨inv'', index, memory', result⟩ := ih inv' shorter
        refine ⟨inv'', index, memory', ?_⟩
        rw [result, erased, List.dropWhile_cons_of_pos (by simpa [expiredBy] using expired)]
        rfl
      · rename_i alive
        refine ⟨inv, s.idemIndex, s.memoryBytes, ?_⟩
        rw [List.dropWhile_cons_of_neg (by simpa [expiredBy] using alive), ← order]
        rfl

/-- What a collection takes from a list of references: the ones past their retention. -/
structure TakenFrom (refs taken rest : List FinishedRef) (retention wall : Int) : Prop where
  parts : refs = taken ++ rest
  past : ∀ r ∈ taken, r.finishedAt + retention ≤ wall
  young : ∀ r, rest.head? = some r → wall < r.finishedAt + retention

/-- The state after a collection. -/
structure Collected (s s' : State) (finished dead : List FinishedRef) : Prop extends SameSetting s s' where
  finishedGc : TakenFrom s.finishedGc finished s'.finishedGc s.options.retainFinishedMs s.wallNow
  deadGc : TakenFrom s.deadGc dead s'.deadGc s.options.retainDeadMs s.wallNow
  jobs : ∀ j, s'.findJob j =
    if s.takes false finished j || s.takes true dead j then none else s.findJob j
  idemOrder : s'.idemOrder = s.idemOrder.dropWhile (expiredBy s.wallNow)
  totals : s'.totalsOf = s.totalsOf
  nextJobId : s'.nextJobId = s.nextJobId
  nextToken : s'.nextToken = s.nextToken

theorem collectGarbage_spec (inv : StateInv s away) (collected : s.collectGarbage = some s') :
    StateInv s' away ∧ ∃ finished dead, Collected s s' finished dead := by
  unfold State.collectGarbage at collected
  split at collected
  · cases collected
  obtain ⟨⟨finishedRest, t⟩, first, more⟩ := Option.bind_eq_some_iff.1 collected
  obtain ⟨⟨deadRest, u⟩, second, result⟩ := Option.bind_eq_some_iff.1 more
  obtain ⟨finished, parts, past, young, inv_t, kept_t, jobs_t⟩ := collect_spec inv first
  have inv_t' : StateInv { t with finishedGc := finishedRest } away :=
    inv_t.unindexed (Nat.le_refl _) (Nat.le_refl _)
  obtain ⟨dead, parts', past', young', inv_u, kept_u, jobs_u⟩ := collect_spec inv_t' second
  have inv_u' : StateInv { u with deadGc := deadRest } away :=
    inv_u.unindexed (Nat.le_refl _) (Nat.le_refl _)
  obtain ⟨inv', index, memory, idem⟩ := collectIdem_spec inv_u' (Nat.le_refl _)
  have result' : s' = collectIdem u.idemOrder.length { u with deadGc := deadRest } :=
    (Option.some.inj result).symm
  have wallNow : u.wallNow = s.wallNow := kept_u.wallNow.trans kept_t.wallNow
  have options : u.options = s.options := kept_u.options.trans kept_t.options
  rw [result']
  refine ⟨inv', finished, dead, ?_⟩
  rw [idem]
  refine ⟨kept_t.toSameSetting.trans { kept_u.toSameSetting with }, ⟨?_, past, ?_⟩, ⟨?_, ?_, ?_⟩, ?_, ?_,
    kept_u.totals.trans kept_t.totals, kept_u.nextJobId.trans kept_t.nextJobId,
    kept_u.nextToken.trans kept_t.nextToken⟩
  · have kept : u.finishedGc = finishedRest := kept_u.finishedGc
    rw [kept]
    exact parts
  · have kept : u.finishedGc = finishedRest := kept_u.finishedGc
    rw [kept]
    exact young
  · show s.deadGc = dead ++ deadRest
    rw [← kept_t.deadGc]
    exact parts'
  · rw [← kept_t.wallNow, ← kept_t.options]
    exact past'
  · rw [← kept_t.wallNow, ← kept_t.options]
    exact young'
  · intro j
    show u.findJob j = _
    rw [jobs_u j]
    show (if State.takes { t with finishedGc := finishedRest } true dead j then none else t.findJob j) = _
    rw [jobs_t j]
    by_cases taken : s.takes false finished j = true
    · simp [taken]
    · have here : t.findJob j = s.findJob j := by
        rw [jobs_t j, if_neg taken]
      have same : State.takes { t with finishedGc := finishedRest } true dead j = s.takes true dead j :=
        takes_congr here dead
      rw [same]
      simp [taken]
  · show u.idemOrder.dropWhile (expiredBy u.wallNow) = _
    rw [wallNow, kept_u.idemOrder]
    rw [kept_t.idemOrder]

end Collect

/-- After replay everything derived is made again and the garbage goes. -/
theorem endReplay_spec {s s' : State} {iteration : IterationOrder} {graceMs : Int}
    (inv : StateInv s nobody) (ended : s.endReplay iteration graceMs = some s') :
    ∃ t finished dead, { s with replaying := false }.rebuildDerived iteration graceMs = some t ∧
      StateInv t nobody ∧ StateInv s' nobody ∧ Collected t s' finished dead := by
  obtain ⟨t, rebuilt, collected⟩ := Option.bind_eq_some_iff.1 ended
  obtain ⟨inv_t, -⟩ := rebuildDerived_spec inv.shape.live inv.tokens inv.fits rebuilt
  obtain ⟨inv', finished, dead, result⟩ := collectGarbage_spec inv_t collected
  exact ⟨t, finished, dead, rebuilt, inv_t, inv', result⟩

end State

end Baton
