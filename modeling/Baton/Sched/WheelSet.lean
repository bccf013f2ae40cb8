/-
# Sched.WheelSet — the timing wheel is a set of timers

What the wheel is for: a set of timers, each with a deadline, that gives back what is due.
`TimerSet` is that set, with no slots and no slab; a timer in it remembers the call that
scheduled it and the tick of that call.  `Runs` makes the same calls on a wheel and on a
set, `Refines` relates the two after every call, and `behaves_as_set` says that nothing the
wheel answers tells them apart.

Handles are told apart by their generations, which are 32 bits wide: a handle names one
timer only as long as its slab entry is not used more than 2^32 times.  Ticks are natural
numbers here; below 2^63 nothing the source adds to one leaves `uint64_t`.
-/
import Baton.Sched.WheelTime

namespace Baton

open Theory Function

set_option autoImplicit false

namespace TimingWheel

/-! ## The set -/

/-- A timer that was scheduled: by which call, under which handle, and when. -/
structure LiveTimer where
  serial : Nat
  handle : TimerHandle
  deadline : Nat
  kind : Nat
  id : Nat
  since : Nat

namespace LiveTimer

/-- The tick a timer is due at: its deadline, or at once if that was not in the future. -/
def due (x : LiveTimer) : Nat := max x.deadline x.since

def event (x : LiveTimer) : TimerEvent := ⟨x.handle, x.deadline, x.id, x.kind⟩

end LiveTimer

/-- The timers that are live, and every handle that was given out, in order. -/
structure TimerSet where
  now : Nat
  live : List LiveTimer := []
  issued : List TimerHandle := []

namespace TimerSet

def schedule (s : TimerSet) (handle : TimerHandle) (deadline kind id : Nat) : TimerSet :=
  { s with
    live := ⟨s.issued.length, handle, deadline, kind, id, s.now⟩ :: s.live
    issued := s.issued ++ [handle] }

def cancel (s : TimerSet) (handle : TimerHandle) : TimerSet :=
  { s with live := s.live.filter (·.handle ≠ handle) }

def advance (s : TimerSet) (now : Nat) : TimerSet :=
  { s with now := max s.now now, live := s.live.filter (max s.now now < ·.deadline) }

/-- The generations under which one slab entry was given out. -/
def generations (s : TimerSet) (i : Nat) : List Nat :=
  (s.issued.filter (·.index = i)).map TimerHandle.generation

end TimerSet

/-- The same calls on a wheel and on a set. -/
inductive Runs : TimingWheel → TimerSet → Prop where
  | start (now : Nat) : Runs { now } { now }
  | schedule {w w' : TimingWheel} {s : TimerSet} {deadline kind id : Nat} {handle : TimerHandle}
      (before : Runs w s) (scheduled : w.schedule deadline kind id = some (handle, w')) :
      Runs w' (s.schedule handle deadline kind id)
  | cancel {w : TimingWheel} {s : TimerSet} (before : Runs w s) (handle : TimerHandle) :
      Runs (w.cancel handle).2 (s.cancel handle)
  | advance {w : TimingWheel} {s : TimerSet} (before : Runs w s) (now : Nat) :
      Runs (w.advance now []).1 (s.advance now)

theorem handle_ext {h h' : TimerHandle} (index : h.index = h'.index) (generation : h.generation = h'.generation) :
    h = h' := by
  cases h
  cases index
  cases generation
  rfl

/-- An event and the timer it is about. -/
theorem LiveTimer.event_eq {x : LiveTimer} {e : TimerEvent} (index : x.handle.index = e.handle.index)
    (timer : (⟨x.handle.generation, x.deadline, x.id, x.kind⟩ : Timer) =
      ⟨e.handle.generation, e.deadline, e.id, e.kind⟩) : x.event = e := by
  simp only [Timer.mk.injEq] at timer
  obtain ⟨generation, deadline, id, kind⟩ := timer
  unfold event
  rw [handle_ext index generation, deadline, id, kind]

/-! ## The relation -/

structure Refines (w : TimingWheel) (s : TimerSet) : Prop where
  inv : WheelInv w []
  onTime : OnTime kFree w []
  now : w.now = s.now
  held : ∀ x ∈ s.live, w.timer? x.handle.index = some ⟨x.handle.generation, x.deadline, x.id, x.kind⟩
  covered : ∀ i t, w.timer? i = some t → ∃ x ∈ s.live, x.handle.index = i
  nodup : (s.live.map (·.handle.index)).Nodup
  since : ∀ x ∈ s.live, x.since ≤ s.now ∧ (s.now < x.deadline ∨ x.since = s.now)
  serial : ∀ x ∈ s.live, s.issued[x.serial]? = some x.handle
  numbered : ∀ i, s.generations i = (List.range (s.generations i).length).map (· % 2 ^ 32)
  free : ∀ i, i < w.slab → i ∉ w.live → (w.nodes i).generation = (s.generations i).length % 2 ^ 32
  used : ∀ i ∈ w.live, ((w.nodes i).generation + 1) % 2 ^ 32 = (s.generations i).length % 2 ^ 32
  unused : ∀ i, w.slab ≤ i → s.generations i = []

section Refines

variable {w w' : TimingWheel} {s : TimerSet} {handle : TimerHandle}

theorem refines_start (now : Nat) : Refines { now } { now } where
  inv := wheelInv_empty now
  onTime := (onTime_empty now).loosen
  now := rfl
  held := nofun
  covered := by
    intro i t held
    simp [timer?] at held
  nodup := List.nodup_nil
  since := nofun
  serial := nofun
  numbered := fun _ => rfl
  free := nofun
  used := by
    intro i mem
    cases (mem_live.1 mem).1
  unused := fun _ _ => rfl

variable {x : LiveTimer}

theorem Refines.due_eq (refines : Refines w s) (mem : x ∈ s.live) :
    x.due = max x.deadline s.now := by
  have := refines.since x mem
  unfold LiveTimer.due
  omega

theorem Refines.live_of_mem (refines : Refines w s) (mem : x ∈ s.live) : x.handle.index ∈ w.live :=
  mem_live_iff_timer.2 (by rw [refines.held x mem]; rfl)

/-- What becomes of the generations when entries are given back. -/
theorem Refines.aged (refines : Refines w s) (aged : Aged w w') {s' : TimerSet} (issued : s'.issued = s.issued) :
    (∀ i, i < w'.slab → i ∉ w'.live → (w'.nodes i).generation = (s'.generations i).length % 2 ^ 32) ∧
      (∀ i ∈ w'.live, ((w'.nodes i).generation + 1) % 2 ^ 32 = (s'.generations i).length % 2 ^ 32) ∧
      ∀ i, w'.slab ≤ i → s'.generations i = [] := by
  have same : s'.generations = s.generations := by
    unfold TimerSet.generations
    rw [issued]
  rw [same, aged.slab]
  refine ⟨?_, ?_, refines.unused⟩
  · intro i bound out
    by_cases mem : i ∈ w.live
    · rw [aged.older i mem out]
      exact refines.used i mem
    · rw [aged.kept i (Or.inr mem)]
      exact refines.free i bound mem
  · intro i mem
    rw [aged.kept i (Or.inl mem)]
    exact refines.used i (aged.shrinks mem)

/-! ### Scheduling -/

/-- The entry a timer is put into, and the generation it has there. -/
theorem schedule_entry {deadline kind id : Nat} (inv : WheelInv w [])
    (scheduled : w.schedule deadline kind id = some (handle, w')) :
    (handle.index < w.slab ∧ w'.slab = w.slab ∧ handle.generation = (w.nodes handle.index).generation ∨
        handle.index = w.slab ∧ w'.slab = w.slab + 1 ∧ handle.generation = 0) ∧
      (w'.nodes handle.index).generation = handle.generation ∧
      ∀ j, j ≠ handle.index → (w'.nodes j).generation = (w.nodes j).generation := by
  unfold schedule at scheduled
  split at scheduled
  · cases scheduled
  rename_i index taken allocated
  have linked : ∀ l j, (((taken.fill index deadline kind id).link index l).nodes j).generation =
      (taken.nodes j).generation := by
    intro l j
    refine (congrArg Timer.generation (link_timer _ index l j)).trans ?_
    rw [fill_timer]
    split <;> rfl
  obtain ⟨l, -, placed⟩ := place_eq (taken.fill index deadline kind id) index
  rw [placed] at scheduled
  cases scheduled
  refine ⟨?_, rfl, ?_⟩
  · show index < w.slab ∧ taken.slab = w.slab ∧ _ ∨ index = w.slab ∧ taken.slab = w.slab + 1 ∧ _
    rw [linked]
    obtain ⟨-, bound, -⟩ := allocate_spec inv allocated
    unfold allocate at allocated
    split at allocated
    · cases allocated
      exact Or.inl ⟨bound, rfl, rfl⟩
    split at allocated
    swap
    · cases allocated
    cases allocated
    refine Or.inr ⟨rfl, rfl, ?_⟩
    show (update w.nodes w.slab {} w.slab).generation = 0
    rw [update_self]
  · intro j ne
    rw [linked]
    unfold allocate at allocated
    split at allocated
    · cases allocated
      rfl
    split at allocated
    swap
    · cases allocated
    cases allocated
    show (update w.nodes w.slab {} j).generation = _
    rw [update_of_ne ne]

theorem Refines.schedule (refines : Refines w s) {deadline kind id : Nat}
    (scheduled : w.schedule deadline kind id = some (handle, w')) :
    Refines w' (s.schedule handle deadline kind id) := by
  obtain ⟨inv, absent, timers⟩ := schedule_spec refines.inv scheduled
  obtain ⟨onTime, now⟩ := schedule_on_time refines.inv refines.onTime scheduled
  obtain ⟨entry, generation, others⟩ := schedule_entry refines.inv scheduled
  have apart : ∀ x ∈ s.live, x.handle.index ≠ handle.index := by
    intro x mem same
    have held := refines.held x mem
    rw [same, absent] at held
    cases held
  have out : handle.index ∉ w.live := by
    intro mem
    rw [mem_live_iff_timer, absent] at mem
    cases mem
  have live : ∀ j, j ≠ handle.index → (j ∈ w'.live ↔ j ∈ w.live) := by
    intro j ne
    rw [mem_live_iff_timer, mem_live_iff_timer, timers, update_of_ne ne]
  have here : (s.schedule handle deadline kind id).generations handle.index =
      s.generations handle.index ++ [handle.generation] := by
    simp [TimerSet.generations, TimerSet.schedule, List.filter_append]
  have elsewhere : ∀ j, j ≠ handle.index → (s.schedule handle deadline kind id).generations j = s.generations j := by
    intro j ne
    simp [TimerSet.generations, TimerSet.schedule, List.filter_append, Ne.symm ne]
  have current : handle.generation = (s.generations handle.index).length % 2 ^ 32 := by
    rcases entry with ⟨bound, -, same⟩ | ⟨last, -, zero⟩
    · rw [same]
      exact refines.free _ bound out
    · rw [refines.unused _ (Nat.le_of_eq last.symm), zero]
      rfl
  refine ⟨inv, onTime, now.trans refines.now, ?_, ?_, ?_, ?_, ?_, ?_, ?_, ?_, ?_⟩
  · intro x mem
    rw [timers]
    rcases List.mem_cons.1 mem with rfl | old
    · rw [update_self]
    · rw [update_of_ne (apart x old)]
      exact refines.held x old
  · intro i t held
    by_cases same : i = handle.index
    · exact ⟨_, List.mem_cons_self, same.symm⟩
    · rw [timers, update_of_ne same] at held
      obtain ⟨x, mem, index⟩ := refines.covered i t held
      exact ⟨x, List.mem_cons_of_mem _ mem, index⟩
  · refine List.nodup_cons.2 ⟨?_, refines.nodup⟩
    intro mem
    obtain ⟨x, mem, same⟩ := List.mem_map.1 mem
    exact apart x mem same
  · intro x mem
    rcases List.mem_cons.1 mem with rfl | old
    · exact ⟨Nat.le_refl _, Or.inr rfl⟩
    · exact refines.since x old
  · intro x mem
    rcases List.mem_cons.1 mem with rfl | old
    · exact List.getElem?_concat_length
    · have serial := refines.serial x old
      have bound := (List.getElem?_eq_some_iff.1 serial).1
      exact (List.getElem?_append_left bound).trans serial
  · intro i
    by_cases same : i = handle.index
    · rw [same, here, List.length_append, List.length_singleton, List.range_succ, List.map_append,
        ← refines.numbered, current]
      rfl
    · rw [elsewhere i same]
      exact refines.numbered i
  · intro i bound unused
    by_cases same : i = handle.index
    · refine absurd ?_ unused
      rw [same, mem_live_iff_timer, timers, update_self]
      rfl
    · rw [elsewhere i same, others i same]
      refine refines.free i ?_ (fun mem => unused ((live i same).2 mem))
      omega
  · intro i mem
    by_cases same : i = handle.index
    · rw [same, here, generation, current, List.length_append, List.length_singleton, Nat.mod_add_mod]
    · rw [elsewhere i same, others i same]
      exact refines.used i ((live i same).1 mem)
  · intro i bound
    rw [elsewhere i (by omega)]
    exact refines.unused i (by omega)

/-! ### Cancelling -/

theorem cancel_iff (w : TimingWheel) (handle : TimerHandle) :
    (w.cancel handle).1 = true ↔ ∃ t, w.timer? handle.index = some t ∧ t.generation = handle.generation := by
  unfold cancel timer?
  by_cases inside : w.slab ≤ handle.index
  · rw [if_pos inside, if_neg (by omega)]
    simp
  rw [if_neg inside]
  dsimp only
  split
  · rename_i stale
    refine ⟨nofun, ?_⟩
    rintro ⟨t, held, current⟩
    split at held
    · rename_i live
      cases held
      exact absurd current (stale.resolve_left live.2)
    · cases held
  · rename_i current
    rw [not_or, not_not] at current
    refine ⟨fun _ => ⟨w.timerOf handle.index, ?_, current.2⟩, fun _ => rfl⟩
    exact if_pos ⟨Nat.not_le.1 inside, current.1⟩

theorem cancel_false (stale : (w.cancel handle).1 = false) : (w.cancel handle).2 = w := by
  unfold cancel at stale ⊢
  split
  · rfl
  rename_i inside
  rw [if_neg inside] at stale
  dsimp only at stale ⊢
  split
  · rfl
  rename_i current
  rw [if_neg current] at stale
  cases stale

/-- A handle is good for a timer exactly as long as the timer is live. -/
theorem Refines.cancel_iff (refines : Refines w s) (handle : TimerHandle) :
    (w.cancel handle).1 = true ↔ ∃ x ∈ s.live, x.handle = handle := by
  rw [TimingWheel.cancel_iff]
  constructor
  · rintro ⟨t, held, current⟩
    obtain ⟨x, mem, index⟩ := refines.covered _ t held
    have same := refines.held x mem
    rw [index, held] at same
    cases same
    exact ⟨x, mem, handle_ext index current⟩
  · rintro ⟨x, mem, rfl⟩
    exact ⟨_, refines.held x mem, rfl⟩

theorem Refines.cancel (refines : Refines w s) (handle : TimerHandle) :
    Refines (w.cancel handle).2 (s.cancel handle) := by
  have kept : ∀ {x : LiveTimer}, x ∈ (s.cancel handle).live → x ∈ s.live ∧ x.handle ≠ handle := by
    intro x mem
    simpa [TimerSet.cancel] using mem
  cases answer : (w.cancel handle).1 with
  | false =>
    have nobody : ∀ x ∈ s.live, x.handle ≠ handle := by
      intro x mem same
      have := (refines.cancel_iff handle).2 ⟨x, mem, same⟩
      rw [answer] at this
      cases this
    have same : s.cancel handle = s := by
      unfold TimerSet.cancel
      rw [List.filter_eq_self.2 (by simpa using nobody)]
    rw [cancel_false answer, same]
    exact refines
  | true =>
    obtain ⟨y, mem_y, rfl⟩ := (refines.cancel_iff handle).1 answer
    have held_y := refines.held y mem_y
    obtain ⟨inv, timers⟩ := cancel_spec refines.inv held_y rfl
    obtain ⟨onTime, now⟩ := cancel_on_time refines.inv refines.onTime y.handle
    have live_y := refines.live_of_mem mem_y
    have aged : Aged w (w.cancel y.handle).2 := by
      have unlinked : Aged w (w.unlink y.handle.index) :=
        .of_same rfl unlink_live fun j => unlink_timer w y.handle.index j
      unfold TimingWheel.cancel at answer ⊢
      split
      · exact Aged.refl w
      dsimp only
      split
      · exact Aged.refl w
      · exact unlinked.trans (aged_release (by rwa [unlink_live]))
    -- distinct timers are at distinct entries
    have apart : ∀ x ∈ s.live, x.handle ≠ y.handle → x.handle.index ≠ y.handle.index := by
      intro x mem ne same
      have held := refines.held x mem
      rw [same, held_y] at held
      exact ne (handle_ext same (congrArg Timer.generation (Option.some.inj held)).symm)
    obtain ⟨free, used, unused⟩ := @Refines.aged _ _ _ refines aged (s.cancel y.handle) rfl
    refine ⟨inv, onTime, now.trans refines.now, ?_, ?_, ?_, ?_, ?_, refines.numbered, free, used, unused⟩
    · intro x mem
      obtain ⟨mem, ne⟩ := kept mem
      rw [timers, update_of_ne (apart x mem ne)]
      exact refines.held x mem
    · intro i t held
      rw [timers, update_apply] at held
      split at held
      · cases held
      rename_i other
      obtain ⟨x, mem, rfl⟩ := refines.covered i t held
      refine ⟨x, List.mem_filter.2 ⟨mem, ?_⟩, rfl⟩
      exact decide_eq_true fun same => other (by rw [same])
    · exact refines.nodup.sublist (List.filter_sublist.map _)
    · intro x mem
      exact refines.since x (kept mem).1
    · intro x mem
      exact refines.serial x (kept mem).1

/-! ### Advancing -/

/-- The events of `advance` are the live timers that are due. -/
theorem Refines.fired (refines : Refines w s) (now : Nat) (e : TimerEvent) :
    e ∈ (w.advance now []).2 ↔ ∃ x ∈ s.live, x.deadline ≤ max s.now now ∧ x.event = e := by
  obtain ⟨⟨-, fires, -⟩, timely⟩ := advance_spec refines.inv now
  obtain ⟨settled, reached, times, -⟩ := timely refines.onTime
  rw [refines.now] at reached times
  constructor
  · intro mem
    have held := fires.held e mem
    obtain ⟨x, live, index⟩ := refines.covered _ _ held
    have same := refines.held x live
    rw [index, held] at same
    have timer := Option.some.inj same
    refine ⟨x, live, ?_, LiveTimer.event_eq index timer.symm⟩
    have deadline : e.deadline = x.deadline := congrArg Timer.deadline timer
    rw [← deadline]
    exact times e mem
  · rintro ⟨x, live, due, rfl⟩
    have held := refines.held x live
    by_contra missing
    have stays : x.handle.index ∉ (w.advance now []).2.map (·.handle.index) := by
      intro mem
      obtain ⟨e, mem, index⟩ := List.mem_map.1 mem
      have held' := fires.held e mem
      rw [index, held] at held'
      rw [LiveTimer.event_eq index.symm (Option.some.inj held')] at missing
      exact missing mem
    have rest := fires.rest x.handle.index
    rw [if_neg stays, held] at rest
    have future := settled.future rest
    rw [reached] at future
    exact absurd due (Nat.not_le.2 future)

theorem Refines.advance (refines : Refines w s) (now : Nat) :
    Refines (w.advance now []).1 (s.advance now) := by
  obtain ⟨⟨inv, fires, aged⟩, timely⟩ := advance_spec refines.inv now
  obtain ⟨settled, reached, times, -⟩ := timely refines.onTime
  rw [refines.now] at reached times
  have kept : ∀ {x : LiveTimer}, x ∈ (s.advance now).live → x ∈ s.live ∧ max s.now now < x.deadline := by
    intro x mem
    simpa [TimerSet.advance] using mem
  obtain ⟨free, used, unused⟩ := @Refines.aged _ _ _ refines aged (s.advance now) rfl
  refine ⟨inv, settled.loosen, reached, ?_, ?_, ?_, ?_, ?_, refines.numbered, free, used, unused⟩
  · intro x mem
    obtain ⟨mem, later⟩ := kept mem
    have held := refines.held x mem
    rw [fires.rest, if_neg, held]
    intro fired
    obtain ⟨e, mem_e, index⟩ := List.mem_map.1 fired
    have held_e := fires.held e mem_e
    rw [index, held] at held_e
    have deadline : x.deadline = e.deadline := congrArg Timer.deadline (Option.some.inj held_e)
    have due := times e mem_e
    omega
  · intro i t held
    have future := settled.future held
    rw [fires.rest] at held
    split at held
    · cases held
    obtain ⟨x, mem, rfl⟩ := refines.covered i t held
    have same := refines.held x mem
    rw [held] at same
    cases same
    rw [reached] at future
    exact ⟨x, List.mem_filter.2 ⟨mem, decide_eq_true future⟩, rfl⟩
  · exact refines.nodup.sublist (List.filter_sublist.map _)
  · intro x mem
    obtain ⟨mem, later⟩ := kept mem
    exact ⟨Nat.le_trans (refines.since x mem).1 (Nat.le_max_left _ _), Or.inl later⟩
  · intro x mem
    exact refines.serial x (kept mem).1

theorem refines_of_runs (runs : Runs w s) : Refines w s := by
  induction runs with
  | start now => exact refines_start now
  | schedule _ scheduled ih => exact ih.schedule scheduled
  | cancel _ handle ih => exact ih.cancel handle
  | advance _ now ih => exact ih.advance now

/-! ## What the wheel answers -/

theorem Refines.size (refines : Refines w s) : w.size = s.live.length := by
  have entries : w.live = (s.live.map (·.handle.index)).toFinset := by
    ext i
    rw [List.mem_toFinset, List.mem_map]
    constructor
    · intro mem
      obtain ⟨t, held⟩ := Option.isSome_iff_exists.1 (mem_live_iff_timer.1 mem)
      obtain ⟨x, mem, index⟩ := refines.covered i t held
      exact ⟨x, mem, index⟩
    · rintro ⟨x, mem, rfl⟩
      exact refines.live_of_mem mem
  rw [refines.inv.counted, entries, List.toFinset_card_of_nodup refines.nodup, List.length_map]

/-- Each timer that is due, once. -/
theorem Refines.perm (refines : Refines w s) (now : Nat) :
    (w.advance now []).2.Perm ((s.live.filter (·.deadline ≤ max s.now now)).map LiveTimer.event) := by
  obtain ⟨⟨-, fires, -⟩, -⟩ := advance_spec refines.inv now
  have nodup : ((s.live.filter (·.deadline ≤ max s.now now)).map LiveTimer.event).Nodup := by
    refine List.Nodup.of_map (·.handle.index) ?_
    rw [List.map_map]
    exact refines.nodup.sublist (List.filter_sublist.map _)
  rw [List.perm_ext_iff_of_nodup (fires.nodup.of_map _) nodup]
  intro e
  rw [refines.fired now e, List.mem_map]
  constructor
  · rintro ⟨x, live, due, rfl⟩
    exact ⟨x, List.mem_filter.2 ⟨live, decide_eq_true due⟩, rfl⟩
  · rintro ⟨x, mem, rfl⟩
    obtain ⟨live, due⟩ := List.mem_filter.1 mem
    exact ⟨x, live, of_decide_eq_true due, rfl⟩

/-- Within the bound on reuse no handle is given out twice. -/
theorem Refines.issued_nodup (refines : Refines w s)
    (reused : ∀ i, (s.issued.filter (·.index = i)).length ≤ 2 ^ 32) : s.issued.Nodup := by
  have each : ∀ i, (s.issued.filter (·.index = i)).Nodup := by
    intro i
    refine List.Nodup.of_map TimerHandle.generation ?_
    show (s.generations i).Nodup
    have bound : (s.generations i).length ≤ 2 ^ 32 := by
      unfold TimerSet.generations
      rw [List.length_map]
      exact reused i
    rw [refines.numbered i]
    refine List.Nodup.map_on ?_ List.nodup_range
    intro a mem_a b mem_b same
    have := List.mem_range.1 mem_a
    have := List.mem_range.1 mem_b
    rwa [Nat.mod_eq_of_lt (by omega), Nat.mod_eq_of_lt (by omega)] at same
  rw [List.nodup_iff_count_le_one]
  intro handle
  have count := List.nodup_iff_count_le_one.1 (each handle.index) handle
  rwa [List.count_filter (by simp)] at count

theorem nextWakeup_ge (onTime : OnTime kFree w []) {t : Nat} (next : w.nextWakeup = some t) :
    w.now ≤ t := by
  unfold nextWakeup at next
  split at next
  · cases next
    exact Nat.le_refl _
  · obtain ⟨expiration, found, rfl⟩ := Option.map_eq_some_iff.1 next
    obtain ⟨-, inside, -, deadline⟩ := (nextExpiration_scanned onTime.bits).found expiration found
    rw [deadline]
    exact Nat.le_of_lt (now_lt_nextTurn (offset_lt inside))

/-- The next wakeup of a wheel with a timer in it is no later than the timer. -/
theorem Refines.wakeup (refines : Refines w s) (mem : x ∈ s.live) :
    ∃ t, w.nextWakeup = some t ∧ t ≤ x.due := by
  have due := refines.due_eq mem
  have live := refines.live_of_mem mem
  unfold nextWakeup
  cases head : w.heads kDueList with
  | some i =>
    refine ⟨w.now, rfl, ?_⟩
    rw [due, refines.now]
    exact Nat.le_max_right _ _
  | none =>
    have settled := refines.onTime.tighten refines.inv head
    obtain ⟨next, found, least⟩ := settled.least refines.inv live
    obtain ⟨slotted, waits⟩ := settled.waits _ live (by simp)
    have held := refines.held x mem
    rw [timer?_of_live live] at held
    have deadline := congrArg Timer.deadline (Option.some.inj held)
    refine ⟨next.deadline, ?_, ?_⟩
    · rw [if_neg (by simp), found]
      rfl
    · have ahead := waits.ahead slotted
      rw [deadline] at ahead
      exact Nat.le_trans (Nat.le_trans least ahead) (Nat.le_max_left _ _)

theorem Refines.wakeup_none (refines : Refines w s) (empty : s.live = []) : w.nextWakeup = none := by
  have unused : w.live = ∅ := by
    refine Finset.card_eq_zero.1 ?_
    rw [← refines.inv.counted, refines.size, empty]
    rfl
  have nobody : ∀ l, l < kFree → w.heads l = none := by
    intro l list
    cases head : w.heads l with
    | none => rfl
    | some i =>
      have mem := head_live refines.inv list head
      rw [unused] at mem
      cases mem
  unfold nextWakeup
  rw [nobody kDueList (by decide), if_neg (by simp)]
  cases next : w.nextExpiration with
  | none => rfl
  | some expiration =>
    obtain ⟨level, inside, set, -⟩ := (nextExpiration_scanned refines.onTime.bits).found expiration next
    have levels : kLevels = 6 := by decide
    have dueList : kDueList = 384 := by decide
    have slotted : expiration.level * kSlotsPerLevel + expiration.slot < kDueList := by
      rw [kSlots_eq, dueList]
      omega
    have marked := refines.onTime.marked _ slotted
    have div : (expiration.level * kSlotsPerLevel + expiration.slot) / kSlotsPerLevel = expiration.level := by
      rw [kSlots_eq]
      omega
    have mod : (expiration.level * kSlotsPerLevel + expiration.slot) % kSlotsPerLevel = expiration.slot := by
      rw [kSlots_eq]
      omega
    rw [div, mod, set, nobody _ (Nat.lt_succ_of_lt slotted)] at marked
    cases marked

/-- The owner sleeps until the next wakeup and advances to it. -/
def wake (w : TimingWheel) : TimingWheel :=
  match w.nextWakeup with
  | none => w
  | some t => (w.advance t []).1

/-- Waking up again and again, every timer is met on the tick it is due. -/
theorem Refines.woken (refines : Refines w s) {x : LiveTimer} (mem : x ∈ s.live) :
    ∃ n, (wake^[n] w).nextWakeup = some x.due ∧ x.event ∈ ((wake^[n] w).advance x.due []).2 := by
  -- each wakeup moves time forward, or empties the list of timers that are due
  induction measure : 2 * (x.due - s.now) + (if (w.heads kDueList).isSome then 1 else 0)
    using Nat.strong_induction_on generalizing w s with
  | _ m ih =>
    obtain ⟨t, next, bound⟩ := refines.wakeup mem
    have due := refines.due_eq mem
    rcases Nat.lt_or_eq_of_le bound with early | on_time
    · have after := nextWakeup_ge refines.onTime next
      rw [refines.now] at after
      have later : max s.now t < x.deadline := by omega
      have mem' : x ∈ (s.advance t).live := List.mem_filter.2 ⟨mem, decide_eq_true later⟩
      have refines' := refines.advance t
      obtain ⟨settled, -⟩ := (advance_spec refines.inv t).2 refines.onTime
      have no_head : (w.advance t []).1.heads kDueList = none := by
        cases head : (w.advance t []).1.heads kDueList with
        | none => rfl
        | some i =>
          have slotted := (settled.waits i (head_live refines'.inv (by decide) head) (by simp)).1
          rw [head_due refines'.inv head] at slotted
          exact absurd slotted (Nat.lt_irrefl _)
      have less : 2 * (x.due - (s.advance t).now) +
          (if ((w.advance t []).1.heads kDueList).isSome then 1 else 0) < m := by
        rw [no_head, if_neg (by simp), ← measure]
        show 2 * (x.due - max s.now t) + 0 < _
        by_cases head : (w.heads kDueList).isSome
        · rw [if_pos head]
          omega
        · -- nothing was due, so the wakeup is the turn of a slot
          have strictly : s.now < t := by
            unfold nextWakeup at next
            rw [if_neg head] at next
            obtain ⟨expiration, found, rfl⟩ := Option.map_eq_some_iff.1 next
            obtain ⟨-, inside, -, deadline⟩ :=
              (nextExpiration_scanned refines.onTime.bits).found expiration found
            rw [deadline, ← refines.now]
            exact now_lt_nextTurn (offset_lt inside)
          omega
      obtain ⟨n, woken⟩ := ih _ less refines' mem' rfl
      refine ⟨n + 1, ?_⟩
      have first : wake w = (w.advance t []).1 := by
        unfold wake
        rw [next]
      rw [iterate_succ_apply, first]
      exact woken
    · refine ⟨0, next.trans (congrArg some on_time), ?_⟩
      rw [iterate_zero, id, refines.fired]
      refine ⟨x, mem, ?_, rfl⟩
      omega

end Refines

/-- Whatever calls are made, the wheel answers as the set does: `size` counts the live
timers; a handle cancels exactly while its own timer is live; `advance` gives back each timer
that is due once, in the order they are due in; there is a wakeup exactly while a timer is
live, none is due before it, and waking up meets every timer on its tick. -/
theorem behaves_as_set {w : TimingWheel} {s : TimerSet} (runs : Runs w s)
    (reused : ∀ i, (s.issued.filter (·.index = i)).length ≤ 2 ^ 32) :
    w.size = s.live.length ∧
      (∀ handle, (w.cancel handle).1 = true ↔ ∃ x ∈ s.live, x.handle = handle) ∧
      (∀ (k : Nat) (handle : TimerHandle), s.issued[k]? = some handle →
        ((w.cancel handle).1 = true ↔ ∃ x ∈ s.live, x.serial = k)) ∧
      (∀ now, (w.advance now []).2.Perm
          ((s.live.filter (·.deadline ≤ max s.now now)).map LiveTimer.event) ∧
        (w.advance now []).2.Pairwise fun a b =>
          ∀ x ∈ s.live, ∀ y ∈ s.live, x.event = a → y.event = b → x.due ≤ y.due) ∧
      (w.nextWakeup = none ↔ s.live = []) ∧
      (∀ t, w.nextWakeup = some t → ∀ x ∈ s.live, t ≤ x.due) ∧
      ∀ x ∈ s.live, ∃ n, (wake^[n] w).nextWakeup = some x.due ∧
        x.event ∈ ((wake^[n] w).advance x.due []).2 := by
  have refines := refines_of_runs runs
  refine ⟨refines.size, refines.cancel_iff, ?_, ?_, ?_, ?_, fun x mem => refines.woken mem⟩
  · intro k handle given
    rw [refines.cancel_iff]
    have nodup := refines.issued_nodup reused
    constructor
    · rintro ⟨x, mem, rfl⟩
      refine ⟨x, mem, ?_⟩
      have serial := refines.serial x mem
      obtain ⟨bound, at_serial⟩ := List.getElem?_eq_some_iff.1 serial
      obtain ⟨bound', at_k⟩ := List.getElem?_eq_some_iff.1 given
      exact (nodup.getElem_inj_iff).1 (at_serial.trans at_k.symm)
    · rintro ⟨x, mem, rfl⟩
      have serial := refines.serial x mem
      rw [given] at serial
      exact ⟨x, mem, (Option.some.inj serial).symm⟩
  · intro now
    refine ⟨refines.perm now, ?_⟩
    obtain ⟨-, -, -, order⟩ := (advance_spec refines.inv now).2 refines.onTime
    refine order.imp ?_
    rintro a b le x mem_x y mem_y rfl rfl
    rw [refines.due_eq mem_x, refines.due_eq mem_y, ← refines.now]
    exact le
  · constructor
    · intro none_next
      by_contra some_live
      obtain ⟨x, mem⟩ := List.exists_mem_of_ne_nil _ some_live
      obtain ⟨t, next, -⟩ := refines.wakeup mem
      rw [none_next] at next
      cases next
    · exact refines.wakeup_none
  · intro t next x mem
    obtain ⟨t', next', bound⟩ := refines.wakeup mem
    rw [next] at next'
    cases next'
    exact bound

/-- Three timers, one of them far ahead; the second is cancelled, and its entry given out
again.  The handle of the first use then cancels nothing, the two near timers fire when their
ticks come, and waking up meets the far one. -/
theorem behaves_as_set_reused :
    ∃ w₁ w₂ w₃ w, ({ now := 0 } : TimingWheel).schedule 70 1 7 = some (⟨0, 0⟩, w₁) ∧
      w₁.schedule 80 1 8 = some (⟨1, 0⟩, w₂) ∧ w₂.schedule 100000000 2 9 = some (⟨2, 0⟩, w₃) ∧
      (w₃.cancel ⟨1, 0⟩).2.schedule 5000 1 8 = some (⟨1, 1⟩, w) ∧ w.size = 3 ∧
      (w.cancel ⟨1, 0⟩).1 = false ∧ (w.cancel ⟨1, 1⟩).1 = true ∧ (w.advance 69 []).2 = [] ∧
      (w.advance 5000 []).2.Perm [⟨⟨1, 1⟩, 5000, 8, 1⟩, ⟨⟨0, 0⟩, 70, 7, 1⟩] ∧
      ∃ n, (wake^[n] w).nextWakeup = some 100000000 := by
  obtain ⟨w₁, w₂, w₃, w, first, second, third, again⟩ : ∃ w₁ w₂ w₃ w,
      ({ now := 0 } : TimingWheel).schedule 70 1 7 = some (⟨0, 0⟩, w₁) ∧
      w₁.schedule 80 1 8 = some (⟨1, 0⟩, w₂) ∧ w₂.schedule 100000000 2 9 = some (⟨2, 0⟩, w₃) ∧
      (w₃.cancel ⟨1, 0⟩).2.schedule 5000 1 8 = some (⟨1, 1⟩, w) := ⟨_, _, _, _, rfl, rfl, rfl, rfl⟩
  have runs := (((((Runs.start 0).schedule first).schedule second).schedule third).cancel ⟨1, 0⟩).schedule again
  obtain ⟨size, cancels, -, fires, -, -, woken⟩ := behaves_as_set runs fun i =>
    Nat.le_trans (List.length_filter_le _ _) (by decide)
  refine ⟨w₁, w₂, w₃, w, first, second, third, again, size, ?_, (cancels ⟨1, 1⟩).2 ⟨_, List.mem_cons_self, rfl⟩,
    (fires 69).1.eq_nil, (fires 5000).1, ?_⟩
  · rw [← Bool.not_eq_true, cancels]
    decide
  · obtain ⟨n, next, -⟩ := woken ⟨2, ⟨2, 0⟩, 100000000, 2, 9, 0⟩
      (List.mem_cons_of_mem _ List.mem_cons_self)
    exact ⟨n, next⟩

end TimingWheel

end Baton
