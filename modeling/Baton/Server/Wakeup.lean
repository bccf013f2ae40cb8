/-
# Server.Wakeup — the flag and the pipe that wake the event loop

The log thread publishes a committed LSN and calls `Server::wake`, which sets
`wake_pending_` and, if it was not set, writes a byte to a pipe the loop watches.
`Server::run` returns from `wait`, clears the flag, reads the pipe until it is empty,
does its work, samples the committed LSN and waits again.

One step here is one atomic operation of one of the two: an exchange or a store of the
flag, a `read` or a `write` on the pipe, a publication, a sample.  `wait` may return at
any time: for a byte, for a socket, or because its timeout ran out.

The flag says that a byte is on its way, or in the pipe.  Between the store that clears
it and the last `read`, a whole `wake` can set it again and have its byte read, and then
the flag stays set over an empty pipe (`lost_wakeup`).  `wakeup_iff` says that this is
the only way to lose a wake-up.
-/
import Baton.Theory.Transition
import Mathlib.Tactic.ByContra
import Mathlib.Tactic.Push
import Mathlib.Tactic.SplitIfs

namespace Baton

open Theory

set_option autoImplicit false

/-- Where `Server::run` is. -/
inductive LoopPhase where
  /-- blocked in `wait` -/
  | waiting
  /-- `wait` has returned -/
  | returned
  /-- the flag is cleared, the pipe is being read -/
  | draining
  /-- the pipe was empty; the work of the iteration -/
  | processing
  /-- `release_durable_replies` has sampled the committed LSN -/
  | sampled
  deriving DecidableEq, Repr

/-- Where the log thread is. -/
inductive LogPhase where
  | idle
  /-- `committed_lsn_` is stored, `on_commit` comes next -/
  | published
  /-- in `wake`: the flag was not set, the byte is not written yet -/
  | writing
  deriving DecidableEq, Repr

/-- The size of the buffer the loop reads the pipe into. -/
def kDrainBytes : Nat := 256

structure Wakeup where
  loop : LoopPhase := .waiting
  log : LogPhase := .idle
  wakePending : Bool := false
  /-- bytes in the pipe -/
  pipe : Nat := 0
  /-- what the log has published -/
  committedLsn : Nat := 0
  /-- what the loop last sampled -/
  sampledLsn : Nat := 0
  /-- of the `wake` under way: it began after the last sample -/
  began : Bool := false
  /-- a `wake` has begun and ended since the last sample -/
  woken : Bool := false
  deriving DecidableEq, Repr

namespace Wakeup

inductive Label where
  | returns
  | clears
  | reads
  | samples
  | waits
  | publishes
  | exchanges
  | writes
  deriving DecidableEq, Repr

def step (label : Label) (s : Wakeup) : Option Wakeup :=
  match label with
  | .returns => if s.loop = .waiting then some { s with loop := .returned } else none
  | .clears =>
    if s.loop = .returned then some { s with loop := .draining, wakePending := false } else none
  | .reads =>
    if s.loop = .draining then
      if s.pipe = 0 then some { s with loop := .processing }
      else some { s with pipe := s.pipe - kDrainBytes }
    else none
  | .samples =>
    if s.loop = .processing then
      some { s with loop := .sampled, sampledLsn := s.committedLsn, began := false, woken := false }
    else none
  | .waits => if s.loop = .sampled then some { s with loop := .waiting } else none
  | .publishes =>
    if s.log = .idle then some { s with log := .published, committedLsn := s.committedLsn + 1 }
    else none
  | .exchanges =>
    if s.log = .published then
      if s.wakePending then some { s with log := .idle, woken := true }
      else some { s with log := .writing, wakePending := true, began := true }
    else none
  | .writes =>
    if s.log = .writing then
      some { s with log := .idle, pipe := s.pipe + 1, woken := s.woken || s.began }
    else none

/-- What the loop waits for is announced: a wake-up since the last sample left a byte in
the pipe, and so there is one whenever a publication is newer than the sample and the
log thread is done with it. -/
structure Heard (s : Wakeup) : Prop where
  woken : s.loop = .waiting → s.woken = true → 0 < s.pipe
  durable : s.loop = .waiting → s.log = .idle → s.sampledLsn < s.committedLsn → 0 < s.pipe

/-- A `read` takes the last bytes out of the pipe only while the flag is clear, or while
the byte that the flag announces is still to come. -/
def Orderly (label : Label) (s : Wakeup) : Prop :=
  label = .reads → s.loop = .draining → s.pipe ≤ kDrainBytes → 0 < s.pipe →
    s.wakePending = false ∨ s.log = .writing

instance (label : Label) (s : Wakeup) : Decidable (Orderly label s) := by
  unfold Orderly
  infer_instance

/-- The steps that are orderly. -/
def orderlyStep (label : Label) (s : Wakeup) : Option Wakeup :=
  if Orderly label s then step label s else none

/-! ## What orderly runs keep -/

structure Inv (s : Wakeup) : Prop where
  /-- the flag announces a byte -/
  flag : s.wakePending = true → 0 < s.pipe ∨ s.log = .writing
  /-- the byte of a finished wake-up is in the pipe until the loop reads again -/
  woken : s.woken = true → s.loop = .sampled ∨ s.loop = .waiting → 0 < s.pipe
  began : s.began = false → s.log = .writing → s.loop = .sampled ∨ s.loop = .waiting →
    s.sampledLsn = s.committedLsn
  sampled : s.loop = .sampled ∨ s.loop = .waiting → s.log = .idle → s.woken = false →
    s.sampledLsn = s.committedLsn

theorem Inv.heard {s : Wakeup} (inv : Inv s) : Heard s where
  woken := fun waiting woken => inv.woken woken (Or.inr waiting)
  durable := by
    intro waiting idle behind
    cases woken : s.woken with
    | true => exact inv.woken woken (Or.inr waiting)
    | false =>
      have := inv.sampled (Or.inr waiting) idle woken
      omega

theorem inv_step {label : Label} {s t : Wakeup} (orderly : Orderly label s)
    (stepped : step label s = some t) (inv : Inv s) : Inv t := by
  cases label with
  | returns =>
    unfold step at stepped
    dsimp only at stepped
    split_ifs at stepped with waiting
    cases stepped
    exact ⟨inv.flag, by simp, by simp, by simp⟩
  | clears =>
    unfold step at stepped
    dsimp only at stepped
    split_ifs at stepped with returned
    cases stepped
    exact ⟨by simp, by simp, by simp, by simp⟩
  | reads =>
    unfold step at stepped
    dsimp only at stepped
    split_ifs at stepped with draining empty
    · cases stepped
      exact ⟨inv.flag, by simp, by simp, by simp⟩
    · cases stepped
      refine ⟨?_, by simp [draining], by simp [draining], by simp [draining]⟩
      intro pending
      -- the last bytes are taken only if the flag does not count on them
      by_cases last : s.pipe ≤ kDrainBytes
      · rcases orderly rfl draining last (by omega) with clear | writing
        · rw [clear] at pending
          cases pending
        · exact Or.inr writing
      · left
        show 0 < s.pipe - kDrainBytes
        omega
  | samples =>
    unfold step at stepped
    dsimp only at stepped
    split_ifs at stepped with processing
    cases stepped
    exact ⟨inv.flag, by simp, fun _ _ _ => rfl, fun _ _ _ => rfl⟩
  | waits =>
    unfold step at stepped
    dsimp only at stepped
    split_ifs at stepped with sampled
    cases stepped
    exact ⟨inv.flag, fun woken _ => inv.woken woken (Or.inl sampled),
      fun began writing _ => inv.began began writing (Or.inl sampled),
      fun _ idle woken => inv.sampled (Or.inl sampled) idle woken⟩
  | publishes =>
    unfold step at stepped
    dsimp only at stepped
    split_ifs at stepped with idle
    cases stepped
    refine ⟨?_, inv.woken, by simp, by simp⟩
    intro pending
    rcases inv.flag pending with byte | writing
    · exact Or.inl byte
    · rw [idle] at writing
      cases writing
  | exchanges =>
    unfold step at stepped
    dsimp only at stepped
    split_ifs at stepped with published pending
    · cases stepped
      -- the flag was set by an earlier wake-up, whose byte is in the pipe
      have byte : 0 < s.pipe := by
        rcases inv.flag pending with byte | writing
        · exact byte
        · rw [published] at writing
          cases writing
      exact ⟨fun _ => Or.inl byte, fun _ _ => byte, by simp, by simp⟩
    · cases stepped
      exact ⟨fun _ => Or.inr rfl, inv.woken, by simp, by simp⟩
  | writes =>
    unfold step at stepped
    dsimp only at stepped
    split_ifs at stepped with writing
    cases stepped
    refine ⟨fun _ => Or.inl (Nat.succ_pos _), fun _ _ => Nat.succ_pos _, by simp, ?_⟩
    intro loop _ woken
    have unfinished : s.woken = false ∧ s.began = false := by simpa using woken
    exact inv.began unfinished.2 writing loop

theorem inv_orderly {labels : List Label} {s t : Wakeup} (run : runs orderlyStep labels s = some t)
    (inv : Inv s) : Inv t := by
  refine runs_invariant ?_ run inv
  intro label s t taken inv
  unfold orderlyStep at taken
  split_ifs at taken with orderly
  exact inv_step orderly taken inv

/-! ## What a disorderly read leads to -/

/-- The rest of the iteration, and one more publication while the loop waits. -/
def unheard : List Label := [.reads, .samples, .waits, .publishes, .exchanges]

/-- From a state with the flag set over an empty pipe the loop goes to sleep, and the
next wake-up writes nothing. -/
theorem runs_unheard {s : Wakeup} (draining : s.loop = .draining) (empty : s.pipe = 0)
    (pending : s.wakePending = true) (idle : s.log = .idle) :
    ∃ t, runs orderlyStep unheard s = some t ∧ ¬ Heard t := by
  refine ⟨{ s with
    loop := .waiting, sampledLsn := s.committedLsn, began := false, woken := true
    committedLsn := s.committedLsn + 1 }, ?_, ?_⟩
  · simp [unheard, runs, orderlyStep, Orderly, step, draining, empty, pending, idle]
  · intro heard
    have byte := heard.woken rfl rfl
    exact absurd byte (by simp [empty])

/-- A `wake` that is about to look at the flag writes nothing either. -/
theorem runs_exchanges {s : Wakeup} (pending : s.wakePending = true) (published : s.log = .published)
    (labels : List Label) :
    runs orderlyStep (.exchanges :: labels) s =
      runs orderlyStep labels { s with log := .idle, woken := true } := by
  simp [runs, orderlyStep, Orderly, step, pending, published]

theorem unheard_of_disorderly {label : Label} {s t : Wakeup} (disorderly : ¬ Orderly label s)
    (stepped : step label s = some t) : ∃ labels u, runs orderlyStep labels t = some u ∧ ¬ Heard u := by
  unfold Orderly at disorderly
  push Not at disorderly
  obtain ⟨rfl, draining, last, some_, pending, not_writing⟩ := disorderly
  have pending : s.wakePending = true := by simpa using pending
  have after : t = { s with pipe := 0 } := by
    have emptied : s.pipe - kDrainBytes = 0 := by omega
    have left : s.pipe ≠ 0 := by omega
    simpa [step, draining, left, emptied] using stepped.symm
  subst after
  have log : s.log = .idle ∨ s.log = .published := by
    cases log : s.log with
    | idle => exact Or.inl rfl
    | published => exact Or.inr rfl
    | writing => exact absurd log not_writing
  rcases log with idle | published
  · obtain ⟨u, run, silent⟩ := @runs_unheard { s with pipe := 0 } draining rfl pending idle
    exact ⟨unheard, u, run, silent⟩
  · obtain ⟨u, run, silent⟩ :=
      @runs_unheard { s with pipe := 0, log := .idle, woken := true } draining rfl pending rfl
    refine ⟨.exchanges :: unheard, u, ?_, silent⟩
    rw [@runs_exchanges { s with pipe := 0 } pending published]
    exact run

/-- A run from the start, of orderly steps. -/
def Reached (s : Wakeup) : Prop := ∃ labels, runs orderlyStep labels {} = some s

theorem Reached.inv {s : Wakeup} (reached : Reached s) : Inv s := by
  obtain ⟨labels, run⟩ := reached
  refine inv_orderly run ⟨?_, ?_, ?_, ?_⟩ <;> simp

/-- In a run of orderly steps no wake-up is lost; and a step is orderly if and only if no
run that goes on from it with orderly steps loses one. -/
theorem wakeup_iff {s : Wakeup} (reached : Reached s) :
    Heard s ∧ ∀ label t, step label s = some t →
      ((∀ labels u, runs orderlyStep labels t = some u → Heard u) ↔ Orderly label s) := by
  refine ⟨reached.inv.heard, ?_⟩
  intro label t stepped
  constructor
  · intro always
    by_contra disorderly
    obtain ⟨labels, u, run, silent⟩ := unheard_of_disorderly disorderly stepped
    exact silent (always labels u run)
  · intro orderly labels u run
    exact (inv_orderly run (inv_step orderly stepped reached.inv)).heard

/-- A publication, an iteration of the loop, and another publication. -/
def twice : List Label :=
  [.publishes, .exchanges, .writes, .returns, .clears, .reads, .reads, .samples, .waits, .publishes,
    .exchanges, .writes]

theorem wakeup_iff_twice :
    ∃ s, runs orderlyStep twice {} = some s ∧ s.loop = .waiting ∧ s.woken = true ∧ Heard s :=
  ⟨_, rfl, rfl, rfl, (wakeup_iff ⟨twice, rfl⟩).1⟩

/-- `wait` times out, and a whole `wake` falls between the clearing of the flag and the
read: its byte is read and its flag stays.  The loop samples what was published so far
and sleeps, and the wake-up for the next publication writes nothing. -/
theorem lost_wakeup :
    ∃ s, runs step [.returns, .clears, .publishes, .exchanges, .writes, .reads, .reads, .samples, .waits,
      .publishes, .exchanges] {} = some s ∧
      s.loop = .waiting ∧ s.log = .idle ∧ s.woken = true ∧ s.sampledLsn = 1 ∧ s.committedLsn = 2 ∧
      s.pipe = 0 ∧ ¬ Heard s := by
  refine ⟨_, rfl, rfl, rfl, rfl, rfl, rfl, rfl, ?_⟩
  intro heard
  exact absurd (heard.woken rfl rfl) (by decide)

end Wakeup

end Baton
