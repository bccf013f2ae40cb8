/-
# Theory.Transition — runs of a labelled transition function

A system is a function `step` that says, for a label and a state, what the next
state is, if the step can be taken.  A run is a list of labels.  `runs_invariant`
is the one induction every safety proof needs: what each step keeps, every run
keeps.
-/
import Mathlib.Logic.Basic

namespace Baton.Theory

set_option autoImplicit false

variable {State Label : Type}

/-- The state after the steps named by the labels, if all of them can be taken. -/
def runs (step : Label → State → Option State) : List Label → State → Option State
  | [], s => some s
  | l :: ls, s => (step l s).bind (runs step ls)

/-- What every step keeps, every run keeps.  The steps may be restricted to those
that meet a condition in the state they are taken in. -/
theorem runs_invariant {step : Label → State → Option State} {P : State → Prop}
    (keeps : ∀ l s t, step l s = some t → P s → P t) {ls : List Label} {s t : State}
    (run : runs step ls s = some t) (holds : P s) : P t := by
  induction ls generalizing s with
  | nil =>
    cases run
    exact holds
  | cons l ls ih =>
    obtain ⟨next, taken, rest⟩ := Option.bind_eq_some_iff.1 run
    exact ih rest (keeps l s next taken holds)

end Baton.Theory
