/-
# Theory.Gate — a queue that lets items through in order, up to a bound

Items carry a key, and they are put in with keys that do not decrease.  The gate
knows a bound.  An item goes through once its key is within the bound, and never
before an item that was put in earlier.
-/
import Mathlib.Order.Lattice
import Mathlib.Data.List.TakeWhile
import Mathlib.Data.List.Pairwise

namespace Baton.Theory

set_option autoImplicit false

structure Gate (α : Type) where
  passed : List α := []
  waiting : List α := []

namespace Gate

variable {α K : Type} [LinearOrder K] (key : α → K)

/-- Everything that was put in, in order. -/
def all (g : Gate α) : List α := g.passed ++ g.waiting

/-- The items that go through if the bound becomes `bound`. -/
def due (bound : K) (g : Gate α) : List α := g.waiting.takeWhile (key · ≤ bound)

def release (bound : K) (g : Gate α) : Gate α :=
  ⟨g.passed ++ g.due key bound, g.waiting.dropWhile (key · ≤ bound)⟩

/-- Put an item in.  It goes through at once if nothing keeps it. -/
def enqueue (bound : K) (a : α) (g : Gate α) : Gate α :=
  if g.waiting = [] ∧ key a ≤ bound then ⟨g.passed ++ [a], []⟩ else ⟨g.passed, g.waiting ++ [a]⟩

variable {key} {bound : K} {g : Gate α}

@[simp] theorem release_all : (g.release key bound).all = g.all := by
  simp [release, all, due]

@[simp] theorem enqueue_all (a : α) : (g.enqueue key bound a).all = g.all ++ [a] := by
  unfold enqueue all
  split
  · rename_i open_
    simp [open_.1]
  · simp

theorem mem_due {a : α} (mem : a ∈ g.due key bound) : key a ≤ bound := by
  simpa using List.mem_takeWhile_imp mem

/-- What still waits after a release is beyond the bound. -/
theorem lt_of_mem_waiting (sorted : g.waiting.Pairwise (key · ≤ key ·)) :
    ∀ a ∈ (g.release key bound).waiting, bound < key a := by
  intro a mem
  obtain ⟨first, rest, split⟩ := List.exists_cons_of_ne_nil (List.ne_nil_of_mem mem)
  have beyond : bound < key first := by
    have stops := List.head?_dropWhile_not (key · ≤ bound) g.waiting
    rw [show g.waiting.dropWhile (key · ≤ bound) = first :: rest from split] at stops
    simpa using stops
  have sorted' := sorted.sublist (List.dropWhile_sublist (key · ≤ bound))
  rw [show g.waiting.dropWhile (key · ≤ bound) = first :: rest from split] at sorted'
  rw [split] at mem
  rcases List.mem_cons.1 mem with rfl | later
  · exact beyond
  · exact beyond.trans_le (List.rel_of_pairwise_cons sorted' later)

/-- Only items within the bound have gone through. -/
def Within (key : α → K) (bound : K) (g : Gate α) : Prop := ∀ a ∈ g.passed, key a ≤ bound

theorem Within.release {bound' : K} (within : g.Within key bound) (le : bound ≤ bound') :
    (g.release key bound').Within key bound' := by
  intro a mem
  rcases List.mem_append.1 mem with old | new
  · exact (within a old).trans le
  · exact mem_due new

theorem Within.enqueue (within : g.Within key bound) (a : α) :
    (g.enqueue key bound a).Within key bound := by
  unfold Gate.enqueue
  split
  · rename_i open_
    intro b mem
    rcases List.mem_append.1 mem with old | new
    · exact within b old
    · exact List.mem_singleton.1 new ▸ open_.2
  · exact within

end Gate

end Baton.Theory
