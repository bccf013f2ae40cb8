/-
# Theory.Rotation — the next turn of a position that comes up again and again

A ring is read position by position; a position comes up at every tick that leaves its
offset modulo the length of a rotation.  `nextTurn` is the first such tick after the
current one.  It is the only one within a rotation (`nextTurn_eq`), no other one comes
before it (`nextTurn_least`), and it stays the next turn until it is reached
(`nextTurn_later`).
-/
import Mathlib.Tactic.ByContra

namespace Baton.Theory

set_option autoImplicit false

def nextTurn (rotation offset now : Nat) : Nat :=
  let start := now - now % rotation + offset
  if start ≤ now then start + rotation else start

section Turns

variable {rotation offset now t : Nat}

theorem now_lt_nextTurn (inside : offset < rotation) : now < nextTurn rotation offset now := by
  have small := Nat.mod_lt now (Nat.zero_lt_of_lt inside)
  unfold nextTurn
  dsimp only
  split <;> omega

theorem nextTurn_le (inside : offset < rotation) : nextTurn rotation offset now ≤ now + rotation := by
  unfold nextTurn
  dsimp only
  split <;> omega

theorem nextTurn_mod (inside : offset < rotation) : nextTurn rotation offset now % rotation = offset := by
  have whole : now - now % rotation = rotation * (now / rotation) := by
    have := Nat.div_add_mod now rotation
    omega
  unfold nextTurn
  dsimp only
  rw [whole]
  split
  · rw [Nat.add_mod_right, Nat.mul_add_mod, Nat.mod_eq_of_lt inside]
  · rw [Nat.mul_add_mod, Nat.mod_eq_of_lt inside]

/-- Two ticks of one position are at least a rotation apart. -/
theorem turns_apart {t t' : Nat} (same : t % rotation = t' % rotation) (lt : t < t') : t + rotation ≤ t' := by
  have split := Nat.div_add_mod t rotation
  have split' := Nat.div_add_mod t' rotation
  have later : t / rotation < t' / rotation := by
    by_contra early
    have := Nat.mul_le_mul_left rotation (Nat.not_lt.1 early)
    omega
  have := Nat.mul_le_mul_left rotation later
  rw [Nat.succ_eq_add_one, Nat.mul_add, Nat.mul_one] at this
  omega

theorem nextTurn_least (inside : offset < rotation) (after : now < t) (up : t % rotation = offset) :
    nextTurn rotation offset now ≤ t := by
  by_contra early
  have same : t % rotation = nextTurn rotation offset now % rotation := by rw [up, nextTurn_mod inside]
  have apart := turns_apart same (Nat.not_le.1 early)
  have bound := @nextTurn_le rotation offset now inside
  omega

theorem nextTurn_eq (inside : offset < rotation) (after : now < t) (within : t ≤ now + rotation)
    (up : t % rotation = offset) : nextTurn rotation offset now = t := by
  refine Nat.le_antisymm (nextTurn_least inside after up) ?_
  by_contra early
  have same : nextTurn rotation offset now % rotation = t % rotation := by rw [up, nextTurn_mod inside]
  have apart := turns_apart same (Nat.not_le.1 early)
  have bound := @now_lt_nextTurn rotation offset now inside
  omega

/-- Until it is reached, the next turn stays the same. -/
theorem nextTurn_later {now' : Nat} (inside : offset < rotation) (later : now ≤ now')
    (ahead : now' < nextTurn rotation offset now) :
    nextTurn rotation offset now' = nextTurn rotation offset now := by
  have bound := @nextTurn_le rotation offset now inside
  exact nextTurn_eq inside ahead (by omega) (nextTurn_mod inside)

end Turns

end Baton.Theory
