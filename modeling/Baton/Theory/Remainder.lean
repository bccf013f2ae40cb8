/-
# Theory.Remainder — bitwise division by a polynomial over two elements

One step of the reflected division drops the lowest coefficient of a remainder
and, where it was set, adds the divisor.  Steps are linear in exclusive or
(`remainderShifts_xor`); the low bits alone decide what is added, the others only
move down (`remainderShifts_split`); and with the top coefficient of the divisor
set no two remainders are confused (`remainderShift_injective`).
-/
import Mathlib.Logic.Function.Iterate

namespace Baton.Theory

open Function

set_option autoImplicit false

variable {w : Nat} (poly : BitVec w)

/-- One bit of the reflected division. -/
def remainderShift (c : BitVec w) : BitVec w :=
  if c.getLsbD 0 then (c >>> 1) ^^^ poly else c >>> 1

theorem remainderShift_xor (a b : BitVec w) :
    remainderShift poly (a ^^^ b) = remainderShift poly a ^^^ remainderShift poly b := by
  simp only [remainderShift, BitVec.getLsbD_xor, BitVec.ushiftRight_xor_distrib]
  cases a.getLsbD 0 <;> cases b.getLsbD 0 <;> ext i inside <;> simp <;> cases poly[i] <;> simp

theorem remainderShifts_xor (n : Nat) (a b : BitVec w) :
    (remainderShift poly)^[n] (a ^^^ b) =
      (remainderShift poly)^[n] a ^^^ (remainderShift poly)^[n] b := by
  induction n generalizing a b with
  | zero => rfl
  | succ n ih => simp only [iterate_succ_apply, remainderShift_xor, ih]

/-- Where the low bits are clear, the division only moves the remainder down. -/
theorem remainderShifts_clear {n : Nat} {c : BitVec w} (clear : ∀ i < n, c.getLsbD i = false) :
    (remainderShift poly)^[n] c = c >>> n := by
  induction n with
  | zero => simp
  | succ n ih =>
    rw [iterate_succ_apply', ih fun i below => clear i (by omega), remainderShift]
    have low : (c >>> n).getLsbD 0 = false := by simpa using clear n (by omega)
    simp [low, BitVec.shiftRight_add]

theorem remainderShifts_split (n : Nat) (c : BitVec w) :
    (remainderShift poly)^[n] c =
      (remainderShift poly)^[n] ((c.setWidth n).setWidth w) ^^^ (c >>> n) := by
  have parts : c = (c.setWidth n).setWidth w ^^^ ((c >>> n) <<< n) := by
    ext i inside
    by_cases low : i < n
    · simp [low, BitVec.getLsbD_eq_getElem inside]
    · simp [low, Nat.add_sub_cancel' (Nat.not_lt.1 low), BitVec.getLsbD_eq_getElem inside]
  have above : ((c >>> n) <<< n) >>> n = c >>> n := by
    ext i inside
    by_cases above : n + i < w
    · simp [above]
    · simp [BitVec.getLsbD_of_ge c (n + i) (Nat.not_lt.1 above)]
  have clear : ∀ i < n, ((c >>> n) <<< n).getLsbD i = false := by
    intro i below
    simp [below]
  conv => lhs; rw [parts]
  rw [remainderShifts_xor, remainderShifts_clear poly clear, above]

/-- The top coefficient of the divisor tells an odd remainder from an even one. -/
theorem remainderShift_injective (top : poly.msb = true) : Injective (remainderShift poly) := by
  intro a b same
  have none : remainderShift poly (a ^^^ b) = 0 := by
    rw [remainderShift_xor, same]
    exact BitVec.xor_self
  have even : (a ^^^ b).getLsbD 0 = false := by
    by_contra odd
    rw [remainderShift, if_pos (by simpa using odd)] at none
    rw [← BitVec.xor_eq_zero_iff.1 none] at top
    simp at top
  have rest : (a ^^^ b) >>> 1 = 0 := by simpa [remainderShift, even] using none
  have bits (i : Nat) : (a ^^^ b).getLsbD i = false := by
    cases i with
    | zero => exact even
    | succ i => simpa [Nat.add_comm] using congrArg (·.getLsbD i) rest
  exact BitVec.xor_eq_zero_iff.1 (BitVec.eq_of_getLsbD_eq fun i _ => by simpa using bits i)

end Baton.Theory
