/-
# Theory.LittleEndian — fixed-width little-endian words

`leBytes w n` is the `w`-byte little-endian word of `n`, reduced modulo `256 ^ w`
as a fixed-width store reduces it, and `leNat` reads a word back.  The two are
inverse on words of the right width (`leBytes_leNat`) and on numbers that fit
(`leNat_leBytes_of_lt`).
-/
import Mathlib.Algebra.Order.Ring.Nat
import Mathlib.Tactic.Ring

namespace Baton.Theory

set_option autoImplicit false

/-- The `w` low bytes of `n`, least significant first. -/
def leBytes : Nat → Nat → List UInt8
  | 0, _ => []
  | w + 1, n => UInt8.ofNat n :: leBytes w (n / 256)

def leNat : List UInt8 → Nat
  | [] => 0
  | b :: rest => b.toNat + 256 * leNat rest

@[simp] theorem leBytes_length (w n : Nat) : (leBytes w n).length = w := by
  induction w generalizing n with
  | zero => rfl
  | succ w ih => simp [leBytes, ih]

theorem leNat_leBytes (w n : Nat) : leNat (leBytes w n) = n % 256 ^ w := by
  induction w generalizing n with
  | zero => simp [leBytes, leNat, Nat.mod_one]
  | succ w ih =>
    have byte : (UInt8.ofNat n).toNat = n % 256 := by simp
    rw [leBytes, leNat, ih, byte, pow_succ, Nat.mul_comm (256 ^ w), Nat.mod_mul]

/-- A number that fits its word survives it. -/
theorem leNat_leBytes_of_lt {w n : Nat} (fits : n < 256 ^ w) : leNat (leBytes w n) = n := by
  rw [leNat_leBytes, Nat.mod_eq_of_lt fits]

theorem leNat_lt (bytes : List UInt8) : leNat bytes < 256 ^ bytes.length := by
  induction bytes with
  | nil => simp [leNat]
  | cons b rest ih =>
    have byte : b.toNat < 256 := b.toNat_lt
    have room : leNat rest + 1 ≤ 256 ^ rest.length := ih
    calc leNat (b :: rest) = b.toNat + 256 * leNat rest := rfl
      _ < 256 * (leNat rest + 1) := by omega
      _ ≤ 256 * 256 ^ rest.length := Nat.mul_le_mul_left _ room
      _ = 256 ^ (b :: rest).length := by rw [List.length_cons, pow_succ, Nat.mul_comm]

theorem leNat_getElem? {bytes : List UInt8} {k : Nat} {b : UInt8} (found : bytes[k]? = some b) :
    leNat bytes / 256 ^ k % 256 = b.toNat := by
  induction bytes generalizing k with
  | nil => cases found
  | cons first rest ih =>
    have byte : first.toNat < 256 := first.toNat_lt
    cases k with
    | zero =>
      cases found
      rw [leNat, pow_zero, Nat.div_one]
      omega
    | succ k =>
      have above : (first.toNat + 256 * leNat rest) / 256 = leNat rest := by omega
      rw [leNat, pow_succ', ← Nat.div_div_eq_div_mul, above]
      exact ih found

/-- A word is the encoding of the number it denotes. -/
theorem leBytes_leNat (bytes : List UInt8) : leBytes bytes.length (leNat bytes) = bytes := by
  induction bytes with
  | nil => rfl
  | cons b rest ih =>
    have byte : b.toNat < 256 := b.toNat_lt
    have low : UInt8.ofNat (b.toNat + 256 * leNat rest) = b := by
      apply UInt8.toNat_inj.mp
      rw [UInt8.toNat_ofNat']
      omega
    have high : (b.toNat + 256 * leNat rest) / 256 = leNat rest := by omega
    rw [List.length_cons, leNat, leBytes, low, high, ih]

end Baton.Theory
