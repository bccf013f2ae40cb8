/-
# Theory.Decimal — fixed-width decimal numerals

`decimal w n` is `n` as exactly `w` decimal digits, zero-padded (and cut to its
low `w` digits if it has more); `parseDecimal` reads any string of digits.
`decimal_parseDecimal` makes a fixed-width numeral canonical: the only string of
`w` digits that denotes `n` is `decimal w n`.
-/
import Mathlib.Algebra.Order.Ring.Nat
import Mathlib.Data.List.Induction
import Mathlib.Tactic.IntervalCases

namespace Baton.Theory

set_option autoImplicit false

def decimal : Nat → Nat → List Char
  | 0, _ => []
  | w + 1, n => decimal w (n / 10) ++ [Nat.digitChar (n % 10)]

/-- One more digit behind the number read so far. -/
def pushDigit (value : Nat) (c : Char) : Option Nat :=
  if c.isDigit then some (value * 10 + (c.toNat - 48)) else none

def parseDecimal (digits : List Char) : Option Nat := digits.foldlM pushDigit 0

@[simp] theorem decimal_length (w n : Nat) : (decimal w n).length = w := by
  induction w generalizing n with
  | zero => rfl
  | succ w ih => simp [decimal, ih]

theorem pushDigit_digitChar (value : Nat) {d : Nat} (digit : d < 10) :
    pushDigit value (Nat.digitChar d) = some (value * 10 + d) := by
  interval_cases d <;> rfl

theorem digitChar_of_isDigit {c : Char} (digit : c.isDigit = true) :
    Nat.digitChar (c.toNat - 48) = c ∧ c.toNat - 48 < 10 := by
  have range : 48 ≤ c.toNat ∧ c.toNat ≤ 57 := by
    simp only [Char.isDigit, Bool.and_eq_true, decide_eq_true_eq] at digit
    exact ⟨digit.1, digit.2⟩
  obtain ⟨low, high⟩ := range
  have back : Char.ofNat c.toNat = c := Char.ofNat_toNat c
  refine ⟨?_, by omega⟩
  generalize c.toNat = n at *
  subst back
  interval_cases n <;> rfl

theorem parseDecimal_snoc (digits : List Char) (c : Char) :
    parseDecimal (digits ++ [c]) = (parseDecimal digits).bind fun value => pushDigit value c := by
  simp only [parseDecimal, List.foldlM_append, List.foldlM_cons, List.foldlM_nil]
  cases List.foldlM pushDigit 0 digits <;> simp

theorem parseDecimal_decimal (w n : Nat) : parseDecimal (decimal w n) = some (n % 10 ^ w) := by
  induction w generalizing n with
  | zero => simp [decimal, parseDecimal, Nat.mod_one]
  | succ w ih =>
    rw [decimal, parseDecimal_snoc, ih, Option.bind_some,
      pushDigit_digitChar _ (Nat.mod_lt _ (by decide)), pow_succ, Nat.mul_comm (10 ^ w),
      Nat.mod_mul]
    congr 1
    omega

/-- A string of digits is the numeral of the number it denotes. -/
theorem decimal_parseDecimal {digits : List Char} {n : Nat}
    (parsed : parseDecimal digits = some n) : decimal digits.length n = digits := by
  induction digits using List.reverseRecOn generalizing n with
  | nil => rfl
  | append_singleton digits c ih =>
    rw [parseDecimal_snoc, Option.bind_eq_some_iff] at parsed
    obtain ⟨value, front, last⟩ := parsed
    simp only [pushDigit, Option.ite_none_right_eq_some, Option.some.injEq] at last
    obtain ⟨digit, rfl⟩ := last
    obtain ⟨char, small⟩ := digitChar_of_isDigit digit
    have high : (value * 10 + (c.toNat - 48)) / 10 = value := by omega
    have low : (value * 10 + (c.toNat - 48)) % 10 = c.toNat - 48 := by omega
    rw [List.length_append, List.length_singleton, decimal, high, low, ih front, char]

end Baton.Theory
