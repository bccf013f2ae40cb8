/-
# Common.Crc32cTables — the table-driven checksum, and what a checksum detects

`crc32c_software` of `common/crc32c.cpp`: eight bytes at a time through the eight
tables of `make_tables`, then byte by byte.  A table lookup is what the division
adds while one byte moves out (`crcByte_split`), and each table is the one before
it moved by one more byte (`kTables_succ`), so both loops agree with the division
bit by bit.

The same linearity says what a checksum detects: up to four bytes enter the
remainder as one word (`foldl_crcByte_word`) and nothing that follows can undo a
difference, so a change within four bytes always shows (`crc32cExtend_window`).
-/
import Baton.Common.Crc32c
import Baton.Theory.LittleEndian
import Baton.Theory.Remainder

namespace Baton

open Theory Function

set_option autoImplicit false

/-! ## The software variant -/

/-- `make_tables`, the first table: eight bits of the division for each byte. -/
def tableZero (i : UInt8) : UInt32 := crcShift^[8] i.toUInt32

def kTables : Nat → UInt8 → UInt32
  | 0, i => tableZero i
  | k + 1, i => (kTables k i >>> 8) ^^^ tableZero (kTables k i).toUInt8

/-- Eight bytes as the little-endian word `memcpy` makes of them. -/
def loadWord (bytes : List UInt8) : UInt64 := UInt64.ofNat (leNat bytes)

/-- The body of the loop over eight bytes; a mask of `0xFF` is a conversion to a byte. -/
def sliceStep (c : UInt32) (bytes : List UInt8) : UInt32 :=
  let word := loadWord bytes ^^^ c.toUInt64
  kTables 7 word.toUInt8 ^^^ kTables 6 (word >>> 8).toUInt8 ^^^
    kTables 5 (word >>> 16).toUInt8 ^^^ kTables 4 (word >>> 24).toUInt8 ^^^
    kTables 3 (word >>> 32).toUInt8 ^^^ kTables 2 (word >>> 40).toUInt8 ^^^
    kTables 1 (word >>> 48).toUInt8 ^^^ kTables 0 (word >>> 56).toUInt8

def byteStep (c : UInt32) (b : UInt8) : UInt32 :=
  kTables 0 (c ^^^ b.toUInt32).toUInt8 ^^^ (c >>> 8)

def softwareLoop (c : UInt32) : List UInt8 → UInt32
  | b0 :: b1 :: b2 :: b3 :: b4 :: b5 :: b6 :: b7 :: rest =>
    softwareLoop (sliceStep c [b0, b1, b2, b3, b4, b5, b6, b7]) rest
  | rest => rest.foldl byteStep c

def crc32cSoftware (crc : UInt32) (data : List UInt8) : UInt32 := ~~~(softwareLoop (~~~crc) data)

/-! ## Bytes in the division -/

theorem crcShift_toBitVec (c : UInt32) :
    (crcShift c).toBitVec = remainderShift kPolynomialReflected.toBitVec c.toBitVec := by
  have low : (c &&& 1 ≠ 0) ↔ c.toBitVec.getLsbD 0 = true := by
    rw [ne_eq, ← UInt32.toBitVec_inj]
    change ¬ c.toBitVec &&& 1#32 = 0#32 ↔ _
    rw [BitVec.and_one_eq_setWidth_ofBool_getLsbD]
    cases c.toBitVec.getLsbD 0 <;> decide
  simp only [crcShift, remainderShift, low]
  split <;> simp

theorem crcShifts_toBitVec (n : Nat) (c : UInt32) :
    (crcShift^[n] c).toBitVec = (remainderShift kPolynomialReflected.toBitVec)^[n] c.toBitVec := by
  induction n generalizing c with
  | zero => rfl
  | succ n ih => rw [iterate_succ_apply, iterate_succ_apply, ih, crcShift_toBitVec]

theorem crcShifts_xor (n : Nat) (a b : UInt32) :
    crcShift^[n] (a ^^^ b) = crcShift^[n] a ^^^ crcShift^[n] b := by
  apply UInt32.toBitVec_inj.1
  rw [UInt32.toBitVec_xor, crcShifts_toBitVec, crcShifts_toBitVec, crcShifts_toBitVec,
    UInt32.toBitVec_xor, remainderShifts_xor]

/-- The low byte is looked up, the other three move down. -/
theorem crcShifts_eight (c : UInt32) : crcShift^[8] c = tableZero c.toUInt8 ^^^ (c >>> 8) := by
  apply UInt32.toBitVec_inj.1
  rw [tableZero, UInt32.toBitVec_xor, crcShifts_toBitVec, crcShifts_toBitVec,
    remainderShifts_split]
  rfl

theorem kTables_succ (k : Nat) (i : UInt8) : kTables (k + 1) i = crcShift^[8] (kTables k i) := by
  rw [kTables, crcShifts_eight, UInt32.xor_comm]

/-- One byte into a remainder given as a sum of what was looked up and what is
still to move down. -/
theorem crcByte_split (a r : UInt32) (b : UInt8) :
    crcByte (a ^^^ r) b = crcShift^[8] a ^^^ kTables 0 (r.toUInt8 ^^^ b) ^^^ (r >>> 8) := by
  have small : b.toUInt32 >>> 8 = 0 := by
    apply UInt32.toNat_inj.1
    have byte := b.toNat_lt
    simp [Nat.shiftRight_eq_div_pow]
    omega
  change crcShift^[8] (a ^^^ r ^^^ b.toUInt32) = _
  rw [UInt32.xor_assoc, crcShifts_xor, crcShifts_eight (r ^^^ _), UInt32.shiftRight_xor, small]
  simp [kTables, UInt32.xor_assoc]

theorem crcByte_eq (c : UInt32) (b : UInt8) :
    crcByte c b = kTables 0 (c.toUInt8 ^^^ b) ^^^ (c >>> 8) := by
  have split := crcByte_split 0 c b
  rwa [UInt32.zero_xor, show crcShift^[8] 0 = 0 from rfl, UInt32.zero_xor] at split

theorem byteStep_eq (c : UInt32) (b : UInt8) : byteStep c b = crcByte c b := by
  rw [crcByte_eq, byteStep, UInt32.toUInt8_xor, UInt8.toUInt8_toUInt32]

theorem movedDown_toNat (k : Nat) (c : UInt32) :
    ((fun r : UInt32 => r >>> 8)^[k] c).toNat = c.toNat / 256 ^ k := by
  induction k with
  | zero => simp
  | succ k ih =>
    rw [iterate_succ_apply', UInt32.toNat_shiftRight, ih, pow_succ,
      ← Nat.div_div_eq_div_mul]
    exact Nat.shiftRight_eq_div_pow _ 8

/-- A lane of the word: a byte of the input and a byte of the remainder. -/
theorem lane_eq {bytes : List UInt8} {k : Nat} {b : UInt8} (c : UInt32) (few : bytes.length ≤ 8)
    (found : bytes[k]? = some b) :
    ((loadWord bytes ^^^ c.toUInt64) >>> UInt64.ofNat (8 * k)).toUInt8 =
      ((fun r : UInt32 => r >>> 8)^[k] c).toUInt8 ^^^ b := by
  have place : k < bytes.length := (List.getElem?_eq_some_iff.1 found).1
  have power : 2 ^ (8 * k) = 256 ^ k := pow_mul 2 8 k
  have fits : leNat bytes < 2 ^ 64 :=
    (leNat_lt bytes).trans_le (Nat.pow_le_pow_right (by decide) few)
  have input : (loadWord bytes >>> UInt64.ofNat (8 * k)).toUInt8 = b := by
    apply UInt8.toNat_inj.1
    rw [← leNat_getElem? found, ← power]
    have same : (UInt64.ofNat (leNat bytes)).toNat = leNat bytes := UInt64.toNat_ofNat_of_lt' fits
    rw [loadWord, UInt64.toNat_toUInt8, UInt64.toNat_shiftRight, same]
    simp [Nat.shiftRight_eq_div_pow, Nat.mod_eq_of_lt (show 8 * k < 64 by omega)]
  have rest : (c.toUInt64 >>> UInt64.ofNat (8 * k)).toUInt8 =
      ((fun r : UInt32 => r >>> 8)^[k] c).toUInt8 := by
    apply UInt8.toNat_inj.1
    rw [UInt32.toNat_toUInt8, movedDown_toNat, ← power]
    simp [Nat.shiftRight_eq_div_pow, Nat.mod_eq_of_lt (show 8 * k < 64 by omega)]
  rw [UInt64.shiftRight_xor, UInt64.toUInt8_xor, input, rest, UInt8.xor_comm]

/-- Eight bytes at once are the eight bytes one after another. -/
theorem sliceStep_eq (c : UInt32) (b0 b1 b2 b3 b4 b5 b6 b7 : UInt8) :
    sliceStep c [b0, b1, b2, b3, b4, b5, b6, b7] =
      [b0, b1, b2, b3, b4, b5, b6, b7].foldl crcByte c := by
  have lane {k : Nat} {b : UInt8} (found : [b0, b1, b2, b3, b4, b5, b6, b7][k]? = some b) :=
    @lane_eq [b0, b1, b2, b3, b4, b5, b6, b7] k b c (Nat.le_refl 8) found
  have out : (fun r : UInt32 => r >>> 8)^[8] c = 0 := by
    apply UInt32.toNat_inj.1
    rw [movedDown_toNat]
    exact Nat.div_eq_of_lt (c.toNat_lt.trans (by decide))
  simp only [List.foldl_cons, List.foldl_nil]
  rw [crcByte_eq c b0]
  iterate 7 rw [crcByte_split]
  simp only [crcShifts_xor, ← kTables_succ]
  rw [show c >>> 8 >>> 8 >>> 8 >>> 8 >>> 8 >>> 8 >>> 8 >>> 8 = 0 from out, UInt32.xor_zero]
  unfold sliceStep
  generalize loadWord [b0, b1, b2, b3, b4, b5, b6, b7] ^^^ c.toUInt64 = word at lane
  have lane0 : word.toUInt8 = c.toUInt8 ^^^ b0 := by simpa using @lane 0 b0 rfl
  have lane1 : (word >>> 8).toUInt8 = (c >>> 8).toUInt8 ^^^ b1 := @lane 1 b1 rfl
  have lane2 : (word >>> 16).toUInt8 = (c >>> 8 >>> 8).toUInt8 ^^^ b2 := @lane 2 b2 rfl
  have lane3 : (word >>> 24).toUInt8 = (c >>> 8 >>> 8 >>> 8).toUInt8 ^^^ b3 := @lane 3 b3 rfl
  have lane4 : (word >>> 32).toUInt8 = _ := @lane 4 b4 rfl
  have lane5 : (word >>> 40).toUInt8 = _ := @lane 5 b5 rfl
  have lane6 : (word >>> 48).toUInt8 = _ := @lane 6 b6 rfl
  have lane7 : (word >>> 56).toUInt8 = _ := @lane 7 b7 rfl
  simp only [lane0, lane1, lane2, lane3, lane4, lane5, lane6, lane7]
  rfl

theorem softwareLoop_eq (c : UInt32) (data : List UInt8) :
    softwareLoop c data = data.foldl crcByte c := by
  fun_induction softwareLoop c data with
  | case1 c b0 b1 b2 b3 b4 b5 b6 b7 rest ih => rw [ih, sliceStep_eq]; rfl
  | case2 c rest => rw [show byteStep = crcByte from funext fun c => funext (byteStep_eq c)]

/-- The table-driven checksum is the division bit by bit, and a checksum may be
continued over the next bytes. -/
theorem crc32cSoftware_eq :
    (∀ crc data, crc32cSoftware crc data = crc32cExtend crc data) ∧
      ∀ a b, crc32cExtend (crc32c a) b = crc32c (a ++ b) := by
  constructor
  · intro crc data
    rw [crc32cSoftware, softwareLoop_eq, crc32cExtend]
  · intro a b
    simp only [crc32c, crc32cExtend, UInt32.not_not, List.foldl_append]

/-! ## What a checksum detects -/

theorem crcShifts_injective (n : Nat) : Injective (crcShift^[n]) := by
  refine Injective.iterate (fun a b same => ?_) n
  apply UInt32.toBitVec_inj.1
  apply remainderShift_injective kPolynomialReflected.toBitVec (by decide)
  rw [← crcShift_toBitVec, ← crcShift_toBitVec, same]

/-- Up to four bytes enter the remainder as one word. -/
theorem foldl_crcByte_word {bytes : List UInt8} (few : bytes.length ≤ 4) (c : UInt32) :
    bytes.foldl crcByte c = crcShift^[8 * bytes.length] (c ^^^ UInt32.ofNat (leNat bytes)) := by
  induction bytes generalizing c with
  | nil => simp [leNat]
  | cons b rest ih =>
    have fits : leNat (b :: rest) < 2 ^ 32 :=
      (leNat_lt (b :: rest)).trans_le (Nat.pow_le_pow_right (by decide) few)
    have byte := b.toNat_lt
    have value : (UInt32.ofNat (leNat (b :: rest))).toNat = leNat (b :: rest) :=
      UInt32.toNat_ofNat_of_lt' fits
    have low : (UInt32.ofNat (leNat (b :: rest))).toUInt8 = b := by
      apply UInt8.toNat_inj.1
      rw [UInt32.toNat_toUInt8, value, leNat]
      omega
    have high : UInt32.ofNat (leNat (b :: rest)) >>> 8 = UInt32.ofNat (leNat rest) := by
      have tail : leNat rest < 2 ^ 32 := by rw [leNat] at fits; omega
      apply UInt32.toNat_inj.1
      rw [UInt32.toNat_shiftRight, value, UInt32.toNat_ofNat_of_lt' tail, leNat]
      exact (Nat.shiftRight_eq_div_pow _ 8).trans (by omega)
    have word : crcByte c b ^^^ UInt32.ofNat (leNat rest) =
        crcShift^[8] (c ^^^ UInt32.ofNat (leNat (b :: rest))) := by
      rw [crcShifts_xor, crcShifts_eight (UInt32.ofNat _), low, high, ← UInt32.xor_assoc]
      exact congrArg (· ^^^ _) (crcShifts_xor 8 c b.toUInt32)
    rw [List.foldl_cons, ih (by simp at few; omega), word, ← iterate_add_apply]
    rfl

theorem foldl_crcByte_injective (bytes : List UInt8) :
    Injective fun c => bytes.foldl crcByte c := by
  induction bytes with
  | nil => exact fun a b same => same
  | cons b rest ih =>
    intro c d same
    exact (UInt32.xor_left_inj _).1 (crcShifts_injective 8 (ih same))

/-- No two words of up to four bytes lead one remainder to the same one. -/
theorem foldl_crcByte_word_injective {a b : List UInt8} (few : a.length ≤ 4)
    (size : b.length = a.length) {c : UInt32} (same : b.foldl crcByte c = a.foldl crcByte c) :
    b = a := by
  have value {l : List UInt8} (fits : l.length ≤ 4) : (UInt32.ofNat (leNat l)).toNat = leNat l :=
    UInt32.toNat_ofNat_of_lt' ((leNat_lt l).trans_le (Nat.pow_le_pow_right (by decide) fits))
  rw [foldl_crcByte_word few, foldl_crcByte_word (size ▸ few), size] at same
  have words := (UInt32.xor_right_inj _).1 (crcShifts_injective _ same)
  have numbers : leNat b = leNat a := by rw [← value few, ← value (size ▸ few), words]
  rw [← leBytes_leNat b, size, numbers, leBytes_leNat]

/-- Bytes that differ, but only within a window of four, have different checksums. -/
theorem crc32cExtend_window {x y : List UInt8} {crc : UInt32} (k : Nat) (size : y.length = x.length)
    (before : y.take k = x.take k) (after : y.drop (k + 4) = x.drop (k + 4))
    (same : crc32cExtend crc y = crc32cExtend crc x) : y = x := by
  have cut (l : List UInt8) : l = l.take k ++ ((l.drop k).take 4 ++ l.drop (k + 4)) := by
    rw [← List.drop_drop, List.take_append_drop, List.take_append_drop]
  have inside : ((y.drop k).take 4).length = ((x.drop k).take 4).length := by
    simp only [List.length_take, List.length_drop, size]
  have folds := UInt32.not_inj.1 same
  rw [cut x, cut y, before, after] at folds
  simp only [List.foldl_append] at folds
  have window := foldl_crcByte_word_injective (List.length_take_le 4 _) inside
    (foldl_crcByte_injective _ folds)
  rw [cut x, cut y, before, after, window]

end Baton
