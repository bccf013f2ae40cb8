/-
# Sched.WheelTime — when the slots of the timing wheel come up

A slot of a level comes up at every tick that leaves its offset modulo the rotation of the
level; `slotTurn` is the next one.  A timer waits in a slot whose next turn is no later than
its deadline (`Waits`), so the turn of the slot is where it is fired or placed again, and it
is fired exactly when the wheel reaches its deadline.

Two slots never come up at the same tick.  On one level their offsets differ; and a slot
below the top level comes up before the rotation of its level ends, where no slot of a
higher level can.  That is why `advance` can give each slot a round of its own.

`advance_spec` is the result: what fires is due, what stays is not, and the events are in
the order of their deadlines.
-/
import Baton.Sched.WheelLists
import Baton.Theory.Rotation
import Mathlib.Data.Nat.Bitwise

namespace Baton

open Theory
open Function (update update_apply update_of_ne update_self)

set_option autoImplicit false

namespace TimingWheel

/-! ## Bitmaps -/

section Bits

variable {x r k j : Nat}

theorem testBit_rotr (small : x < 2 ^ 64) (inside : r < 64) (bit : j < 64) :
    (rotr x r).testBit j = x.testBit ((r + j) % 64) := by
  unfold rotr
  rw [Nat.testBit_mod_two_pow, Nat.testBit_or, Nat.testBit_shiftRight, Nat.testBit_shiftLeft,
    decide_eq_true bit, Bool.true_and]
  by_cases wraps : r + j < 64
  · have low : ¬ 64 - r ≤ j := by omega
    simp [low, Nat.mod_eq_of_lt wraps]
  · have high : 64 - r ≤ j := by omega
    have past : x.testBit (r + j) = false :=
      Nat.testBit_lt_two_pow (Nat.lt_of_lt_of_le small (Nat.pow_le_pow_right (by decide) (by omega)))
    have rest : (r + j) % 64 = j - (64 - r) := by omega
    simp [high, past, rest]

/-- The lowest bit that is set. -/
theorem countrZero_spec (set : ∃ j, j < 64 ∧ x.testBit j = true) :
    countrZero x < 64 ∧ x.testBit (countrZero x) = true ∧
      ∀ j, x.testBit j = true → countrZero x ≤ j := by
  unfold countrZero
  cases found : (List.range 64).find? x.testBit with
  | none =>
    obtain ⟨j, bit, set⟩ := set
    have clear := List.find?_eq_none.1 found j (List.mem_range.2 bit)
    exact absurd set clear
  | some first =>
    obtain ⟨set_first, inside, below⟩ := List.find?_range_eq_some.1 found
    refine ⟨List.mem_range.1 inside, set_first, ?_⟩
    intro j set_j
    by_contra early
    have clear := below j (Nat.not_le.1 early)
    rw [set_j] at clear
    cases clear

theorem testBit_clear (bit : k < 64) :
    (x &&& (2 ^ 64 - 1 - 2 ^ k)).testBit j = (x.testBit j && (decide (j < 64) && decide (j ≠ k))) := by
  have small : 2 ^ k < 2 ^ 64 := Nat.pow_lt_pow_right (by decide) bit
  have mask : 2 ^ 64 - 1 - 2 ^ k = 2 ^ 64 - (2 ^ k + 1) := by omega
  rw [Nat.testBit_and, mask, Nat.testBit_two_pow_sub_succ small, Nat.testBit_two_pow]
  by_cases same : k = j
  · simp [same]
  · simp [same, Ne.symm same]

theorem exists_testBit (small : x < 2 ^ 64) (nonzero : x ≠ 0) : ∃ j, j < 64 ∧ x.testBit j = true := by
  obtain ⟨j, set⟩ := Nat.exists_testBit_of_ne_zero nonzero
  refine ⟨j, ?_, set⟩
  by_contra high
  have clear : x.testBit j = false :=
    Nat.testBit_lt_two_pow (Nat.lt_of_lt_of_le small (Nat.pow_le_pow_right (by decide) (by omega)))
  rw [set] at clear
  cases clear

end Bits

/-! ## Turns -/

/-- The ticks of one rotation of a level. -/
def rotation (level : Nat) : Nat := slotWidth level * kSlotsPerLevel

/-- The next tick at which a slot of a level comes up. -/
def turn (level slot now : Nat) : Nat := nextTurn (rotation level) (slot * slotWidth level) now

/-- The same for the list of the slot. -/
def slotTurn (list now : Nat) : Nat := turn (list / kSlotsPerLevel) (list % kSlotsPerLevel) now

section Turns

variable {level level' slot slot' now now' list : Nat}

theorem kSlots_eq : kSlotsPerLevel = 64 := by decide

theorem slotWidth_pos (level : Nat) : 0 < slotWidth level := Nat.two_pow_pos _

theorem rotation_eq (level : Nat) : rotation level = slotWidth (level + 1) := by
  unfold rotation slotWidth shiftOf kSlotsPerLevel
  rw [← Nat.pow_add, Nat.add_mul, Nat.one_mul]

theorem offset_lt (inside : slot < 64) : slot * slotWidth level < rotation level := by
  unfold rotation
  rw [kSlots_eq, Nat.mul_comm slot]
  exact Nat.mul_lt_mul_of_pos_left inside (slotWidth_pos level)

theorem list_split {list : Nat} : list / kSlotsPerLevel * kSlotsPerLevel + list % kSlotsPerLevel = list := by
  rw [Nat.mul_comm]
  exact Nat.div_add_mod list kSlotsPerLevel

theorem list_slot_lt (list : Nat) : list % kSlotsPerLevel < 64 := Nat.mod_lt _ (by decide)

theorem list_level_lt (slotted : list < kDueList) : list / kSlotsPerLevel < kLevels := by
  have due : kDueList = 384 := by decide
  have levels : kLevels = 6 := by decide
  rw [kSlots_eq, levels]
  omega

theorem slotTurn_list (inside : slot < 64) :
    slotTurn (level * kSlotsPerLevel + slot) now = turn level slot now := by
  have div : (level * kSlotsPerLevel + slot) / kSlotsPerLevel = level := by
    rw [kSlots_eq]
    omega
  have mod : (level * kSlotsPerLevel + slot) % kSlotsPerLevel = slot := by
    rw [kSlots_eq]
    omega
  unfold slotTurn
  rw [div, mod]

theorem now_lt_slotTurn (list now : Nat) : now < slotTurn list now :=
  now_lt_nextTurn (offset_lt (list_slot_lt list))

theorem slotTurn_mod :
    slotTurn list now % rotation (list / kSlotsPerLevel) =
      list % kSlotsPerLevel * slotWidth (list / kSlotsPerLevel) :=
  nextTurn_mod (offset_lt (list_slot_lt list))

theorem slotTurn_later (later : now ≤ now') (ahead : now' < slotTurn list now) :
    slotTurn list now' = slotTurn list now :=
  nextTurn_later (offset_lt (list_slot_lt list)) later ahead

/-- The turns of one level, in the order the slots come up in. -/
theorem turn_distance {distance : Nat} (close : distance < 64) :
    turn level ((now / slotWidth level + 1 + distance) % 64) now =
      slotWidth level * (now / slotWidth level + 1 + distance) := by
  have inside : (now / slotWidth level + 1 + distance) % 64 < 64 := Nat.mod_lt _ (by decide)
  have width := slotWidth_pos level
  have split := Nat.div_add_mod now (slotWidth level)
  have small := Nat.mod_lt now width
  refine nextTurn_eq (offset_lt inside) ?_ ?_ ?_
  · rw [Nat.mul_add, Nat.mul_add, Nat.mul_one]
    omega
  · have within : slotWidth level * (1 + distance) ≤ slotWidth level * 64 :=
      Nat.mul_le_mul_left _ (by omega)
    unfold rotation
    rw [kSlots_eq, Nat.add_assoc, Nat.mul_add]
    omega
  · unfold rotation
    rw [kSlots_eq, Nat.mul_mod_mul_left, Nat.mul_comm]

/-- A slot that comes up before its rotation ends comes up before every slot of a higher level. -/
theorem turn_lt_higher (lower : level < level') (inside : slot' < 64)
    (near : turn level slot now / rotation level = now / rotation level) :
    turn level slot now < turn level' slot' now := by
  have positive : 0 < rotation level := by
    rw [rotation_eq]
    exact slotWidth_pos _
  have divides : rotation level ∣ slotWidth level' := by
    rw [rotation_eq]
    exact Nat.pow_dvd_pow 2 (Nat.mul_le_mul_right _ lower)
  have whole : rotation level ∣ turn level' slot' now := by
    have parts := Nat.div_add_mod (turn level' slot' now) (rotation level')
    have offset : turn level' slot' now % rotation level' = slot' * slotWidth level' :=
      nextTurn_mod (offset_lt inside)
    rw [offset] at parts
    rw [← parts]
    refine Nat.dvd_add ?_ (Nat.dvd_mul_left_of_dvd divides _)
    exact Nat.dvd_mul_right_of_dvd (Nat.dvd_mul_right_of_dvd divides _) _
  have after : now < turn level' slot' now := now_lt_nextTurn (offset_lt inside)
  obtain ⟨q, times⟩ := whole
  rw [times] at after ⊢
  have later : now / rotation level < q := by
    rw [Nat.div_lt_iff_lt_mul positive, Nat.mul_comm]
    exact after
  rw [← near, Nat.div_lt_iff_lt_mul positive, Nat.mul_comm] at later
  exact later

end Turns

/-! ## Where a timer waits -/

/-- A timer is on the list of those that are due, or in a slot that comes up no later than
its deadline, within the rotation of its level unless that is the top one. -/
def Waits (now list deadline : Nat) : Prop :=
  if list < kDueList then
    slotTurn list now ≤ deadline ∧
      (list / kSlotsPerLevel < kTopLevel →
        slotTurn list now / rotation (list / kSlotsPerLevel) = now / rotation (list / kSlotsPerLevel))
  else deadline ≤ now

section Waits

variable {now now' list list' deadline deadline' : Nat}

theorem Waits.ahead (waits : Waits now list deadline) (slotted : list < kDueList) :
    slotTurn list now ≤ deadline := by
  unfold Waits at waits
  rw [if_pos slotted] at waits
  exact waits.1

theorem Waits.near (waits : Waits now list deadline) (slotted : list < kDueList)
    (lower : list / kSlotsPerLevel < kTopLevel) :
    slotTurn list now / rotation (list / kSlotsPerLevel) = now / rotation (list / kSlotsPerLevel) := by
  unfold Waits at waits
  rw [if_pos slotted] at waits
  exact waits.2 lower

/-- Time passes, and the slot has not come up yet. -/
theorem Waits.later (waits : Waits now list deadline) (slotted : list < kDueList) (later : now ≤ now')
    (before : now' < slotTurn list now) : Waits now' list deadline := by
  unfold Waits
  rw [if_pos slotted, slotTurn_later later before]
  refine ⟨waits.ahead slotted, ?_⟩
  intro lower
  have near := waits.near slotted lower
  refine Nat.le_antisymm ?_ (Nat.div_le_div_right (Nat.le_of_lt before))
  rw [near]
  exact Nat.div_le_div_right later

/-- Two slots in which timers wait do not come up together. -/
theorem Waits.apart (waits : Waits now list deadline) (waits' : Waits now list' deadline')
    (slotted : list < kDueList) (slotted' : list' < kDueList) (ne : list ≠ list') :
    slotTurn list now ≠ slotTurn list' now := by
  have top : ∀ l, l < kDueList → l / kSlotsPerLevel ≤ kTopLevel := by
    intro l lt
    exact Nat.le_of_lt_succ (list_level_lt lt)
  rcases Nat.lt_trichotomy (list / kSlotsPerLevel) (list' / kSlotsPerLevel) with lower | same | higher
  · have near := waits.near slotted (Nat.lt_of_lt_of_le lower (top _ slotted'))
    exact Nat.ne_of_lt (turn_lt_higher lower (list_slot_lt list') near)
  · intro together
    have offset := @slotTurn_mod now list
    have offset' := @slotTurn_mod now list'
    rw [together, same, offset'] at offset
    have slots := Nat.eq_of_mul_eq_mul_right (slotWidth_pos _) offset
    have parts := @list_split list
    rw [same, ← slots, list_split] at parts
    exact ne parts.symm
  · have near := waits'.near slotted' (Nat.lt_of_lt_of_le higher (top _ slotted))
    exact (Nat.ne_of_lt (turn_lt_higher higher (list_slot_lt list) near)).symm

/-- The slot `place` chooses. -/
theorem slotFor_waits (future : now < deadline) : Waits now (slotFor now deadline) deadline := by
  have slotted := slotFor_lt now deadline
  unfold slotFor at slotted ⊢
  dsimp only at slotted ⊢
  -- the target is in the future and no later than the deadline
  have span : kSpan = 2 ^ 36 := by decide
  have width : slotWidth kTopLevel = 2 ^ 30 := by decide
  have inside : now < (if kSpan ≤ deadline - now then now + kSpan - slotWidth kTopLevel else deadline) ∧
      (if kSpan ≤ deadline - now then now + kSpan - slotWidth kTopLevel else deadline) ≤ deadline := by
    rw [span, width]
    split <;> omega
  generalize (if kSpan ≤ deadline - now then now + kSpan - slotWidth kTopLevel else deadline) = target
    at inside slotted ⊢
  obtain ⟨after, bound⟩ := inside
  set highestBit := Nat.log2 ((now ^^^ target) ||| kSlotMask) with highest
  set level := min (highestBit / kSlotBits) kTopLevel with level_def
  have slot_mod : target >>> shiftOf level &&& kSlotMask = target / slotWidth level % 64 := by
    rw [Nat.shiftRight_eq_div_pow]
    exact Nat.and_two_pow_sub_one_eq_mod _ 6
  rw [slot_mod] at slotted ⊢
  have slot_lt : target / slotWidth level % 64 < 64 := Nat.mod_lt _ (by decide)
  have level_eq : (level * kSlotsPerLevel + target / slotWidth level % 64) / kSlotsPerLevel = level := by
    rw [kSlots_eq]
    omega
  have bits : kSlotBits = 6 := rfl
  have low : level * 6 ≤ highestBit := by
    have : level ≤ highestBit / kSlotBits := Nat.min_le_left _ _
    rw [bits] at this
    omega
  have differing : (now ^^^ target) ||| kSlotMask ≠ 0 := by
    intro zero
    have := Nat.or_eq_zero_iff.1 zero
    exact absurd this.2 (by decide)
  -- the two differ in the digits of the level and above
  have apart : now / slotWidth level < target / slotWidth level := by
    refine Nat.lt_of_le_of_ne (Nat.div_le_div_right (Nat.le_of_lt after)) ?_
    intro same
    cases level_case : level with
    | zero =>
      rw [level_case] at same
      have one : slotWidth 0 = 1 := by decide
      rw [one, Nat.div_one, Nat.div_one] at same
      omega
    | succ above =>
      have power : 2 ^ shiftOf level ≤ (now ^^^ target) ||| kSlotMask :=
        Nat.le_trans (Nat.pow_le_pow_right (by decide) low) (Nat.log2_self_le differing)
      have nonzero : 0 < ((now ^^^ target) ||| kSlotMask) / 2 ^ shiftOf level :=
        Nat.div_pos power (Nat.two_pow_pos _)
      have mask : kSlotMask >>> shiftOf level = 0 := by
        rw [Nat.shiftRight_eq_div_pow, level_case]
        apply Nat.div_eq_of_lt
        have small : kSlotMask < 2 ^ 6 := by decide
        refine Nat.lt_of_lt_of_le small (Nat.pow_le_pow_right (by decide) ?_)
        unfold shiftOf
        rw [bits]
        omega
      rw [← Nat.shiftRight_eq_div_pow, Nat.shiftRight_or_distrib, Nat.shiftRight_xor_distrib, mask,
        Nat.or_zero, Nat.shiftRight_eq_div_pow, Nat.shiftRight_eq_div_pow] at nonzero
      have same : now / 2 ^ shiftOf level = target / 2 ^ shiftOf level := same
      rw [same, Nat.xor_self] at nonzero
      exact Nat.lt_irrefl _ nonzero
  -- the start of the slot that holds the target
  have start_up : target / slotWidth level * slotWidth level % rotation level =
      target / slotWidth level % 64 * slotWidth level := by
    unfold rotation
    rw [kSlots_eq, Nat.mul_comm (target / slotWidth level), Nat.mul_mod_mul_left, Nat.mul_comm]
  have start_after : now < target / slotWidth level * slotWidth level := by
    rwa [← Nat.div_lt_iff_lt_mul (slotWidth_pos level)]
  have start_le : target / slotWidth level * slotWidth level ≤ target := Nat.div_mul_le_self _ _
  have up : slotTurn (level * kSlotsPerLevel + target / slotWidth level % 64) now ≤ target := by
    rw [slotTurn_list slot_lt]
    exact Nat.le_trans (nextTurn_least (offset_lt slot_lt) start_after start_up) start_le
  unfold Waits
  rw [if_pos slotted, level_eq]
  refine ⟨Nat.le_trans up bound, ?_⟩
  intro lower
  -- below the top level all higher digits agree
  have high : highestBit < (level + 1) * 6 := by
    have top : kTopLevel = 5 := by decide
    rw [bits, top] at level_def
    omega
  have agree : now / rotation level = target / rotation level := by
    have below : (now ^^^ target) < 2 ^ shiftOf (level + 1) := by
      have whole : (now ^^^ target) ||| kSlotMask < 2 ^ shiftOf (level + 1) :=
        Nat.lt_of_lt_of_le Nat.lt_log2_self (Nat.pow_le_pow_right (by decide) high)
      exact Nat.lt_of_le_of_lt Nat.left_le_or whole
    have zero : (now ^^^ target) >>> shiftOf (level + 1) = 0 := by
      rw [Nat.shiftRight_eq_div_pow]
      exact Nat.div_eq_of_lt below
    rw [Nat.shiftRight_xor_distrib, Nat.shiftRight_eq_div_pow, Nat.shiftRight_eq_div_pow] at zero
    rw [rotation_eq]
    exact Nat.eq_of_xor_eq_zero zero
  refine Nat.le_antisymm ?_ (Nat.div_le_div_right (Nat.le_of_lt (now_lt_slotTurn _ _)))
  rw [agree]
  exact Nat.div_le_div_right up

end Waits

/-! ## The next slot to come up -/

section Expirations

variable {w : TimingWheel} {level slot : Nat} {next : Expiration}

/-- The slot of one level that comes up first among those that are marked. -/
theorem expirationOf_some (bits : w.occupied level < 2 ^ 64) (found : w.expirationOf level = some next) :
    next.level = level ∧ next.slot < 64 ∧ (w.occupied level).testBit next.slot = true ∧
      next.deadline = turn level next.slot w.now ∧
      ∀ slot, slot < 64 → (w.occupied level).testBit slot = true → next.deadline ≤ turn level slot w.now := by
  unfold expirationOf at found
  dsimp only at found
  split at found
  · cases found
  rename_i marked
  have and_mod : ∀ n, n &&& kSlotMask = n % 64 := fun n => Nat.and_two_pow_sub_one_eq_mod n 6
  simp only [and_mod, Nat.shiftRight_eq_div_pow] at found
  have first : (w.now / 2 ^ shiftOf level % 64 + 1) % 64 = (w.now / slotWidth level + 1) % 64 := by
    unfold slotWidth
    omega
  rw [first] at found
  set from_ := (w.now / slotWidth level + 1) % 64 with from_def
  have from_lt : from_ < 64 := Nat.mod_lt _ (by decide)
  -- the rotated bitmap counts from the slot after the current one
  have rotated : ∀ d, d < 64 → (rotr (w.occupied level) from_).testBit d =
      (w.occupied level).testBit ((from_ + d) % 64) := fun d lt => testBit_rotr bits from_lt lt
  have slot_of : ∀ d, (from_ + d) % 64 = (w.now / slotWidth level + 1 + d) % 64 := by
    intro d
    omega
  have set_some : ∃ d, d < 64 ∧ (rotr (w.occupied level) from_).testBit d = true := by
    obtain ⟨j, lt, set⟩ := exists_testBit bits marked
    refine ⟨(j + 64 - from_) % 64, Nat.mod_lt _ (by decide), ?_⟩
    have back : (from_ + (j + 64 - from_) % 64) % 64 = j := by omega
    rw [rotated _ (Nat.mod_lt _ (by decide)), back]
    exact set
  obtain ⟨close, set, least⟩ := countrZero_spec set_some
  set distance := countrZero (rotr (w.occupied level) from_)
  cases found
  have at_distance : turn level ((from_ + distance) % 64) w.now =
      slotWidth level * (w.now / slotWidth level + 1 + distance) := by
    rw [slot_of, turn_distance close]
  refine ⟨rfl, Nat.mod_lt _ (by decide), ?_, rfl, ?_⟩
  · rw [← rotated distance close]
    exact set
  · intro slot lt marked_slot
    show turn level ((from_ + distance) % 64) w.now ≤ _
    have back : (from_ + (slot + 64 - from_) % 64) % 64 = slot := by omega
    have close' : (slot + 64 - from_) % 64 < 64 := Nat.mod_lt _ (by decide)
    have further : distance ≤ (slot + 64 - from_) % 64 := by
      apply least
      rw [rotated _ close', back]
      exact marked_slot
    rw [at_distance, ← back, slot_of, turn_distance close']
    exact Nat.mul_le_mul_left _ (by omega)

theorem expirationOf_none (nothing : w.expirationOf level = none) :
    (w.occupied level).testBit slot = false := by
  unfold expirationOf at nothing
  dsimp only at nothing
  split at nothing
  · rename_i zero
    rw [zero, Nat.zero_testBit]
  · cases nothing

/-- What the scan over the levels has found so far. -/
structure Scanned (w : TimingWheel) (levels : List Nat) (best : Option Expiration) : Prop where
  found : ∀ next, best = some next → next.level < kLevels ∧ next.slot < 64 ∧
    (w.occupied next.level).testBit next.slot = true ∧ next.deadline = turn next.level next.slot w.now
  least : ∀ level ∈ levels, ∀ slot, slot < 64 → (w.occupied level).testBit slot = true →
    ∃ next, best = some next ∧ next.deadline ≤ turn level slot w.now

theorem Scanned.add {levels : List Nat} {best : Option Expiration} (bits : w.occupied level < 2 ^ 64)
    (lt : level < kLevels) (scanned : Scanned w levels best) :
    Scanned w (levels ++ [level]) (earlier best (w.expirationOf level)) := by
  cases here : w.expirationOf level with
  | none =>
    have same : earlier best none = best := by cases best <;> rfl
    refine ⟨scanned.found, ?_⟩
    intro level' mem slot inside set
    rcases List.mem_append.1 mem with old | new
    · exact scanned.least level' old slot inside set
    · rw [List.mem_singleton.1 new, expirationOf_none here] at set
      cases set
  | some next =>
    obtain ⟨level_eq, inside, set, deadline, least⟩ := expirationOf_some bits here
    have good : next.level < kLevels ∧ next.slot < 64 ∧
        (w.occupied next.level).testBit next.slot = true ∧
        next.deadline = turn next.level next.slot w.now := by
      rw [level_eq]
      exact ⟨lt, inside, set, deadline⟩
    have picked : ∃ chosen, earlier best (some next) = some chosen ∧ chosen.deadline ≤ next.deadline ∧
        (∀ old, best = some old → chosen.deadline ≤ old.deadline) ∧
        (chosen = next ∨ best = some chosen) := by
      cases best with
      | none => exact ⟨next, rfl, Nat.le_refl _, nofun, Or.inl rfl⟩
      | some old =>
        unfold earlier
        dsimp only
        split
        · rename_i sooner
          refine ⟨next, rfl, Nat.le_refl _, ?_, Or.inl rfl⟩
          intro old' same
          cases same
          exact Nat.le_of_lt sooner
        · rename_i later
          refine ⟨old, rfl, Nat.not_lt.1 later, ?_, Or.inr rfl⟩
          intro old' same
          cases same
          exact Nat.le_refl _
    obtain ⟨chosen, result, of_next, of_old, source⟩ := picked
    rw [result]
    constructor
    · intro chosen' same
      cases same
      rcases source with rfl | old
      · exact good
      · exact scanned.found chosen old
    · intro level' mem slot inside' set'
      rcases List.mem_append.1 mem with old | new
      · obtain ⟨before, same, bound⟩ := scanned.least level' old slot inside' set'
        exact ⟨chosen, rfl, Nat.le_trans (of_old before same) bound⟩
      · rw [List.mem_singleton.1 new] at set' ⊢
        exact ⟨chosen, rfl, Nat.le_trans of_next (least slot inside' set')⟩

theorem nextExpiration_scanned (bits : ∀ level, w.occupied level < 2 ^ 64) :
    Scanned w (List.range kLevels) w.nextExpiration := by
  have fold : ∀ (levels done : List Nat) (best : Option Expiration), (∀ l ∈ levels, l < kLevels) →
      Scanned w done best →
      Scanned w (done ++ levels) (levels.foldl (fun best level => earlier best (w.expirationOf level)) best) := by
    intro levels
    induction levels with
    | nil =>
      intro done best _ scanned
      rwa [List.append_nil]
    | cons level levels ih =>
      intro done best small scanned
      have one := scanned.add (bits level) (small level List.mem_cons_self)
      have rest := ih (done ++ [level]) _ (fun l mem => small l (List.mem_cons_of_mem _ mem)) one
      rwa [List.append_assoc] at rest
  have start : Scanned w [] none := ⟨nofun, nofun⟩
  exact fold (List.range kLevels) [] none (fun l mem => List.mem_range.1 mem) start

end Expirations

/-! ## Wheels that are on time -/

/-- The bitmaps say which slots hold timers, and every timer in use waits where it should.
`limit` is `kFree`, or `kDueList` when no timer is on the list of those that are due. -/
structure OnTime (limit : Nat) (w : TimingWheel) (pending : List Nat) : Prop where
  bits : ∀ level, w.occupied level < 2 ^ 64
  marked : ∀ l, l < kDueList →
    (w.occupied (l / kSlotsPerLevel)).testBit (l % kSlotsPerLevel) = (w.heads l).isSome
  waits : ∀ i ∈ w.live, i ∉ pending →
    w.listOf i < limit ∧ Waits w.now (w.listOf i) (w.timerOf i).deadline

section Occupied

variable {occupied : Nat → Nat} {l l' : Nat}

theorem list_ext (level : l / kSlotsPerLevel = l' / kSlotsPerLevel)
    (slot : l % kSlotsPerLevel = l' % kSlotsPerLevel) : l = l' := by
  rw [← @list_split l, ← @list_split l', level, slot]

theorem testBit_setOccupied :
    (setOccupied occupied l (l' / kSlotsPerLevel)).testBit (l' % kSlotsPerLevel) =
      ((occupied (l' / kSlotsPerLevel)).testBit (l' % kSlotsPerLevel) || decide (l = l')) := by
  unfold setOccupied
  rw [update_apply]
  by_cases level : l' / kSlotsPerLevel = l / kSlotsPerLevel
  · rw [if_pos level, Nat.testBit_or, Nat.testBit_two_pow, level]
    congr 1
    exact decide_eq_decide.2 ⟨fun slot => list_ext level.symm slot, fun same => by rw [same]⟩
  · rw [if_neg level]
    have ne : l ≠ l' := fun same => level (by rw [same])
    simp [ne]

theorem testBit_clearOccupied :
    (clearOccupied occupied l (l' / kSlotsPerLevel)).testBit (l' % kSlotsPerLevel) =
      ((occupied (l' / kSlotsPerLevel)).testBit (l' % kSlotsPerLevel) && decide (l ≠ l')) := by
  unfold clearOccupied
  rw [update_apply]
  by_cases level : l' / kSlotsPerLevel = l / kSlotsPerLevel
  · rw [if_pos level, testBit_clear (list_slot_lt l), decide_eq_true (list_slot_lt l'), Bool.true_and, level]
    congr 1
    exact decide_eq_decide.2
      ⟨fun slot same => slot (by rw [same]), fun ne slot => ne (list_ext level.symm slot.symm)⟩
  · rw [if_neg level]
    have ne : l ≠ l' := fun same => level (by rw [same])
    simp [ne]

theorem setOccupied_lt (bits : ∀ level, occupied level < 2 ^ 64) (level : Nat) :
    setOccupied occupied l level < 2 ^ 64 := by
  unfold setOccupied
  rw [update_apply]
  split
  · exact Nat.or_lt_two_pow (bits _) (Nat.pow_lt_pow_right (by decide) (list_slot_lt l))
  · exact bits level

theorem clearOccupied_lt (bits : ∀ level, occupied level < 2 ^ 64) (level : Nat) :
    clearOccupied occupied l level < 2 ^ 64 := by
  unfold clearOccupied
  rw [update_apply]
  split
  · exact Nat.lt_of_le_of_lt Nat.and_le_left (bits _)
  · exact bits level

end Occupied

section OnTime

variable {w w' : TimingWheel} {limit i l : Nat} {pending pending' : List Nat}

theorem onTime_empty (now : Nat) : OnTime kDueList { now } [] where
  bits := fun _ => Nat.two_pow_pos 64
  marked := fun _ _ => Nat.zero_testBit _
  waits := by
    intro i mem
    cases (mem_live.1 mem).1

/-- The same slots, and timers that were there. -/
theorem OnTime.mono (on : OnTime limit w pending) (now : w'.now = w.now) (occupied : w'.occupied = w.occupied)
    (heads : w'.heads = w.heads)
    (live : ∀ i ∈ w'.live, i ∉ pending' → i ∈ w.live ∧ i ∉ pending ∧ w'.listOf i = w.listOf i ∧
      w'.timerOf i = w.timerOf i) : OnTime limit w' pending' where
  bits := by
    rw [occupied]
    exact on.bits
  marked := by
    rw [occupied, heads]
    exact on.marked
  waits := by
    intro i mem out
    obtain ⟨mem', out', list, timer⟩ := live i mem out
    rw [now, list, timer]
    exact on.waits i mem' out'

theorem OnTime.loosen (on : OnTime kDueList w pending) : OnTime kFree w pending where
  __ := on
  waits := by
    intro i mem out
    obtain ⟨slotted, waits⟩ := on.waits i mem out
    exact ⟨Nat.lt_succ_of_lt slotted, waits⟩

theorem OnTime.link (on : OnTime limit w (i :: pending)) (bound : i < w.slab) (list : l < kFree)
    (within : l < limit) (waits : Waits w.now l (w.timerOf i).deadline) :
    OnTime limit (w.link i l) pending where
  bits := by
    intro level
    show (if l < kDueList then setOccupied w.occupied l else w.occupied) level < _
    split
    · exact setOccupied_lt on.bits level
    · exact on.bits level
  marked := by
    intro l' slotted
    have before := on.marked l' slotted
    show Nat.testBit ((if l < kDueList then setOccupied w.occupied l else w.occupied) _) _ =
      (update w.heads l (some i) l').isSome
    rw [update_apply]
    by_cases same : l' = l
    · subst same
      rw [if_pos slotted, if_pos rfl, testBit_setOccupied]
      simp
    · rw [if_neg same]
      split
      · rw [testBit_setOccupied, before]
        simp [Ne.symm same]
      · exact before
  waits := by
    intro j mem out
    rw [link_live bound list] at mem
    rw [link_list, link_timer]
    by_cases here : j = i
    · rw [if_pos here, here]
      exact ⟨within, waits⟩
    · rw [if_neg here]
      refine on.waits j ((Finset.mem_insert.1 mem).resolve_left here) ?_
      rw [List.mem_cons, not_or]
      exact ⟨here, out⟩

/-- The list `place` chooses. -/
theorem place_waits (w : TimingWheel) (i : Nat) :
    ∃ l, l < kFree ∧ w.place i = w.link i l ∧ Waits w.now l (w.timerOf i).deadline ∧
      (w.now < (w.timerOf i).deadline → l < kDueList) := by
  unfold place
  dsimp only
  split
  · rename_i past
    refine ⟨kDueList, by decide, rfl, ?_, ?_⟩
    · unfold Waits
      exact past
    · intro future
      exact absurd future (Nat.not_lt.2 past)
  · rename_i future
    have slotted := slotFor_lt w.now (w.nodes i).deadline
    exact ⟨_, Nat.lt_succ_of_lt slotted, rfl, slotFor_waits (Nat.not_le.1 future), fun _ => slotted⟩

theorem OnTime.unlink (on : OnTime limit w pending) (inv : WheelInv w pending) (mem : i ∈ w.live)
    (out : i ∉ pending) : OnTime limit (w.unlink i) (i :: pending) := by
  obtain ⟨chains, free, lists⟩ := inv.lists
  obtain ⟨bound, used⟩ := mem_live.1 mem
  have list : w.listOf i < kFree := by
    have := lists.named i bound
    omega
  -- the list the node is on has a head
  have headed : (w.heads (w.listOf i)).isSome := by
    have on_chain : i ∈ chains (w.listOf i) := (lists.onChain _ list i).2 ⟨bound, rfl, out⟩
    rw [(lists.chain _ list).first, List.isSome_head?]
    exact List.ne_nil_of_mem on_chain
  set heads := if w.prevs i = none then update w.heads (w.listOf i) (w.nexts i) else w.heads
    with heads_def
  have others : ∀ l, l ≠ w.listOf i → heads l = w.heads l := by
    intro l ne
    rw [heads_def]
    split
    · exact update_of_ne ne _ _
    · rfl
  have occupied : (w.unlink i).occupied =
      if heads (w.listOf i) = none ∧ w.listOf i < kDueList then clearOccupied w.occupied (w.listOf i)
      else w.occupied := rfl
  refine ⟨?_, ?_, ?_⟩
  · intro level
    rw [occupied]
    split
    · exact clearOccupied_lt on.bits level
    · exact on.bits level
  · intro l slotted
    have before := on.marked l slotted
    rw [occupied, unlink_heads, ← heads_def]
    by_cases same : l = w.listOf i
    · subst same
      split
      · rename_i emptied
        rw [testBit_clearOccupied, emptied.1]
        simp
      · rename_i kept
        have stays : heads (w.listOf i) ≠ none := fun emptied => kept ⟨emptied, slotted⟩
        rw [before, headed, Option.isSome_iff_ne_none.2 stays]
    · rw [others l same]
      split
      · rw [testBit_clearOccupied, before]
        simp [Ne.symm same]
      · exact before
  · intro j mem_j out_j
    rw [unlink_live] at mem_j
    rw [unlink_list, unlink_timer]
    exact on.waits j mem_j (fun other => out_j (List.mem_cons_of_mem _ other))

theorem OnTime.release (on : OnTime limit w (i :: pending)) :
    OnTime limit { w.release i with size := (w.release i).size - 1 } pending := by
  refine on.mono rfl rfl rfl ?_
  intro j mem out
  have mem : j ∈ (w.release i).live := mem
  rw [release_live, Finset.mem_erase] at mem
  obtain ⟨ne, mem⟩ := mem
  refine ⟨mem, ?_, ?_, release_timer w i j ne⟩
  · rw [List.mem_cons, not_or]
    exact ⟨ne, out⟩
  · show (w.release i).listOf j = _
    rw [release_list, if_neg ne]

theorem schedule_on_time {deadline kind id : Nat} {handle : TimerHandle} (inv : WheelInv w [])
    (on : OnTime kFree w []) (scheduled : w.schedule deadline kind id = some (handle, w')) :
    OnTime kFree w' [] ∧ w'.now = w.now := by
  unfold schedule at scheduled
  split at scheduled
  · cases scheduled
  rename_i index taken allocated
  obtain ⟨-, bound, unused, live, -, -⟩ := allocate_spec inv allocated
  have same : taken.now = w.now ∧ taken.occupied = w.occupied ∧ taken.heads = w.heads ∧
      ∀ j ∈ w.live, taken.nodes j = w.nodes j := by
    unfold allocate at allocated
    split at allocated
    · cases allocated
      exact ⟨rfl, rfl, rfl, fun _ _ => rfl⟩
    split at allocated
    swap
    · cases allocated
    cases allocated
    exact ⟨rfl, rfl, rfl, fun j mem => grown_nodes (Nat.ne_of_lt (mem_live.1 mem).1)⟩
  obtain ⟨now, occupied, heads, nodes⟩ := same
  set filled := taken.fill index deadline kind id with filled_def
  have on_filled : OnTime kFree filled [index] := by
    refine on.mono now occupied heads ?_
    intro j mem out
    have listOf : filled.listOf = taken.listOf := fill_list _ _ _ _ _
    have mem : j ∈ w.live := by
      rw [← live]
      rw [mem_live, listOf] at mem
      exact mem_live.2 mem
    refine ⟨mem, by simp, ?_, ?_⟩
    · rw [listOf]
      exact congrArg Node.list (nodes j mem)
    · rw [filled_def, fill_timer, if_neg (by simpa using out)]
      exact congrArg Node.timer (nodes j mem)
  obtain ⟨l, list, placed, waits, -⟩ := place_waits filled index
  rw [placed] at scheduled
  cases scheduled
  have linked := on_filled.link bound list list waits
  exact ⟨linked.mono rfl rfl rfl (fun j mem out => ⟨mem, out, rfl, rfl⟩), now⟩

theorem cancel_on_time (inv : WheelInv w []) (on : OnTime limit w []) (handle : TimerHandle) :
    OnTime limit (w.cancel handle).2 [] ∧ (w.cancel handle).2.now = w.now := by
  unfold cancel
  split
  · exact ⟨on, rfl⟩
  dsimp only
  split
  · exact ⟨on, rfl⟩
  rename_i inside current
  have mem : handle.index ∈ w.live :=
    mem_live.2 ⟨Nat.not_le.1 inside, fun free => current (Or.inl free)⟩
  exact ⟨(on.unlink inv mem (by simp)).release, rfl⟩

/-- With nothing on the list of those that are due, every timer is in a slot. -/
theorem OnTime.tighten (on : OnTime kFree w []) (inv : WheelInv w []) (no_head : w.heads kDueList = none) :
    OnTime kDueList w [] := by
  refine ⟨on.bits, on.marked, ?_⟩
  intro i mem out
  obtain ⟨list, waits⟩ := on.waits i mem out
  refine ⟨Nat.lt_of_le_of_ne (Nat.le_of_lt_succ list) ?_, waits⟩
  intro due
  obtain ⟨chains, free, lists⟩ := inv.lists
  have chain := lists.chain kDueList (by decide)
  have on_chain := (lists.onChain kDueList (by decide) i).2 ⟨(mem_live.1 mem).1, due, by simp⟩
  rw [no_head] at chain
  rw [List.head?_eq_none_iff.1 chain.first.symm] at on_chain
  cases on_chain

/-- The slot of a timer is marked, so the next slot to come up is no later. -/
theorem OnTime.least (on : OnTime kDueList w []) (inv : WheelInv w []) (mem : i ∈ w.live) :
    ∃ next, w.nextExpiration = some next ∧ next.deadline ≤ slotTurn (w.listOf i) w.now := by
  obtain ⟨slotted, -⟩ := on.waits i mem (by simp)
  obtain ⟨chains, free, lists⟩ := inv.lists
  have list := Nat.lt_succ_of_lt slotted
  have on_chain := (lists.onChain (w.listOf i) list i).2 ⟨(mem_live.1 mem).1, rfl, by simp⟩
  have marked := on.marked (w.listOf i) slotted
  rw [(lists.chain (w.listOf i) list).first, List.isSome_head?.2 (List.ne_nil_of_mem on_chain)] at marked
  exact (nextExpiration_scanned on.bits).least _ (List.mem_range.2 (list_level_lt slotted)) _
    (list_slot_lt _) marked

/-- What is in a wheel with nothing due lies in the future. -/
theorem OnTime.future (on : OnTime kDueList w []) {timer : Timer} (held : w.timer? i = some timer) :
    w.now < timer.deadline := by
  have mem : i ∈ w.live := mem_live_iff_timer.2 (by rw [held]; rfl)
  rw [timer?_of_live mem] at held
  cases held
  obtain ⟨slotted, waits⟩ := on.waits i mem (by simp)
  exact Nat.lt_of_lt_of_le (now_lt_slotTurn _ _) (waits.ahead slotted)

end OnTime

/-! ## Generations -/

/-- No entry is taken into use, and one that is given back is a generation older. -/
structure Aged (w w' : TimingWheel) : Prop where
  slab : w'.slab = w.slab
  shrinks : w'.live ⊆ w.live
  kept : ∀ i, i ∈ w'.live ∨ i ∉ w.live → (w'.nodes i).generation = (w.nodes i).generation
  older : ∀ i ∈ w.live, i ∉ w'.live → (w'.nodes i).generation = ((w.nodes i).generation + 1) % 2 ^ 32

section Aged

variable {w w' w'' : TimingWheel}

theorem Aged.refl (w : TimingWheel) : Aged w w :=
  ⟨rfl, fun _ mem => mem, fun _ _ => rfl, fun _ mem out => absurd mem out⟩

theorem Aged.of_same (slab : w'.slab = w.slab) (live : w'.live = w.live)
    (timers : ∀ i, w'.timerOf i = w.timerOf i) : Aged w w' where
  slab := slab
  shrinks := by rw [live]
  kept := fun i _ => congrArg Timer.generation (timers i)
  older := fun i mem out => absurd mem (live ▸ out)

theorem Aged.trans (one : Aged w w') (two : Aged w' w'') : Aged w w'' where
  slab := two.slab.trans one.slab
  shrinks := fun _ mem => one.shrinks (two.shrinks mem)
  kept := by
    rintro i (stays | unused)
    · rw [two.kept i (Or.inl stays), one.kept i (Or.inl (two.shrinks stays))]
    · rw [two.kept i (Or.inr fun mem => unused (one.shrinks mem)), one.kept i (Or.inr unused)]
  older := by
    intro i mem out
    by_cases between : i ∈ w'.live
    · rw [two.older i between out, one.kept i (Or.inl between)]
    · rw [two.kept i (Or.inr between), one.older i mem between]

/-- The entry of one timer is given back. -/
theorem aged_release {i : Nat} (mem : i ∈ w.live) :
    Aged w { w.release i with size := (w.release i).size - 1 } := by
  have live : TimingWheel.live { w.release i with size := (w.release i).size - 1 } = w.live.erase i :=
    release_live
  refine ⟨rfl, ?_, ?_, ?_⟩
  · rw [live]
    exact Finset.erase_subset _ _
  · intro j other
    have ne : j ≠ i := by
      rintro rfl
      rw [live] at other
      exact other.elim (Finset.notMem_erase _ _) (fun unused => unused mem)
    exact congrArg Timer.generation (release_timer w i j ne)
  · intro j mem_j out
    rw [live, Finset.mem_erase, not_and_or, not_not] at out
    rcases out with rfl | unused
    · show (update w.nodes j _ j).generation = _
      rw [update_self]
    · exact absurd mem_j unused

end Aged

/-! ## Advancing -/

section Advance

variable {w : TimingWheel}

theorem head_due {i : Nat} (inv : WheelInv w []) (head : w.heads kDueList = some i) :
    w.listOf i = kDueList := by
  obtain ⟨chains, free, lists⟩ := inv.lists
  rw [(lists.chain kDueList (by decide)).first] at head
  exact ((lists.onChain kDueList (by decide) i).1 (List.mem_of_head? head)).2.1

/-- What a loop leaves of a wheel: the timers it fired are gone, a generation older. -/
structure Ran (w : TimingWheel) (events : List TimerEvent) (w' : TimingWheel) (pending : List Nat) :
    Prop where
  inv : WheelInv w' pending
  fires : Fires w events w'
  aged : Aged w w'

theorem Ran.trans {w' w'' : TimingWheel} {es es' : List TimerEvent} {pending pending' : List Nat}
    (one : Ran w es w' pending) (two : Ran w' es' w'' pending') : Ran w (es ++ es') w'' pending' :=
  ⟨two.inv, one.fires.trans two.fires, one.aged.trans two.aged⟩

section Steps

variable {pending : List Nat} {i : Nat}

theorem WheelInv.ran (inv : WheelInv w pending) : Ran w [] w pending :=
  ⟨inv, Fires.of_eq rfl, Aged.refl w⟩

theorem WheelInv.ran_unlink (inv : WheelInv w pending) (mem : i ∈ w.live) (on : i ∉ pending) :
    Ran w [] (w.unlink i) (i :: pending) :=
  ⟨inv.unlink mem on, Fires.of_eq unlink_timer?,
    .of_same rfl unlink_live fun j => unlink_timer w i j⟩

theorem WheelInv.ran_fire (inv : WheelInv w (i :: pending)) (fired : List TimerEvent) :
    Ran w [w.eventOf i] (w.fire i fired).1 pending :=
  ⟨(inv.fire fired).1, (inv.fire fired).2.2, aged_release (inv.pendingLive i List.mem_cons_self)⟩

theorem WheelInv.ran_place (inv : WheelInv w (i :: pending)) : Ran w [] (w.place i) pending := by
  obtain ⟨inv', same⟩ := inv.place
  have mem := inv.pendingLive i List.mem_cons_self
  refine ⟨inv', Fires.of_eq same, ?_⟩
  obtain ⟨l, list, placed⟩ := place_eq w i
  have live : (w.link i l).live = w.live := by
    rw [link_live (mem_live.1 mem).1 list, Finset.insert_eq_self.2 mem]
  rw [placed]
  exact .of_same rfl live fun j => link_timer w i l j

end Steps

/-- One timer fewer is due. -/
theorem fire_fewer {i fuel : Nat} (mem : i ∈ w.live) (due : w.listOf i = kDueList)
    (enough : (w.live.filter (w.listOf · = kDueList)).card ≤ fuel + 1) (fired : List TimerEvent) :
    (((w.unlink i).fire i fired).1.live.filter
      (((w.unlink i).fire i fired).1.listOf · = kDueList)).card ≤ fuel := by
  refine Nat.le_of_lt_succ (Nat.lt_of_lt_of_le (Finset.card_lt_card ?_) enough)
  rw [Finset.ssubset_iff_of_subset]
  · refine ⟨i, Finset.mem_filter.2 ⟨mem, due⟩, ?_⟩
    intro still
    have still : i ∈ ((w.unlink i).release i).live := (Finset.mem_filter.1 still).1
    rw [release_live] at still
    exact Finset.notMem_erase _ _ still
  · intro j mem_j
    obtain ⟨live_j, due_j⟩ := Finset.mem_filter.1 mem_j
    have live_j : j ∈ ((w.unlink i).release i).live := live_j
    have due_j : ((w.unlink i).release i).listOf j = kDueList := due_j
    rw [release_live, Finset.mem_erase, unlink_live] at live_j
    rw [release_list, if_neg live_j.1, unlink_list] at due_j
    exact Finset.mem_filter.2 ⟨live_j.2, due_j⟩

theorem fireDue_spec (fuel : Nat) (inv : WheelInv w []) (fired : List TimerEvent) :
    ∃ events, (fireDue fuel w fired).2 = fired ++ events ∧
      Ran w events (fireDue fuel w fired).1 [] ∧ (fireDue fuel w fired).1.now = w.now ∧
      (OnTime kFree w [] → (w.live.filter (w.listOf · = kDueList)).card ≤ fuel →
        OnTime kDueList (fireDue fuel w fired).1 [] ∧ ∀ e ∈ events, e.deadline ≤ w.now) := by
  induction fuel generalizing w fired with
  | zero =>
    refine ⟨[], by simp [fireDue], inv.ran, rfl, fun on none_due => ⟨on.tighten inv ?_, nofun⟩⟩
    cases head : w.heads kDueList with
    | none => rfl
    | some i =>
      have some_due : 0 < (w.live.filter (w.listOf · = kDueList)).card :=
        Finset.card_pos.2 ⟨i, Finset.mem_filter.2 ⟨head_live inv (by decide) head, head_due inv head⟩⟩
      omega
  | succ fuel ih =>
    unfold fireDue
    split
    · rename_i no_head
      exact ⟨[], by simp, inv.ran, rfl, fun on _ => ⟨on.tighten inv no_head, nofun⟩⟩
    · rename_i index head
      have mem := head_live inv (by decide) head
      have due := head_due inv head
      have unlinked := inv.ran_unlink mem (by simp)
      have one := unlinked.trans (unlinked.inv.ran_fire fired)
      obtain ⟨events, more, ran, now, timely⟩ := ih one.inv ((w.unlink index).fire index fired).2
      refine ⟨(w.unlink index).eventOf index :: events, ?_, one.trans ran, now, ?_⟩
      · rw [more]
        simp [fire]
      · intro on enough
        have past : (w.timerOf index).deadline ≤ w.now := by
          obtain ⟨-, waits⟩ := on.waits index mem (by simp)
          unfold Waits at waits
          rwa [due, if_neg (Nat.lt_irrefl _)] at waits
        have on' : OnTime kFree ((w.unlink index).fire index fired).1 [] :=
          (on.unlink inv mem (by simp)).release
        obtain ⟨result, times⟩ := timely on' (fire_fewer mem due enough fired)
        refine ⟨result, ?_⟩
        intro e mem_e
        rcases List.mem_cons.1 mem_e with rfl | later
        · show ((w.unlink index).timerOf index).deadline ≤ w.now
          rw [unlink_timer]
          exact past
        · exact times e later

theorem sweep_spec (fuel : Nat) (todo : List Nat) (enough : todo.length ≤ fuel)
    (links : Follows w.nexts todo none) (inv : WheelInv w todo) (fired : List TimerEvent) :
    ∃ events, (sweep fuel todo.head? w fired).2 = fired ++ events ∧
      Ran w events (sweep fuel todo.head? w fired).1 [] ∧
      (sweep fuel todo.head? w fired).1.now = w.now ∧
      (OnTime kDueList w todo → (∀ i ∈ todo, w.now ≤ (w.timerOf i).deadline) →
        OnTime kDueList (sweep fuel todo.head? w fired).1 [] ∧ ∀ e ∈ events, e.deadline = w.now) := by
  induction fuel generalizing w todo fired with
  | zero =>
    have none_left : todo = [] := List.length_eq_zero_iff.1 (Nat.le_zero.1 enough)
    subst none_left
    exact ⟨[], by simp [sweep], inv.ran, rfl, fun on _ => ⟨on, nofun⟩⟩
  | succ fuel ih =>
    cases todo with
    | nil => exact ⟨[], by simp [sweep], inv.ran, rfl, fun on _ => ⟨on, nofun⟩⟩
    | cons index rest =>
      have following : (w.nodes index).next = rest.head? := by
        have next : w.nexts index = rest.head?.or none := links.1
        rw [Option.or_none] at next
        exact next
      have fresh := (List.nodup_cons.1 inv.pendingNodup).1
      have apart : ∀ j ∈ rest, j ≠ index := fun j mem same => fresh (same ▸ mem)
      have short : rest.length ≤ fuel := by
        rw [List.length_cons] at enough
        omega
      simp only [List.head?_cons, sweep]
      rw [following]
      split
      · rename_i past
        have links' : Follows (w.fire index fired).1.nexts rest none := by
          refine links.2.congr ?_
          intro j mem
          show (w.release index).nexts j = w.nexts j
          rw [release_next, if_neg (apart j mem)]
        have one := inv.ran_fire fired
        obtain ⟨events, more, ran, now, timely⟩ := ih rest short links' one.inv (w.fire index fired).2
        refine ⟨w.eventOf index :: events, ?_, one.trans ran, now, ?_⟩
        · rw [more]
          simp [fire]
        · intro on late
          obtain ⟨result, times⟩ := timely on.release (by
            intro j mem
            show w.now ≤ ((w.release index).timerOf j).deadline
            rw [release_timer w index j (apart j mem)]
            exact late j (List.mem_cons_of_mem _ mem))
          refine ⟨result, ?_⟩
          intro e mem
          rcases List.mem_cons.1 mem with rfl | later
          · exact Nat.le_antisymm past (late index List.mem_cons_self)
          · exact times e later
      · rename_i future
        obtain ⟨l, list, placed, waits, slotted⟩ := place_waits w index
        have one := inv.ran_place
        rw [placed] at one ⊢
        have links' : Follows (w.link index l).nexts rest none := by
          refine links.2.congr ?_
          intro j mem
          rw [link_next, if_neg (apart j mem)]
        obtain ⟨events, more, ran, now, timely⟩ := ih rest short links' one.inv fired
        refine ⟨events, more, one.trans ran, now, fun on late => ?_⟩
        have bound := (mem_live.1 (inv.pendingLive index List.mem_cons_self)).1
        refine timely (on.link bound list (slotted (Nat.not_le.1 future)) waits) ?_
        intro j mem
        rw [link_timer]
        exact late j (List.mem_cons_of_mem _ mem)

/-- The slot that comes up next, taken off the wheel at its turn. -/
theorem OnTime.detach {next : Expiration} {chains : Nat → List Nat} {free : List Nat}
    (on : OnTime kDueList w []) (inv : WheelInv w []) (lists : Lists w [] chains free)
    (found : w.nextExpiration = some next) {list : Nat}
    (name : list = next.level * kSlotsPerLevel + next.slot) :
    w.now < next.deadline ∧
      OnTime kDueList
        { w with
          now := next.deadline
          heads := update w.heads list none
          occupied := clearOccupied w.occupied list } (chains list) ∧
      ∀ i ∈ chains list, next.deadline ≤ (w.timerOf i).deadline := by
  obtain ⟨level_lt, slot_lt, set, deadline⟩ := (nextExpiration_scanned on.bits).found next found
  have slotted : list < kDueList := by
    have levels : kLevels = 6 := by decide
    have due : kDueList = 384 := by decide
    rw [name, kSlots_eq, due]
    omega
  have bounds : list < kFree := Nat.lt_succ_of_lt slotted
  have turn_eq : slotTurn list w.now = next.deadline := by
    rw [name, slotTurn_list slot_lt, deadline]
  have on_list := lists.onChain list bounds
  have least : ∀ i ∈ w.live, next.deadline ≤ slotTurn (w.listOf i) w.now := by
    intro i mem
    obtain ⟨next', same, bound⟩ := on.least inv mem
    rw [found] at same
    cases same
    exact bound
  have of_list : ∀ i ∈ chains list, Waits w.now list (w.timerOf i).deadline := by
    intro i mem
    obtain ⟨bound, named, -⟩ := (on_list i).1 mem
    have waits := (on.waits i (mem_live.2 ⟨bound, by omega⟩) (by simp)).2
    rwa [named] at waits
  -- somebody waits in the slot
  have waits_list : ∃ d, Waits w.now list d := by
    have marked := on.marked list slotted
    have div : list / kSlotsPerLevel = next.level := by
      rw [name, kSlots_eq]
      omega
    have mod : list % kSlotsPerLevel = next.slot := by
      rw [name, kSlots_eq]
      omega
    rw [div, mod, set, (lists.chain list bounds).first] at marked
    obtain ⟨i, head⟩ := Option.isSome_iff_exists.1 marked.symm
    exact ⟨_, of_list i (List.mem_of_head? head)⟩
  obtain ⟨d, waits_d⟩ := waits_list
  have after : w.now < next.deadline := turn_eq ▸ now_lt_slotTurn list w.now
  refine ⟨after, ⟨clearOccupied_lt on.bits, ?_, ?_⟩, ?_⟩
  · intro l slotted_l
    show (clearOccupied w.occupied list _).testBit _ = (update w.heads list none l).isSome
    rw [testBit_clearOccupied, on.marked l slotted_l, update_apply]
    by_cases same : l = list
    · simp [same]
    · simp [same, Ne.symm same]
  · intro i mem out
    obtain ⟨slotted_i, waits⟩ := on.waits i mem (by simp)
    have other : w.listOf i ≠ list := by
      intro named
      exact out ((on_list i).2 ⟨(mem_live.1 mem).1, named, by simp⟩)
    have apart := waits_d.apart waits slotted slotted_i (Ne.symm other)
    rw [turn_eq] at apart
    refine ⟨slotted_i, waits.later slotted_i (Nat.le_of_lt after) ?_⟩
    exact Nat.lt_of_le_of_ne (least i mem) apart
  · intro i mem
    rw [← turn_eq]
    exact (of_list i mem).ahead slotted

/-- One round: the slot that comes up first is emptied at its turn. -/
theorem expireSlot_spec {next : Expiration} (inv : WheelInv w [])
    (found : w.nextExpiration = some next) (fired : List TimerEvent) :
    ∃ events, (w.expireSlot next fired).2 = fired ++ events ∧
      Ran w events (w.expireSlot next fired).1 [] ∧
      (w.expireSlot next fired).1.now = next.deadline ∧
      (OnTime kDueList w [] → w.now < next.deadline ∧ OnTime kDueList (w.expireSlot next fired).1 [] ∧
        ∀ e ∈ events, e.deadline = next.deadline) := by
  obtain ⟨chains, free, lists⟩ := inv.lists
  have bounds := nextExpiration_bounds found
  have timely := fun on => OnTime.detach on inv lists found rfl
  unfold expireSlot
  dsimp only
  generalize next.level * kSlotsPerLevel + next.slot = list at bounds timely
  set detached : TimingWheel :=
    { w with
      now := next.deadline
      heads := update w.heads list none
      occupied := clearOccupied w.occupied list } with detached_def
  have chain := lists.chain list bounds
  have on_list := lists.onChain list bounds
  have inv' : WheelInv detached (chains list) := by
    refine ⟨⟨_, free, lists.detach bounds rfl rfl rfl rfl⟩, inv.counted, ?_, chain.nodup⟩
    intro i mem
    obtain ⟨bound, name, -⟩ := (on_list i).1 mem
    exact mem_live.2 ⟨bound, by show w.listOf i ≠ kFree; omega⟩
  have off : Ran w [] detached (chains list) :=
    ⟨inv', Fires.of_eq rfl, .of_same rfl rfl fun _ => rfl⟩
  have short : (chains list).length ≤ w.slab := by
    have within : chains list ⊆ List.range w.slab := by
      intro i mem
      exact List.mem_range.2 ((on_list i).1 mem).1
    simpa using (List.subperm_of_subset chain.nodup within).length_le
  have links : Follows detached.nexts (chains list) none := chain.forward
  rw [chain.first]
  obtain ⟨events, more, ran, now, times⟩ := sweep_spec w.slab (chains list) short links inv' fired
  refine ⟨events, more, off.trans ran, now, fun on => ?_⟩
  obtain ⟨after, on', late⟩ := timely on
  exact ⟨after, times on' late⟩

/-- All rounds up to a tick: nothing that is left comes up by then. -/
theorem expireSlots_spec (now fuel : Nat) (inv : WheelInv w []) (fired : List TimerEvent) :
    ∃ events, (expireSlots now fuel w fired).2 = fired ++ events ∧
      Ran w events (expireSlots now fuel w fired).1 [] ∧
      (OnTime kDueList w [] → now - w.now ≤ fuel →
        OnTime kDueList (expireSlots now fuel w fired).1 [] ∧
        (∀ next, (expireSlots now fuel w fired).1.nextExpiration = some next → now < next.deadline) ∧
        (w.now ≤ now → (expireSlots now fuel w fired).1.now ≤ now) ∧
        (∀ e ∈ events, w.now < e.deadline ∧ e.deadline ≤ now) ∧
        events.Pairwise fun a b => a.deadline ≤ b.deadline) := by
  induction fuel generalizing w fired with
  | zero =>
    refine ⟨[], by simp [expireSlots], inv.ran, fun on enough => ⟨on, ?_, fun low => low, nofun, .nil⟩⟩
    intro next found
    obtain ⟨-, slot_lt, -, deadline⟩ := (nextExpiration_scanned on.bits).found next found
    have after : w.now < turn next.level next.slot w.now := now_lt_nextTurn (offset_lt slot_lt)
    omega
  | succ fuel ih =>
    unfold expireSlots
    split
    · rename_i nothing
      refine ⟨[], by simp, inv.ran, fun on _ => ⟨on, ?_, fun low => low, nofun, .nil⟩⟩
      intro next found
      rw [nothing] at found
      cases found
    · rename_i next found
      split
      · rename_i later
        refine ⟨[], by simp, inv.ran, fun on _ => ⟨on, ?_, fun low => low, nofun, .nil⟩⟩
        intro next' found'
        rw [found] at found'
        cases found'
        exact later
      · rename_i reached
        obtain ⟨events, event, one, now', timely⟩ := expireSlot_spec inv found fired
        obtain ⟨events', more, ran, rest⟩ := ih one.inv (w.expireSlot next fired).2
        refine ⟨events ++ events', by rw [more, event, List.append_assoc], one.trans ran, ?_⟩
        intro on enough
        obtain ⟨after, on', times⟩ := timely on
        obtain ⟨result, rest, bound, times', order⟩ := rest on' (by omega)
        rw [now'] at bound times'
        refine ⟨result, rest, fun _ => bound (Nat.not_lt.1 reached), ?_, ?_⟩
        · intro e mem
          rcases List.mem_append.1 mem with first | second
          · rw [times e first]
            exact ⟨after, Nat.not_lt.1 reached⟩
          · exact ⟨Nat.lt_trans after (times' e second).1, (times' e second).2⟩
        · refine List.pairwise_append.2 ⟨?_, order, ?_⟩
          · refine List.pairwise_of_forall_mem_list ?_
            intro a mem_a b mem_b
            rw [times a mem_a, times b mem_b]
          · intro a mem_a b mem_b
            rw [times a mem_a]
            exact Nat.le_of_lt (times' b mem_b).1

/-- `advance` takes out the timers it reports, and only those.  On a wheel that is on
time it fires what is due, in order, and everything left is later. -/
theorem advance_spec (inv : WheelInv w []) (now : Nat) :
    Ran w (w.advance now []).2 (w.advance now []).1 [] ∧
      (OnTime kFree w [] →
        OnTime kDueList (w.advance now []).1 [] ∧ (w.advance now []).1.now = max w.now now ∧
        (∀ e ∈ (w.advance now []).2, e.deadline ≤ max w.now now) ∧
        (w.advance now []).2.Pairwise fun a b => max a.deadline w.now ≤ max b.deadline w.now) := by
  have enough : (w.live.filter (w.listOf · = kDueList)).card ≤ w.slab := by
    refine Nat.le_trans (Finset.card_filter_le _ _) ?_
    refine Nat.le_trans (Finset.card_filter_le _ _) ?_
    rw [Finset.card_range]
  obtain ⟨events, fired, ran₀, now₀, timely⟩ := fireDue_spec w.slab inv []
  have together (times : ∀ e ∈ events, e.deadline ≤ w.now) :
      events.Pairwise fun a b => max a.deadline w.now ≤ max b.deadline w.now := by
    refine List.pairwise_of_forall_mem_list ?_
    intro a mem_a b mem_b
    have := times a mem_a
    omega
  unfold advance
  dsimp only
  split
  · rename_i past
    rw [now₀] at past
    rw [Nat.max_eq_left past, fired]
    refine ⟨ran₀, fun on => ?_⟩
    obtain ⟨on₀, times⟩ := timely on enough
    exact ⟨on₀, now₀, times, together times⟩
  · rename_i future
    rw [now₀] at future
    have low : w.now ≤ now := Nat.le_of_lt (Nat.not_le.1 future)
    obtain ⟨events', more, ran, rest⟩ := expireSlots_spec now (now - (fireDue w.slab w []).1.now)
      ran₀.inv (fireDue w.slab w []).2
    have all := ran₀.trans ran
    rw [more.trans (congrArg (· ++ events') fired), Nat.max_eq_right low]
    obtain ⟨chains, free, lists⟩ := all.inv.lists
    refine ⟨⟨⟨⟨chains, free, lists.congr rfl rfl rfl rfl rfl rfl⟩, all.inv.counted, by simp,
      List.nodup_nil⟩, ⟨all.fires.nodup, all.fires.held, all.fires.rest⟩,
      all.aged.trans (Aged.of_same rfl rfl fun _ => rfl)⟩, fun on => ?_⟩
    obtain ⟨on₀, times⟩ := timely on enough
    obtain ⟨result, later, bound, times', order⟩ := rest on₀ (Nat.le_refl _)
    have bound := bound (now₀.trans_le low)
    refine ⟨⟨result.bits, result.marked, ?_⟩, rfl, ?_, ?_⟩
    · intro i mem out
      obtain ⟨slotted, waits⟩ := result.waits i mem out
      refine ⟨slotted, waits.later slotted bound ?_⟩
      obtain ⟨next, found, least⟩ := result.least ran.inv mem
      exact Nat.lt_of_lt_of_le (later next found) least
    · intro e mem
      rcases List.mem_append.1 mem with first | second
      · exact Nat.le_trans (times e first) low
      · exact (times' e second).2
    · refine List.pairwise_append.2 ⟨together times, order.imp_of_mem ?_, ?_⟩
      · intro a b mem_a mem_b le
        omega
      · intro a mem_a b mem_b
        have := times a mem_a
        omega

end Advance

end TimingWheel

end Baton
