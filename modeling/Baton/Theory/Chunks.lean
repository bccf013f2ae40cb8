/-
# Theory.Chunks — a list that is worked off in parts

How many items a part takes may depend on what is left.
-/
import Mathlib.Data.List.Basic

namespace Baton.Theory

set_option autoImplicit false

variable {α : Type} {count : List α → Nat}

/-- A loop that takes a part of what is left, until nothing is. -/
def chunksOf (count : List α → Nat) : Nat → List α → List (List α)
  | 0, _ => []
  | fuel + 1, items =>
    if items.isEmpty then []
    else items.take (count items) :: chunksOf count fuel (items.drop (count items))

theorem chunksOf_flatten (some_ : ∀ items, items ≠ [] → 0 < count items) :
    ∀ (fuel : Nat) {items : List α}, items.length ≤ fuel → (chunksOf count fuel items).flatten = items
  | 0, items, enough => by
    rw [List.length_eq_zero_iff.1 (Nat.le_zero.1 enough)]
    rfl
  | fuel + 1, items, enough => by
    rw [chunksOf]
    split
    · rename_i empty
      rw [List.isEmpty_iff.1 empty]
      rfl
    · rename_i nonempty
      have positive : 0 < count items := some_ items (by simpa using nonempty)
      have shorter : (items.drop (count items)).length ≤ fuel := by
        rw [List.length_drop]
        omega
      rw [List.flatten_cons, chunksOf_flatten some_ fuel shorter, List.take_append_drop]

/-- Every chunk is what one round takes, in the order of the items. -/
theorem chunksOf_part : ∀ (fuel : Nat) {items part : List α},
    part ∈ chunksOf count fuel items → (∃ left : List α, part = left.take (count left)) ∧ part.Sublist items
  | 0, _, _, mem => by cases mem
  | fuel + 1, items, part, mem => by
    rw [chunksOf] at mem
    split at mem
    · cases mem
    rcases List.mem_cons.1 mem with rfl | later
    · exact ⟨⟨items, rfl⟩, List.take_sublist _ _⟩
    · obtain ⟨taken, sub⟩ := chunksOf_part fuel later
      exact ⟨taken, sub.trans (List.drop_sublist _ _)⟩

theorem chunksOf_length : ∀ (fuel : Nat) (items : List α),
    (chunksOf count fuel items).length ≤ fuel
  | 0, _ => Nat.le_refl _
  | fuel + 1, items => by
    rw [chunksOf]
    split
    · exact Nat.zero_le _
    · exact Nat.succ_le_succ (chunksOf_length fuel _)

end Baton.Theory
