/-
# Theory.Loop — a loop over a list that stops at the first error

`List.foldlM` in `Except`.  `foldlM_spec` is the rule for a loop whose invariant says what
it has taken so far: every round keeps it, and the loop comes to the end of the list if no
item of it is refused.
-/
import Mathlib.Data.List.Basic

namespace Baton.Theory

set_option autoImplicit false

variable {α β ε : Type} {f : β → α → Except ε β} {x : α} {xs ys : List α} {b b' : β}

theorem foldlM_cons_ok :
    (x :: xs).foldlM f b = .ok b' ↔ ∃ next, f b x = .ok next ∧ xs.foldlM f next = .ok b' := by
  rw [List.foldlM_cons]
  cases f b x with
  | error e => exact ⟨nofun, nofun⟩
  | ok next => exact ⟨fun rest => ⟨next, rfl, rest⟩, fun ⟨_, first, rest⟩ => Except.ok.inj first ▸ rest⟩

theorem foldlM_append_ok :
    (xs ++ ys).foldlM f b = .ok b' ↔ ∃ next, xs.foldlM f b = .ok next ∧ ys.foldlM f next = .ok b' := by
  rw [List.foldlM_append]
  cases xs.foldlM f b with
  | error e => exact ⟨nofun, nofun⟩
  | ok next => exact ⟨fun rest => ⟨next, rfl, rest⟩, fun ⟨_, first, rest⟩ => Except.ok.inj first ▸ rest⟩

/-- What every round keeps, the loop keeps. -/
theorem foldlM_keeps {P : β → Prop} (keeps : ∀ b x b', f b x = .ok b' → P b → P b')
    (done : xs.foldlM f b = .ok b') (holds : P b) : P b' := by
  induction xs generalizing b with
  | nil =>
    cases done
    exact holds
  | cons x xs ih =>
    obtain ⟨next, first, rest⟩ := foldlM_cons_ok.1 done
    exact ih rest (keeps b x next first holds)

theorem foldlM_spec {P : List α → β → Prop} {Q : α → Prop} (all : List α)
    (round : ∀ taken x rest b, all = taken ++ x :: rest → P taken b →
      (∀ b', f b x = .ok b' → P (taken ++ [x]) b') ∧ (Q x → ∃ b', f b x = .ok b'))
    (start : P [] b) :
    (∀ b', all.foldlM f b = .ok b' → P all b') ∧
      ((∀ x ∈ all, Q x) → ∃ b', all.foldlM f b = .ok b') := by
  suffices from_ : ∀ rest taken b, all = taken ++ rest → P taken b →
      (∀ b', rest.foldlM f b = .ok b' → P all b') ∧
        ((∀ x ∈ rest, Q x) → ∃ b', rest.foldlM f b = .ok b') from from_ all [] b rfl start
  intro rest
  induction rest with
  | nil =>
    intro taken b split holds
    refine ⟨?_, fun _ => ⟨b, rfl⟩⟩
    rintro _ ⟨⟩
    rwa [split, List.append_nil]
  | cons x rest ih =>
    intro taken b split holds
    obtain ⟨sound, complete⟩ := round taken x rest b split holds
    rw [List.append_cons] at split
    constructor
    · intro b' done
      obtain ⟨next, first, others⟩ := foldlM_cons_ok.1 done
      exact (ih _ next split (sound next first)).1 b' others
    · intro fits
      obtain ⟨next, first⟩ := complete (fits x List.mem_cons_self)
      obtain ⟨b', others⟩ := (ih _ next split (sound next first)).2 fun y mem => fits y (List.mem_cons_of_mem _ mem)
      exact ⟨b', foldlM_cons_ok.2 ⟨next, first, others⟩⟩

end Baton.Theory
