/-
# Theory.Intrusive — doubly linked lists through the nodes of a table

The nodes of a table are numbered, and a list runs through some of them: every
node on it holds the number of the next one and of the previous one.  The forward
and the backward links are separate functions, and so are the two predicates that
say a list of numbers is what the links describe.  An update of the links is given
by what the new functions are on the nodes of the list, however it was made.
-/
import Mathlib.Data.List.Nodup
import Mathlib.Logic.Function.Basic

namespace Baton.Theory

set_option autoImplicit false

/-- Following `next` from the first node runs through the list and ends at `stop`. -/
def Follows (next : Nat → Option Nat) : List Nat → Option Nat → Prop
  | [], _ => True
  | i :: rest, stop => next i = rest.head?.or stop ∧ Follows next rest stop

/-- `prev` of the first node is `start`, and of every other one the node before it. -/
def Precedes (prev : Nat → Option Nat) : Option Nat → List Nat → Prop
  | _, [] => True
  | start, i :: rest => prev i = start ∧ Precedes prev (some i) rest

section Follows

variable {next next' : Nat → Option Nat}

theorem Follows.congr {l : List Nat} {stop : Option Nat} (links : Follows next l stop)
    (same : ∀ i ∈ l, next' i = next i) : Follows next' l stop := by
  induction l with
  | nil => trivial
  | cons i rest ih =>
    refine ⟨(same i (by simp)).trans links.1, ih links.2 ?_⟩
    intro j mem
    exact same j (by simp [mem])

theorem follows_append {l m : List Nat} {stop : Option Nat} :
    Follows next (l ++ m) stop ↔ Follows next l (m.head?.or stop) ∧ Follows next m stop := by
  induction l with
  | nil => simp [Follows]
  | cons i rest ih =>
    have first : (rest ++ m).head?.or stop = rest.head?.or (m.head?.or stop) := by
      cases rest <;> simp
    simp only [List.cons_append, Follows, first, ih, and_assoc]

/-- The last node gets another successor. -/
theorem Follows.setLast {l : List Nat} {stop stop' : Option Nat} (links : Follows next l stop)
    (nodup : l.Nodup) (last : ∀ i, l.getLast? = some i → next' i = stop')
    (same : ∀ i ∈ l, l.getLast? ≠ some i → next' i = next i) : Follows next' l stop' := by
  induction l with
  | nil => trivial
  | cons i rest ih =>
    cases rest with
    | nil => exact ⟨by simpa using last i (by simp), trivial⟩
    | cons j rest =>
      obtain ⟨fresh, nodup'⟩ := List.nodup_cons.1 nodup
      have not_last : (i :: j :: rest).getLast? ≠ some i := by
        intro ends
        exact fresh (List.mem_of_getLast? ends)
      refine ⟨?_, ih links.2 nodup' ?_ ?_⟩
      · rw [same i (by simp) not_last, links.1]
        rfl
      · intro k ends
        exact last k (by rw [List.getLast?_cons_cons]; exact ends)
      · intro k mem ne
        refine same k (List.mem_cons_of_mem _ mem) ?_
        exact ne

end Follows

section Precedes

variable {prev prev' : Nat → Option Nat}

theorem Precedes.congr {l : List Nat} {start : Option Nat} (links : Precedes prev start l)
    (same : ∀ i ∈ l, prev' i = prev i) : Precedes prev' start l := by
  induction l generalizing start with
  | nil => trivial
  | cons i rest ih =>
    refine ⟨(same i (by simp)).trans links.1, ih links.2 ?_⟩
    intro j mem
    exact same j (by simp [mem])

theorem precedes_append {l m : List Nat} {start : Option Nat} :
    Precedes prev start (l ++ m) ↔ Precedes prev start l ∧ Precedes prev (l.getLast?.or start) m := by
  induction l generalizing start with
  | nil => simp [Precedes]
  | cons i rest ih =>
    have last : (i :: rest).getLast?.or start = rest.getLast?.or (some i) := by
      cases rest with
      | nil => rfl
      | cons j rest => simp [List.getLast?_cons]
    simp only [List.cons_append, Precedes, last, ih, and_assoc]

/-- The first node gets another predecessor. -/
theorem Precedes.setFirst {l : List Nat} {start start' : Option Nat} (links : Precedes prev start l)
    (nodup : l.Nodup) (first : ∀ i, l.head? = some i → prev' i = start')
    (same : ∀ i ∈ l, l.head? ≠ some i → prev' i = prev i) : Precedes prev' start' l := by
  cases l with
  | nil => trivial
  | cons i rest =>
    refine ⟨first i rfl, links.2.congr ?_⟩
    intro j mem
    have ne : j ≠ i := fun eq => (List.nodup_cons.1 nodup).1 (eq ▸ mem)
    exact same j (List.mem_cons_of_mem _ mem) (by simpa using Ne.symm ne)

end Precedes

/-- A list through the table that starts at `head`. -/
structure DoublyLinked (prev next : Nat → Option Nat) (head : Option Nat) (l : List Nat) : Prop where
  nodup : l.Nodup
  first : head = l.head?
  forward : Follows next l none
  backward : Precedes prev none l

namespace DoublyLinked

variable {prev next prev' next' : Nat → Option Nat} {head head' : Option Nat} {l : List Nat}

theorem nil : DoublyLinked prev next none [] := ⟨List.nodup_nil, rfl, trivial, trivial⟩

theorem congr (list : DoublyLinked prev next head l) (start : head' = head)
    (prevs : ∀ i ∈ l, prev' i = prev i) (nexts : ∀ i ∈ l, next' i = next i) :
    DoublyLinked prev' next' head' l where
  nodup := list.nodup
  first := start.trans list.first
  forward := list.forward.congr nexts
  backward := list.backward.congr prevs

/-- A node goes in front: it points at the old first node, and that one back at it. -/
theorem push (list : DoublyLinked prev next head l) {i : Nat} (fresh : i ∉ l)
    (start : head' = some i) (next_new : next' i = head) (prev_new : prev' i = none)
    (prev_first : ∀ j, head = some j → prev' j = some i)
    (prevs : ∀ j ∈ l, head ≠ some j → prev' j = prev j) (nexts : ∀ j ∈ l, next' j = next j) :
    DoublyLinked prev' next' head' (i :: l) where
  nodup := List.nodup_cons.2 ⟨fresh, list.nodup⟩
  first := start
  forward := by
    refine ⟨?_, list.forward.congr nexts⟩
    rw [next_new, list.first]
    simp
  backward := by
    refine ⟨prev_new, list.backward.setFirst list.nodup ?_ ?_⟩
    · intro j at_head
      exact prev_first j (list.first.trans at_head)
    · intro j mem ne
      exact prevs j mem (by rw [list.first]; exact ne)

/-- The links of a node in the middle of a list. -/
theorem links_at {front back : List Nat} {i : Nat}
    (list : DoublyLinked prev next head (front ++ i :: back)) :
    prev i = front.getLast? ∧ next i = back.head? := by
  have forward := (follows_append.1 list.forward).2.1
  have backward := (precedes_append.1 list.backward).2.1
  refine ⟨?_, ?_⟩
  · rw [backward]
    simp
  · rw [forward]
    simp

/-- A node leaves: its neighbours point past it. -/
theorem remove {front back : List Nat} {i : Nat}
    (list : DoublyLinked prev next head (front ++ i :: back))
    (start : head' = if prev i = none then next i else head)
    (next_prev : ∀ p, prev i = some p → next' p = next i)
    (prev_next : ∀ n, next i = some n → prev' n = prev i)
    (nexts : ∀ j ∈ front ++ back, prev i ≠ some j → next' j = next j)
    (prevs : ∀ j ∈ front ++ back, next i ≠ some j → prev' j = prev j) :
    DoublyLinked prev' next' head' (front ++ back) := by
  obtain ⟨prev_i, next_i⟩ := list.links_at
  have parts := List.nodup_append.1 list.nodup
  have back_nodup := (List.nodup_cons.1 parts.2.1).2
  have apart : ∀ j ∈ front, j ∉ back := by
    intro j in_front in_back
    exact parts.2.2 j in_front j (List.mem_cons_of_mem _ in_back) rfl
  obtain ⟨forward, forward_back⟩ := follows_append.1 list.forward
  obtain ⟨backward, backward_back⟩ := precedes_append.1 list.backward
  refine ⟨?_, ?_, follows_append.2 ⟨?_, ?_⟩, precedes_append.2 ⟨?_, ?_⟩⟩
  · refine List.nodup_append.2 ⟨parts.1, back_nodup, ?_⟩
    intro j in_front k in_back same
    exact apart j in_front (same ▸ in_back)
  · rw [start, prev_i, next_i, list.first]
    cases front with
    | nil => simp
    | cons k front => simp [List.getLast?_cons]
  · refine forward.setLast parts.1 ?_ ?_
    · intro p ends
      rw [next_prev p (prev_i.trans ends), next_i]
      simp
    · intro j mem ne
      exact nexts j (List.mem_append_left _ mem) (by rw [prev_i]; exact ne)
  · refine forward_back.2.congr ?_
    intro j mem
    refine nexts j (List.mem_append_right _ mem) ?_
    rw [prev_i]
    intro ends
    exact apart j (List.mem_of_getLast? ends) mem
  · refine backward.congr ?_
    intro j mem
    refine prevs j (List.mem_append_left _ mem) ?_
    rw [next_i]
    intro starts
    exact apart j mem (List.mem_of_head? starts)
  · refine backward_back.2.setFirst back_nodup ?_ ?_
    · intro n starts
      rw [prev_next n (next_i.trans starts), prev_i]
      simp
    · intro j mem ne
      exact prevs j (List.mem_append_right _ mem) (by rw [next_i]; exact ne)

end DoublyLinked

end Baton.Theory
