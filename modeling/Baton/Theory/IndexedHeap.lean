/-
# Theory.IndexedHeap — a binary heap whose elements know their position

A binary min-heap in a list, together with the position every element stores.
The two loops move a hole: the element to be placed is kept aside, the elements
on its way are written into the hole one by one, and the element itself is
written last.  So in the middle of a loop the list holds one element twice and
the stored position of the moving element is out of date.

`Hole` says what the list and the positions are then: with the moving element
`x` written at the hole, the list holds `items`, and every other element stores
where it is.  `UpOrder` and `DownOrder` are the parts of the heap order each
direction needs.  One step of a loop keeps both (`Hole.move`, `UpOrder.move`,
`DownOrder.move`), and writing the element ends it (`Hole.place`,
`ordered_of_hole`).
`push_valid` and `remove_valid` are what a user of the heap needs.
-/
import Mathlib.Data.List.Nodup
import Mathlib.Logic.Function.Basic

namespace Baton.Theory

open Function

set_option autoImplicit false

structure IndexedHeap (α : Type) where
  heap : List α
  index : α → Option Nat

namespace IndexedHeap

variable {α : Type} [DecidableEq α]

def parent (i : Nat) : Nat := (i - 1) / 2

/-- Writes `x` at position `i`, and the position into `x`. -/
def place (h : IndexedHeap α) (i : Nat) (x : α) : IndexedHeap α where
  heap := h.heap.set i x
  index := update h.index x (some i)

/-- Moves the hole at `i` up until `x` is not before the parent.  The hole is at
`0` after at most `i` moves. -/
def siftUpLoop (before : α → α → Bool) (x : α) : Nat → Nat → IndexedHeap α → IndexedHeap α
  | 0, i, h => h.place i x
  | fuel + 1, i, h =>
    if 0 < i then
      match h.heap[parent i]? with
      | some p =>
        if before x p then siftUpLoop before x fuel (parent i) (h.place i p)
        else h.place i x
      | none => h.place i x
    else h.place i x

def siftUp (before : α → α → Bool) (i : Nat) (h : IndexedHeap α) : IndexedHeap α :=
  match h.heap[i]? with
  | some x => siftUpLoop before x i i h
  | none => h

/-- The child of `i` that comes first: the right one only if it exists and is
before the left one. -/
def firstChild (before : α → α → Bool) (h : IndexedHeap α) (i : Nat) : Nat :=
  match h.heap[2 * i + 1]?, h.heap[2 * i + 2]? with
  | some left, some right => if before right left then 2 * i + 2 else 2 * i + 1
  | _, _ => 2 * i + 1

/-- Moves the hole at `i` down until no child is before `x`. -/
def siftDownLoop (before : α → α → Bool) (x : α) : Nat → Nat → IndexedHeap α → IndexedHeap α
  | 0, i, h => h.place i x
  | fuel + 1, i, h =>
    match h.heap[h.firstChild before i]? with
    | some c =>
      if before c x then
        siftDownLoop before x fuel (h.firstChild before i) (h.place i c)
      else h.place i x
    | none => h.place i x

def siftDown (before : α → α → Bool) (i : Nat) (h : IndexedHeap α) : IndexedHeap α :=
  match h.heap[i]? with
  | some x => siftDownLoop before x h.heap.length i h
  | none => h

def push (before : α → α → Bool) (x : α) (h : IndexedHeap α) : IndexedHeap α :=
  siftUp before h.heap.length
    ⟨h.heap ++ [x], update h.index x (some h.heap.length)⟩

/-- Takes `x` out, wherever it is: the last element goes into its place and then
up or down.  `none` if `x` is not at the position it stores. -/
def remove (before : α → α → Bool) (x : α) (h : IndexedHeap α) : Option (IndexedHeap α) :=
  match h.index x with
  | none => none
  | some i =>
    if h.heap[i]? = some x then
      let index := update h.index x none
      match h.heap.getLast? with
      | none => none
      | some last =>
        let rest : IndexedHeap α := ⟨h.heap.dropLast, index⟩
        if last = x then some rest
        else
          let up := siftUp before i (rest.place i last)
          some (siftDown before ((up.index last).getD 0) up)
    else none

/-- What the order of the elements has to satisfy: `before` is asymmetric, and
"not before" is transitive. -/
structure StrictOrder (before : α → α → Bool) : Prop where
  asymm : ∀ a b, before a b = true → before b a = false
  trans : ∀ a b c, before b a = false → before c b = false → before c a = false

/-- No element is before its parent. -/
def Ordered (before : α → α → Bool) (h : IndexedHeap α) : Prop :=
  ∀ j y p, 0 < j → h.heap[j]? = some y → h.heap[parent j]? = some p → before y p = false

/-- The list holds `items`, everything in it stores where it is, and everything
else stores what `elsewhere` says. -/
structure Holds (h : IndexedHeap α) (items : List α) (elsewhere : α → Option Nat) : Prop where
  perm : h.heap.Perm items
  stored : ∀ j y, h.heap[j]? = some y → h.index y = some j
  frame : ∀ y, y ∉ items → h.index y = elsewhere y

/-- A heap: ordered, and everything in it stores where it is. -/
structure Valid (before : α → α → Bool) (h : IndexedHeap α) : Prop where
  nodup : h.heap.Nodup
  stored : ∀ j y, h.heap[j]? = some y → h.index y = some j
  ordered : Ordered before h

/-- The list has a hole at `i`, into which `x` is to be written. -/
structure Hole (h : IndexedHeap α) (i : Nat) (x : α) (items : List α)
    (elsewhere : α → Option Nat) : Prop where
  bound : i < h.heap.length
  nodup : items.Nodup
  perm : (h.heap.set i x).Perm items
  stored : ∀ j y, j ≠ i → h.heap[j]? = some y → h.index y = some j
  frame : ∀ y, y ∉ items → h.index y = elsewhere y

/-! ## The hole -/

section Hole

variable {h : IndexedHeap α} {i : Nat} {x : α} {items : List α} {elsewhere : α → Option Nat}

omit [DecidableEq α] in
theorem parent_lt (positive : 0 < i) : parent i < i := by
  unfold parent
  omega

theorem place_heap_same (bound : i < h.heap.length) : (h.place i x).heap[i]? = some x := by
  simp [place, bound]

theorem place_heap_ne {j : Nat} (ne : j ≠ i) : (h.place i x).heap[j]? = h.heap[j]? := by
  simp [place, Ne.symm ne]

theorem place_length : (h.place i x).heap.length = h.heap.length := by
  simp [place]

omit [DecidableEq α] in
/-- Off the hole the elements are distinct from each other and from `x`. -/
theorem Hole.ne_moving (hole : Hole h i x items elsewhere) {j : Nat} {y : α} (off : j ≠ i)
    (at_j : h.heap[j]? = some y) : y ≠ x := by
  intro same
  subst same
  have distinct : (h.heap.set i y).Nodup := hole.perm.nodup_iff.2 hole.nodup
  have j_lt : j < h.heap.length := (List.getElem?_eq_some_iff.1 at_j).1
  have at_i : (h.heap.set i y)[i]? = some y := by simp [hole.bound]
  have at_j' : (h.heap.set i y)[j]? = some y := by
    simpa [List.getElem?_set, Ne.symm off] using at_j
  have bound : j < (h.heap.set i y).length := by simpa using j_lt
  exact off ((List.getElem?_inj bound distinct).1 (at_j'.trans at_i.symm))

theorem Hole.place (hole : Hole h i x items elsewhere) :
    Holds (h.place i x) items elsewhere where
  perm := hole.perm
  stored := by
    intro j y at_j
    by_cases same : j = i
    · subst same
      rw [place_heap_same hole.bound] at at_j
      cases at_j
      simp [IndexedHeap.place]
    · rw [place_heap_ne same] at at_j
      have ne := hole.ne_moving same at_j
      simpa [IndexedHeap.place, update_of_ne ne] using hole.stored j y same at_j
  frame := by
    intro y absent
    have mem : x ∈ items := hole.perm.mem_iff.1 (List.mem_set hole.bound x)
    have ne : y ≠ x := fun same => absent (same ▸ mem)
    simpa [IndexedHeap.place, update_of_ne ne] using hole.frame y absent

/-- One step of a loop: the element at `j` goes into the hole, and `j` is the hole. -/
theorem Hole.move (hole : Hole h i x items elsewhere) {j : Nat} {y : α} (off : j ≠ i)
    (at_j : h.heap[j]? = some y) : Hole (h.place i y) j x items elsewhere := by
  obtain ⟨j_lt, value⟩ := List.getElem?_eq_some_iff.1 at_j
  -- with `x` written, moving the hole swaps two elements of the list
  have swapped : (((h.heap.set i x).set i y).set j x).Perm (h.heap.set i x) := by
    have swap := @List.set_set_perm _ (h.heap.set i x) i j (by simpa using hole.bound)
      (by simpa using j_lt)
    simpa [List.getElem_set, Ne.symm off, value] using swap
  have mem : y ∈ items := by
    apply hole.perm.mem_iff.1
    apply List.mem_iff_getElem?.2
    exact ⟨j, by simpa [List.getElem?_set, Ne.symm off] using at_j⟩
  refine ⟨by simpa [IndexedHeap.place] using j_lt, hole.nodup, ?_, ?_, ?_⟩
  · refine List.Perm.trans ?_ hole.perm
    simpa [IndexedHeap.place] using swapped
  · intro k z off_k at_k
    by_cases same : k = i
    · subst same
      rw [place_heap_same hole.bound] at at_k
      cases at_k
      simp [IndexedHeap.place]
    · rw [place_heap_ne same] at at_k
      have ne : z ≠ y := by
        intro equal
        subst equal
        have one := hole.stored k z same at_k
        have two := hole.stored j z off at_j
        rw [one] at two
        exact off_k (Option.some.inj two)
      simpa [IndexedHeap.place, update_of_ne ne] using hole.stored k z same at_k
  · intro z absent
    have ne : z ≠ y := fun same => absent (same ▸ mem)
    simpa [IndexedHeap.place, update_of_ne ne] using hole.frame z absent

end Hole

/-! ## The order around the hole -/

/-- The pairs that do not touch the hole are in order, and the children of the
hole are in order with its parent. -/
structure HoleOrder (before : α → α → Bool) (h : IndexedHeap α) (i : Nat) : Prop where
  off : ∀ j y p, 0 < j → j ≠ i → parent j ≠ i → h.heap[j]? = some y →
    h.heap[parent j]? = some p → before y p = false
  grand : 0 < i → ∀ c y p, 0 < c → parent c = i → h.heap[c]? = some y →
    h.heap[parent i]? = some p → before y p = false

/-- What moving `x` up from the hole needs: it is in order with the children. -/
structure UpOrder (before : α → α → Bool) (h : IndexedHeap α) (i : Nat) (x : α) : Prop
    extends HoleOrder before h i where
  below : ∀ c y, 0 < c → parent c = i → h.heap[c]? = some y → before y x = false

/-- What moving `x` down from the hole needs: it is in order with the parent. -/
structure DownOrder (before : α → α → Bool) (h : IndexedHeap α) (i : Nat) (x : α) : Prop
    extends HoleOrder before h i where
  above : 0 < i → ∀ p, h.heap[parent i]? = some p → before x p = false

section Order

variable {before : α → α → Bool} {h : IndexedHeap α} {i : Nat} {x : α}

theorem UpOrder.move (strict : StrictOrder before) (order : UpOrder before h i x)
    (bound : i < h.heap.length) (positive : 0 < i) {p : α} (at_p : h.heap[parent i]? = some p)
    (first : before x p = true) : UpOrder before (h.place i p) (parent i) x := by
  have up := parent_lt positive
  have above : ∀ g, 0 < parent i → h.heap[parent (parent i)]? = some g → before p g = false := by
    intro g positive' at_g
    have up' := parent_lt positive'
    exact order.off (parent i) p g positive' (by omega) (by omega) at_p at_g
  have sibling : ∀ c y, 0 < c → parent c = parent i → c ≠ i → h.heap[c]? = some y →
      before y p = false := by
    intro c y positive' same ne at_c
    exact order.off c y p positive' ne (by omega) at_c (same ▸ at_p)
  refine ⟨⟨?_, ?_⟩, ?_⟩
  · intro j y q positive' off_j off_parent at_j at_q
    have ne : j ≠ i := fun same => off_parent (congrArg parent same)
    rw [place_heap_ne ne] at at_j
    by_cases child : parent j = i
    · rw [child, place_heap_same bound] at at_q
      cases at_q
      exact order.grand positive j y p positive' child at_j at_p
    · rw [place_heap_ne child] at at_q
      exact order.off j y q positive' ne child at_j at_q
  · intro positive' c y g positive_c child at_c at_g
    have up' := parent_lt positive'
    have ne : parent (parent i) ≠ i := by omega
    rw [place_heap_ne ne] at at_g
    by_cases same : c = i
    · subst same
      rw [place_heap_same bound] at at_c
      cases at_c
      exact above g positive' at_g
    · rw [place_heap_ne same] at at_c
      exact strict.trans g p y (above g positive' at_g) (sibling c y positive_c child same at_c)
  · intro c y positive_c child at_c
    by_cases same : c = i
    · subst same
      rw [place_heap_same bound] at at_c
      cases at_c
      exact strict.asymm x p first
    · rw [place_heap_ne same] at at_c
      exact strict.trans x p y (strict.asymm x p first) (sibling c y positive_c child same at_c)

theorem ordered_of_hole (bound : i < h.heap.length)
    (off : ∀ j y p, 0 < j → j ≠ i → parent j ≠ i → h.heap[j]? = some y →
      h.heap[parent j]? = some p → before y p = false)
    (above : 0 < i → ∀ p, h.heap[parent i]? = some p → before x p = false)
    (below : ∀ c y, 0 < c → parent c = i → h.heap[c]? = some y → before y x = false) :
    Ordered before (h.place i x) := by
  intro j y p positive at_j at_p
  by_cases same : j = i
  · subst same
    have up := parent_lt positive
    rw [place_heap_same bound] at at_j
    rw [place_heap_ne (by omega)] at at_p
    cases at_j
    exact above positive p at_p
  · rw [place_heap_ne same] at at_j
    by_cases child : parent j = i
    · rw [child, place_heap_same bound] at at_p
      cases at_p
      exact below j y positive child at_j
    · rw [place_heap_ne child] at at_p
      exact off j y p positive same child at_j at_p

variable {items : List α} {elsewhere : α → Option Nat}

/-- Moving up ends in a heap. -/
theorem siftUpLoop_holds (strict : StrictOrder before) (fuel : Nat) :
    ∀ (i : Nat) (h : IndexedHeap α), i ≤ fuel → Hole h i x items elsewhere →
      UpOrder before h i x →
      Holds (siftUpLoop before x fuel i h) items elsewhere ∧
        Ordered before (siftUpLoop before x fuel i h) := by
  induction fuel with
  | zero =>
    intro i h enough hole order
    exact ⟨hole.place, ordered_of_hole hole.bound order.off (by omega) order.below⟩
  | succ fuel ih =>
    intro i h enough hole order
    unfold siftUpLoop
    split
    · rename_i positive
      have up := parent_lt positive
      have bound : parent i < h.heap.length := Nat.lt_trans up hole.bound
      rw [List.getElem?_eq_getElem bound]
      have at_p := List.getElem?_eq_getElem bound
      dsimp only
      split
      · rename_i first
        exact ih (parent i) _ (by omega) (hole.move (by omega) at_p)
          (order.move strict hole.bound positive at_p first)
      · rename_i stop
        refine ⟨hole.place, ordered_of_hole hole.bound order.off ?_ order.below⟩
        intro _ p at_p'
        rw [at_p] at at_p'
        cases at_p'
        simpa using stop
    · rename_i zero
      exact ⟨hole.place, ordered_of_hole hole.bound order.off (by omega) order.below⟩

omit [DecidableEq α] in
/-- The child picked is a child, and no child is before it. -/
theorem firstChild_spec (strict : StrictOrder before) (h : IndexedHeap α) (i : Nat) :
    i < h.firstChild before i ∧ parent (h.firstChild before i) = i ∧
      (h.heap[h.firstChild before i]? = none → h.heap[2 * i + 1]? = none) ∧
      ∀ c y z, 0 < c → parent c = i → h.heap[c]? = some y →
        h.heap[h.firstChild before i]? = some z → before y z = false := by
  have irrefl : ∀ a, before a a = false := by
    intro a
    cases same : before a a with
    | false => rfl
    | true => exact (strict.asymm a a same).symm.trans same ▸ rfl
  have children : ∀ c, 0 < c → parent c = i → c = 2 * i + 1 ∨ c = 2 * i + 2 := by
    intro c positive child
    unfold parent at child
    omega
  unfold firstChild
  split
  · rename_i left right at_left at_right
    split
    · rename_i first
      refine ⟨by omega, by unfold parent; omega, fun gone => by simp [at_right] at gone, ?_⟩
      intro c y z positive child at_c at_z
      rw [at_right] at at_z
      cases at_z
      rcases children c positive child with same | same <;> subst same
      · rw [at_left] at at_c
        cases at_c
        exact strict.asymm _ _ first
      · rw [at_right] at at_c
        cases at_c
        exact irrefl _
    · rename_i first
      refine ⟨by omega, by unfold parent; omega, fun gone => gone, ?_⟩
      intro c y z positive child at_c at_z
      rw [at_left] at at_z
      cases at_z
      rcases children c positive child with same | same <;> subst same
      · rw [at_left] at at_c
        cases at_c
        exact irrefl _
      · rw [at_right] at at_c
        cases at_c
        simpa using first
  · rename_i missing
    refine ⟨by omega, by unfold parent; omega, fun gone => gone, ?_⟩
    intro c y z positive child at_c at_z
    rcases children c positive child with same | same <;> subst same
    · rw [at_c] at at_z
      cases at_z
      exact irrefl _
    · exact absurd at_c (missing z y at_z)

theorem DownOrder.move (strict : StrictOrder before) (order : DownOrder before h i x)
    (bound : i < h.heap.length) {j : Nat} {c : α} (below : i < j) (child : parent j = i)
    (at_c : h.heap[j]? = some c)
    (least : ∀ k y, 0 < k → parent k = i → h.heap[k]? = some y → before y c = false)
    (first : before c x = true) : DownOrder before (h.place i c) j x := by
  have positive : 0 < j := by omega
  refine ⟨⟨?_, ?_⟩, ?_⟩
  · intro k y p positive_k off_k off_parent at_k at_p
    by_cases same : k = i
    · subst same
      have up := parent_lt positive_k
      rw [place_heap_same bound] at at_k
      rw [place_heap_ne (by omega)] at at_p
      cases at_k
      exact order.grand positive_k j c p positive child at_c at_p
    · rw [place_heap_ne same] at at_k
      by_cases sibling : parent k = i
      · rw [sibling, place_heap_same bound] at at_p
        cases at_p
        exact least k y positive_k sibling at_k
      · rw [place_heap_ne sibling] at at_p
        exact order.off k y p positive_k same sibling at_k at_p
  · intro _ k y p positive_k child_k at_k at_p
    have ne : k ≠ i := by
      have := parent_lt positive_k
      omega
    rw [place_heap_ne ne] at at_k
    rw [child, place_heap_same bound] at at_p
    cases at_p
    exact order.off k y c positive_k ne (by omega) at_k (child_k ▸ at_c)
  · intro _ p at_p
    rw [child, place_heap_same bound] at at_p
    cases at_p
    exact strict.asymm _ _ first

/-- Moving down ends in a heap. -/
theorem siftDownLoop_holds (strict : StrictOrder before) (fuel : Nat) :
    ∀ (i : Nat) (h : IndexedHeap α), h.heap.length ≤ i + fuel → Hole h i x items elsewhere →
      DownOrder before h i x →
      Holds (siftDownLoop before x fuel i h) items elsewhere ∧
        Ordered before (siftDownLoop before x fuel i h) := by
  induction fuel with
  | zero =>
    intro i h enough hole order
    have := hole.bound
    omega
  | succ fuel ih =>
    intro i h enough hole order
    obtain ⟨lower, child, none_left, least⟩ := firstChild_spec strict h i
    unfold siftDownLoop
    split
    · rename_i c at_c
      split
      · rename_i first
        refine ih _ _ ?_ (hole.move (by omega) at_c) ?_
        · rw [place_length]
          omega
        · exact order.move strict hole.bound lower child at_c
            (fun k y positive_k child_k at_k => least k y c positive_k child_k at_k at_c) first
      · rename_i stop
        refine ⟨hole.place, ordered_of_hole hole.bound order.off order.above ?_⟩
        intro k y positive_k child_k at_k
        exact strict.trans x c y (by simpa using stop) (least k y c positive_k child_k at_k at_c)
    · rename_i gone
      refine ⟨hole.place, ordered_of_hole hole.bound order.off order.above ?_⟩
      intro k y positive_k child_k at_k
      have missing := none_left gone
      rw [List.getElem?_eq_none_iff] at missing
      have k_lt := (List.getElem?_eq_some_iff.1 at_k).1
      unfold parent at child_k
      omega

end Order

/-! ## The operations -/

section Operations

variable {before : α → α → Bool} {h : IndexedHeap α} {x : α}

omit [DecidableEq α] in
theorem Valid.mem_iff_index (valid : Valid before h) {y : α} (mem : y ∈ h.heap) :
    ∃ i, h.index y = some i ∧ h.heap[i]? = some y := by
  obtain ⟨i, at_i⟩ := List.mem_iff_getElem?.1 mem
  exact ⟨i, valid.stored i y at_i, at_i⟩

omit [DecidableEq α] in
/-- No element of a heap is before its root. -/
theorem Valid.root_first (valid : Valid before h) (strict : StrictOrder before)
    (root : h.heap[0]? = some x) {j : Nat} {y : α} (at_j : h.heap[j]? = some y) : before y x = false := by
  induction j using Nat.strongRecOn generalizing y with
  | ind j ih =>
    by_cases positive : 0 < j
    · have bound : j < h.heap.length := (List.getElem?_eq_some_iff.1 at_j).1
      have above : parent j < h.heap.length := Nat.lt_trans (parent_lt positive) bound
      obtain ⟨p, at_p⟩ : ∃ p, h.heap[parent j]? = some p := ⟨_, List.getElem?_eq_getElem above⟩
      have parent_first := ih (parent j) (parent_lt positive) at_p
      exact strict.trans x p y parent_first (valid.ordered j y p positive at_j at_p)
    · obtain rfl : j = 0 := by omega
      rw [root] at at_j
      cases at_j
      cases earlier : before x x with
      | false => rfl
      | true => exact earlier ▸ strict.asymm x x earlier

omit [DecidableEq α] in
/-- A heap depends only on the order of its elements and the positions they store. -/
theorem Valid.congr {before' : α → α → Bool} {index' : α → Option Nat} (valid : Valid before h)
    (order : ∀ a ∈ h.heap, ∀ b ∈ h.heap, before' a b = before a b)
    (index : ∀ a ∈ h.heap, index' a = h.index a) : Valid before' ⟨h.heap, index'⟩ where
  nodup := valid.nodup
  stored := by
    intro j y at_j
    exact (index y (List.mem_of_getElem? at_j)).trans (valid.stored j y at_j)
  ordered := by
    intro j y p positive at_j at_p
    rw [order y (List.mem_of_getElem? at_j) p (List.mem_of_getElem? at_p)]
    exact valid.ordered j y p positive at_j at_p

omit [DecidableEq α] in
theorem valid_of_holds {items : List α} {elsewhere : α → Option Nat} (nodup : items.Nodup)
    (holds : Holds h items elsewhere) (ordered : Ordered before h) : Valid before h where
  nodup := holds.perm.nodup_iff.2 nodup
  stored := holds.stored
  ordered := ordered

theorem siftUpLoop_length (fuel : Nat) : ∀ (i : Nat) (h : IndexedHeap α),
    (siftUpLoop before x fuel i h).heap.length = h.heap.length := by
  induction fuel with
  | zero =>
    intro i h
    exact place_length
  | succ fuel ih =>
    intro i h
    rw [siftUpLoop]
    split
    · split
      · split
        · rw [ih, place_length]
        · exact place_length
      · exact place_length
    · exact place_length

theorem push_length : (push before x h).heap.length = h.heap.length + 1 := by
  have at_end : (h.heap ++ [x])[h.heap.length]? = some x := by simp
  unfold push siftUp
  rw [at_end]
  rw [siftUpLoop_length, List.length_append, List.length_singleton]

/-- `push` adds its element to a heap and keeps it a heap; nothing else stores a
new position unless it was in the heap. -/
theorem push_valid (strict : StrictOrder before) (valid : Valid before h) (fresh : x ∉ h.heap) :
    Valid before (push before x h) ∧ (push before x h).heap.Perm (x :: h.heap) ∧
      ∀ y, y ≠ x → y ∉ h.heap → (push before x h).index y = h.index y := by
  have nodup : (x :: h.heap).Nodup := List.nodup_cons.2 ⟨fresh, valid.nodup⟩
  have at_end : (h.heap ++ [x])[h.heap.length]? = some x := by simp
  have hole : Hole ⟨h.heap ++ [x], update h.index x (some h.heap.length)⟩
      h.heap.length x (x :: h.heap) h.index := by
    refine ⟨by simp, nodup, by simp, ?_, ?_⟩
    · intro j y off at_j
      have j_lt : j < h.heap.length := by
        have := (List.getElem?_eq_some_iff.1 at_j).1
        simp only [List.length_append, List.length_singleton] at this
        omega
      rw [List.getElem?_append_left j_lt] at at_j
      have ne : y ≠ x := fun same => fresh (same ▸ List.mem_of_getElem? at_j)
      simpa [update_of_ne ne] using valid.stored j y at_j
    · intro y absent
      have ne : y ≠ x := fun same => absent (by simp [same])
      simp [update_of_ne ne]
  -- the new position has no children, and the old list is a heap
  have order : UpOrder before
      ⟨h.heap ++ [x], update h.index x (some h.heap.length)⟩ h.heap.length x := by
    have childless : ∀ c y, 0 < c → parent c = h.heap.length →
        (h.heap ++ [x])[c]? = some y → False := by
      intro c y positive child at_c
      have c_lt := (List.getElem?_eq_some_iff.1 at_c).1
      have := parent_lt positive
      simp only [List.length_append, List.length_singleton] at c_lt
      omega
    refine ⟨⟨?_, ?_⟩, ?_⟩
    · intro j y p positive off _ at_j at_p
      have j_lt : j < h.heap.length := by
        have := (List.getElem?_eq_some_iff.1 at_j).1
        simp only [List.length_append, List.length_singleton] at this
        omega
      have := parent_lt positive
      rw [List.getElem?_append_left j_lt] at at_j
      rw [List.getElem?_append_left (by omega)] at at_p
      exact valid.ordered j y p positive at_j at_p
    · intro _ c y p positive child at_c _
      exact (childless c y positive child at_c).elim
    · intro c y positive child at_c
      exact (childless c y positive child at_c).elim
  have result := siftUpLoop_holds strict h.heap.length h.heap.length _ Nat.le.refl hole order
  have unfolded : push before x h = siftUpLoop before x h.heap.length h.heap.length
      ⟨h.heap ++ [x], update h.index x (some h.heap.length)⟩ := by
    simp only [push, siftUp, at_end]
  rw [unfolded]
  refine ⟨valid_of_holds nodup result.1 result.2, result.1.perm, ?_⟩
  intro y ne absent
  exact result.1.frame y (by simp [ne, absent])

variable {i : Nat} {P : α → Prop}

/-- Writing an element that is not before the parent where it is already changes
nothing when it moves up. -/
theorem siftUpLoop_stop (fuel : Nat)
    (stop : 0 < i → ∀ p, h.heap[parent i]? = some p → before x p = false) :
    siftUpLoop before x fuel i h = h.place i x := by
  cases fuel with
  | zero => rfl
  | succ fuel =>
    unfold siftUpLoop
    split
    · rename_i positive
      split
      · rename_i p at_p
        simp [stop positive p at_p]
      · rfl
    · rfl

/-- A heap stays one when one of its elements moves down. -/
theorem siftDown_valid (strict : StrictOrder before) {items : List α} {elsewhere : α → Option Nat}
    (nodup : items.Nodup) {y : α} (holds : Holds h items elsewhere) (at_i : h.heap[i]? = some y)
    (order : DownOrder before h i y) :
    Holds (siftDown before i h) items elsewhere ∧ Ordered before (siftDown before i h) := by
  have bound := (List.getElem?_eq_some_iff.1 at_i).1
  have same : h.heap.set i y = h.heap := by
    rw [← (List.getElem?_eq_some_iff.1 at_i).2]
    exact List.set_getElem_self bound
  have hole : Hole h i y items elsewhere :=
    ⟨bound, nodup, same.symm ▸ holds.perm, fun j z _ at_j => holds.stored j z at_j, holds.frame⟩
  have result := siftDownLoop_holds strict h.heap.length i h (by omega) hole order
  simpa only [siftDown, at_i] using result

omit [DecidableEq α] in
/-- A heap seen from one of its elements. -/
theorem Ordered.downOrder (strict : StrictOrder before) (ordered : Ordered before h) {i : Nat}
    {y : α} (at_i : h.heap[i]? = some y) : DownOrder before h i y where
  off := fun j z p positive _ _ at_j at_p => ordered j z p positive at_j at_p
  grand := by
    intro positive c z p positive_c child at_c at_p
    have one := ordered i y p positive at_i at_p
    have two := ordered c z y positive_c at_c (child ▸ at_i)
    exact strict.trans p y z one two
  above := fun positive p at_p => ordered i y p positive at_i at_p

omit [DecidableEq α] in
/-- The last element of a list without repetitions, and the rest. -/
theorem Valid.split_last {front : List α} {last : α} (valid : Valid before h)
    (ends : h.heap = front ++ [last]) : front.Nodup ∧ last ∉ front := by
  have nodup := valid.nodup
  rw [ends] at nodup
  refine ⟨(List.nodup_append.1 nodup).1, ?_⟩
  intro mem
  exact (List.nodup_append.1 nodup).2.2 last mem last (by simp) rfl

omit [DecidableEq α] in
theorem getElem?_front {front : List α} {last y : α} {j : Nat} (ends : h.heap = front ++ [last])
    (at_j : front[j]? = some y) : h.heap[j]? = some y := by
  rw [ends, List.getElem?_append_left (List.getElem?_eq_some_iff.1 at_j).1]
  exact at_j

/-- Taking out the last element. -/
theorem dropLast_valid (valid : Valid before h) {front : List α} (ends : h.heap = front ++ [x]) :
    Valid before ⟨front, update h.index x none⟩ ∧ h.heap.Perm (x :: front) := by
  obtain ⟨front_nodup, fresh⟩ := valid.split_last ends
  refine ⟨⟨front_nodup, ?_, ?_⟩, ?_⟩
  · intro j y at_j
    have ne : y ≠ x := fun same => fresh (same ▸ List.mem_of_getElem? at_j)
    simpa [update_of_ne ne] using valid.stored j y (getElem?_front ends at_j)
  · intro j y p positive at_j at_p
    exact valid.ordered j y p positive (getElem?_front ends at_j) (getElem?_front ends at_p)
  · rw [ends]
    exact List.perm_append_singleton x front

/-! Taking out another element: the last one is written in its place. -/

section Replace

variable {front : List α} {last : α} {i : Nat}

omit [DecidableEq α] in
theorem index_lt_front (ends : h.heap = front ++ [last]) (at_x : h.heap[i]? = some x)
    (moved : last ≠ x) : i < front.length := by
  have lt := (List.getElem?_eq_some_iff.1 at_x).1
  rw [ends, List.length_append, List.length_singleton] at lt
  rcases Nat.lt_or_ge i front.length with inside | outside
  · exact inside
  · have at_end : i = front.length := by omega
    rw [ends, at_end, List.getElem?_concat_length] at at_x
    exact absurd (Option.some.inj at_x) moved

omit [DecidableEq α] in
theorem perm_replace (ends : h.heap = front ++ [last]) (at_x : front[i]? = some x) :
    h.heap.Perm (x :: front.set i last) := by
  obtain ⟨bound, value⟩ := List.getElem?_eq_some_iff.1 at_x
  have swap := @List.set_set_perm _ (front ++ [last]) i front.length (by simp; omega) (by simp)
  have written : ((front ++ [last]).set i last).set front.length x = front.set i last ++ [x] := by
    rw [List.set_append_left _ _ bound, List.set_append_right _ _ (by simp)]
    simp
  simp only [List.getElem_concat_length, List.getElem_append_left bound, value, written] at swap
  rw [ends]
  exact swap.symm.trans (List.perm_append_singleton x _)

/-- The heap with its last element written in the place of `x`. -/
def replaced (h : IndexedHeap α) (front : List α) (x last : α) (i : Nat) : IndexedHeap α :=
  place ⟨front, update h.index x none⟩ i last

theorem replaced_heap_ne {j : Nat} {y : α} (ends : h.heap = front ++ [last]) (ne : j ≠ i)
    (at_j : (h.replaced front x last i).heap[j]? = some y) : h.heap[j]? = some y := by
  rw [replaced, place_heap_ne ne] at at_j
  exact getElem?_front ends at_j

theorem replaced_hole (valid : Valid before h) (ends : h.heap = front ++ [last])
    (at_x : front[i]? = some x) :
    Hole (h.replaced front x last i) i last (front.set i last) (update h.index x none) := by
  obtain ⟨bound, -⟩ := List.getElem?_eq_some_iff.1 at_x
  obtain ⟨front_nodup, fresh⟩ := valid.split_last ends
  have nodup := (perm_replace ends at_x).nodup_iff.1 valid.nodup
  have hole : Hole ⟨front, update h.index x none⟩ i last (front.set i last)
      (update h.index x none) := by
    refine ⟨bound, (List.nodup_cons.1 nodup).2, List.Perm.refl _, ?_, fun _ _ => rfl⟩
    intro j y off at_j
    have ne : y ≠ x := by
      intro same
      subst same
      have j_lt := (List.getElem?_eq_some_iff.1 at_j).1
      exact off ((List.getElem?_inj j_lt front_nodup).1 (at_j.trans at_x.symm))
    simpa [update_of_ne ne] using valid.stored j y (getElem?_front ends at_j)
  refine ⟨by simpa [replaced, place_length] using bound, hole.nodup, ?_, ?_, hole.place.frame⟩
  · simp [replaced, IndexedHeap.place]
  · exact fun j y _ at_j => hole.place.stored j y at_j

theorem replaced_order (strict : StrictOrder before) (valid : Valid before h)
    (ends : h.heap = front ++ [last]) (at_x : h.heap[i]? = some x) :
    HoleOrder before (h.replaced front x last i) i where
  off := fun j y p positive ne ne' at_j at_p =>
    valid.ordered j y p positive (replaced_heap_ne ends ne at_j) (replaced_heap_ne ends ne' at_p)
  grand := by
    intro positive c y p positive_c child at_c at_p
    have up := parent_lt positive
    have up' := parent_lt positive_c
    have at_c' := replaced_heap_ne ends (by omega) at_c
    have at_p' := replaced_heap_ne ends (by omega) at_p
    -- `x` was between the two
    have one := valid.ordered i x p positive at_x at_p'
    have two := valid.ordered c y x positive_c at_c' (child ▸ at_x)
    exact strict.trans p x y one two

/-- After moving up, wherever the replacement is now, it can move down from there. -/
theorem siftUpLoop_replaced (strict : StrictOrder before) {g : IndexedHeap α} {items : List α}
    {elsewhere : α → Option Nat} (hole : Hole g i last items elsewhere)
    (order : HoleOrder before g i) (at_last : g.heap[i]? = some last) :
    Holds (siftUpLoop before last i i g) items elsewhere ∧
      ∀ k, (siftUpLoop before last i i g).index last = some k →
        DownOrder before (siftUpLoop before last i i g) k last := by
  by_cases stop : 0 < i → ∀ p, g.heap[parent i]? = some p → before last p = false
  · -- it stays where it is
    rw [siftUpLoop_stop i stop]
    refine ⟨hole.place, ?_⟩
    intro k stored_last
    have at_i : k = i := by simpa [IndexedHeap.place] using stored_last.symm
    subst at_i
    have same : (g.place k last).heap = g.heap := by
      obtain ⟨bound, value⟩ := List.getElem?_eq_some_iff.1 at_last
      simp only [IndexedHeap.place, ← value]
      exact List.set_getElem_self bound
    exact ⟨⟨same.symm ▸ order.off, same.symm ▸ order.grand⟩, same.symm ▸ stop⟩
  · -- it goes up, and what is below it is in order
    simp only [not_forall, Bool.not_eq_false] at stop
    obtain ⟨positive, p, at_p, first⟩ := stop
    have below : ∀ c y, 0 < c → parent c = i → g.heap[c]? = some y → before y last = false := by
      intro c y positive_c child at_c
      exact strict.trans last p y (strict.asymm _ _ first)
        (order.grand positive c y p positive_c child at_c at_p)
    obtain ⟨holds, ordered⟩ := siftUpLoop_holds strict i i g Nat.le.refl hole ⟨order, below⟩
    refine ⟨holds, ?_⟩
    intro k stored_last
    obtain ⟨k', at_k'⟩ := List.mem_iff_getElem?.1
      (holds.perm.mem_iff.2 (hole.perm.mem_iff.1 (List.mem_set hole.bound last)))
    have same : k' = k := by
      have stored := holds.stored k' last at_k'
      rw [stored_last] at stored
      exact (Option.some.inj stored).symm
    exact ordered.downOrder strict (same ▸ at_k')

theorem replace_valid (strict : StrictOrder before) (valid : Valid before h)
    (ends : h.heap = front ++ [last]) (at_x : h.heap[i]? = some x) (moved : last ≠ x) :
    let up := siftUp before i (h.replaced front x last i)
    let down := siftDown before ((up.index last).getD 0) up
    Valid before down ∧ h.heap.Perm (x :: down.heap) ∧ down.index x = none ∧
      ∀ y, y ∉ h.heap → down.index y = h.index y := by
  intro up down
  have bound := index_lt_front ends at_x moved
  have at_front : front[i]? = some x := by
    rw [ends, List.getElem?_append_left bound] at at_x
    exact at_x
  have items := perm_replace ends at_front
  have nodup := items.nodup_iff.1 valid.nodup
  have at_last : (h.replaced front x last i).heap[i]? = some last := place_heap_same bound
  have moved_up : up = siftUpLoop before last i i (h.replaced front x last i) := by
    simp only [up, siftUp, at_last]
  obtain ⟨holds, order⟩ := siftUpLoop_replaced strict (replaced_hole valid ends at_front)
    (replaced_order strict valid ends at_x) at_last
  rw [← moved_up] at holds order
  obtain ⟨k, at_k⟩ := List.mem_iff_getElem?.1 (holds.perm.mem_iff.2 (List.mem_set bound last))
  have stored := holds.stored k last at_k
  have here : (up.index last).getD 0 = k := by rw [stored]; rfl
  obtain ⟨final, ordered⟩ := siftDown_valid strict (List.nodup_cons.1 nodup).2 holds at_k
    (order k stored)
  simp only [down, here]
  refine ⟨valid_of_holds (List.nodup_cons.1 nodup).2 final ordered, ?_, ?_, ?_⟩
  · exact items.trans (final.perm.symm.cons x)
  · simpa using final.frame x (List.nodup_cons.1 nodup).1
  · intro y absent
    have out : y ∉ x :: front.set i last := fun mem => absent (items.mem_iff.2 mem)
    obtain ⟨ne, out'⟩ := not_or.1 (fun either => out (List.mem_cons.2 either))
    simpa [update_of_ne ne] using final.frame y out'

end Replace

/-- `remove` takes its element out of a heap and keeps it a heap; nothing else
stores a new position unless it was in the heap. -/
theorem remove_valid (strict : StrictOrder before) (valid : Valid before h) {h' : IndexedHeap α}
    (removed : remove before x h = some h') :
    Valid before h' ∧ h.heap.Perm (x :: h'.heap) ∧ h'.index x = none ∧
      ∀ y, y ∉ h.heap → h'.index y = h.index y := by
  unfold remove at removed
  split at removed
  · cases removed
  split at removed
  swap
  · cases removed
  rename_i at_x
  split at removed
  · cases removed
  rename_i last at_last
  obtain ⟨front, ends⟩ := List.getLast?_eq_some_iff.1 at_last
  have dropped : h.heap.dropLast = front := by simp [ends]
  rw [dropped] at removed
  split at removed
  · rename_i same
    subst same
    cases removed
    obtain ⟨rest, perm⟩ := dropLast_valid valid ends
    refine ⟨rest, perm, by simp, ?_⟩
    intro y absent
    have ne : y ≠ last := fun same => absent (same ▸ List.mem_of_getElem? at_x)
    simp [update_of_ne ne]
  · rename_i moved
    cases removed
    exact replace_valid strict valid ends at_x moved

/-- An element that stores its place in the heap can be removed. -/
theorem remove_some (stored : h.index x = some i) (at_x : h.heap[i]? = some x) :
    ∃ h', remove before x h = some h' := by
  have nonempty : h.heap ≠ [] := by
    intro empty
    simp [empty] at at_x
  unfold remove
  simp only [stored, at_x, if_true, List.getLast?_eq_some_getLast nonempty]
  split
  · exact ⟨_, rfl⟩
  · exact ⟨_, rfl⟩

/-! ### Stale positions

`push` never reads a position: two heaps with the same elements stay the same, and
their positions stay equal wherever they were. -/

theorem place_agree {h h' : IndexedHeap α} (heap : h.heap = h'.heap)
    (index : ∀ a, P a → h.index a = h'.index a) (i : Nat) (y : α) :
    (h.place i y).heap = (h'.place i y).heap ∧
      ∀ a, P a → (h.place i y).index a = (h'.place i y).index a := by
  refine ⟨by simp only [place, heap], ?_⟩
  intro a holds
  simp only [place, update_apply, index a holds]

theorem siftUpLoop_agree (fuel : Nat) :
    ∀ (i : Nat) (h h' : IndexedHeap α), h.heap = h'.heap →
      (∀ a, P a → h.index a = h'.index a) →
      (siftUpLoop before x fuel i h).heap = (siftUpLoop before x fuel i h').heap ∧
        ∀ a, P a → (siftUpLoop before x fuel i h).index a = (siftUpLoop before x fuel i h').index a := by
  induction fuel with
  | zero =>
    intro i h h' heap index
    exact place_agree heap index i x
  | succ fuel ih =>
    intro i h h' heap index
    unfold siftUpLoop
    rw [heap]
    split
    · split
      · rename_i p at_parent
        obtain ⟨heap', index'⟩ := place_agree heap index i p
        split
        · exact ih _ _ _ heap' index'
        · exact place_agree heap index i x
      · exact place_agree heap index i x
    · exact place_agree heap index i x

theorem push_agree {h h' : IndexedHeap α} {P : α → Prop} (heap : h.heap = h'.heap)
    (index : ∀ a, P a → h.index a = h'.index a) :
    (push before x h).heap = (push before x h').heap ∧
      ∀ a, P a → (push before x h).index a = (push before x h').index a := by
  unfold push siftUp
  rw [heap]
  dsimp only
  have index' : ∀ a, P a → update h.index x (some h'.heap.length) a
      = update h'.index x (some h'.heap.length) a := by
    intro a holds
    simp only [update_apply, index a holds]
  split
  · exact siftUpLoop_agree _ _ _ _ rfl index'
  · exact ⟨rfl, index'⟩

end Operations

end IndexedHeap

end Baton.Theory
