/-
# Sched.WheelLists — the lists of the timing wheel

`Lists w pending chains free` says that the slab of a wheel is divided into its
lists: `chains l` is what runs through the nodes from the head of list `l`, `free`
from the free head, every node is on exactly the list it names, and only the nodes
in `pending` (taken off one list and not yet put on another) are on none.  Each of
`allocate`, `link`, `unlink` and `release` keeps it, moving one node between the
lists and `pending`.

`timer?` is what the wheel holds at an index, without the lists.  `Fires` relates
two wheels and the events in between: each event is a timer of the first wheel,
and the second one holds the other timers.  `schedule_spec` and `cancel_spec` say
in those terms what the operations on one timer do.
-/
import Baton.Sched.TimingWheel
import Baton.Theory.Intrusive
import Mathlib.Data.Finset.Card
import Mathlib.Data.Finset.Range
import Mathlib.Data.List.Perm.Subperm

namespace Baton

open Theory
open Function (update update_apply update_eq_self update_of_ne update_self)

set_option autoImplicit false

namespace TimingWheel

/-- What a timer is, apart from the list it is on. -/
structure Timer where
  generation : Nat
  deadline : Nat
  id : Nat
  kind : Nat
  deriving DecidableEq, Repr

def Node.timer (node : Node) : Timer := ⟨node.generation, node.deadline, node.id, node.kind⟩

def prevs (w : TimingWheel) (i : Nat) : Option Nat := (w.nodes i).prev
def nexts (w : TimingWheel) (i : Nat) : Option Nat := (w.nodes i).next
def listOf (w : TimingWheel) (i : Nat) : Nat := (w.nodes i).list
def timerOf (w : TimingWheel) (i : Nat) : Timer := (w.nodes i).timer

/-! ## What one step does to the nodes -/

section Fields

variable (w : TimingWheel) (i l j : Nat)

theorem setPrev_apply (nodes : Nat → Node) (k prev : Option Nat) :
    setPrev nodes k prev j = if k = some j then { nodes j with prev } else nodes j := by
  cases k with
  | none => simp [setPrev]
  | some k =>
    by_cases same : j = k
    · subst same
      simp [setPrev]
    · simp [setPrev, update_of_ne same, Ne.symm same]

theorem setNext_apply (nodes : Nat → Node) (k next : Option Nat) :
    setNext nodes k next j = if k = some j then { nodes j with next } else nodes j := by
  cases k with
  | none => simp [setNext]
  | some k =>
    by_cases same : j = k
    · subst same
      simp [setNext]
    · simp [setNext, update_of_ne same, Ne.symm same]

theorem link_nodes :
    (w.link i l).nodes j =
      let node := if j = i then { w.nodes i with list := l, prev := none, next := w.heads l }
        else w.nodes j
      if w.heads l = some j then { node with prev := some i } else node := by
  simp only [link, setPrev_apply, update_apply]

theorem link_list : (w.link i l).listOf j = if j = i then l else w.listOf j := by
  simp only [listOf, link_nodes]
  split <;> split <;> rfl

theorem link_next : (w.link i l).nexts j = if j = i then w.heads l else w.nexts j := by
  simp only [nexts, link_nodes]
  split <;> split <;> rfl

theorem link_prev :
    (w.link i l).prevs j
      = if w.heads l = some j then some i else if j = i then none else w.prevs j := by
  simp only [prevs, link_nodes]
  split <;> split <;> rfl

@[simp] theorem link_timer : (w.link i l).timerOf j = w.timerOf j := by
  simp only [timerOf, link_nodes]
  split <;> split <;> rename_i same <;> first | rfl | (rw [same]; rfl)

theorem unlink_nodes :
    (w.unlink i).nodes j =
      let node := if w.prevs i = some j then { w.nodes j with next := w.nexts i } else w.nodes j
      if w.nexts i = some j then { node with prev := w.prevs i } else node := by
  simp only [unlink, setPrev_apply, setNext_apply]
  rfl

@[simp] theorem unlink_list : (w.unlink i).listOf j = w.listOf j := by
  unfold listOf
  rw [unlink_nodes]
  split <;> split <;> rfl

theorem unlink_next :
    (w.unlink i).nexts j = if w.prevs i = some j then w.nexts i else w.nexts j := by
  show ((w.unlink i).nodes j).next = _
  rw [unlink_nodes]
  split <;> split <;> rfl

theorem unlink_prev :
    (w.unlink i).prevs j = if w.nexts i = some j then w.prevs i else w.prevs j := by
  show ((w.unlink i).nodes j).prev = _
  rw [unlink_nodes]
  split <;> split <;> rfl

@[simp] theorem unlink_timer : (w.unlink i).timerOf j = w.timerOf j := by
  unfold timerOf
  rw [unlink_nodes]
  split <;> split <;> rfl

theorem unlink_heads :
    (w.unlink i).heads
      = if w.prevs i = none then update w.heads (w.listOf i) (w.nexts i)
        else w.heads := rfl

theorem release_list : (w.release i).listOf j = if j = i then kFree else w.listOf j := by
  simp only [listOf, release, update_apply]
  split <;> rfl

theorem release_next : (w.release i).nexts j = if j = i then w.freeHead else w.nexts j := by
  simp only [nexts, release, update_apply]
  split <;> rfl

theorem release_prev : (w.release i).prevs j = if j = i then none else w.prevs j := by
  simp only [prevs, release, update_apply]
  split <;> rfl

theorem release_timer (ne : j ≠ i) : (w.release i).timerOf j = w.timerOf j := by
  simp only [timerOf, release, update_of_ne ne]

section Fill

variable (deadline kind id : Nat)

theorem fill_nodes :
    (w.fill i deadline kind id).nodes j
      = if j = i then { w.nodes j with deadline, id, kind } else w.nodes j := by
  simp only [fill, update_apply]
  split
  · rename_i here
    rw [here]
  · rfl

@[simp] theorem fill_list : (w.fill i deadline kind id).listOf = w.listOf := by
  funext j
  simp only [listOf, fill_nodes]
  split <;> rfl

@[simp] theorem fill_next : (w.fill i deadline kind id).nexts = w.nexts := by
  funext j
  simp only [nexts, fill_nodes]
  split <;> rfl

@[simp] theorem fill_prev : (w.fill i deadline kind id).prevs = w.prevs := by
  funext j
  simp only [prevs, fill_nodes]
  split <;> rfl

theorem fill_timer :
    (w.fill i deadline kind id).timerOf j
      = if j = i then ⟨(w.nodes j).generation, deadline, id, kind⟩ else w.timerOf j := by
  simp only [timerOf, fill_nodes]
  split <;> rfl

end Fill

end Fields

/-! ## The lists -/

/-- The slab is divided into the lists, the free list and the nodes in `pending`. -/
structure Lists (w : TimingWheel) (pending : List Nat) (chains : Nat → List Nat)
    (free : List Nat) : Prop where
  chain : ∀ l, l < kFree → DoublyLinked w.prevs w.nexts (w.heads l) (chains l)
  onChain : ∀ l, l < kFree → ∀ i, i ∈ chains l ↔ i < w.slab ∧ w.listOf i = l ∧ i ∉ pending
  freeNodup : free.Nodup
  freeFirst : w.freeHead = free.head?
  freeLinks : Follows w.nexts free none
  onFree : ∀ i, i ∈ free ↔ i < w.slab ∧ w.listOf i = kFree ∧ i ∉ pending
  named : ∀ i, i < w.slab → w.listOf i ≤ kFree

section Lists

variable {w : TimingWheel} {pending : List Nat} {chains : Nat → List Nat} {free : List Nat}

theorem lists_empty (now : Nat) : Lists { now } [] (fun _ => []) [] where
  chain := fun _ _ => DoublyLinked.nil
  onChain := by simp
  freeNodup := List.nodup_nil
  freeFirst := rfl
  freeLinks := trivial
  onFree := by simp
  named := by simp

theorem Lists.off {i : Nat} (lists : Lists w (i :: pending) chains free) :
    (∀ m, m < kFree → ∀ j ∈ chains m, j ≠ i) ∧ ∀ j ∈ free, j ≠ i := by
  constructor
  · rintro m lt j mem rfl
    exact ((lists.onChain m lt j).1 mem).2.2 List.mem_cons_self
  · rintro j mem rfl
    exact ((lists.onFree j).1 mem).2.2 List.mem_cons_self

/-- A node off every list goes in front of one. -/
theorem Lists.link {i l : Nat} (lists : Lists w (i :: pending) chains free) (bound : i < w.slab)
    (list : l < kFree) (once : i ∉ pending) :
    Lists (w.link i l) pending (update chains l (i :: chains l)) free := by
  obtain ⟨off, off_free⟩ := lists.off
  have head_on : ∀ j, w.heads l = some j → j ∈ chains l := by
    intro j head
    rw [(lists.chain l list).first] at head
    exact List.mem_of_head? head
  refine ⟨?_, ?_, lists.freeNodup, lists.freeFirst, lists.freeLinks.congr ?_, ?_, ?_⟩
  · intro m lt
    by_cases same : m = l
    · subst same
      rw [update_self]
      refine (lists.chain m lt).push (fun mem => off m lt i mem rfl) (by simp [TimingWheel.link]) ?_ ?_ ?_ ?_ ?_
      · simp [link_next]
      · have ne : w.heads m ≠ some i := fun head => off m lt i (head_on i head) rfl
        simp [link_prev, ne]
      · intro j head
        simp [link_prev, head]
      · intro j mem ne
        have other := off m lt j mem
        simp [link_prev, ne, other]
      · intro j mem
        have other := off m lt j mem
        simp [link_next, other]
    · rw [update_of_ne same]
      refine (lists.chain m lt).congr (by simp [TimingWheel.link, same]) ?_ ?_
      · intro j mem
        have other := off m lt j mem
        have not_head : w.heads l ≠ some j := by
          intro head
          have one := ((lists.onChain l list j).1 (head_on j head)).2.1
          have two := ((lists.onChain m lt j).1 mem).2.1
          exact same (two.symm.trans one)
        simp [link_prev, not_head, other]
      · intro j mem
        have other := off m lt j mem
        simp [link_next, other]
  · intro m lt j
    have slab : (w.link i l).slab = w.slab := rfl
    rw [link_list, slab]
    by_cases same : m = l
    · subst same
      rw [update_self, List.mem_cons, lists.onChain m lt j]
      by_cases here : j = i
      · subst here
        simp [bound, once]
      · simp [here]
    · rw [update_of_ne same, lists.onChain m lt j]
      by_cases here : j = i
      · subst here
        simp [Ne.symm same]
      · simp [here]
  · intro j mem
    have other := off_free j mem
    simp [link_next, other]
  · intro j
    have slab : (w.link i l).slab = w.slab := rfl
    rw [link_list, slab, lists.onFree j]
    by_cases here : j = i
    · subst here
      have ne : l ≠ kFree := by omega
      simp [ne]
    · simp [here]
  · intro j lt
    rw [link_list]
    split
    · omega
    · exact lists.named j lt

/-- A node leaves the list it is on. -/
theorem Lists.unlink {i : Nat} (lists : Lists w pending chains free) (bound : i < w.slab)
    (live : w.listOf i ≠ kFree) (on : i ∉ pending) :
    ∃ chains', Lists (w.unlink i) (i :: pending) chains' free := by
  have list : w.listOf i < kFree := by
    have := lists.named i bound
    omega
  have mem : i ∈ chains (w.listOf i) := (lists.onChain _ list i).2 ⟨bound, rfl, on⟩
  obtain ⟨front, back, parts⟩ := List.append_of_mem mem
  have linked := lists.chain _ list
  rw [parts] at linked
  obtain ⟨prev_i, next_i⟩ := linked.links_at
  have in_chain : ∀ j, j ∈ front ++ back → j ∈ chains (w.listOf i) ∧ j ≠ i := by
    intro j mem_j
    have nodup := linked.nodup
    rw [List.nodup_middle] at nodup
    refine ⟨?_, fun eq => (List.nodup_cons.1 nodup).1 (eq ▸ mem_j)⟩
    rw [parts]
    rcases List.mem_append.1 mem_j with h | h <;> simp [h]
  have prev_on : ∀ j, w.prevs i = some j → j ∈ front ++ back := by
    intro j eq
    rw [prev_i] at eq
    exact List.mem_append_left _ (List.mem_of_getLast? eq)
  have next_on : ∀ j, w.nexts i = some j → j ∈ front ++ back := by
    intro j eq
    rw [next_i] at eq
    exact List.mem_append_right _ (List.mem_of_head? eq)
  refine ⟨update chains (w.listOf i) (front ++ back), ?_, ?_, lists.freeNodup,
    lists.freeFirst, lists.freeLinks.congr ?_, ?_, ?_⟩
  · intro m lt
    by_cases same : m = w.listOf i
    · subst same
      rw [update_self]
      refine linked.remove ?_ ?_ ?_ ?_ ?_
      · rw [unlink_heads]
        split <;> simp
      · intro p eq
        simp [unlink_next, eq]
      · intro n eq
        simp [unlink_prev, eq]
      · intro j _ ne
        simp [unlink_next, ne]
      · intro j _ ne
        simp [unlink_prev, ne]
    · rw [update_of_ne same]
      have elsewhere : ∀ j ∈ chains m, j ∉ front ++ back := by
        intro j mem_j mem_j'
        have one := ((lists.onChain m lt j).1 mem_j).2.1
        have two := ((lists.onChain _ list j).1 (in_chain j mem_j').1).2.1
        exact same (one.symm.trans two)
      refine (lists.chain m lt).congr ?_ ?_ ?_
      · rw [unlink_heads]
        split <;> simp [same]
      · intro j mem_j
        have ne : w.nexts i ≠ some j := fun eq => elsewhere j mem_j (next_on j eq)
        simp [unlink_prev, ne]
      · intro j mem_j
        have ne : w.prevs i ≠ some j := fun eq => elsewhere j mem_j (prev_on j eq)
        simp [unlink_next, ne]
  · intro m lt j
    have slab : (w.unlink i).slab = w.slab := rfl
    rw [unlink_list, slab]
    by_cases same : m = w.listOf i
    · subst same
      rw [update_self]
      constructor
      · intro mem_j
        obtain ⟨on_j, ne⟩ := in_chain j mem_j
        obtain ⟨lt_j, list_j, free_j⟩ := (lists.onChain _ list j).1 on_j
        exact ⟨lt_j, list_j, by simp [ne, free_j]⟩
      · rintro ⟨lt_j, list_j, free_j⟩
        simp only [List.mem_cons, not_or] at free_j
        have on_j := (lists.onChain _ list j).2 ⟨lt_j, list_j, free_j.2⟩
        rw [parts] at on_j
        simpa [free_j.1] using on_j
    · rw [update_of_ne same, lists.onChain m lt j]
      by_cases here : j = i
      · subst here
        simp [Ne.symm same]
      · simp [here]
  · intro j mem_j
    have ne : w.prevs i ≠ some j := by
      intro eq
      have one := ((lists.onChain _ list j).1 (in_chain j (prev_on j eq)).1).2.1
      have two := ((lists.onFree j).1 mem_j).2.1
      exact live (one.symm.trans two)
    simp [unlink_next, ne]
  · intro j
    have slab : (w.unlink i).slab = w.slab := rfl
    rw [unlink_list, slab, lists.onFree j]
    by_cases here : j = i
    · subst here
      simp [live]
    · simp [here]
  · intro j lt
    rw [unlink_list]
    exact lists.named j lt

/-- A node off every list becomes free. -/
theorem Lists.release {i : Nat} (lists : Lists w (i :: pending) chains free) (bound : i < w.slab)
    (once : i ∉ pending) : Lists (w.release i) pending chains (i :: free) := by
  obtain ⟨off, off_free⟩ := lists.off
  have slab : (w.release i).slab = w.slab := rfl
  refine ⟨?_, ?_, List.nodup_cons.2 ⟨fun mem => off_free i mem rfl, lists.freeNodup⟩, rfl, ⟨?_, ?_⟩, ?_, ?_⟩
  · intro m lt
    refine (lists.chain m lt).congr rfl ?_ ?_
    · intro j mem
      have other := off m lt j mem
      simp [release_prev, other]
    · intro j mem
      have other := off m lt j mem
      simp [release_next, other]
  · intro m lt j
    rw [release_list, slab, lists.onChain m lt j]
    by_cases here : j = i
    · subst here
      have ne : kFree ≠ m := by omega
      simp [ne]
    · simp [here]
  · rw [release_next, if_pos rfl, lists.freeFirst]
    simp
  · refine lists.freeLinks.congr ?_
    intro j mem
    have other := off_free j mem
    simp [release_next, other]
  · intro j
    rw [release_list, slab, List.mem_cons, lists.onFree j]
    by_cases here : j = i
    · subst here
      simp [bound, once]
    · simp [here]
  · intro j lt
    rw [release_list]
    split
    · exact le_refl kFree
    · exact lists.named j lt

variable {w' : TimingWheel}

theorem Lists.congr (lists : Lists w pending chains free)
    (prevs : w'.prevs = w.prevs) (nexts : w'.nexts = w.nexts) (names : w'.listOf = w.listOf)
    (heads : w'.heads = w.heads) (slab : w'.slab = w.slab) (freeHead : w'.freeHead = w.freeHead) :
    Lists w' pending chains free where
  chain := by
    rw [prevs, nexts, heads]
    exact lists.chain
  onChain := by
    rw [slab, names]
    exact lists.onChain
  freeNodup := lists.freeNodup
  freeFirst := freeHead.trans lists.freeFirst
  freeLinks := by
    rw [nexts]
    exact lists.freeLinks
  onFree := by
    rw [slab, names]
    exact lists.onFree
  named := by
    rw [slab, names]
    exact lists.named

/-- A whole list is detached: its nodes are on none. -/
theorem Lists.detach {l : Nat} (lists : Lists w [] chains free) (list : l < kFree)
    (nodes : w'.nodes = w.nodes) (slab : w'.slab = w.slab) (freeHead : w'.freeHead = w.freeHead) (heads : w'.heads = update w.heads l none) :
    Lists w' (chains l) (update chains l []) free := by
  have prevs : w'.prevs = w.prevs := by unfold TimingWheel.prevs; rw [nodes]
  have nexts : w'.nexts = w.nexts := by unfold TimingWheel.nexts; rw [nodes]
  have names : w'.listOf = w.listOf := by unfold TimingWheel.listOf; rw [nodes]
  refine ⟨?_, ?_, lists.freeNodup, freeHead.trans lists.freeFirst, ?_, ?_, ?_⟩
  · intro m lt
    rw [prevs, nexts, heads]
    by_cases same : m = l
    · subst same
      simpa using DoublyLinked.nil
    · simpa [same] using lists.chain m lt
  · intro m lt i
    rw [slab, names]
    by_cases same : m = l
    · subst same
      rw [update_self, lists.onChain m lt i]
      simp only [List.not_mem_nil, false_iff]
      rintro ⟨lt_i, name, off⟩
      exact off ⟨lt_i, name, not_false⟩
    · rw [update_of_ne same, lists.onChain m lt i, lists.onChain l list i]
      have apart : w.listOf i = m → w.listOf i ≠ l := fun eq eq' => same (eq.symm.trans eq')
      constructor
      · rintro ⟨lt_i, name, -⟩
        exact ⟨lt_i, name, fun on => apart name on.2.1⟩
      · rintro ⟨lt_i, name, -⟩
        exact ⟨lt_i, name, by simp⟩
  · rw [nexts]
    exact lists.freeLinks
  · intro i
    rw [slab, names, lists.onFree i, lists.onChain l list i]
    have ne : kFree ≠ l := by omega
    constructor
    · rintro ⟨lt_i, name, -⟩
      exact ⟨lt_i, name, fun on => ne (name.symm.trans on.2.1)⟩
    · rintro ⟨lt_i, name, -⟩
      exact ⟨lt_i, name, by simp⟩
  · rw [slab, names]
    exact lists.named

end Lists

/-! ## What the wheel holds -/

/-- The slab entries in use. -/
def live (w : TimingWheel) : Finset Nat := (Finset.range w.slab).filter (w.listOf · ≠ kFree)

/-- The timer at an index, if the entry is in use. -/
def timer? (w : TimingWheel) (i : Nat) : Option Timer :=
  if i < w.slab ∧ w.listOf i ≠ kFree then some (w.timerOf i) else none

variable {i : Nat} {w : TimingWheel}

theorem mem_live : i ∈ w.live ↔ i < w.slab ∧ w.listOf i ≠ kFree := by
  simp [live]

theorem mem_live_iff_timer : i ∈ w.live ↔ (w.timer? i).isSome := by
  rw [mem_live]
  unfold timer?
  split <;> simp_all

theorem timer?_of_live (mem : i ∈ w.live) :
    w.timer? i = some (w.timerOf i) := if_pos (mem_live.1 mem)

section Views

variable {w : TimingWheel} {i : Nat}

theorem link_live {l : Nat} (bound : i < w.slab) (list : l < kFree) :
    (w.link i l).live = insert i w.live := by
  ext j
  have slab : (w.link i l).slab = w.slab := rfl
  rw [mem_live, link_list, slab, Finset.mem_insert, mem_live]
  by_cases here : j = i
  · subst here
    have ne : l ≠ kFree := by omega
    simp [bound, ne]
  · simp [here]

theorem link_timer? {l : Nat} (bound : i < w.slab) (list : l < kFree) :
    (w.link i l).timer? = update w.timer? i (some (w.timerOf i)) := by
  funext j
  have slab : (w.link i l).slab = w.slab := rfl
  simp only [timer?, link_list, link_timer, slab, update_apply]
  by_cases here : j = i
  · subst here
    have ne : l ≠ kFree := by omega
    simp [bound, ne]
  · simp [here]

@[simp] theorem unlink_live : (w.unlink i).live = w.live := by
  ext j
  have slab : (w.unlink i).slab = w.slab := rfl
  rw [mem_live, unlink_list, slab, mem_live]

@[simp] theorem unlink_timer? : (w.unlink i).timer? = w.timer? := by
  funext j
  have slab : (w.unlink i).slab = w.slab := rfl
  simp only [timer?, unlink_list, unlink_timer, slab]

theorem release_live : (w.release i).live = w.live.erase i := by
  ext j
  have slab : (w.release i).slab = w.slab := rfl
  rw [mem_live, release_list, slab, Finset.mem_erase, mem_live]
  by_cases here : j = i <;> simp [here]

theorem release_timer? : (w.release i).timer? = update w.timer? i none := by
  funext j
  have slab : (w.release i).slab = w.slab := rfl
  by_cases here : j = i
  · subst here
    simp [timer?, release_list]
  · simp [timer?, release_list, slab, here, release_timer w i j here]

theorem slotFor_lt (now deadline : Nat) : slotFor now deadline < kDueList := by
  unfold slotFor
  dsimp only
  generalize (if kSpan ≤ deadline - now then now + kSpan - slotWidth kTopLevel else deadline) = target
  generalize Nat.log2 ((now ^^^ target) ||| kSlotMask) / kSlotBits = level
  have slot := @Nat.and_le_right (target >>> shiftOf (min level kTopLevel)) kSlotMask
  have top : min level kTopLevel ≤ 5 := Nat.min_le_right level 5
  have mask : kSlotMask = 63 := by decide
  have slots : kSlotsPerLevel = 64 := by decide
  have due : kDueList = 384 := by decide
  rw [slots, due]
  omega

/-- `place` puts a node on some list; which one does not matter here. -/
theorem place_eq (w : TimingWheel) (i : Nat) : ∃ l, l < kFree ∧ w.place i = w.link i l := by
  unfold place
  dsimp only
  split
  · exact ⟨kDueList, by decide, rfl⟩
  · refine ⟨_, ?_, rfl⟩
    have := slotFor_lt w.now (w.nodes i).deadline
    unfold kFree
    omega

end Views

/-! ## The invariant -/

/-- The lists are in order, `size` counts the entries in use, and the entries off
every list are in use. -/
structure WheelInv (w : TimingWheel) (pending : List Nat) : Prop where
  lists : ∃ chains free, Lists w pending chains free
  counted : w.size = w.live.card
  pendingLive : ∀ i ∈ pending, i ∈ w.live
  pendingNodup : pending.Nodup

/-- Some timers of `w` fire: the events are theirs, and `w'` holds the others. -/
structure Fires (w : TimingWheel) (events : List TimerEvent) (w' : TimingWheel) : Prop where
  nodup : (events.map (·.handle.index)).Nodup
  held : ∀ e ∈ events,
    w.timer? e.handle.index = some ⟨e.handle.generation, e.deadline, e.id, e.kind⟩
  rest : ∀ i, w'.timer? i = if i ∈ events.map (·.handle.index) then none else w.timer? i

theorem Fires.of_eq {w' : TimingWheel} (same : w'.timer? = w.timer?) : Fires w [] w' where
  nodup := List.nodup_nil
  held := by simp
  rest := by simp [same]

theorem Fires.trans {w' w'' : TimingWheel} {es es' : List TimerEvent} (one : Fires w es w')
    (two : Fires w' es' w'') : Fires w (es ++ es') w'' where
  nodup := by
    rw [List.map_append]
    refine List.nodup_append.2 ⟨one.nodup, two.nodup, ?_⟩
    intro i mem i' mem' same
    subst same
    obtain ⟨e, mem_e, index⟩ := List.mem_map.1 mem'
    have held := two.held e mem_e
    rw [index, one.rest i, if_pos mem] at held
    cases held
  held := by
    intro e mem
    rcases List.mem_append.1 mem with first | second
    · exact one.held e first
    · have held := two.held e second
      rw [one.rest] at held
      split at held
      · cases held
      · exact held
  rest := by
    intro i
    rw [two.rest i, one.rest i, List.map_append]
    by_cases a : i ∈ es'.map (·.handle.index) <;> by_cases b : i ∈ es.map (·.handle.index) <;>
      simp [a, b]

section Invariant

variable {w : TimingWheel} {pending : List Nat} {i : Nat}

theorem wheelInv_empty (now : Nat) : WheelInv { now } [] where
  lists := ⟨_, _, lists_empty now⟩
  counted := by simp [live]
  pendingLive := by simp
  pendingNodup := List.nodup_nil

theorem WheelInv.place (inv : WheelInv w (i :: pending)) :
    WheelInv (w.place i) pending ∧ (w.place i).timer? = w.timer? := by
  obtain ⟨chains, free, lists⟩ := inv.lists
  obtain ⟨once, nodup⟩ := List.nodup_cons.1 inv.pendingNodup
  have mem := inv.pendingLive i (by simp)
  have bound := (mem_live.1 mem).1
  obtain ⟨l, list, placed⟩ := place_eq w i
  rw [placed]
  have same : (w.link i l).live = w.live := by
    rw [link_live bound list, Finset.insert_eq_self.2 mem]
  refine ⟨⟨⟨_, _, lists.link bound list once⟩, ?_, ?_, nodup⟩, ?_⟩
  · rw [same]
    exact inv.counted
  · intro j mem_j
    rw [same]
    exact inv.pendingLive j (by simp [mem_j])
  · rw [link_timer? bound list, ← timer?_of_live mem, update_eq_self]

theorem WheelInv.unlink (inv : WheelInv w pending) (mem : i ∈ w.live) (on : i ∉ pending) :
    WheelInv (w.unlink i) (i :: pending) := by
  obtain ⟨chains, free, lists⟩ := inv.lists
  obtain ⟨bound, used⟩ := mem_live.1 mem
  obtain ⟨chains', lists'⟩ := lists.unlink bound used on
  refine ⟨⟨_, _, lists'⟩, ?_, ?_, List.nodup_cons.2 ⟨on, inv.pendingNodup⟩⟩
  · rw [unlink_live]
    exact inv.counted
  · intro j mem_j
    rw [unlink_live]
    rcases List.mem_cons.1 mem_j with same | other
    · exact same ▸ mem
    · exact inv.pendingLive j other

/-- A node off every list is given back: its timer is gone. -/
theorem WheelInv.release (inv : WheelInv w (i :: pending)) :
    WheelInv { w.release i with size := (w.release i).size - 1 } pending ∧
      (w.release i).timer? = update w.timer? i none := by
  obtain ⟨chains, free, lists⟩ := inv.lists
  obtain ⟨once, nodup⟩ := List.nodup_cons.1 inv.pendingNodup
  have mem := inv.pendingLive i (by simp)
  refine ⟨⟨⟨chains, i :: free, ?_⟩, ?_, ?_, nodup⟩, release_timer?⟩
  · exact (lists.release (mem_live.1 mem).1 once).congr rfl rfl rfl rfl rfl rfl
  · have counted : w.size = w.live.card := inv.counted
    show w.size - 1 = (w.release i).live.card
    rw [release_live, Finset.card_erase_of_mem mem, counted]
  · intro j mem_j
    show j ∈ (w.release i).live
    rw [release_live, Finset.mem_erase]
    exact ⟨fun eq => once (eq ▸ mem_j), inv.pendingLive j (by simp [mem_j])⟩

theorem WheelInv.fire (inv : WheelInv w (i :: pending)) (fired : List TimerEvent) :
    WheelInv (w.fire i fired).1 pending ∧ (w.fire i fired).2 = fired ++ [w.eventOf i] ∧
      Fires w [w.eventOf i] (w.fire i fired).1 := by
  have mem := inv.pendingLive i (by simp)
  obtain ⟨inv', gone⟩ := inv.release
  refine ⟨inv', rfl, ⟨by simp, ?_, ?_⟩⟩
  · intro e mem_e
    rw [List.mem_singleton.1 mem_e]
    exact timer?_of_live mem
  · intro j
    have view : (w.fire i fired).1.timer? j = (w.release i).timer? j := rfl
    rw [view, gone, update_apply]
    simp [eventOf]

end Invariant

/-! ## The public operations -/

section Allocate

variable {w w' : TimingWheel} {chains : Nat → List Nat} {free : List Nat} {i : Nat}

/-- The first free node is taken off the free list. -/
theorem Lists.takeFree (lists : Lists w [] chains (i :: free)) :
    Lists { w with freeHead := (w.nodes i).next } [i] chains free := by
  obtain ⟨-, name, -⟩ := (lists.onFree i).1 (by simp)
  obtain ⟨fresh, nodup⟩ := List.nodup_cons.1 lists.freeNodup
  refine ⟨lists.chain, ?_, nodup, ?_, lists.freeLinks.2, ?_, lists.named⟩
  · intro l lt j
    rw [lists.onChain l lt j]
    constructor
    · rintro ⟨lt_j, name_j, -⟩
      refine ⟨lt_j, name_j, ?_⟩
      intro here
      rw [List.mem_singleton.1 here, name] at name_j
      omega
    · rintro ⟨lt_j, name_j, -⟩
      exact ⟨lt_j, name_j, by simp⟩
  · have next : w.nexts i = free.head?.or none := lists.freeLinks.1
    rw [Option.or_none] at next
    exact next
  · intro j
    have all := lists.onFree j
    rw [List.mem_cons] at all
    constructor
    · intro mem
      obtain ⟨lt_j, name_j, -⟩ := all.1 (Or.inr mem)
      refine ⟨lt_j, name_j, ?_⟩
      intro here
      exact fresh (List.mem_singleton.1 here ▸ mem)
    · rintro ⟨lt_j, name_j, other⟩
      rcases all.2 ⟨lt_j, name_j, by simp⟩ with here | mem
      · exact absurd (List.mem_singleton.2 here) other
      · exact mem

/-- The slab with one more node. -/
def grown (w : TimingWheel) : TimingWheel :=
  { w with nodes := update w.nodes w.slab {}, slab := w.slab + 1 }

theorem grown_nodes {j : Nat} (ne : j ≠ w.slab) : w.grown.nodes j = w.nodes j :=
  update_of_ne ne _ _

theorem grown_listOf (j : Nat) : w.grown.listOf j = if j = w.slab then kFree else w.listOf j := by
  unfold listOf
  split
  · rename_i here
    rw [here]
    simp [grown]
  · rename_i ne
    rw [grown_nodes ne]

/-- The new node is in use nowhere, and the others are the entries there were. -/
theorem grown_used (j : Nat) :
    (j < w.grown.slab ∧ w.grown.listOf j ≠ kFree) ↔ (j < w.slab ∧ w.listOf j ≠ kFree) := by
  have slab : w.grown.slab = w.slab + 1 := rfl
  rw [grown_listOf, slab]
  by_cases here : j = w.slab
  · simp [here]
  · have lt : j < w.slab + 1 ↔ j < w.slab := by omega
    simp [here, lt]

theorem grown_live : w.grown.live = w.live := by
  ext j
  rw [mem_live, mem_live, grown_used]

theorem grown_timer? : w.grown.timer? = w.timer? := by
  funext j
  unfold timer?
  by_cases used : j < w.slab ∧ w.listOf j ≠ kFree
  · rw [if_pos used, if_pos ((grown_used j).2 used)]
    unfold timerOf
    rw [grown_nodes (by omega)]
  · rw [if_neg used, if_neg (fun h => used ((grown_used j).1 h))]

theorem Lists.grow (lists : Lists w [] chains free) : Lists w.grown [w.slab] chains free := by
  have slab : w.grown.slab = w.slab + 1 := rfl
  -- what the lists say about the nodes there were
  have inside : ∀ l j, (j < w.slab ∧ w.listOf j = l ∧ j ∉ ([] : List Nat)) ↔
      (j < w.grown.slab ∧ w.grown.listOf j = l ∧ j ∉ [w.slab]) := by
    intro l j
    rw [grown_listOf, slab]
    by_cases here : j = w.slab
    · simp [here]
    · have lt : j < w.slab + 1 ↔ j < w.slab := by omega
      simp [here, lt]
  refine ⟨?_, ?_, lists.freeNodup, lists.freeFirst, lists.freeLinks.congr ?_, ?_, ?_⟩
  · intro l lt
    refine (lists.chain l lt).congr rfl ?_ ?_
    · intro j mem
      have lt_j := ((lists.onChain l lt j).1 mem).1
      unfold prevs
      rw [grown_nodes (by omega)]
    · intro j mem
      have lt_j := ((lists.onChain l lt j).1 mem).1
      unfold nexts
      rw [grown_nodes (by omega)]
  · intro l lt j
    rw [lists.onChain l lt j, inside]
  · intro j mem
    have lt_j := ((lists.onFree j).1 mem).1
    unfold nexts
    rw [grown_nodes (by omega)]
  · intro j
    rw [lists.onFree j, inside]
  · intro j lt
    rw [grown_listOf]
    split
    · exact le_refl kFree
    · exact lists.named j (by omega)

theorem allocate_spec (inv : WheelInv w []) (taken : w.allocate = some (i, w')) :
    (∃ chains free, Lists w' [i] chains free) ∧ i < w'.slab ∧ i ∉ w.live ∧ w'.live = w.live ∧
      w'.timer? = w.timer? ∧ w'.size = w.size := by
  obtain ⟨chains, free, lists⟩ := inv.lists
  unfold allocate at taken
  split at taken
  · rename_i head
    cases taken
    rw [lists.freeFirst] at head
    cases free with
    | nil => cases head
    | cons first rest =>
      cases head
      obtain ⟨bound, name, -⟩ := (lists.onFree i).1 (by simp)
      exact ⟨⟨chains, rest, lists.takeFree⟩, bound, fun mem => (mem_live.1 mem).2 name, rfl,
        rfl, rfl⟩
  · split at taken
    swap
    · cases taken
    cases taken
    refine ⟨⟨chains, free, lists.grow⟩, Nat.lt_succ_self _, ?_, grown_live, grown_timer?, rfl⟩
    intro mem
    exact absurd (mem_live.1 mem).1 (Nat.lt_irrefl _)

end Allocate

section Operations

variable {w w' : TimingWheel} {handle : TimerHandle}

/-- `schedule` takes an entry that was free and puts the timer into it. -/
theorem schedule_spec {deadline kind id : Nat} (inv : WheelInv w [])
    (scheduled : w.schedule deadline kind id = some (handle, w')) :
    WheelInv w' [] ∧ w.timer? handle.index = none ∧
      w'.timer? = update w.timer? handle.index
        (some ⟨handle.generation, deadline, id, kind⟩) := by
  unfold schedule at scheduled
  split at scheduled
  · cases scheduled
  rename_i index taken allocated
  obtain ⟨⟨chains, free, lists⟩, bound, unused, same_live, same_timers, same_size⟩ :=
    allocate_spec inv allocated
  set filled := taken.fill index deadline kind id with filled_def
  have names : filled.listOf = taken.listOf := fill_list _ _ _ _ _
  have bound' : index < filled.slab := bound
  have lists' : Lists filled [index] chains free :=
    lists.congr (fill_prev _ _ _ _ _) (fill_next _ _ _ _ _) names rfl rfl rfl
  obtain ⟨l, list, placed⟩ := place_eq filled index
  rw [placed] at scheduled
  cases scheduled
  have live_filled : filled.live = w.live := by
    rw [← same_live]
    unfold live
    rw [names]
    rfl
  have timer_index : filled.timerOf index
      = ⟨((filled.link index l).nodes index).generation, deadline, id, kind⟩ := by
    have timer : filled.timerOf index = ⟨(taken.nodes index).generation, deadline, id, kind⟩ := by
      rw [filled_def, fill_timer, if_pos rfl]
    have generation : ((filled.link index l).nodes index).generation
        = (taken.nodes index).generation :=
      (congrArg Timer.generation (link_timer filled index l index)).trans
        (congrArg Timer.generation timer)
    rw [timer, generation]
  refine ⟨⟨⟨update chains l (index :: chains l), free, ?_⟩, ?_, by simp, List.nodup_nil⟩,
    ?_, ?_⟩
  · exact (lists'.link bound' list (by simp)).congr rfl rfl rfl rfl rfl rfl
  · show filled.size + 1 = (filled.link index l).live.card
    have size : filled.size = w.size := same_size
    rw [link_live bound' list, live_filled, Finset.card_insert_of_notMem unused, size, inv.counted]
  · have := mem_live_iff_timer.not.1 unused
    simpa using this
  · show (filled.link index l).timer? = _
    rw [link_timer? bound' list, timer_index]
    funext j
    by_cases here : j = index
    · simp [here]
    · rw [update_of_ne here, update_of_ne here, ← same_timers]
      have timer : filled.timerOf j = taken.timerOf j := by
        rw [filled_def, fill_timer, if_neg here]
      unfold timer?
      rw [names, timer]
      rfl

/-- There is an entry to take while fewer timers are pending than the slab can hold. -/
theorem schedule_some (inv : WheelInv w []) (room : w.live.card < kMaxNodes) (deadline kind id : Nat) :
    ∃ result, w.schedule deadline kind id = some result := by
  obtain ⟨chains, free, lists⟩ := inv.lists
  have allocated : ∃ taken, w.allocate = some taken := by
    unfold allocate
    split
    · exact ⟨_, rfl⟩
    rename_i no_head
    -- no entry is free, so every entry is in use
    have none_free : free = [] := List.head?_eq_none_iff.1 (lists.freeFirst.symm.trans no_head)
    have all_live : w.live = Finset.range w.slab := by
      ext i
      rw [mem_live, Finset.mem_range]
      refine ⟨And.left, fun lt => ⟨lt, fun name => ?_⟩⟩
      have on_free := (lists.onFree i).2 ⟨lt, name, by simp⟩
      rw [none_free] at on_free
      cases on_free
    rw [all_live, Finset.card_range] at room
    exact ⟨_, if_pos room⟩
  obtain ⟨⟨index, taken⟩, allocated⟩ := allocated
  unfold schedule
  rw [allocated]
  exact ⟨_, rfl⟩

/-- `cancel` of a timer that is pending takes it out. -/
theorem cancel_spec {timer : Timer} (inv : WheelInv w []) (held : w.timer? handle.index = some timer)
    (current : timer.generation = handle.generation) :
    WheelInv (w.cancel handle).2 [] ∧
      (w.cancel handle).2.timer? = update w.timer? handle.index none := by
  have mem : handle.index ∈ w.live := mem_live_iff_timer.2 (by simp [held])
  obtain ⟨bound, used⟩ := mem_live.1 mem
  have generation : (w.nodes handle.index).generation = handle.generation := by
    rw [timer?_of_live mem] at held
    cases held
    exact current
  have unfolded : (w.cancel handle).2
      = { (w.unlink handle.index).release handle.index with
          size := ((w.unlink handle.index).release handle.index).size - 1 } := by
    have in_slab : ¬ w.slab ≤ handle.index := by omega
    have used' : (w.nodes handle.index).list ≠ kFree := used
    simp [cancel, in_slab, used', generation]
  obtain ⟨inv', gone⟩ := (inv.unlink mem (by simp)).release
  rw [unfolded]
  refine ⟨inv', ?_⟩
  show ((w.unlink handle.index).release handle.index).timer? = _
  rw [gone, unlink_timer?]

end Operations

/-! ## The heads of lists, and the slots that come up -/

section Advance

variable {w : TimingWheel}

theorem head_live {l i : Nat} (inv : WheelInv w []) (list : l < kFree) (head : w.heads l = some i) :
    i ∈ w.live := by
  obtain ⟨chains, free, lists⟩ := inv.lists
  rw [(lists.chain l list).first] at head
  obtain ⟨bound, name, -⟩ := (lists.onChain l list i).1 (List.mem_of_head? head)
  exact mem_live.2 ⟨bound, by omega⟩

variable {next : Expiration}

theorem expirationOf_bounds {level : Nat} (lt : level < kLevels)
    (found : w.expirationOf level = some next) :
    next.level * kSlotsPerLevel + next.slot < kFree := by
  unfold expirationOf at found
  dsimp only at found
  split at found
  · cases found
  · cases found
    have slot := @Nat.and_le_right
      (((w.now >>> shiftOf level &&& kSlotMask) + 1 &&& kSlotMask)
        + countrZero (rotr (w.occupied level) ((w.now >>> shiftOf level &&& kSlotMask) + 1 &&& kSlotMask)))
      kSlotMask
    have mask : kSlotMask = 63 := by decide
    have slots : kSlotsPerLevel = 64 := by decide
    have levels : kLevels = 6 := by decide
    have free : kFree = 385 := by decide
    simp only [mask, slots, levels, free] at slot lt ⊢
    omega

theorem nextExpiration_bounds (found : w.nextExpiration = some next) :
    next.level * kSlotsPerLevel + next.slot < kFree := by
  have fold : ∀ (levels : List Nat) (best : Option Expiration), (∀ l ∈ levels, l < kLevels) →
      (∀ e, best = some e → e.level * kSlotsPerLevel + e.slot < kFree) →
      ∀ e, levels.foldl (fun best level => earlier best (w.expirationOf level)) best = some e →
        e.level * kSlotsPerLevel + e.slot < kFree := by
    intro levels
    induction levels with
    | nil => exact fun best _ bounds => bounds
    | cons level levels ih =>
      intro best small bounds
      refine ih _ (fun l mem => small l (by simp [mem])) ?_
      intro e picked
      have lt := small level (by simp)
      dsimp only [earlier] at picked
      split at picked
      · exact bounds e picked
      · rename_i other
        cases picked
        exact expirationOf_bounds lt other
      · rename_i best' next' other
        split at picked
        · cases picked
          exact expirationOf_bounds lt other
        · exact bounds e picked
  exact fold (List.range kLevels) none (by simp) (by simp) next found

end Advance

end TimingWheel

end Baton
