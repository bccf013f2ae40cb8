/-
# Sched.TimingWheel — the hashed hierarchical timing wheel

`sched/timing_wheel.{h,cpp}`.  Timers live in a slab of nodes and are linked by
index into one list per slot, a list of timers that are already due, and a list
of free nodes.  The slab (`nodes_`) is its length `slab` and the node at every
index; `kNil` is `none`; the arrays of list heads and of occupancy bitmaps are
functions of their index.  A bitmap is the number whose binary digits it is.

Ticks are natural numbers: an addition of ticks in the source does not leave
`uint64_t`.  `++node.generation` wraps around as `uint32_t` does.  `allocate`
fails where its `BATON_CHECK` fails.

The loops of `advance` are bounded: the two that follow a list by the number of
nodes, the outer one by the number of ticks to go, because each round moves `now`
forward.
-/
import Mathlib.Algebra.Order.Ring.Nat
import Mathlib.Logic.Function.Basic

namespace Baton

open Function

set_option autoImplicit false

structure TimerHandle where
  index : Nat
  generation : Nat
  deriving DecidableEq, Repr

structure TimerEvent where
  handle : TimerHandle
  deadline : Nat
  id : Nat
  kind : Nat
  deriving DecidableEq, Repr

namespace TimingWheel

def kLevels : Nat := 6
def kSlotBits : Nat := 6
def kSlotsPerLevel : Nat := 2 ^ kSlotBits
def kSpan : Nat := 2 ^ (kLevels * kSlotBits)
def kTopLevel : Nat := kLevels - 1
def kSlotMask : Nat := kSlotsPerLevel - 1
def kBytesPerTimer : Nat := 40

/-- The list of timers whose deadline is not in the future. -/
def kDueList : Nat := kLevels * kSlotsPerLevel
def kFree : Nat := kDueList + 1

/-- The number of slab entries an index of type `uint32_t` can name, `kNil` apart. -/
def kMaxNodes : Nat := 2 ^ 32 - 1

def shiftOf (level : Nat) : Nat := level * kSlotBits
def slotWidth (level : Nat) : Nat := 2 ^ shiftOf level

structure Node where
  deadline : Nat := 0
  id : Nat := 0
  prev : Option Nat := none
  next : Option Nat := none
  generation : Nat := 0
  list : Nat := kFree
  kind : Nat := 0

structure Expiration where
  level : Nat
  slot : Nat
  deadline : Nat

end TimingWheel

structure TimingWheel where
  now : Nat
  size : Nat := 0
  slab : Nat := 0
  nodes : Nat → TimingWheel.Node := fun _ => {}
  freeHead : Option Nat := none
  heads : Nat → Option Nat := fun _ => none
  occupied : Nat → Nat := fun _ => 0

namespace TimingWheel

/-! ## Slab and lists -/

def allocate (w : TimingWheel) : Option (Nat × TimingWheel) :=
  match w.freeHead with
  | some index => some (index, { w with freeHead := (w.nodes index).next })
  | none =>
    if w.slab < kMaxNodes then
      some (w.slab,
        { w with nodes := update w.nodes w.slab {}, slab := w.slab + 1 })
    else none

def release (w : TimingWheel) (index : Nat) : TimingWheel :=
  let node := w.nodes index
  { w with
    nodes := update w.nodes index
      { node with
        generation := (node.generation + 1) % 2 ^ 32
        list := kFree
        prev := none
        next := w.freeHead }
    freeHead := some index }

/-- `if (i != kNil) nodes_[i].prev = prev`. -/
def setPrev (nodes : Nat → Node) (i prev : Option Nat) : Nat → Node :=
  match i with
  | some i => update nodes i { nodes i with prev }
  | none => nodes

/-- `if (i != kNil) nodes_[i].next = next`. -/
def setNext (nodes : Nat → Node) (i next : Option Nat) : Nat → Node :=
  match i with
  | some i => update nodes i { nodes i with next }
  | none => nodes

/-- `occupied_[list >> kSlotBits] |= 1 << (list & kSlotMask)`. -/
def setOccupied (occupied : Nat → Nat) (list : Nat) : Nat → Nat :=
  let level := list / kSlotsPerLevel
  update occupied level (occupied level ||| 2 ^ (list % kSlotsPerLevel))

/-- `occupied_[list >> kSlotBits] &= ~(1 << (list & kSlotMask))`. -/
def clearOccupied (occupied : Nat → Nat) (list : Nat) : Nat → Nat :=
  let level := list / kSlotsPerLevel
  update occupied level
    (occupied level &&& (2 ^ 64 - 1 - 2 ^ (list % kSlotsPerLevel)))

def link (w : TimingWheel) (index list : Nat) : TimingWheel :=
  let next := w.heads list
  let nodes := update w.nodes index { w.nodes index with list, prev := none, next }
  { w with
    nodes := setPrev nodes next (some index)
    heads := update w.heads list (some index)
    occupied := if list < kDueList then setOccupied w.occupied list else w.occupied }

def unlink (w : TimingWheel) (index : Nat) : TimingWheel :=
  let node := w.nodes index
  let nodes := setNext w.nodes node.prev node.next
  let heads :=
    if node.prev = none then update w.heads node.list node.next else w.heads
  { w with
    nodes := setPrev nodes node.next node.prev
    heads
    occupied :=
      if heads node.list = none ∧ node.list < kDueList then clearOccupied w.occupied node.list
      else w.occupied }

/-- The list for a deadline in the future: the level is the position of the highest
bit in which it differs from the current time, and a deadline a full span away is
parked one slot behind the current position of the top level. -/
def slotFor (now deadline : Nat) : Nat :=
  let target := if kSpan ≤ deadline - now then now + kSpan - slotWidth kTopLevel else deadline
  let differing := (now ^^^ target) ||| kSlotMask
  let highestBit := Nat.log2 differing
  let level := min (highestBit / kSlotBits) kTopLevel
  let slot := (target >>> shiftOf level) &&& kSlotMask
  level * kSlotsPerLevel + slot

def place (w : TimingWheel) (index : Nat) : TimingWheel :=
  let deadline := (w.nodes index).deadline
  if deadline ≤ w.now then w.link index kDueList
  else w.link index (slotFor w.now deadline)

/-! ## Public API -/

def fill (w : TimingWheel) (index deadline kind id : Nat) : TimingWheel :=
  { w with nodes := update w.nodes index { w.nodes index with deadline, id, kind } }

def schedule (w : TimingWheel) (deadline kind id : Nat) : Option (TimerHandle × TimingWheel) :=
  match w.allocate with
  | none => none
  | some (index, w) =>
    let w := (w.fill index deadline kind id).place index
    some (⟨index, (w.nodes index).generation⟩, { w with size := w.size + 1 })

def cancel (w : TimingWheel) (handle : TimerHandle) : Bool × TimingWheel :=
  if w.slab ≤ handle.index then (false, w)
  else
    let node := w.nodes handle.index
    if node.list = kFree ∨ node.generation ≠ handle.generation then (false, w)
    else
      let w := (w.unlink handle.index).release handle.index
      (true, { w with size := w.size - 1 })

def eventOf (w : TimingWheel) (index : Nat) : TimerEvent :=
  let node := w.nodes index
  ⟨⟨index, node.generation⟩, node.deadline, node.id, node.kind⟩

def fire (w : TimingWheel) (index : Nat) (fired : List TimerEvent) :
    TimingWheel × List TimerEvent :=
  let event := w.eventOf index
  let w := w.release index
  ({ w with size := w.size - 1 }, fired ++ [event])

/-- `std::rotr` on 64 bits. -/
def rotr (x r : Nat) : Nat := (x >>> r ||| x <<< (64 - r)) % 2 ^ 64

/-- `std::countr_zero` on 64 bits. -/
def countrZero (x : Nat) : Nat := ((List.range 64).find? x.testBit).getD 64

/-- The next occupied slot of one level, and the tick it comes up at. -/
def expirationOf (w : TimingWheel) (level : Nat) : Option Expiration :=
  let occupied := w.occupied level
  if occupied = 0 then none
  else
    let nowSlot := (w.now >>> shiftOf level) &&& kSlotMask
    let first := (nowSlot + 1) &&& kSlotMask
    let distance := countrZero (rotr occupied first)
    let slot := (first + distance) &&& kSlotMask
    let rotation := slotWidth level * kSlotsPerLevel
    -- `now_ & ~(rotation - 1)`, with a rotation that is a power of two
    let rotationStart := w.now - w.now % rotation
    let deadline := rotationStart + slot * slotWidth level
    some ⟨level, slot, if deadline ≤ w.now then deadline + rotation else deadline⟩

def earlier (best : Option Expiration) (next : Option Expiration) : Option Expiration :=
  match best, next with
  | best, none => best
  | none, some next => some next
  | some best, some next => if next.deadline < best.deadline then some next else some best

def nextExpiration (w : TimingWheel) : Option Expiration :=
  (List.range kLevels).foldl (fun best level => earlier best (w.expirationOf level)) none

/-- `while (heads_[kDueList] != kNil)`. -/
def fireDue : Nat → TimingWheel → List TimerEvent → TimingWheel × List TimerEvent
  | 0, w, fired => (w, fired)
  | fuel + 1, w, fired =>
    match w.heads kDueList with
    | none => (w, fired)
    | some index =>
      let (w, fired) := (w.unlink index).fire index fired
      fireDue fuel w fired

/-- `while (index != kNil)`: the timers of a detached slot. -/
def sweep : Nat → Option Nat → TimingWheel → List TimerEvent → TimingWheel × List TimerEvent
  | 0, _, w, fired => (w, fired)
  | _ + 1, none, w, fired => (w, fired)
  | fuel + 1, some index, w, fired =>
    let following := (w.nodes index).next
    if (w.nodes index).deadline ≤ w.now then
      let (w, fired) := w.fire index fired
      sweep fuel following w fired
    else sweep fuel following (w.place index) fired

/-- Detaches a whole slot, then fires or re-places each of its timers. -/
def expireSlot (w : TimingWheel) (next : Expiration) (fired : List TimerEvent) :
    TimingWheel × List TimerEvent :=
  let list := next.level * kSlotsPerLevel + next.slot
  let index := w.heads list
  let w :=
    { w with
      now := next.deadline
      heads := update w.heads list none
      occupied := clearOccupied w.occupied list }
  sweep w.slab index w fired

/-- `while (next = next_expiration())`, up to the tick `now`. -/
def expireSlots (now : Nat) : Nat → TimingWheel → List TimerEvent → TimingWheel × List TimerEvent
  | 0, w, fired => (w, fired)
  | fuel + 1, w, fired =>
    match w.nextExpiration with
    | none => (w, fired)
    | some next =>
      if now < next.deadline then (w, fired)
      else
        let (w, fired) := w.expireSlot next fired
        expireSlots now fuel w fired

def advance (w : TimingWheel) (now : Nat) (fired : List TimerEvent) :
    TimingWheel × List TimerEvent :=
  let (w, fired) := fireDue w.slab w fired
  if now ≤ w.now then (w, fired)
  else
    let (w, fired) := expireSlots now (now - w.now) w fired
    ({ w with now }, fired)

def nextWakeup (w : TimingWheel) : Option Nat :=
  if (w.heads kDueList).isSome then some w.now
  else w.nextExpiration.map Expiration.deadline

end TimingWheel

end Baton
