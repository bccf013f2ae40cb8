/-
# State.Job — jobs, and what they cost in memory

`state/job.h`, `state/shared_bytes.h` and the memory estimate of `state/state.cpp`.
Times are milliseconds as integers (`common/clock.h`); a monotonic time is never
negative.  A queue is named, not pointed at.  The two derived fields of a job, its
heap index and its timer, are kept beside the job table (`State.State`), keyed by
the job id.

The memory estimate counts what a `std::string` has allocated, which the source
asks the library for.  So a string is its bytes and its capacity, and `Platform`
is what the library and the compiler decide: the size of a `Job`, the capacity a
new string gets and the capacity a string has after an assignment.
-/
import Baton.Common.Codec
import Baton.Sched.TimingWheel

namespace Baton

set_option autoImplicit false

structure StdString where
  bytes : Bytes
  capacity : Nat
  deriving DecidableEq, Repr

structure Platform where
  sizeofJob : Nat
  inlineCapacity : Nat
  /-- The capacity of a string made from so many bytes. -/
  constructed : Nat → Nat
  /-- The capacity of a string of some capacity after an assignment of so many bytes. -/
  assigned : Nat → Nat → Nat

namespace Platform

variable (platform : Platform)

def string (bytes : Bytes) : StdString := ⟨bytes, platform.constructed bytes.length⟩

/-- `std::string::assign`. -/
def assign (s : StdString) (bytes : Bytes) : StdString :=
  ⟨bytes, platform.assigned s.capacity bytes.length⟩

def stringHeapBytes (s : StdString) : Nat :=
  if s.capacity ≤ platform.inlineCapacity then 0 else s.capacity + 1

end Platform

/-! ## Jobs -/

inductive JobState where
  | kScheduled
  | kReady
  | kLeased
  | kSucceeded
  | kDead
  | kCancelled
  deriving DecidableEq, Repr

namespace JobState

def all : List JobState := [kScheduled, kReady, kLeased, kSucceeded, kDead, kCancelled]

def toString : JobState → String
  | kScheduled => "scheduled"
  | kReady => "ready"
  | kLeased => "leased"
  | kSucceeded => "succeeded"
  | kDead => "dead"
  | kCancelled => "cancelled"

def isPending (s : JobState) : Bool := s = kScheduled ∨ s = kReady
def isTerminal (s : JobState) : Bool := s = kSucceeded ∨ s = kDead ∨ s = kCancelled

/-- The states in which the lease token of a job is set. -/
def holdsToken (s : JobState) : Bool := s = kLeased ∨ s = kSucceeded

end JobState

inductive FailureReason where
  | kWorkerFailed
  | kLeaseExpired
  deriving DecidableEq, Repr

structure Job where
  id : Nat
  queue : Bytes
  payload : Bytes
  priority : Int32 := 0
  attempts : UInt32 := 0
  maxAttempts : UInt32 := 0
  backoffBaseMs : UInt32 := 0
  backoffCapMs : UInt32 := 0
  state : JobState := .kScheduled
  runAt : Int := 0
  createdAt : Int := 0
  finishedAt : Int := 0
  leaseExpiresAt : Int := 0
  leaseToken : Nat := 0
  idemKey : StdString
  lastError : StdString
  deriving DecidableEq, Repr

structure IdemEntry where
  key : StdString
  jobId : Nat
  expiresAt : Int
  deriving DecidableEq, Repr

/-! ## The memory estimate -/

def kControlBlockBytes : Nat := 32
def kJobMapNodeBytes : Nat := 32
def kReadyHeapSlotBytes : Nat := 8
def kIdemNodeBytes : Nat := 96

/-- `SharedBytes::allocated_bytes`. -/
def allocatedBytes (payload : Bytes) : Nat :=
  if payload.isEmpty then 0 else payload.length + kControlBlockBytes

def Platform.jobBytes (platform : Platform) (job : Job) : Nat :=
  platform.sizeofJob + kJobMapNodeBytes + kReadyHeapSlotBytes + TimingWheel.kBytesPerTimer +
    allocatedBytes job.payload + platform.stringHeapBytes job.idemKey +
    platform.stringHeapBytes job.lastError

def Platform.idemBytes (platform : Platform) (entry : IdemEntry) : Nat :=
  kIdemNodeBytes + platform.stringHeapBytes entry.key

/-! ## The order of the ready heap -/

/-- `ReadyHeap::before`: the job with the higher priority runs first, then the one
that became runnable first, then the one with the lower id. -/
def Job.before (a b : Job) : Bool :=
  if a.priority ≠ b.priority then decide (b.priority < a.priority)
  else if a.runAt ≠ b.runAt then decide (a.runAt < b.runAt)
  else decide (a.id < b.id)

theorem Job.before_iff (a b : Job) :
    a.before b = true ↔ b.priority.toInt < a.priority.toInt ∨
      (a.priority.toInt = b.priority.toInt ∧
        (a.runAt < b.runAt ∨ (a.runAt = b.runAt ∧ a.id < b.id))) := by
  unfold Job.before
  rw [Int32.toInt_inj]
  by_cases priority : a.priority = b.priority
  · by_cases runAt : a.runAt = b.runAt
    · simp [priority, runAt]
    · simp [priority, runAt]
  · simp [priority, Int32.lt_iff_toInt_lt]

end Baton
