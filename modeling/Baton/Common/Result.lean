/-
# Common.Result — error codes and results

baton reports expected failures as values (`common/result.h`).  `Result` is
`Except Error`; the message of an error is kept as the source formats it.
-/

namespace Baton

set_option autoImplicit false

inductive ErrorCode where
  | kInvalidArgument
  | kNotFound
  | kAlreadyExists
  | kFailedPrecondition
  | kStaleToken
  | kLimitExceeded
  | kUnauthenticated
  | kProtocol
  | kIo
  | kCorruption
  | kUnavailable
  | kInternal
  deriving DecidableEq, Repr

structure Error where
  code : ErrorCode
  message : String
  deriving DecidableEq, Repr

abbrev Result (α : Type) := Except Error α

namespace Result

variable {α : Type}

/-- `Result::ok`. -/
def ok? : Result α → Bool
  | .ok _ => true
  | .error _ => false

end Result

theorem Result.exists_error {α : Type} {r : Result α} (failed : r.ok? = false) :
    ∃ e, r = .error e := by
  cases r with
  | error e => exact ⟨e, rfl⟩
  | ok => cases failed

/-- What `BATON_ASSIGN_OR_RETURN` passed on. -/
theorem Result.bind_ok {α β : Type} {r : Result α} {f : α → Result β} {b : β}
    (returned : (r >>= f) = .ok b) : ∃ a, r = .ok a ∧ f a = .ok b := by
  cases r with
  | error e => cases returned
  | ok a => exact ⟨a, rfl, returned⟩

/-- A check that returns an error was passed. -/
theorem Result.check_ok {α : Type} {c : Prop} [Decidable c] {e : Error} {r : Result α} {a : α}
    (returned : (if c then .error e else r) = .ok a) : ¬ c ∧ r = .ok a := by
  by_cases failed : c
  · rw [if_pos failed] at returned
    cases returned
  · rw [if_neg failed] at returned
    exact ⟨failed, returned⟩

end Baton
