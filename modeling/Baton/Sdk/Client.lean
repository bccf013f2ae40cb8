/-
# Sdk.Client — one call of the client, and what its exception says

`client.py` sends a request over a connection that may fail, and sends it again as long
as that is allowed: `_call` is a loop over attempts, each of which connects if it has to
and makes one `Connection.call`.  The network is what happens to each attempt (`Dial`,
`Exchange`), together with what the clock reads after it.

`maybe_executed` is computed per attempt, and the exception that leaves the loop is the
one of the last attempt.  So the flag is right about the last attempt (`unsent_iff`)
and about nothing else (`maybeExecuted_iff`).
-/
import Baton.Common.Result
import Mathlib.Algebra.Order.Ring.Unbundled.Rat
import Mathlib.Data.List.Basic

namespace Baton.Sdk

set_option autoImplicit false

/-- An error reply. -/
structure ServerError where
  code : String
  message : String
  deriving DecidableEq, Repr

structure ConnectionLost where
  message : String
  maybeExecuted : Bool
  deriving DecidableEq, Repr

/-- What a call raises: the class of a server error follows from its code. -/
inductive CallError where
  | connectionLost (e : ConnectionLost)
  | serverReply (e : ServerError)
  /-- `EnqueueUncertain` -/
  | enqueueUncertain (message : String)
  deriving DecidableEq, Repr

/-! ## One attempt -/

/-- The settings of a `Connection`. -/
structure Connection where
  host : String := "127.0.0.1"
  port : Nat := 7379
  password : Option String := none
  name : Option String := none

/-- What happens to a request on an open socket. -/
inductive Exchange (α : Type) where
  /-- `settimeout` fails -/
  | unsent (error : String)
  /-- `sendall` or the wait for the reply fails; the request may have reached the socket -/
  | lost (error : String) (reached : Bool)
  | answered (reply : Except ServerError α)

/-- What happens when a connection is opened. -/
structure Dial where
  /-- why `create_connection` fails -/
  refused : Option String := none
  auth : Exchange Unit := .answered (.ok ())
  setName : Exchange Unit := .answered (.ok ())

/-- An attempt, and what the clock reads when it has failed. -/
structure Attempt (α : Type) where
  dial : Dial := {}
  request : Exchange α
  now : ℚ := 0

namespace Exchange

variable {α : Type}

/-- Whether a byte of the request reached the socket. -/
def reached : Exchange α → Bool
  | unsent _ => false
  | lost _ reached => reached
  | answered _ => true

end Exchange

namespace Connection

variable {α : Type}

/-- `Connection.call` on an open socket.  `sent` is set before `sendall`. -/
def call (command : String) : Exchange α → Except ConnectionLost (Except ServerError α)
  | .unsent error => .error ⟨s!"{command}: {error}", false⟩
  | .lost error _ => .error ⟨s!"{command}: {error}", true⟩
  | .answered reply => .ok reply

/-- A failure of the handshake has executed nothing. -/
def shake (command : String) (exchange : Exchange Unit) : Except CallError (Except ServerError Unit) :=
  match call command exchange with
  | .error e => .error (.connectionLost ⟨e.message, false⟩)
  | .ok reply => .ok reply

def authenticate (c : Connection) (exchange : Exchange Unit) : Except CallError Unit :=
  match c.password with
  | none => .ok ()
  | some _ =>
    match shake "AUTH" exchange with
    | .error e => .error e
    | .ok (.error e) => .error (.serverReply e)
    | .ok (.ok ()) => .ok ()

/-- The reply to `CLIENT SETNAME` is not looked at. -/
def introduce (c : Connection) (exchange : Exchange Unit) : Except CallError Unit :=
  match c.name with
  | none => .ok ()
  | some name => if name.isEmpty then .ok () else (shake "CLIENT" exchange).map fun _ => ()

/-- `Connection.connect`. -/
def connect (c : Connection) (dial : Dial) : Except CallError Unit :=
  match dial.refused with
  | some error => .error (.connectionLost ⟨s!"cannot connect to {c.host}:{c.port}: {error}", false⟩)
  | none =>
    match c.authenticate dial.auth with
    | .error e => .error e
    | .ok () => c.introduce dial.setName

/-- What becomes of an attempt to open a connection. -/
inductive Opening where
  /-- it is refused, or lost in the handshake -/
  | lost
  /-- the server does not accept the password -/
  | denied
  | opened
  deriving DecidableEq, Repr

def opening (c : Connection) (dial : Dial) : Opening :=
  match dial.refused, c.password, dial.auth with
  | some _, _, _ => .lost
  | none, some _, .unsent _ => .lost
  | none, some _, .lost _ _ => .lost
  | none, some _, .answered (.error _) => .denied
  | none, _, _ =>
    match c.name.any (!·.isEmpty), dial.setName with
    | true, .unsent _ => .lost
    | true, .lost _ _ => .lost
    | _, _ => .opened

end Connection

namespace Attempt

variable {α : Type}

/-- The `try` block of `_call`. -/
def run (c : Connection) (command : String) (connected : Bool) (a : Attempt α) :
    Except CallError (Except ServerError α) :=
  match if connected then .ok () else c.connect a.dial with
  | .error e => .error e
  | .ok () =>
    match Connection.call command a.request with
    | .error e => .error (.connectionLost e)
    | .ok reply => .ok reply

/-- Whether a byte of the request reached the socket in this attempt. -/
def reached (c : Connection) (connected : Bool) (a : Attempt α) : Bool :=
  match if connected then .ok () else c.connect a.dial with
  | .error _ => false
  | .ok () => a.request.reached

/-- The attempt fails before its request is handed to the socket: the connection is refused
or lost in the handshake, or `settimeout` fails. -/
def unsent (c : Connection) (connected : Bool) (a : Attempt α) : Bool :=
  match if connected then .opened else c.opening a.dial, a.request with
  | .lost, _ => true
  | .opened, .unsent _ => true
  | _, _ => false

end Attempt

/-! ## The loop -/

variable {α : Type}

/-- What the loop makes of an attempt: it leaves with a result, or goes on. -/
def verdict (repeatable : Bool) (deadline delay now : ℚ) :
    Except CallError (Except ServerError α) → Option (Except CallError α)
  | .error (.connectionLost e) =>
    if e.maybeExecuted && !repeatable then some (.error (.connectionLost e))
    else if deadline < now + delay then some (.error (.connectionLost e))
    else none
  | .error e => some (.error e)
  | .ok (.ok value) => some (.ok value)
  | .ok (.error e) =>
    if e.code ≠ "UNAVAILABLE" ∨ deadline < now + delay then some (.error (.serverReply e)) else none

/-- The loop of `_call` over the attempts it makes, none if it makes others: the last
one and no earlier one ends it.  Whatever is retried has closed the connection. -/
def callLoop {α : Type} (c : Connection) (command : String) (repeatable : Bool) (deadline : ℚ) :
    ℚ → Bool → List (Attempt α) → Option (Except CallError α)
  | _, _, [] => none
  | delay, connected, a :: rest =>
    match verdict repeatable deadline delay a.now (a.run c command connected) with
    | some result => if rest.isEmpty then some result else none
    | none => callLoop c command repeatable deadline (min (delay * 2) 1) false rest

/-- `Client._call`, started at `now`. -/
def call (c : Connection) (command : String) (repeatable : Bool) (retryFor now : ℚ)
    (connected : Bool) (attempts : List (Attempt α)) : Option (Except CallError α) :=
  callLoop c command repeatable (now + retryFor) (1 / 20) connected attempts

/-- `Client.enqueue`, around `_call`. -/
def enqueue (c : Connection) (key : Option String) (retryFor now : ℚ) (connected : Bool)
    (attempts : List (Attempt Nat)) : Option (Except CallError Nat) :=
  (call c "ENQUEUE" key.isSome retryFor now connected attempts).map fun
    | .error (.connectionLost e) =>
      if e.maybeExecuted && key.isNone then
        .error (.enqueueUncertain (s!"the connection failed after ENQUEUE was sent ({e.message}); the job " ++
          "may or may not exist. Pass key= to make enqueueing safe to retry."))
      else .error (.connectionLost e)
    | result => result

/-- The attempts of a call, each with whether it finds a connection open. -/
def staged {α : Type} : Bool → List (Attempt α) → List (Bool × Attempt α)
  | _, [] => []
  | connected, a :: rest => (connected, a) :: staged false rest

/-- What each attempt of a call came to, and whether it reached the socket. -/
def made (c : Connection) (command : String) (connected : Bool) (attempts : List (Attempt α)) :
    List (Bool × Except CallError (Except ServerError α)) :=
  (staged connected attempts).map fun m => (m.2.reached c m.1, m.2.run c command m.1)

section Loop

variable {α : Type} {c : Connection} {command : String} {repeatable connected : Bool} {deadline delay now : ℚ}
  {attempts : List (Attempt α)} {result : Except CallError α}

/-- The result of an attempt that was not sent. -/
def Unsent (result : Except CallError (Except ServerError α)) : Prop :=
  ∃ message, result = .error (.connectionLost ⟨message, false⟩)

/-- Opening a connection fails without a request, or is refused by the server. -/
theorem connect_opening (c : Connection) (dial : Dial) :
    match c.opening dial with
    | .lost => ∃ message, c.connect dial = .error (.connectionLost ⟨message, false⟩)
    | .denied => ∃ reply, c.connect dial = .error (.serverReply reply)
    | .opened => c.connect dial = .ok () := by
  have named : match c.name.any (!·.isEmpty), dial.setName with
      | true, .unsent _ => ∃ message, c.introduce dial.setName = .error (.connectionLost ⟨message, false⟩)
      | true, .lost _ _ => ∃ message, c.introduce dial.setName = .error (.connectionLost ⟨message, false⟩)
      | _, _ => c.introduce dial.setName = .ok () := by
    unfold Connection.introduce
    cases c.name with
    | none => rfl
    | some name =>
      cases empty : name.isEmpty <;> cases dial.setName <;>
        simp [empty, Connection.shake, Connection.call, Except.map]
  unfold Connection.opening Connection.connect Connection.authenticate
  cases dial.refused with
  | some error => exact ⟨_, rfl⟩
  | none =>
    cases c.password with
    | none =>
      revert named
      cases c.name.any (!·.isEmpty) <;> cases dial.setName <;> exact id
    | some password =>
      cases dial.auth with
      | unsent error | lost error => exact ⟨_, rfl⟩
      | answered reply =>
        cases reply with
        | error e => exact ⟨e, rfl⟩
        | ok _ =>
          revert named
          cases c.name.any (!·.isEmpty) <;> cases dial.setName <;> exact id

/-- The four ways an attempt ends.  The flag of a lost connection is false only where no
byte of the request of this attempt reached the socket. -/
theorem attempt_cases (c : Connection) (command : String) (connected : Bool) (a : Attempt α) :
    (Unsent (a.run c command connected) ∧ a.reached c connected = false ∧ a.unsent c connected = true) ∨
      a.unsent c connected = false ∧
        ((∃ e, a.run c command connected = .error (.serverReply e) ∧ a.reached c connected = false) ∨
          (∃ message, a.run c command connected = .error (.connectionLost ⟨message, true⟩)) ∨
          ∃ reply, a.run c command connected = .ok reply ∧ a.reached c connected = true) := by
  -- an open connection is not opened again
  have start : match if connected then .opened else c.opening a.dial with
      | .lost => ∃ message, (if connected then .ok () else c.connect a.dial) =
          .error (.connectionLost ⟨message, false⟩)
      | .denied => ∃ e, (if connected then .ok () else c.connect a.dial) = .error (.serverReply e)
      | .opened => (if connected then .ok () else c.connect a.dial) = .ok () := by
    cases connected with
    | true => rfl
    | false => exact connect_opening c a.dial
  unfold Attempt.run Attempt.reached Attempt.unsent
  generalize (if connected then .opened else c.opening a.dial : Connection.Opening) = event at start ⊢
  cases event with
  | lost =>
    obtain ⟨message, failed⟩ := start
    rw [failed]
    exact Or.inl ⟨⟨message, rfl⟩, rfl, rfl⟩
  | denied =>
    obtain ⟨e, failed⟩ := start
    rw [failed]
    exact Or.inr ⟨rfl, Or.inl ⟨e, rfl, rfl⟩⟩
  | opened =>
    rw [show _ = _ from start]
    cases a.request with
    | unsent error => exact Or.inl ⟨⟨_, rfl⟩, rfl, rfl⟩
    | lost error reached => exact Or.inr ⟨rfl, Or.inr (Or.inl ⟨_, rfl⟩)⟩
    | answered reply => exact Or.inr ⟨rfl, Or.inr (Or.inr ⟨reply, rfl, rfl⟩)⟩

theorem unsent_iff (c : Connection) (command : String) (connected : Bool) (a : Attempt α) :
    a.unsent c connected = true ↔ Unsent (a.run c command connected) := by
  rcases attempt_cases c command connected a with ⟨failed, -, unsent⟩ | ⟨sent, other⟩
  · exact iff_of_true unsent failed
  · refine iff_of_false (sent ▸ Bool.false_ne_true) ?_
    rintro ⟨message, failed⟩
    rw [failed] at other
    rcases other with ⟨e, impossible, -⟩ | ⟨message', impossible⟩ | ⟨reply, impossible, -⟩ <;> cases impossible

variable {tried : Except CallError (Except ServerError α)}
  {m : Bool × Except CallError (Except ServerError α)}

/-- A result comes from the last attempt. -/
theorem verdict_some (ended : verdict repeatable deadline delay now tried = some result) :
    tried = result.map .ok ∨ ∃ e, tried = .ok (.error e) ∧ result = .error (.serverReply e) := by
  unfold verdict at ended
  split at ended
  · split at ended
    · cases ended
      exact Or.inl rfl
    split at ended
    · cases ended
      exact Or.inl rfl
    · cases ended
  · cases ended
    exact Or.inl rfl
  · cases ended
    exact Or.inl rfl
  · split at ended
    · cases ended
      exact Or.inr ⟨_, rfl, rfl⟩
    · cases ended

/-- A call that ends: every attempt but the last is made again, and the last ends it. -/
theorem callLoop_staged (ended : callLoop c command repeatable deadline delay connected attempts = some result) :
    ∃ earlier last, staged connected attempts = earlier ++ [last] ∧
      (∀ m ∈ earlier, ∃ delay now, verdict repeatable deadline delay now (m.2.run c command m.1) = none) ∧
      ∃ delay now, verdict repeatable deadline delay now (last.2.run c command last.1) = some result := by
  induction attempts generalizing delay connected with
  | nil => cases ended
  | cons a rest ih =>
    rw [callLoop] at ended
    rw [staged]
    cases decided : verdict repeatable deadline delay a.now (a.run c command connected) with
    | some result' =>
      rw [decided] at ended
      dsimp only at ended
      split at ended
      · rename_i empty
        cases ended
        rw [List.isEmpty_iff.1 empty]
        exact ⟨[], _, rfl, List.forall_mem_nil _, delay, a.now, decided⟩
      · cases ended
    | none =>
      rw [decided] at ended
      obtain ⟨earlier, last, split, again, final⟩ := ih ended
      rw [split]
      exact ⟨_ :: earlier, last, rfl, List.forall_mem_cons.2 ⟨⟨delay, a.now, decided⟩, again⟩, final⟩

/-- No attempt that was made again reached the socket, unless the last one was handed to it. -/
def Plain (c : Connection) (attempts : List (Bool × Attempt α)) : Prop :=
  ∀ earlier last, attempts = earlier ++ [last] → last.2.unsent c last.1 = true →
    ∀ m ∈ earlier, m.2.reached c m.1 = false

/-- `ConnectionLost` with `maybe_executed` false means that no byte of any attempt of the
call reached the socket, exactly when no attempt that was made again did before a last
one that was not sent. -/
theorem maybeExecuted_iff (c : Connection) (command : String) (repeatable : Bool) (retryFor now : ℚ)
    (connected : Bool) (attempts : List (Attempt α)) (result : Except CallError α)
    (ended : call c command repeatable retryFor now connected attempts = some result) :
    ((∃ message, result = .error (.connectionLost ⟨message, false⟩)) →
      ∀ m ∈ staged connected attempts, m.2.reached c m.1 = false) ↔ Plain c (staged connected attempts) := by
  obtain ⟨earlier, last, split, -, delay, clock, final⟩ := callLoop_staged ended
  -- the exception is the one of the last attempt
  have raised : (∃ message, result = .error (.connectionLost ⟨message, false⟩)) ↔
      last.2.unsent c last.1 = true := by
    rw [unsent_iff c command]
    constructor
    · rintro ⟨message, rfl⟩
      rcases verdict_some final with same | ⟨e, -, impossible⟩
      · exact ⟨message, same⟩
      · cases impossible
    · rintro ⟨message, failed⟩
      rcases verdict_some final with same | ⟨e, replied, -⟩
      · rw [failed] at same
        cases result with
        | ok value => cases same
        | error e =>
          cases same
          exact ⟨message, rfl⟩
      · rw [failed] at replied
        cases replied
  rw [raised, split]
  constructor
  · intro honest earlier' last' split' unsent m mem
    obtain ⟨rfl, same⟩ := List.append_inj' split' rfl
    cases same
    exact honest unsent m (List.mem_append_left _ mem)
  · intro plain unsent m mem
    rcases List.mem_append.1 mem with old | new
    · exact plain earlier last rfl unsent m old
    · rw [List.mem_singleton.1 new]
      rcases attempt_cases c command last.1 last.2 with ⟨-, silent, -⟩ | ⟨sent, -⟩
      · exact silent
      · rw [sent] at unsent
        cases unsent

/-- The first attempt is refused; in the second the connection is lost while the password is
sent, and the deadline has passed.  The exception says that nothing was executed. -/
theorem maybeExecuted_iff_handshake :
    let c : Connection := { password := some "secret" }
    let attempts : List (Attempt Unit) :=
      [{ dial := { refused := some "refused" }, request := .answered (.ok ()) },
        { dial := { auth := .lost "timed out" true }, request := .answered (.ok ()), now := 15 }]
    call c "ACK" true 15 0 false attempts = some (.error (.connectionLost ⟨"AUTH: timed out", false⟩)) ∧
      Plain c (staged false attempts) ∧ ∀ m ∈ staged false attempts, m.2.reached c m.1 = false := by
  intro c attempts
  have ended : call c "ACK" true 15 0 false attempts =
      some (.error (.connectionLost ⟨"AUTH: timed out", false⟩)) := by decide +kernel
  have plain : Plain c (staged false attempts) := by
    intro earlier last split _ m mem
    have silent : ∀ m ∈ staged false attempts, m.2.reached c m.1 = false := by
      simp only [attempts, staged, List.forall_mem_cons]
      exact ⟨rfl, rfl, List.forall_mem_nil _⟩
    exact silent m (split ▸ List.mem_append_left _ mem)
  exact ⟨ended, plain, (maybeExecuted_iff _ _ _ _ _ _ _ _ ended).2 plain ⟨_, rfl⟩⟩

/-- An ACK is sent and its connection lost; the attempt after it is refused past the
deadline, and the exception says that nothing was executed. -/
theorem sent_but_not_flagged : let attempts : List (Attempt Unit) :=
      [{ request := .lost "timed out" true },
        { dial := { refused := some "refused" }, request := .unsent "", now := 15 }]
    call {} "ACK" true 15 0 false attempts =
        some (.error (.connectionLost ⟨"cannot connect to 127.0.0.1:7379: refused", false⟩)) ∧
      (staged false attempts).map (fun m => m.2.reached {} m.1) = [true, false] := by
  decide +kernel

end Loop

end Baton.Sdk
