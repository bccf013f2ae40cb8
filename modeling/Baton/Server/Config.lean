/-
# Server.Config — the command line

`server/config.{h,cpp}`: sizes and durations with a suffix, and the loop over the options.
What every accepted command line has in common is `ServerConfig.Accepted`: the engine's
limits that no option sets are their defaults, and those that one sets are in its range.

`BATON_REQUIREPASS` is the last argument of `parseArgs`: what the environment gives, if
anything.
-/
import Baton.Log.Writer
import Baton.State.Engine

namespace Baton

open Theory

set_option autoImplicit false

/-- An argument of the command line. -/
abbrev Text := List Char

inductive LogLevel where
  | kDebug
  | kInfo
  | kWarn
  | kError
  | kOff
  deriving DecidableEq, Repr

structure ServerConfig where
  dir : Text := ['.', '/', 'b', 'a', 't', 'o', 'n', '-', 'd', 'a', 't', 'a']
  /-- localhost only unless told otherwise -/
  bind : Text := ['1', '2', '7', '.', '0', '.', '0', '.', '1']
  port : Nat := 7379
  /-- empty: no authentication -/
  requirepass : Text := []
  fsync : FsyncPolicy := .kAlways
  fsyncIntervalMs : Int := 100
  segmentSize : Nat := 64 * 2 ^ 20
  /-- 0: only when asked to with the `SNAPSHOT` command -/
  snapshotEveryBytes : Nat := 256 * 2 ^ 20
  maxConnections : Nat := 10000
  /-- stop reading clients beyond this -/
  maxLogBacklogBytes : Nat := 64 * 2 ^ 20
  /-- close clients that do not read -/
  maxOutputBufferBytes : Nat := 64 * 2 ^ 20
  maxReserveTimeoutMs : Int := 3600000
  engine : EngineOptions := {}
  state : StateOptions := {}
  logLevel : LogLevel := .kInfo

inductive CliAction where
  | kRun
  | kShowHelp
  | kShowVersion
  deriving DecidableEq, Repr

structure ParsedArgs where
  action : CliAction := .kRun
  config : ServerConfig := {}

namespace Config

def bad (what : String) : Error := ⟨.kInvalidArgument, what⟩

/-! ## Numbers -/

/-- Splits `<digits><suffix>` and parses the digits. -/
def parseNumberWithSuffix (text : Text) : Result (Nat × Text) :=
  let digits := text.takeWhile Char.isDigit
  match parseDecimal digits with
  | none => .error (bad s!"'{String.ofList text}' is not a number")
  | some value =>
    if digits.isEmpty ∨ 2 ^ 64 ≤ value then .error (bad s!"'{String.ofList text}' is not a number")
    else .ok (value, text.drop digits.length)

def scaled (value factor : Nat) (text : Text) : Result Nat :=
  if factor ≠ 0 ∧ (2 ^ 63 - 1) / factor < value then .error (bad s!"'{String.ofList text}' is too large")
  else .ok (value * factor)

def parseSize (text : Text) : Result Nat := do
  let (value, suffix) ← parseNumberWithSuffix text
  if suffix = [] ∨ suffix = ['b'] then .ok value
  else if suffix = ['k'] ∨ suffix = ['k', 'b'] then scaled value (2 ^ 10) text
  else if suffix = ['m'] ∨ suffix = ['m', 'b'] then scaled value (2 ^ 20) text
  else if suffix = ['g'] ∨ suffix = ['g', 'b'] then scaled value (2 ^ 30) text
  else .error (bad s!"'{String.ofList text}': unknown size suffix (use k, m or g)")

/-- The milliseconds of a unit. -/
def unitMs (suffix : Text) : Nat :=
  if suffix = [] ∨ suffix = ['m', 's'] then 1
  else if suffix = ['s'] then 1000
  else if suffix = ['m'] then 60000
  else if suffix = ['h'] then 3600000
  else if suffix = ['d'] then 86400000
  else 0

def parseDurationMs (text : Text) : Result Int := do
  let (value, suffix) ← parseNumberWithSuffix text
  let factor := unitMs suffix
  if factor = 0 then
    .error (bad s!"'{String.ofList text}': unknown duration suffix (use ms, s, m, h, d)")
  else do
    let ms ← scaled value factor text
    .ok ms

def parseLogLevel (text : Text) : Option LogLevel :=
  if text = ['d', 'e', 'b', 'u', 'g'] then some .kDebug
  else if text = ['i', 'n', 'f', 'o'] then some .kInfo
  else if text = ['w', 'a', 'r', 'n'] then some .kWarn
  else if text = ['e', 'r', 'r', 'o', 'r'] then some .kError
  else if text = ['o', 'f', 'f'] then some .kOff
  else none

/-! ## Options -/

/-- The options that take a value. -/
inductive Flag where
  | dir
  | bind
  | port
  | requirepass
  | fsync
  | fsyncInterval
  | segmentSize
  | snapshotEvery
  | maxConnections
  | maxPayload
  | maxMemory
  | retainFinished
  | retainDead
  | idempotencyWindow
  | leaseGrace
  | logLevel
  deriving DecidableEq, Repr

namespace Flag

def all : List Flag :=
  [.dir, .bind, .port, .requirepass, .fsync, .fsyncInterval,
    .segmentSize, .snapshotEvery, .maxConnections, .maxPayload, .maxMemory, .retainFinished,
    .retainDead, .idempotencyWindow, .leaseGrace, .logLevel]

def text : Flag → Text
  | .dir => ['-', '-', 'd', 'i', 'r']
  | .bind => ['-', '-', 'b', 'i', 'n', 'd']
  | .port => ['-', '-', 'p', 'o', 'r', 't']
  | .requirepass => ['-', '-', 'r', 'e', 'q', 'u', 'i', 'r', 'e', 'p', 'a', 's', 's']
  | .fsync => ['-', '-', 'f', 's', 'y', 'n', 'c']
  | .fsyncInterval => ['-', '-', 'f', 's', 'y', 'n', 'c', '-', 'i', 'n', 't', 'e', 'r', 'v', 'a',
      'l']
  | .segmentSize => ['-', '-', 's', 'e', 'g', 'm', 'e', 'n', 't', '-', 's', 'i', 'z', 'e']
  | .snapshotEvery => ['-', '-', 's', 'n', 'a', 'p', 's', 'h', 'o', 't', '-', 'e', 'v', 'e', 'r',
      'y']
  | .maxConnections => ['-', '-', 'm', 'a', 'x', '-', 'c', 'o', 'n', 'n', 'e', 'c', 't', 'i', 'o',
      'n', 's']
  | .maxPayload => ['-', '-', 'm', 'a', 'x', '-', 'p', 'a', 'y', 'l', 'o', 'a', 'd']
  | .maxMemory => ['-', '-', 'm', 'a', 'x', '-', 'm', 'e', 'm', 'o', 'r', 'y']
  | .retainFinished => ['-', '-', 'r', 'e', 't', 'a', 'i', 'n', '-', 'f', 'i', 'n', 'i', 's', 'h',
      'e', 'd']
  | .retainDead => ['-', '-', 'r', 'e', 't', 'a', 'i', 'n', '-', 'd', 'e', 'a', 'd']
  | .idempotencyWindow => ['-', '-', 'i', 'd', 'e', 'm', 'p', 'o', 't', 'e', 'n', 'c', 'y', '-',
      'w', 'i', 'n', 'd', 'o', 'w']
  | .leaseGrace => ['-', '-', 'l', 'e', 'a', 's', 'e', '-', 'g', 'r', 'a', 'c', 'e']
  | .logLevel => ['-', '-', 'l', 'o', 'g', '-', 'l', 'e', 'v', 'e', 'l']

def find (text : Text) : Option Flag := all.find? fun flag => flag.text = text

end Flag

/-- What the loop has found so far. -/
structure Parsing where
  config : ServerConfig := {}
  passwordGiven : Bool := false

/-- One option with its value. -/
def apply (p : Parsing) (value : Text) : Flag → Result Parsing
  | .dir => .ok { p with config.dir := value }
  | .bind => .ok { p with config.bind := value }
  | .port => do
    let port ← parseSize value
    if port = 0 ∨ 65535 < port then .error (bad "--port must be between 1 and 65535")
    else .ok { p with config.port := port }
  | .requirepass => .ok { p with config.requirepass := value, passwordGiven := true }
  | .fsync =>
    if value = ['a', 'l', 'w', 'a', 'y', 's'] then .ok { p with config.fsync := .kAlways }
    else if value = ['i', 'n', 't', 'e', 'r', 'v', 'a', 'l'] then
      .ok { p with config.fsync := .kInterval }
    else .error (bad "--fsync must be 'always' or 'interval'")
  | .fsyncInterval => do
    let ms ← parseDurationMs value
    if ms ≤ 0 then .error (bad "--fsync-interval must be positive")
    else .ok { p with config.fsyncIntervalMs := ms }
  | .segmentSize => do
    let size ← parseSize value
    if size < 2 ^ 16 then .error (bad "--segment-size must be >= 64k")
    else .ok { p with config.segmentSize := size }
  | .snapshotEvery => do
    let size ← parseSize value
    .ok { p with config.snapshotEveryBytes := size }
  | .maxConnections => do
    let n ← parseSize value
    if n = 0 then .error (bad "--max-connections must be positive")
    else .ok { p with config.maxConnections := n }
  | .maxPayload => do
    let n ← parseSize value
    if n = 0 ∨ 64 * 2 ^ 20 < n then .error (bad "--max-payload must be 1 byte to 64m")
    else .ok { p with config.engine.maxPayloadBytes := n }
  | .maxMemory => do
    let n ← parseSize value
    .ok { p with config.engine.maxMemoryBytes := n }
  | .retainFinished => do
    let ms ← parseDurationMs value
    .ok { p with config.state.retainFinishedMs := ms }
  | .retainDead => do
    let ms ← parseDurationMs value
    .ok { p with config.state.retainDeadMs := ms }
  | .idempotencyWindow => do
    let ms ← parseDurationMs value
    .ok { p with config.engine.idempotencyWindowMs := ms }
  | .leaseGrace => do
    let ms ← parseDurationMs value
    .ok { p with config.engine.leaseGraceMs := ms }
  | .logLevel =>
    match parseLogLevel value with
    | none => .error (bad "--log-level must be debug, info, warn, error or off")
    | some level => .ok { p with config.logLevel := level }

/-- `--help`, `-h` and `--version` end the loop. -/
def actionOf (flag : Text) : Option CliAction :=
  if flag = ['-', '-', 'h', 'e', 'l', 'p'] ∨ flag = ['-', 'h'] then some .kShowHelp
  else if flag = ['-', '-', 'v', 'e', 'r', 's', 'i', 'o', 'n'] then some .kShowVersion
  else none

/-- The loop over the arguments: a flag and its value at a time. -/
def parseLoop : List Text → Parsing → Result (CliAction × Parsing)
  | [], p => .ok (.kRun, p)
  | [flag], p =>
    match actionOf flag with
    | some action => .ok (action, p)
    | none => .error (bad s!"{String.ofList flag} needs a value (try --help)")
  | flag :: value :: args, p =>
    match actionOf flag with
    | some action => .ok (action, p)
    | none =>
      match Flag.find flag with
      | none => .error (bad s!"unknown option '{String.ofList flag}' (try --help)")
      | some known =>
        match apply p value known with
        | .error e => .error e
        | .ok p => parseLoop args p

def parseArgs (args : List Text) (environment : Option Text) : Result ParsedArgs :=
  match parseLoop args {} with
  | .error e => .error e
  | .ok (.kRun, p) =>
    match environment with
    | some password =>
      if p.passwordGiven then .ok ⟨.kRun, p.config⟩
      else .ok ⟨.kRun, { p.config with requirepass := password }⟩
    | none => .ok ⟨.kRun, p.config⟩
  | .ok (action, p) => .ok ⟨action, p.config⟩

end Config

/-! ## What is accepted -/

/-- The limits and the durations under any command line. -/
structure ServerConfig.Accepted (config : ServerConfig) : Prop where
  maxPayload : 0 < config.engine.maxPayloadBytes ∧ config.engine.maxPayloadBytes ≤ 64 * 2 ^ 20
  window : 0 ≤ config.engine.idempotencyWindowMs ∧ config.engine.idempotencyWindowMs < 2 ^ 63
  maxDelay : config.engine.maxDelayMs = 366 * 24 * 60 * 60 * 1000
  minLease : config.engine.minLeaseMs = 100
  maxLease : config.engine.maxLeaseMs = 24 * 60 * 60 * 1000
  attempts : config.engine.maxMaxAttempts = 1000
  retainFinished : 0 ≤ config.state.retainFinishedMs
  retainDead : 0 ≤ config.state.retainDeadMs
  leaseGrace : 0 ≤ config.engine.leaseGraceMs

namespace Config

theorem scaled_bound {value factor n : Nat} {text : Text} (positive : factor ≠ 0)
    (accepted : scaled value factor text = .ok n) : n < 2 ^ 63 := by
  unfold scaled at accepted
  split at accepted
  · cases accepted
  rename_i small
  cases accepted
  have fits : value ≤ (2 ^ 63 - 1) / factor := by
    by_contra large
    exact small ⟨positive, Nat.not_le.1 large⟩
  have := Nat.div_mul_le_self (2 ^ 63 - 1) factor
  have := Nat.mul_le_mul_right factor fits
  omega

theorem parseDurationMs_bound {text : Text} {ms : Int} (accepted : parseDurationMs text = .ok ms) :
    0 ≤ ms ∧ ms < 2 ^ 63 := by
  obtain ⟨⟨value, suffix⟩, -, accepted⟩ := Result.bind_ok accepted
  dsimp only at accepted
  split at accepted
  · cases accepted
  rename_i positive
  obtain ⟨n, product, accepted⟩ := Result.bind_ok accepted
  cases accepted
  have := scaled_bound positive product
  omega

theorem apply_accepted {p p' : Parsing} {value : Text} {flag : Flag} (before : p.config.Accepted)
    (applied : apply p value flag = .ok p') : p'.config.Accepted := by
  cases flag with
  | dir | bind | requirepass =>
    cases applied
    exact { before with }
  | port | fsyncInterval | segmentSize | maxConnections =>
    obtain ⟨n, -, applied⟩ := Result.bind_ok applied
    obtain ⟨-, applied⟩ := Result.check_ok applied
    cases applied
    exact { before with }
  | maxPayload =>
    obtain ⟨n, -, applied⟩ := Result.bind_ok applied
    obtain ⟨range, applied⟩ := Result.check_ok applied
    cases applied
    exact { before with maxPayload := by show 0 < n ∧ n ≤ _; omega }
  | snapshotEvery | maxMemory =>
    obtain ⟨n, -, applied⟩ := Result.bind_ok applied
    cases applied
    exact { before with }
  | retainFinished =>
    obtain ⟨ms, duration, applied⟩ := Result.bind_ok applied
    cases applied
    exact { before with retainFinished := (parseDurationMs_bound duration).1 }
  | retainDead =>
    obtain ⟨ms, duration, applied⟩ := Result.bind_ok applied
    cases applied
    exact { before with retainDead := (parseDurationMs_bound duration).1 }
  | idempotencyWindow =>
    obtain ⟨ms, duration, applied⟩ := Result.bind_ok applied
    cases applied
    exact { before with window := parseDurationMs_bound duration }
  | leaseGrace =>
    obtain ⟨ms, duration, applied⟩ := Result.bind_ok applied
    cases applied
    exact { before with leaseGrace := (parseDurationMs_bound duration).1 }
  | fsync =>
    unfold apply at applied
    dsimp only at applied
    split at applied
    · cases applied
      exact { before with }
    split at applied
    · cases applied
      exact { before with }
    · cases applied
  | logLevel =>
    unfold apply at applied
    dsimp only at applied
    split at applied
    · cases applied
    · cases applied
      exact { before with }

theorem parseLoop_accepted {args : List Text} {p p' : Parsing} {action : CliAction}
    (before : p.config.Accepted) (parsed : parseLoop args p = .ok (action, p')) : p'.config.Accepted := by
  induction args, p using parseLoop.induct with
  | case1 p =>
    cases parsed
    exact before
  | case2 p flag action' asked =>
    rw [parseLoop, asked] at parsed
    cases parsed
    exact before
  | case3 p flag asked =>
    rw [parseLoop, asked] at parsed
    cases parsed
  | case4 p flag value args action' asked =>
    rw [parseLoop, asked] at parsed
    cases parsed
    exact before
  | case5 p flag value args asked unknown =>
    rw [parseLoop, asked, unknown] at parsed
    cases parsed
  | case6 p flag value args asked known found e failed =>
    rw [parseLoop, asked, found] at parsed
    dsimp only at parsed
    rw [failed] at parsed
    cases parsed
  | case7 p flag value args asked known found next applied ih =>
    rw [parseLoop, asked, found] at parsed
    dsimp only at parsed
    rw [applied] at parsed
    exact ih (apply_accepted before applied) parsed

theorem parseArgs_accepted {args : List Text} {environment : Option Text} {parsed : ParsedArgs}
    (accepted : parseArgs args environment = .ok parsed) : parsed.config.Accepted := by
  have defaults : ServerConfig.Accepted {} :=
    ⟨by decide, by decide, rfl, rfl, rfl, rfl, by decide, by decide, by decide⟩
  unfold parseArgs at accepted
  split at accepted
  · cases accepted
  · rename_i p loop
    have keeps := parseLoop_accepted defaults loop
    split at accepted
    · split at accepted
      · cases accepted
        exact keeps
      · cases accepted
        exact { keeps with }
    · cases accepted
      exact keeps
  · rename_i action p _ loop
    cases accepted
    exact parseLoop_accepted defaults loop

end Config

end Baton
