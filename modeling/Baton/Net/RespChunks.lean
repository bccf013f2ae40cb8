/-
# Net.RespChunks — requests do not depend on packet boundaries

`lawful`: the parser satisfies the laws of `Theory.Incremental`, in the states that it
gets into (`Valid`).  In normal mode this is because nothing is kept between two calls and
no decision is taken back; in discard mode because what is kept says where the parser is.

`chunks_agree` is the result: any two ways of cutting a stream give the same requests and
the same end; with it, what one call consumes and leaves (`Bounded`).
-/
import Baton.Net.Resp
import Baton.Theory.Incremental

namespace Baton

open Theory
open List (append_nil length_append length_cons length_drop length_nil)

set_option autoImplicit false

/-! ## Length lines -/

/-- What a line can be: not there yet, and then short; or bad, or good, whatever follows. -/
inductive LineCases (read : Bytes → HeaderLine) (data : Bytes) : Prop where
  | more (short : data.length + 1 ≤ kMaxHeaderLine) (now : read data = .kNeedMore)
  | bad (always : ∀ later, read (data ++ later) = .kBad)
  | ok (value : Int) (rest : Bytes) (shorter : rest.length < data.length)
      (short : data.length ≤ rest.length + kMaxHeaderLine)
      (always : ∀ later, read (data ++ later) = .kOk value (rest ++ later))

theorem readHeaderLine_cases (data : Bytes) : LineCases readHeaderLine data := by
  cases found : (data.take (kMaxHeaderLine - 1)).findIdx? (· == 0x0d) with
  | none =>
    by_cases long : kMaxHeaderLine ≤ data.length + 1
    · refine .bad fun later => ?_
      have again : (data ++ later).take (kMaxHeaderLine - 1) = data.take (kMaxHeaderLine - 1) :=
        List.take_append_of_le_length (by omega)
      unfold readHeaderLine
      rw [again, found]
      rw [if_pos (by rw [length_append]; omega)]
    · refine .more (by omega) ?_
      unfold readHeaderLine
      rw [found]
      rw [if_neg long]
  | some cr =>
    have inside := (List.findIdx?_eq_some_iff_findIdx_eq.1 found).1
    rw [List.length_take] at inside
    have again : ∀ later, ((data ++ later).take (kMaxHeaderLine - 1)).findIdx? (· == 0x0d) = some cr := by
      intro later
      rw [List.take_append, List.findIdx?_append, found]
      rfl
    have text : ∀ later, (data ++ later).take cr = data.take cr :=
      fun later => List.take_append_of_le_length (by omega)
    cases behind : data.drop (cr + 1) with
    | nil =>
      have length := congrArg List.length behind
      rw [length_drop, length_nil] at length
      refine .more (by omega) ?_
      unfold readHeaderLine
      rw [found]
      dsimp only
      rw [behind]
    | cons lf rest =>
      have length := congrArg List.length behind
      rw [length_drop, length_cons] at length
      have line : ∀ later, readHeaderLine (data ++ later) =
          (parseI64 (data.take cr)).elim .kBad fun value =>
            if lf = 0x0a then .kOk value (rest ++ later) else .kBad := by
        intro later
        have after : (data ++ later).drop (cr + 1) = lf :: (rest ++ later) := by
          rw [List.drop_append_of_le_length (by omega), behind]
          rfl
        unfold readHeaderLine
        rw [again later]
        dsimp only
        rw [after]
        cases number : parseI64 (data.take cr) <;>
          simp only [text later, number, Option.elim_none, Option.elim_some]
      cases parsed : parseI64 (data.take cr) with
      | none =>
        rw [parsed] at line
        exact .bad line
      | some value =>
        rw [parsed] at line
        simp only [Option.elim_some] at line
        by_cases newline : lf = 0x0a
        · refine .ok value rest (by omega) (by omega) fun later => ?_
          rw [line, if_pos newline]
        · refine .bad fun later => ?_
          rw [line, if_neg newline]

theorem LineCases.now {read : Bytes → HeaderLine} {data : Bytes} {line : HeaderLine}
    (always : read (data ++ []) = line) : read data = line := by
  rwa [append_nil] at always

theorem readHeaderLine_shorter {data rest : Bytes} {value : Int} (ok : readHeaderLine data = .kOk value rest) :
    rest.length < data.length := by
  cases readHeaderLine_cases data with
  | more _ now =>
    rw [now] at ok
    cases ok
  | bad always =>
    rw [LineCases.now (always [])] at ok
    cases ok
  | ok value after less _ always =>
    have here := LineCases.now (always [])
    rw [append_nil, ok] at here
    cases here
    exact less

theorem bulkHeader_cases (limits : RespLimits) (data : Bytes) : LineCases (RespParser.bulkHeader limits) data := by
  cases readHeaderLine_cases data with
  | more short now =>
    refine .more short ?_
    unfold RespParser.bulkHeader
    rw [now]
  | bad always =>
    refine .bad fun later => ?_
    unfold RespParser.bulkHeader
    rw [always]
  | ok value rest shorter short always =>
    by_cases range : value < 0 ∨ (limits.hardMaxBulkBytes : Int) < value
    · refine .bad fun later => ?_
      unfold RespParser.bulkHeader
      rw [always]
      dsimp only
      rw [if_pos range]
    · refine .ok value rest shorter short fun later => ?_
      unfold RespParser.bulkHeader
      rw [always]
      dsimp only
      rw [if_neg range]

/-! ## Events -/

namespace RespParser

/-- What a call amounts to: bytes behind an error are never looked at. -/
def event : RespOutcome × RespParser → Incremental.Outcome RespParser RespRequest String UInt8
  | (.kRequest request rest, p) => .item request rest p
  | (.kNeedMore rest, p) => .more rest p
  | (.kError error _, _) => .failed error

def call (p : RespParser) (data : Bytes) : Incremental.Outcome RespParser RespRequest String UInt8 :=
  event (p.parse data)

/-- While a request is being skipped, something of it is still to come. -/
def Valid (p : RespParser) : Prop :=
  p.discarding = true → 0 < p.discardBytesLeft ∨ 0 < p.discardArgsLeft

/-! ## Discard mode -/

section Discard

variable {p : RespParser} {data : Bytes}

theorem discardLoop_fields (p : RespParser) (a b argsLeft bytesLeft : Nat) (data : Bytes) :
    discardLoop { p with discardArgsLeft := a, discardBytesLeft := b } argsLeft bytesLeft data =
      p.discardLoop argsLeft bytesLeft data := by
  cases argsLeft <;> rfl

/-- What the loop can end in; `argsLeft` and `bytesLeft` are what is to be skipped. -/
inductive DiscardCases (p : RespParser) (argsLeft bytesLeft : Nat) (data : Bytes) : Prop where
  | request (rest : Bytes) (taken : rest.length + bytesLeft + argsLeft ≤ data.length)
      (always : ∀ later, p.discardLoop argsLeft bytesLeft (data ++ later) =
        (.kRequest { oversized := true } (rest ++ later),
          { p with discarding := false, discardArgsLeft := 0, discardBytesLeft := 0 }))
  | more (rest : Bytes) (args bytes : Nat) (short : rest.length ≤ kMaxHeaderLine) (left : 0 < bytes ∨ 0 < args)
      (now : p.discardLoop argsLeft bytesLeft data =
        (.kNeedMore rest, { p with discardArgsLeft := args, discardBytesLeft := bytes }))
      (always : ∀ later, p.discardLoop argsLeft bytesLeft (data ++ later) = p.discardLoop args bytes (rest ++ later))
  | error (message : String)
      (always : ∀ later, event (p.discardLoop argsLeft bytesLeft (data ++ later)) = .failed message)

/-- Bytes that are skipped. -/
theorem discardLoop_append (p : RespParser) {argsLeft bytesLeft : Nat} {skipped : Bytes}
    (fits : skipped.length ≤ bytesLeft) (data : Bytes) :
    p.discardLoop argsLeft bytesLeft (skipped ++ data) = p.discardLoop argsLeft (bytesLeft - skipped.length) data := by
  have rest : (skipped ++ data).drop bytesLeft = data.drop (bytesLeft - skipped.length) := by
    rw [List.drop_append, List.drop_of_length_le fits, List.nil_append]
  have left : bytesLeft - (skipped ++ data).length = bytesLeft - skipped.length - data.length := by
    rw [length_append]
    omega
  cases argsLeft <;>
    · rw [discardLoop, discardLoop]
      simp only [rest, left]

theorem discardLoop_done (p : RespParser) (data : Bytes) :
    p.discardLoop 0 0 data = (.kRequest { oversized := true } data,
      { p with discarding := false, discardArgsLeft := 0, discardBytesLeft := 0 }) := by
  simp [discardLoop]

theorem discardLoop_nil (p : RespParser) (args : Nat) :
    p.discardLoop (args + 1) 0 [] =
      (.kNeedMore [], { p with discardArgsLeft := args + 1, discardBytesLeft := 0 }) := by
  simp [discardLoop]

/-- The next argument of a request that is skipped. -/
theorem discardLoop_next (p : RespParser) (args : Nat) (b : UInt8) (line : Bytes) :
    p.discardLoop (args + 1) 0 (b :: line) =
      if b ≠ 0x24 then
        (.kError (expected "$" b) (b :: line), { p with discardArgsLeft := args + 1, discardBytesLeft := 0 })
      else
        match bulkHeader p.limits line with
        | .kNeedMore => (.kNeedMore (b :: line), { p with discardArgsLeft := args + 1, discardBytesLeft := 0 })
        | .kBad => (.kError "invalid bulk length" (b :: line),
            { p with discardArgsLeft := args + 1, discardBytesLeft := 0 })
        | .kOk value rest => p.discardLoop args (value.toNat + 2) rest := by
  rw [discardLoop]
  rw [List.drop_zero, Nat.zero_sub, if_neg (Nat.lt_irrefl 0)]
  dsimp only
  split
  · rfl
  · cases bulkHeader p.limits line with
    | kOk value rest => exact discardLoop_fields p _ _ _ _ _
    | kNeedMore => rfl
    | kBad => rfl

theorem discardLoop_pending (p : RespParser) {argsLeft bytesLeft : Nat} (all : data.length < bytesLeft) :
    p.discardLoop argsLeft bytesLeft data =
      (.kNeedMore [], { p with discardArgsLeft := argsLeft, discardBytesLeft := bytesLeft - data.length }) := by
  have rest : data.drop bytesLeft = [] := List.drop_of_length_le (Nat.le_of_lt all)
  have left : 0 < bytesLeft - data.length := by omega
  cases argsLeft <;>
    · rw [discardLoop]
      rw [if_pos left, rest]

theorem discardLoop_skip (p : RespParser) {argsLeft bytesLeft : Nat} (enough : bytesLeft ≤ data.length)
    (later : Bytes) :
    p.discardLoop argsLeft bytesLeft (data ++ later) = p.discardLoop argsLeft 0 (data.drop bytesLeft ++ later) := by
  have length : (data.take bytesLeft).length = bytesLeft := by
    rw [List.length_take]
    omega
  have skipped := @discardLoop_append p argsLeft bytesLeft (data.take bytesLeft) (by omega)
    (data.drop bytesLeft ++ later)
  rw [← List.append_assoc, List.take_append_drop, length, Nat.sub_self] at skipped
  exact skipped

/-- It is enough to look at where the current argument ends. -/
theorem DiscardCases.skip {argsLeft : Nat} (between : ∀ data, DiscardCases p argsLeft 0 data)
    (bytesLeft : Nat) (data : Bytes) : DiscardCases p argsLeft bytesLeft data := by
  by_cases all : data.length < bytesLeft
  · exact .more [] argsLeft (bytesLeft - data.length) (Nat.zero_le _) (Or.inl (by omega)) (discardLoop_pending p all)
      fun later => discardLoop_append p (by omega) later
  have skipped := @discardLoop_skip data p argsLeft bytesLeft (Nat.not_lt.1 all)
  have length := @List.length_drop _ bytesLeft data
  cases between (data.drop bytesLeft) with
  | request rest taken always => exact .request rest (by omega) fun later => (skipped later).trans (always later)
  | more rest args bytes short left now always =>
    refine .more rest args bytes short left ?_ fun later => (skipped later).trans (always later)
    have here := skipped []
    rw [append_nil, append_nil] at here
    exact here.trans now
  | error message always => exact .error message fun later => by rw [skipped, always]

/-- What comes behind the last argument that was skipped. -/
theorem discardLoop_between (p : RespParser) : ∀ (argsLeft : Nat) (data : Bytes),
    (∀ args, argsLeft = args + 1 → ∀ bytesLeft rest, DiscardCases p args bytesLeft rest) →
    DiscardCases p argsLeft 0 data := by
  intro argsLeft data further
  match argsLeft, data with
  | 0, data => exact .request data (Nat.le_refl _) fun later => discardLoop_done p (data ++ later)
  | args + 1, [] =>
    exact .more [] (args + 1) 0 (Nat.zero_le _) (Or.inr (Nat.succ_pos _)) (discardLoop_nil p args)
      fun later => rfl
  | args + 1, b :: line =>
    have next : ∀ later, p.discardLoop (args + 1) 0 (b :: line ++ later) = _ :=
      fun later => discardLoop_next p args b (line ++ later)
    have here := discardLoop_next p args b line
    by_cases marker : b = 0x24
    swap
    · refine .error (expected "$" b) fun later => ?_
      rw [next, if_pos marker]
      rfl
    have isMarker : ¬ b ≠ 0x24 := not_not_intro marker
    rw [if_neg isMarker] at here
    cases bulkHeader_cases p.limits line with
    | more short now =>
      rw [now] at here
      exact .more (b :: line) (args + 1) 0 short (Or.inr (Nat.succ_pos _)) here fun later => rfl
    | bad always =>
      refine .error "invalid bulk length" fun later => ?_
      rw [next, if_neg isMarker, always]
      rfl
    | ok value rest shorter short always =>
      have on : ∀ later, p.discardLoop (args + 1) 0 (b :: line ++ later) =
          p.discardLoop args (value.toNat + 2) (rest ++ later) := by
        intro later
        rw [next, if_neg isMarker, always]
      have now : p.discardLoop (args + 1) 0 (b :: line) = p.discardLoop args (value.toNat + 2) rest := by
        have nothing := on []
        rwa [append_nil, append_nil] at nothing
      cases further args rfl (value.toNat + 2) rest with
      | request left taken done =>
        have length : (b :: line).length = line.length + 1 := rfl
        exact .request left (by omega) fun later => (on later).trans (done later)
      | more left args' bytes short' some now' done =>
        exact .more left args' bytes short' some (now.trans now') fun later => (on later).trans (done later)
      | error message done => exact .error message fun later => by rw [on, done]

theorem discardLoop_cases (p : RespParser) (argsLeft : Nat) :
    ∀ (bytesLeft : Nat) (data : Bytes), DiscardCases p argsLeft bytesLeft data := by
  -- every round of the loop has one argument less to skip
  induction argsLeft with
  | zero => exact .skip fun data => discardLoop_between p 0 data nofun
  | succ args ih =>
    refine .skip fun data => discardLoop_between p (args + 1) data ?_
    rintro _ ⟨⟩
    exact ih

end Discard

/-! ## Normal mode: the array -/

section Skip

theorem skipEmpty_fuel (data : Bytes) : ∀ (fuel fuel' : Nat) (start : Bytes), start.length < fuel →
    start.length < fuel' → skipEmpty data fuel start = skipEmpty data fuel' start
  | 0, _, _, enough, _ => absurd enough (Nat.not_lt_zero _)
  | _ + 1, 0, _, _, enough => absurd enough (Nat.not_lt_zero _)
  | _ + 1, _ + 1, [], _, _ => rfl
  | fuel + 1, fuel' + 1, b :: line, enough, enough' => by
    rw [length_cons] at enough enough'
    rw [skipEmpty, skipEmpty]
    cases header : readHeaderLine line with
    | kOk count rest =>
      have shorter := readHeaderLine_shorter header
      dsimp only
      rw [skipEmpty_fuel data fuel fuel' rest (by omega) (by omega)]
    | kNeedMore => rfl
    | kBad => rfl

/-- The search for an array with a command. -/
def skip (data start : Bytes) : Found := skipEmpty data (start.length + 1) start

theorem skip_nil (data : Bytes) : skip data [] = .outcome (.kNeedMore []) := rfl

theorem skip_cons (data : Bytes) (b : UInt8) (line : Bytes) :
    skip data (b :: line) =
      if b ≠ 0x2a then .outcome (.kError (expected "*" b) data)
      else
        match readHeaderLine line with
        | .kNeedMore => .outcome (.kNeedMore (b :: line))
        | .kBad => .outcome (.kError "invalid multibulk length" data)
        | .kOk count rest => if 0 < count then .request (b :: line) count.toNat rest else skip data rest := by
  unfold skip
  rw [skipEmpty]
  cases header : readHeaderLine line with
  | kOk count rest =>
    have shorter := readHeaderLine_shorter header
    have length : (b :: line).length = line.length + 1 := rfl
    dsimp only
    rw [skipEmpty_fuel data (b :: line).length (rest.length + 1) rest (by omega) (by omega)]
  | kNeedMore => rfl
  | kBad => rfl

/-- How the search ends. -/
inductive SkipCases (start : Bytes) : Prop where
  | more (left : Bytes) (short : left.length ≤ kMaxHeaderLine)
      (now : ∀ data, skip data start = .outcome (.kNeedMore left))
      (always : ∀ data later, skip data (start ++ later) = skip data (left ++ later))
  | error (message : String)
      (always : ∀ data later, skip data (start ++ later) = .outcome (.kError message data))
  | request (first : Bytes) (count : Nat) (rest : Bytes) (some : 0 < count) (shorter : rest.length < first.length)
      (short : first.length ≤ rest.length + (kMaxHeaderLine + 1)) (within : first.length ≤ start.length)
      (always : ∀ data later, skip data (start ++ later) = .request (first ++ later) count (rest ++ later))
      (again : ∀ data later, skip data (first ++ later) = .request (first ++ later) count (rest ++ later))

theorem skip_cases : ∀ (n : Nat) (start : Bytes), start.length = n → SkipCases start := by
  intro n
  induction n using Nat.strongRecOn with
  | _ n ih =>
    intro start length
    match start with
    | [] => exact .more [] (Nat.zero_le _) skip_nil fun _ _ => rfl
    | b :: line =>
      have here := fun data => skip_cons data b line
      have next : ∀ data later, skip data (b :: line ++ later) = _ :=
        fun data later => skip_cons data b (line ++ later)
      by_cases marker : b = 0x2a
      swap
      · refine .error (expected "*" b) fun data later => ?_
        rw [next, if_pos marker]
      have isMarker : ¬ b ≠ 0x2a := not_not_intro marker
      rw [length_cons] at length
      cases readHeaderLine_cases line with
      | more short now =>
        refine .more (b :: line) short (fun data => ?_) fun _ _ => rfl
        rw [here, if_neg isMarker, now]
      | bad always =>
        refine .error "invalid multibulk length" fun data later => ?_
        rw [next, if_neg isMarker, always]
      | ok count rest shorter short always =>
        have now := LineCases.now (always [])
        rw [append_nil] at now
        by_cases command : 0 < count
        · have found : ∀ data later, skip data (b :: line ++ later) =
              .request (b :: line ++ later) count.toNat (rest ++ later) := by
            intro data later
            rw [next, if_neg isMarker, always]
            dsimp only
            rw [if_pos command]
            rfl
          have length' : (b :: line).length = line.length + 1 := rfl
          exact .request (b :: line) count.toNat rest (by omega) (by omega) (by omega) (Nat.le_refl _) found found
        -- an empty array: the search goes on behind it
        · have on : ∀ data later, skip data (b :: line ++ later) = skip data (rest ++ later) := by
            intro data later
            rw [next, if_neg isMarker, always]
            dsimp only
            rw [if_neg command]
          have onNow : ∀ data, skip data (b :: line) = skip data rest := by
            intro data
            rw [here, if_neg isMarker, now]
            dsimp only
            rw [if_neg command]
          cases ih rest.length (by omega) rest rfl with
          | more left short' now' always' =>
            exact .more left short' (fun data => (onNow data).trans (now' data))
              fun data later => (on data later).trans (always' data later)
          | error message always' =>
            exact .error message fun data later => (on data later).trans (always' data later)
          | request first count' rest' some shorter' short' within always' again =>
            have length' : (b :: line).length = line.length + 1 := rfl
            exact .request first count' rest' some shorter' short' (by omega)
              (fun data later => (on data later).trans (always' data later)) again

end Skip

/-! ## Normal mode: the arguments -/

section Args

/-- The data only says where an error is. -/
theorem event_readArgs (p : RespParser) (data data' start : Bytes) : ∀ (left : Nat) (args : List Bytes) (rest : Bytes),
    event (p.readArgs data start left args rest) = event (p.readArgs data' start left args rest)
  | 0, _, _ => rfl
  | _ + 1, _, [] => rfl
  | left + 1, args, b :: line => by
    rw [readArgs, readArgs]
    split
    · rfl
    cases bulkHeader p.limits line with
    | kNeedMore => rfl
    | kBad => rfl
    | kOk value rest =>
      dsimp only
      split
      · rfl
      split
      · rfl
      split
      · rfl
      split
      · rfl
      · exact event_readArgs p data data' start left _ _

/-- How the loop over the arguments ends, from any of them on. -/
inductive ArgsCases (p : RespParser) (start : Bytes) (left : Nat) (args : List Bytes) (rest : Bytes) : Prop where
  | request (read : List Bytes) (final : Bytes) (all : read.length = args.length + left)
      (taken : final.length ≤ rest.length)
      (always : ∀ data later, p.readArgs data (start ++ later) left args (rest ++ later) =
        (.kRequest { args := read } (final ++ later), p))
  | more (short : start.length ≤ p.limits.maxRequestBytes + 66)
      (now : ∀ data, p.readArgs data start left args rest = (.kNeedMore start, p))
  | error (message : String)
      (always : ∀ data later, event (p.readArgs data (start ++ later) left args (rest ++ later)) = .failed message)
  | discard (argsLeft bytesLeft : Nat) (body : Bytes) (some : 0 < bytesLeft) (taken : body.length ≤ rest.length)
      (always : ∀ data later, p.readArgs data (start ++ later) left args (rest ++ later) =
        discardLoop { p with discarding := true, discardArgsLeft := argsLeft, discardBytesLeft := bytesLeft }
          argsLeft bytesLeft (body ++ later))

theorem readArgs_cases (p : RespParser) (start : Bytes) : ∀ (left : Nat) (args : List Bytes) (rest : Bytes),
    rest.length ≤ start.length →
    start.length ≤ rest.length + max (kMaxHeaderLine + 1) p.limits.maxRequestBytes →
    ArgsCases p start left args rest
  | 0, args, rest, _, _ => .request args rest rfl (Nat.le_refl _) fun _ _ => rfl
  | left + 1, args, [], _, used => by
    have limit : kMaxHeaderLine = 32 := rfl
    rw [length_nil] at used
    exact .more (by omega) fun _ => rfl
  | left + 1, args, b :: line, within, used => by
    have limit : kMaxHeaderLine = 32 := rfl
    rw [length_cons] at within used
    have next : ∀ data later, p.readArgs data (start ++ later) (left + 1) args (b :: line ++ later) = _ :=
      fun data later => by rw [List.cons_append, readArgs]
    by_cases marker : b = 0x24
    swap
    · refine .error (expected "$" b) fun data later => ?_
      rw [next, if_pos marker]
      rfl
    have isMarker : ¬ b ≠ 0x24 := not_not_intro marker
    cases bulkHeader_cases p.limits line with
    | more short now =>
      refine .more (by omega) fun data => ?_
      rw [readArgs, if_neg isMarker, now]
    | bad always =>
      refine .error "invalid bulk length" fun data later => ?_
      rw [next, if_neg isMarker, always]
      rfl
    | ok value body shorter short always =>
      have here := LineCases.now (always [])
      rw [append_nil] at here
      have same : ∀ later : Bytes, (start ++ later).length - (body ++ later).length = start.length - body.length := by
        intro later
        rw [length_append, length_append]
        omega
      by_cases big : p.limits.maxBulkBytes < value.toNat
      · refine .discard left (value.toNat + 2) body (Nat.succ_pos _) (by rw [length_cons]; omega) ?_
        intro data later
        rw [next, if_neg isMarker, always]
        dsimp only
        rw [if_pos big]
        rfl
      by_cases large : p.limits.maxRequestBytes < start.length - body.length + value.toNat + 2
      · refine .error s!"request larger than {p.limits.maxRequestBytes} bytes" fun data later => ?_
        rw [next, if_neg isMarker, always]
        dsimp only
        rw [if_neg big, same, if_pos large]
        rfl
      by_cases wait : body.length < value.toNat + 2
      · refine .more (by omega) fun data => ?_
        rw [readArgs, if_neg isMarker, here]
        dsimp only
        rw [if_neg big, if_neg large, if_pos wait]
      have there : ∀ later : Bytes, ¬ (body ++ later).length < value.toNat + 2 := by
        intro later
        rw [length_append]
        omega
      have ended : ∀ later, ((body ++ later).drop value.toNat).take 2 = (body.drop value.toNat).take 2 := by
        intro later
        rw [List.drop_append_of_le_length (by omega), List.take_append_of_le_length]
        rw [length_drop]
        omega
      by_cases bad : (body.drop value.toNat).take 2 ≠ [0x0d, 0x0a]
      · refine .error "bulk string not terminated" fun data later => ?_
        rw [next, if_neg isMarker, always]
        dsimp only
        rw [if_neg big, same, if_neg large, if_neg (there later), ended, if_pos bad]
        rfl
      have on : ∀ data later, p.readArgs data (start ++ later) (left + 1) args (b :: line ++ later) =
          p.readArgs data (start ++ later) left (args ++ [body.take value.toNat])
            (body.drop (value.toNat + 2) ++ later) := by
        intro data later
        rw [next, if_neg isMarker, always]
        dsimp only
        rw [if_neg big, same, if_neg large, if_neg (there later), ended, if_neg bad,
          List.take_append_of_le_length (by omega), List.drop_append_of_le_length (by omega)]
      have onNow : ∀ data, p.readArgs data start (left + 1) args (b :: line) =
          p.readArgs data start left (args ++ [body.take value.toNat]) (body.drop (value.toNat + 2)) := by
        intro data
        have nothing := on data []
        simpa only [append_nil] using nothing
      have length : (body.drop (value.toNat + 2)).length = body.length - (value.toNat + 2) := length_drop
      have whole : (b :: line).length = line.length + 1 := rfl
      cases readArgs_cases p start left (args ++ [body.take value.toNat]) (body.drop (value.toNat + 2))
        (by omega) (by omega) with
      | request read final all taken done =>
        rw [length_append, List.length_singleton] at all
        exact .request read final (by omega) (by omega) fun data later => (on data later).trans (done data later)
      | more short' now => exact .more short' fun data => (onNow data).trans (now data)
      | error message done => exact .error message fun data later => by rw [on, done]
      | discard argsLeft bytesLeft rest some taken done =>
        exact .discard argsLeft bytesLeft rest some (by omega) fun data later =>
          (on data later).trans (done data later)

end Args

/-! ## One call -/

section Call

variable {p : RespParser} {data : Bytes}

theorem parse_discarding (discarding : p.discarding = true) (data : Bytes) :
    p.parse data = p.discardLoop p.discardArgsLeft p.discardBytesLeft data := by
  unfold parse
  rw [if_pos discarding]
  rfl

/-- What a call can answer, in a state that occurs. -/
inductive CallCases (p : RespParser) (data : Bytes) : Prop where
  | request (request : RespRequest) (rest : Bytes) (p' : RespParser) (shorter : rest.length < data.length)
      (carries : request.oversized = false → request.args ≠ []) (valid : p'.Valid) (limits : p'.limits = p.limits)
      (always : ∀ later, p.parse (data ++ later) = (.kRequest request (rest ++ later), p'))
  | more (rest : Bytes) (p' : RespParser) (valid : p'.Valid) (limits : p'.limits = p.limits)
      (short : rest.length ≤ p.limits.maxRequestBytes + 66)
      (discarding : p'.discarding = true → rest.length ≤ kMaxHeaderLine)
      (now : p.parse data = (.kNeedMore rest, p')) (always : ∀ later, p.call (data ++ later) = p'.call (rest ++ later))
  | error (message : String) (always : ∀ later, p.call (data ++ later) = .failed message)

/-- A call that is, or ends, in discard mode. -/
theorem CallCases.of_discard {q : RespParser} {argsLeft bytesLeft : Nat} {body : Bytes}
    (discarding : q.discarding = true) (limits : q.limits = p.limits) (some : 0 < bytesLeft ∨ 0 < argsLeft)
    (taken : body.length ≤ data.length)
    (same : ∀ later, p.parse (data ++ later) = q.discardLoop argsLeft bytesLeft (body ++ later)) :
    CallCases p data := by
  have limit : kMaxHeaderLine = 32 := rfl
  have now : p.parse data = q.discardLoop argsLeft bytesLeft body := by
    have nothing := same []
    simpa only [append_nil] using nothing
  cases discardLoop_cases q argsLeft bytesLeft body with
  | request rest taken' always =>
    refine .request { oversized := true } rest
      { q with discarding := false, discardArgsLeft := 0, discardBytesLeft := 0 } (by omega) nofun ?_ limits
      fun later => (same later).trans (always later)
    rintro ⟨⟩
  | more rest args bytes short left here always =>
    refine .more rest { q with discardArgsLeft := args, discardBytesLeft := bytes } (fun _ => left) limits (by omega)
      (fun _ => short) (now.trans here) fun later => ?_
    unfold call
    rw [same, always, @parse_discarding { q with discardArgsLeft := args, discardBytesLeft := bytes } discarding]
    exact congrArg event (discardLoop_fields q args bytes args bytes _).symm
  | error message always =>
    refine .error message fun later => ?_
    unfold call
    rw [same, always]

/-- What a call does with what the search has found. -/
def afterSkip (p : RespParser) (data : Bytes) : Found → RespOutcome × RespParser
  | .outcome outcome => (outcome, p)
  | .request start count rest =>
    if p.limits.maxArgs < count then
      (.kError s!"too many arguments ({count} > {p.limits.maxArgs})" data, p)
    else p.readArgs data start count [] rest

theorem parse_normal (normal : p.discarding = false) (data : Bytes) :
    p.parse data = p.afterSkip data (skip data data) := by
  have off : ¬ p.discarding = true := by
    rw [normal]
    exact Bool.false_ne_true
  unfold parse
  rw [if_neg off]
  show (match skip data data with | .outcome outcome => _ | .request start count rest => _) = _
  cases skip data data <;> rfl

/-- Where the search begins, and not the data before, decides. -/
theorem event_afterSkip (p : RespParser) (data data' start : Bytes) :
    event (p.afterSkip data (skip data start)) = event (p.afterSkip data' (skip data' start)) := by
  cases skip_cases _ start rfl with
  | more left short now always =>
    rw [now, now]
    rfl
  | error message always =>
    have here := fun data => always data []
    simp only [append_nil] at here
    rw [here, here]
    rfl
  | request first count rest some shorter short within always again =>
    have here := fun data => always data []
    simp only [append_nil] at here
    rw [here, here]
    unfold afterSkip
    dsimp only
    split
    · rfl
    · exact event_readArgs p data data' first count [] rest

theorem call_cases (valid : p.Valid) (data : Bytes) : CallCases p data := by
  have limit : kMaxHeaderLine = 32 := rfl
  cases mode : p.discarding with
  | true => exact .of_discard mode rfl (valid mode) (Nat.le_refl _) fun later => parse_discarding mode _
  | false =>
    have normal := fun data => parse_normal mode data
    cases skip_cases _ data rfl with
    | more left short now always =>
      refine .more left p valid rfl (by omega) (fun _ => short) ?_ fun later => ?_
      · rw [normal, now]
        rfl
      · unfold call
        rw [normal, normal, always]
        exact event_afterSkip p _ _ _
    | error message always =>
      refine .error message fun later => ?_
      unfold call
      rw [normal, always]
      rfl
    | request first count rest some shorter short within always again =>
      by_cases many : p.limits.maxArgs < count
      · refine .error s!"too many arguments ({count} > {p.limits.maxArgs})" fun later => ?_
        unfold call
        rw [normal, always]
        unfold afterSkip
        dsimp only
        rw [if_pos many]
        rfl
      have on : ∀ data later, p.afterSkip data (.request (first ++ later) count (rest ++ later)) =
          p.readArgs data (first ++ later) count [] (rest ++ later) := by
        intro data later
        unfold afterSkip
        dsimp only
        rw [if_neg many]
      cases readArgs_cases p first count [] rest (by omega) (by omega) with
      | request read final all taken done =>
        refine .request { args := read } final p (by omega) ?_ valid rfl fun later => ?_
        · rintro - rfl
          omega
        · rw [normal, always, on, done]
      | more bound now =>
        refine .more first p valid rfl bound ?_ ?_ fun later => ?_
        · intro discarding
          rw [mode] at discarding
          cases discarding
        · have here := always data []
          have readNow := on data []
          simp only [append_nil] at here readNow
          rw [normal, here, readNow, now]
        · -- the request is parsed again from its beginning
          unfold call
          rw [normal, normal, always, again, on, on]
          exact event_readArgs p _ _ _ _ _ _
      | error message done =>
        refine .error message fun later => ?_
        unfold call
        rw [normal, always, on, done]
      | discard argsLeft bytesLeft body some' taken done =>
        refine @CallCases.of_discard p data
          { p with discarding := true, discardArgsLeft := argsLeft, discardBytesLeft := bytesLeft }
          argsLeft bytesLeft body rfl rfl (Or.inl some') (by omega) fun later => ?_
        rw [normal, always, on, done]

end Call

/-! ## Streams -/

variable {p : RespParser} {limits : RespLimits}

theorem request_now {p' : RespParser} {data rest : Bytes} {request : RespRequest}
    (always : ∀ later, p.parse (data ++ later) = (.kRequest request (rest ++ later), p')) :
    p.parse data = (.kRequest request rest, p') := by
  have here := always []
  rwa [append_nil, append_nil] at here

theorem error_now {data : Bytes} {message : String}
    (always : ∀ later, p.call (data ++ later) = .failed message) : p.call data = .failed message := by
  have here := always []
  rwa [append_nil] at here

/-- The parser satisfies the laws of an incremental parser. -/
theorem lawful : Incremental.Lawful call Valid where
  item := by
    intro p data request rest p' valid result
    cases call_cases valid data with
    | request request' rest' q shorter carries valid' limits always =>
      cases result.symm.trans (congrArg event (request_now always))
      exact ⟨valid', shorter, fun later => congrArg event (always later)⟩
    | more rest' q valid' limits short discarding now always => cases result.symm.trans (congrArg event now)
    | error message always => cases result.symm.trans (error_now always)
  failed := by
    intro p data error valid result later
    cases call_cases valid data with
    | request request rest q shorter carries valid' limits always =>
      cases result.symm.trans (congrArg event (request_now always))
    | more rest q valid' limits short discarding now always => cases result.symm.trans (congrArg event now)
    | error message always =>
      cases result.symm.trans (error_now always)
      exact always later
  more := by
    intro p data rest p' valid result
    cases call_cases valid data with
    | request request rest' q shorter carries valid' limits always =>
      cases result.symm.trans (congrArg event (request_now always))
    | more rest' q valid' limits short discarding now always =>
      cases result.symm.trans (congrArg event now)
      exact ⟨valid', always⟩
    | error message always => cases result.symm.trans (error_now always)

/-- The requests of a stream that comes in pieces, and how it ends: each call gets what is
not consumed and the next piece, and there are none after an error. -/
def read (limits : RespLimits) (pieces : List Bytes) :
    List RespRequest × Incremental.Ending RespParser String UInt8 :=
  pieces.foldl (Incremental.feed call) ([], .waiting [] { limits })

theorem valid_start (limits : RespLimits) : Valid { limits } := by
  rintro ⟨⟩

theorem read_flatten (limits : RespLimits) (pieces : List Bytes) :
    read limits pieces = Incremental.feed call ([], .waiting [] { limits }) pieces.flatten := by
  refine Incremental.feed_flatten lawful pieces ?_
  rintro _ _ ⟨⟩
  exact ⟨valid_start limits, rfl⟩

/-- The states in which `parse` is called. -/
inductive Reached (limits : RespLimits) : RespParser → Prop where
  | start : Reached limits { limits }
  | request {p p' : RespParser} {data rest : Bytes} {request : RespRequest} (before : Reached limits p)
      (result : p.parse data = (.kRequest request rest, p')) : Reached limits p'
  | more {p p' : RespParser} {data rest : Bytes} (before : Reached limits p)
      (result : p.parse data = (.kNeedMore rest, p')) : Reached limits p'

theorem reached_valid (reached : Reached limits p) : p.Valid ∧ p.limits = limits := by
  induction reached with
  | start => exact ⟨valid_start limits, rfl⟩
  | @request p p' data rest request before result ih =>
    obtain ⟨valid, same⟩ := ih
    cases call_cases valid data with
    | request request' rest' q shorter carries valid' limits' always =>
      cases result.symm.trans (request_now always)
      exact ⟨valid', limits'.trans same⟩
    | more rest' q valid' limits' short discarding now always => cases result.symm.trans now
    | error message always => cases (congrArg event result).symm.trans (error_now always)
  | @more p p' data rest before result ih =>
    obtain ⟨valid, same⟩ := ih
    cases call_cases valid data with
    | request request rest' q shorter carries valid' limits' always =>
      cases result.symm.trans (request_now always)
    | more rest' q valid' limits' short discarding now always =>
      cases result.symm.trans now
      exact ⟨valid', limits'.trans same⟩
    | error message always => cases (congrArg event result).symm.trans (error_now always)

/-- What is true of the answer of one call. -/
def Bounded (limits : RespLimits) (data : Bytes) : RespOutcome × RespParser → Prop
  | (.kRequest request rest, _) => rest.length < data.length ∧ (request.oversized = false → request.args ≠ [])
  | (.kNeedMore rest, p) => rest.length ≤ limits.maxRequestBytes + 66 ∧ (p.discarding = true → rest.length ≤ 32)
  | (.kError _ _, _) => True

theorem parse_bounded (reached : Reached limits p) (data : Bytes) :
    Bounded limits data (p.parse data) := by
  obtain ⟨valid, same⟩ := reached_valid reached
  cases call_cases valid data with
  | request request rest q shorter carries valid' limits' always =>
    rw [request_now always]
    exact ⟨shorter, carries⟩
  | more rest q valid' limits' short discarding now always =>
    rw [now, ← same]
    exact ⟨short, discarding⟩
  | error message always =>
    have here := error_now always
    unfold call at here
    cases result : p.parse data with
    | mk outcome q =>
      rw [result] at here
      cases outcome with
      | kRequest request rest => cases here
      | kNeedMore rest => cases here
      | kError error rest => trivial

/-- Two ways of cutting a stream give the same requests and the same end, with what is left
of the stream and the parser that goes on; every call that returns a request consumes
something, a request that is not oversized has an argument, and a call that needs more
leaves at most so much. -/
theorem chunks_agree (limits : RespLimits) :
    (∀ pieces pieces' : List Bytes, pieces.flatten = pieces'.flatten → read limits pieces = read limits pieces') ∧
      ∀ p, Reached limits p → ∀ data, Bounded limits data (p.parse data) := by
  refine ⟨?_, fun p reached data => parse_bounded reached data⟩
  intro pieces pieces' same
  rw [read_flatten, read_flatten, same]

/-- A `PING` in one piece, and cut within its first line. -/
theorem chunks_agree_ping :
    read {} [ascii "*1\r", ascii "\n$4\r\nPING\r\n"] = read {} [ascii "*1\r\n$4\r\nPING\r\n"] ∧
      (read {} [ascii "*1\r\n$4\r\nPING\r\n"]).1 = [{ args := [ascii "PING"] }] ∧
      Bounded {} (ascii "*1\r\n$4\r\nPING\r\n") (parse {} (ascii "*1\r\n$4\r\nPING\r\n")) :=
  ⟨(chunks_agree {}).1 _ _ (by decide +kernel), by decide +kernel, (chunks_agree {}).2 _ .start _⟩

end RespParser

end Baton
