/-
# Net.Resp — the request parser

`net/resp.{h,cpp}`.  Requests are arrays of bulk strings.  A call of `parse` is given all
that has not been consumed yet; in normal mode an incomplete request consumes nothing and
is parsed again from its beginning.  An argument above `maxBulkBytes` switches to discard
mode, in which the rest of the request is consumed as it arrives.

A position in the data is what is left of it from there on, so an outcome has the bytes
that are not consumed where the source counts those that are.
-/
import Baton.Common.Codec
import Baton.Theory.Decimal

namespace Baton

open Theory

set_option autoImplicit false

/-- The bytes of an ASCII text. -/
def ascii (text : String) : Bytes := text.toList.map fun c => UInt8.ofNat c.toNat

/-! ## Numbers -/

def byteChar (b : UInt8) : Char := Char.ofNat b.toNat

/-- `std::from_chars` for `int64_t`: a minus sign, but no plus sign. -/
def parseI64 (text : Bytes) : Option Int :=
  match text with
  | [] => none
  | b :: digits =>
    if b = 0x2d then
      if digits.isEmpty then none
      else (parseDecimal (digits.map byteChar)).bind fun n => if n ≤ 2 ^ 63 then some (-(n : Int)) else none
    else (parseDecimal (text.map byteChar)).bind fun n => if n < 2 ^ 63 then some (n : Int) else none

/-- `{:02x}`. -/
def hexByte (b : UInt8) : String := String.ofList [Nat.digitChar (b.toNat / 16), Nat.digitChar (b.toNat % 16)]

/-! ## Length lines -/

/-- `*<n>\r\n` and `$<n>\r\n` lines are short; a longer one is not a length. -/
def kMaxHeaderLine : Nat := 32

inductive HeaderLine where
  | kOk (value : Int) (rest : Bytes)
  | kNeedMore
  | kBad

/-- `read_header_line`, behind the marker. -/
def readHeaderLine (data : Bytes) : HeaderLine :=
  match (data.take (kMaxHeaderLine - 1)).findIdx? (· == 0x0d) with
  | none => if kMaxHeaderLine ≤ data.length + 1 then .kBad else .kNeedMore
  | some cr =>
    match data.drop (cr + 1) with
    | [] => .kNeedMore  -- the LF has not arrived yet
    | lf :: rest =>
      match parseI64 (data.take cr) with
      | some value => if lf = 0x0a then .kOk value rest else .kBad
      | none => .kBad

/-! ## Requests -/

structure RespLimits where
  maxArgs : Nat := 1024
  /-- arguments above this are skipped, not buffered -/
  maxBulkBytes : Nat := 2 ^ 20 + 1024
  /-- arguments above this are a protocol error -/
  hardMaxBulkBytes : Nat := 512 * 2 ^ 20
  /-- a whole request above this is a protocol error -/
  maxRequestBytes : Nat := 2 ^ 20 + 64 * 2 ^ 10

structure RespRequest where
  /-- empty when oversized -/
  args : List Bytes := []
  oversized : Bool := false
  deriving DecidableEq, Repr

inductive RespOutcome where
  | kRequest (request : RespRequest) (rest : Bytes)
  | kNeedMore (rest : Bytes)
  | kError (error : String) (rest : Bytes)

structure RespParser where
  limits : RespLimits := {}
  /-- the rest of an oversized request is being skipped -/
  discarding : Bool := false
  /-- arguments still to come after the current one -/
  discardArgsLeft : Nat := 0
  /-- of the bulk being skipped, including its CRLF -/
  discardBytesLeft : Nat := 0

namespace RespParser

def expected (marker : String) (got : UInt8) : String := s!"expected '{marker}', got byte 0x{hexByte got}"

/-- The length line of an argument, behind its marker. -/
def bulkHeader (limits : RespLimits) (data : Bytes) : HeaderLine :=
  match readHeaderLine data with
  | .kOk value rest => if value < 0 ∨ (limits.hardMaxBulkBytes : Int) < value then .kBad else .kOk value rest
  | .kNeedMore => .kNeedMore
  | .kBad => .kBad

/-- The loop of `parse_discarding`: the arguments left after the current one, and what is
left of that. -/
def discardLoop (p : RespParser) : Nat → Nat → Bytes → RespOutcome × RespParser
  | argsLeft, bytesLeft, data =>
    let rest := data.drop bytesLeft
    let bytesLeft := bytesLeft - data.length
    let p := { p with discardArgsLeft := argsLeft, discardBytesLeft := bytesLeft }
    if 0 < bytesLeft then (.kNeedMore rest, p)
    else
      match argsLeft with
      | 0 => (.kRequest { oversized := true } rest, { p with discarding := false })
      | argsLeft + 1 =>
        match rest with
        | [] => (.kNeedMore [], p)
        | b :: line =>
          if b ≠ 0x24 then (.kError (expected "$" b) rest, p)
          else
            match bulkHeader p.limits line with
            | .kNeedMore => (.kNeedMore rest, p)
            | .kBad => (.kError "invalid bulk length" rest, p)
            | .kOk value rest => discardLoop p argsLeft (value.toNat + 2) rest

def parseDiscarding (p : RespParser) (data : Bytes) : RespOutcome × RespParser :=
  p.discardLoop p.discardArgsLeft p.discardBytesLeft data

/-- Where the first array that carries a command begins, how many arguments it has, and
where they begin; or how the call ends before. -/
inductive Found where
  | request (start : Bytes) (count : Nat) (rest : Bytes)
  | outcome (outcome : RespOutcome)

/-- Empty and null arrays carry no command; they are skipped.  An array takes at least its
marker, so a fuel of the bytes there are is never used up. -/
def skipEmpty (data : Bytes) : Nat → Bytes → Found
  | 0, start => .outcome (.kNeedMore start)
  | _ + 1, [] => .outcome (.kNeedMore [])
  | fuel + 1, b :: line =>
    if b ≠ 0x2a then .outcome (.kError (expected "*" b) data)
    else
      match readHeaderLine line with
      | .kNeedMore => .outcome (.kNeedMore (b :: line))
      | .kBad => .outcome (.kError "invalid multibulk length" data)
      | .kOk count rest => if 0 < count then .request (b :: line) count.toNat rest else skipEmpty data fuel rest

/-- The loop over the arguments: those still to come, and those read. -/
def readArgs (p : RespParser) (data start : Bytes) : Nat → List Bytes → Bytes → RespOutcome × RespParser
  | 0, args, rest => (.kRequest { args } rest, p)
  | _ + 1, _, [] => (.kNeedMore start, p)
  | left + 1, args, b :: line =>
    if b ≠ 0x24 then (.kError (expected "$" b) data, p)
    else
      match bulkHeader p.limits line with
      | .kNeedMore => (.kNeedMore start, p)
      | .kBad => (.kError "invalid bulk length" data, p)
      | .kOk value rest =>
        let length := value.toNat
        if p.limits.maxBulkBytes < length then
          -- too big to buffer: skip it, and the rest of this request, as it arrives
          parseDiscarding
            { p with discarding := true, discardBytesLeft := length + 2, discardArgsLeft := left } rest
        else if p.limits.maxRequestBytes < start.length - rest.length + length + 2 then
          (.kError s!"request larger than {p.limits.maxRequestBytes} bytes" data, p)
        else if rest.length < length + 2 then (.kNeedMore start, p)
        else if (rest.drop length).take 2 ≠ [0x0d, 0x0a] then (.kError "bulk string not terminated" data, p)
        else readArgs p data start left (args ++ [rest.take length]) (rest.drop (length + 2))

def parse (p : RespParser) (data : Bytes) : RespOutcome × RespParser :=
  if p.discarding then p.parseDiscarding data
  else
    match skipEmpty data (data.length + 1) data with
    | .outcome outcome => (outcome, p)
    | .request start count rest =>
      if p.limits.maxArgs < count then
        (.kError s!"too many arguments ({count} > {p.limits.maxArgs})" data, p)
      else p.readArgs data start count [] rest

end RespParser

end Baton
