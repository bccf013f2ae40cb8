/-
# Sdk.Ledger — the durable set of the Python SDK

`baton/idempotent.py`.  A ledger file is a sequence of frames: the length and the CRC-32
of a payload, and the payload, which is a JSON object.  Every call of a `Ledger` is one or
two sections under the file lock; a section first reads what other processes appended
(`catchUp`), repairing what a crashed writer left at the end, and may append one record.

A section returns what it answers or raises, the object and the file: an object keeps
what it had read when it raises.  It runs in a `Host`, the interpreter of its process with
the stack of the caller, whose limits on JSON differ from section to section.
-/
import Baton.Sdk.Json
import Baton.Theory.LittleEndian

namespace Baton.Sdk

open Theory

set_option autoImplicit false

/-! ## `zlib.crc32` -/

def crc32Shift (c : UInt32) : UInt32 := if c &&& 1 ≠ 0 then (c >>> 1) ^^^ 0xEDB88320 else c >>> 1

def crc32Byte (c : UInt32) (b : UInt8) : UInt32 :=
  crc32Shift (crc32Shift (crc32Shift (crc32Shift (crc32Shift (crc32Shift (crc32Shift (crc32Shift
    (c ^^^ b.toUInt32))))))))

def crc32 (data : Bytes) : UInt32 := ~~~(data.foldl crc32Byte (~~~0))

/-- The check value of CRC-32: the checksum of the nine ASCII digits. -/
example : crc32 [0x31, 0x32, 0x33, 0x34, 0x35, 0x36, 0x37, 0x38, 0x39] = 0xCBF43926 := by
  decide +kernel

/-! ## Records -/

/-- `_HEADER.size`. -/
def kHeaderSize : Nat := 8
/-- `_MAX_RECORD`. -/
def kMaxRecord : Nat := 16 * 1024 * 1024

/-- The names and values of a record, in the order in which they are written. -/
abbrev Members := List (Str × Json)

def opName : Str := [0x6f, 0x70]
def keyName : Str := [0x6b, 0x65, 0x79]
def tokenName : Str := [0x74, 0x6f, 0x6b, 0x65, 0x6e]
def valueName : Str := [0x76, 0x61, 0x6c, 0x75, 0x65]
def doneText : Str := [0x64, 0x6f, 0x6e, 0x65]
def claimText : Str := [0x63, 0x6c, 0x61, 0x69, 0x6d]

def doneRecord (key : Str) (token : Int) (value : Json) : Members :=
  [(opName, .string doneText), (keyName, .string key), (tokenName, .int token), (valueName, value)]

def claimRecord (key : Str) (token : Int) : Members :=
  [(opName, .string claimText), (keyName, .string key), (tokenName, .int token)]

/-- `record.get(name)`. -/
def field (members : Members) (name : Str) : Option Json :=
  (members.find? fun member => member.1 == name).map Prod.snd

/-- The bytes of a record. -/
def recordFrame (record : Members) : Bytes :=
  let payload := dumps (.object record)
  ByteWriter.u32 payload.length ++ (ByteWriter.u32 (crc32 payload).toNat ++ payload)

inductive Raised where
  | ledgerCorrupt (message : String)
  | superseded (message : String)
  /-- `struct.error`: the length does not fit its field -/
  | structError
  | json (error : JsonError)
  /-- a record whose fields are not of their types; no ledger writes one -/
  | badRecord
  deriving DecidableEq

/-- What `_parse` makes of what `json.loads` returns or raises: `RecursionError` is not a
`ValueError`. -/
def recordOf : Except JsonError Json → Except Raised (Option Members)
  | .ok (.object members) =>
    .ok (if (field members keyName).isSome && (field members opName).isSome then some members else none)
  | .error .recursionError => .error (.json .recursionError)
  | _ => .ok none

/-- `_parse`: the record that starts at `position`, and where it ends. -/
def parse (limits : Limits) (data : Bytes) (position : Nat) : Except Raised (Option (Members × Nat)) :=
  if data.length < position + kHeaderSize then .ok none
  else
    let length := leNat ((data.drop position).take 4)
    let checksum := leNat ((data.drop (position + 4)).take 4)
    let start := position + kHeaderSize
    if kMaxRecord < length ∨ data.length < start + length then .ok none
    else
      let payload := (data.drop start).take length
      if (crc32 payload).toNat ≠ checksum then .ok none
      else (recordOf (loads limits payload)).map fun record => record.map fun members => (members, start + length)

/-- `any(_parse(data, later) for later in ...)`. -/
def anyRecord (limits : Limits) (data : Bytes) : Nat → Nat → Except Raised Bool
  | 0, _ => .ok false
  | count + 1, later =>
    match parse limits data later with
    | .error raised => .error raised
    | .ok (some _) => .ok true
    | .ok none => anyRecord limits data count (later + 1)

/-! ## Ledgers -/

structure Entry where
  key : Str
  token : Int
  value : Json

/-- The limits in the loop of `_catch_up`, in the generator behind it, and in `append`. -/
structure Host where
  loads : Limits
  search : Limits
  dumps : Limits

structure Ledger where
  path : String
  /-- `_done`, in the order in which the keys came -/
  done : List Entry := []
  /-- `_claims`, 0 where there is none -/
  claims : Str → Int := fun _ => 0
  /-- everything before this has been read into the maps -/
  offset : Nat := 0
  /-- `once()`: runs whose result lost the race to be recorded -/
  duplicateRuns : Nat := 0

namespace Ledger

def find (l : Ledger) (key : Str) : Option Entry := l.done.find? fun entry => entry.key == key

/-- `_done.setdefault(key, entry)`. -/
def setDefault (l : Ledger) (entry : Entry) : Ledger :=
  if (l.find entry.key).isSome then l else { l with done := l.done ++ [entry] }

def raiseClaim (l : Ledger) (key : Str) (token : Int) : Ledger :=
  { l with claims := Function.update l.claims key (max (l.claims key) token) }

/-- `int(record.get("token", 0))`. -/
def tokenOf (record : Members) : Option Int :=
  match field record tokenName with
  | none => some 0
  | some (.int token) => some token
  | some _ => none

def isDone (record : Members) : Bool :=
  match field record opName with
  | some (.string op) => op == doneText
  | _ => false

/-- `_apply`. -/
def apply (l : Ledger) (record : Members) : Option Ledger :=
  match field record keyName, tokenOf record with
  | some (.string key), some token =>
    let l :=
      if isDone record then l.setDefault ⟨key, token, (field record valueName).getD .null⟩ else l
    some (l.raiseClaim key token)
  | _, _ => none

/-- The loop of `_catch_up`: what it raised, the object with what was read, and where
reading ended.  A record takes at least its header, so a fuel of the bytes there are is
never used up. -/
def readRecords (limits : Limits) (data : Bytes) : Nat → Nat → Ledger → Option Raised × Ledger × Nat
  | 0, position, l => (none, l, position)
  | fuel + 1, position, l =>
    if position < data.length then
      match parse limits data position with
      | .error raised => (some raised, l, position)
      | .ok none => (none, l, position)
      | .ok (some (record, next)) =>
        match l.apply record with
        | none => (some .badRecord, l, position)
        | some l => readRecords limits data fuel next l
    else (none, l, position)

/-- `_catch_up`. -/
def catchUp (host : Host) (l : Ledger) (file : Bytes) : Option Raised × Ledger × Bytes :=
  if file.length < l.offset then
    (some (.ledgerCorrupt s!"{l.path} shrank from {l.offset} to {file.length} bytes"), l, file)
  else
    let data := file.drop l.offset
    match readRecords host.loads data data.length 0 l with
    | (some raised, read, _) => (some raised, read, file)
    | (none, read, position) =>
      if position < data.length then
        match anyRecord host.search data (data.length - (position + 1)) (position + 1) with
        | .error raised => (some raised, read, file)
        | .ok true =>
          (some (.ledgerCorrupt (s!"{l.path}: damaged at byte {l.offset + position}, with valid " ++
            "entries after it")), read, file)
        | .ok false =>
          (none, { read with offset := l.offset + position }, file.take (l.offset + position))
      else (none, { read with offset := l.offset + position }, file)

end Ledger

/-! ## Sections -/

/-- What a section does once the maps are up to date: it answers, with the object as it
leaves it, or it appends a record and then answers. -/
inductive Decision (α : Type) where
  | answer (result : Except Raised α) (l : Ledger)
  | append (record : Members) (result : α)

structure Section (α : Type) where
  result : Except Raised α
  ledger : Ledger
  file : Bytes

/-- The bytes that `append(record)` writes. -/
def appended (limits : Limits) (record : Members) : Except Raised Bytes :=
  match limits.raised (.object record) with
  | some error => .error (.json error)
  | none =>
    if 2 ^ 32 ≤ (dumps (.object record)).length then .error .structError else .ok (recordFrame record)

/-- `append(record)`, durable on return. -/
def appendRecord {α : Type} (host : Host) (l : Ledger) (file : Bytes) (record : Members) (result : α) :
    Section α :=
  match appended host.dumps record with
  | .error raised => ⟨.error raised, l, file⟩
  | .ok bytes =>
    let file := file ++ bytes
    let l := { l with offset := file.length }
    match l.apply record with
    | none => ⟨.error .badRecord, l, file⟩
    | some l => ⟨.ok result, l, file⟩

/-- `with self._locked() as append`. -/
def locked {α : Type} (host : Host) (l : Ledger) (file : Bytes) (body : Ledger → Decision α) : Section α :=
  match l.catchUp host file with
  | (some raised, l, file) => ⟨.error raised, l, file⟩
  | (none, l, file) =>
    match body l with
    | .answer result l => ⟨result, l, file⟩
    | .append record result => appendRecord host l file record result

/-- What a call returns. -/
inductive Answer where
  | bool (added : Bool)
  | entry (found : Option Entry)
  | value (recorded : Json)
  /-- the first section of `once` is over, and the effect runs -/
  | run

/-- The sections of the calls. -/
inductive Call where
  | putIfAbsent (key : Str) (value : Json) (token : Int)
  | get (key : Str)
  | onceBegin (key : Str) (token : Int)
  | onceEnd (key : Str) (token : Int) (value : Json)

def strText (s : Str) : String := String.ofList (s.map Char.ofNat)

namespace Ledger

def putIfAbsent (key : Str) (value : Json) (token : Int) (l : Ledger) : Decision Answer :=
  if (l.find key).isSome then .answer (.ok (.bool false)) l
  else .append (doneRecord key token value) (.bool true)

def get (key : Str) (l : Ledger) : Decision Answer := .answer (.ok (.entry (l.find key))) l

/-- `once`, before the effect. -/
def onceBegin (key : Str) (token : Int) (l : Ledger) : Decision Answer :=
  match l.find key with
  | some entry => .answer (.ok (.value entry.value)) l
  | none =>
    let claimed := l.claims key
    if token < claimed then
      .answer (.error (.superseded s!"{strText key}: token {token} is older than {claimed}")) l
    else if claimed < token then .append (claimRecord key token) .run
    else .answer (.ok .run) l

/-- `once`, after the effect has returned the value. -/
def onceEnd (key : Str) (token : Int) (value : Json) (l : Ledger) : Decision Answer :=
  match l.find key with
  | some entry => .answer (.ok (.value entry.value)) { l with duplicateRuns := l.duplicateRuns + 1 }
  | none => .append (doneRecord key token value) (.value value)

end Ledger

def Call.body : Call → Ledger → Decision Answer
  | .putIfAbsent key value token => Ledger.putIfAbsent key value token
  | .get key => Ledger.get key
  | .onceBegin key token => Ledger.onceBegin key token
  | .onceEnd key token value => Ledger.onceEnd key token value

end Baton.Sdk
