/-
# Server.Replies — replies that wait for the log

The part of `server/server.cpp` that sends replies.  Every reply waits for the
LSN of the last record logged before it (`queueReply`): its bytes go to the
connection's `gated` buffer under a mark, and one queue for the whole server
holds an entry for every mark.  `releaseDurableReplies` samples the committed LSN,
moves what may go to `out`, and writes one connection after the other.

What the socket accepts is a list of results of `write_some`, one for each call.
What the poller watches, the input side and the session of a connection do not
touch replies and are left out.
-/
import Baton.Common.Codec
import Mathlib.Data.List.AList

namespace Baton

set_option autoImplicit false

/-- The bytes up to `end_` may go once `lsn` is committed. -/
structure Mark where
  lsn : Nat
  end_ : Nat
  deriving DecidableEq, Repr

structure Connection where
  -- replies waiting for durability
  gated : Bytes := []
  marks : List Mark := []
  -- replies released to the socket
  out : Bytes := []
  outOffset : Nat := 0
  wantWrite : Bool := false
  /-- has replies to flush at the end of this loop iteration -/
  dirty : Bool := false
  /-- protocol error or QUIT: reply, then close -/
  closeAfterFlush : Bool := false
  deriving DecidableEq, Repr

namespace Connection

def unsentBytes (c : Connection) : Nat := c.gated.length + (c.out.length - c.outOffset)

/-- `queue_reply`, without its effect on the server; `true` if there is a new mark. -/
def queueReply (lsn committedLsn : Nat) (bytes : Bytes) (c : Connection) : Connection × Bool :=
  if c.marks = [] ∧ lsn ≤ committedLsn then
    ({ c with out := c.out ++ bytes }, false)
  else
    let gated := c.gated ++ bytes
    match c.marks.getLast? with
    | some mark =>
      if mark.lsn = lsn then
        ({ c with gated, marks := c.marks.dropLast ++ [{ mark with end_ := gated.length }] }, false)
      else ({ c with gated, marks := c.marks ++ [⟨lsn, gated.length⟩] }, true)
    | none => ({ c with gated, marks := c.marks ++ [⟨lsn, gated.length⟩] }, true)

/-- The marks that are covered, from the front: where the last of them ends, and
the others. -/
def popMarks (committedLsn : Nat) : Nat → List Mark → Nat × List Mark
  | end_, [] => (end_, [])
  | end_, mark :: marks =>
    if mark.lsn ≤ committedLsn then popMarks committedLsn mark.end_ marks
    else (end_, mark :: marks)

/-- What one entry of the server's queue releases; `true` if there were bytes. -/
def release (committedLsn : Nat) (c : Connection) : Connection × Bool :=
  let (end_, marks) := popMarks committedLsn 0 c.marks
  -- an earlier entry already released these
  if end_ = 0 then ({ c with marks }, false)
  else
    ({ c with
        out := c.out ++ c.gated.take end_
        gated := c.gated.drop end_
        marks := marks.map fun mark => { mark with end_ := mark.end_ - end_ } },
      true)

end Connection

/-- A result of `write_some`. -/
inductive IoResult where
  | kOk (bytes : Nat)
  | kWouldBlock
  | kClosed
  | kError
  deriving DecidableEq, Repr

namespace Connection

/-- The writes of `flush`; `none` if one of them fails. -/
def writeOut : List IoResult → Connection → Option Connection
  | [], c => some c
  | result :: results, c =>
    if c.outOffset < c.out.length then
      match result with
      | .kOk bytes =>
        let written := min bytes (c.out.length - c.outOffset)
        writeOut results { c with outOffset := c.outOffset + written }
      | .kWouldBlock => some c
      | .kClosed => none
      | .kError => none
    else some c

/-- `none` if the connection is closed. -/
def flush (results : List IoResult) (c : Connection) : Option Connection :=
  match c.writeOut results with
  | none => none
  | some c =>
    let c := if c.outOffset = c.out.length then { c with out := [], outOffset := 0 } else c
    let c := { c with wantWrite := c.outOffset < c.out.length }
    if c.closeAfterFlush ∧ ¬ c.wantWrite ∧ c.gated = [] then none else some c

end Connection

/-- An entry of the server's queue, one for every mark. -/
structure Gated where
  lsn : Nat
  connection : Nat
  deriving DecidableEq, Repr

structure Server where
  /-- of the engine: the LSN of the last record logged -/
  lastLsn : Nat := 0
  /-- sampled once per iteration -/
  committedLsn : Nat := 0
  gated : List Gated := []
  dirty : List Nat := []
  byId : AList fun _ : Nat => Connection := ∅
  nextConnectionId : Nat := 1
  maxOutputBufferBytes : Nat := 64 * 2 ^ 20

namespace Server

def find (s : Server) (id : Nat) : Option Connection := s.byId.lookup id

def setConnection (s : Server) (id : Nat) (c : Connection) : Server :=
  { s with byId := s.byId.insert id c }

def closeConnection (s : Server) (id : Nat) : Server := { s with byId := s.byId.erase id }

/-- `accept_connections`, for one connection that is accepted. -/
def acceptConnection (s : Server) : Server :=
  { s.setConnection s.nextConnectionId {} with nextConnectionId := s.nextConnectionId + 1 }

/-- The connection has replies to flush. -/
def markDirty (s : Server) (id : Nat) (c : Connection) : Server :=
  if c.dirty then s.setConnection id c
  else { s.setConnection id { c with dirty := true } with dirty := s.dirty ++ [id] }

def queueReply (s : Server) (id : Nat) (bytes : Bytes) : Server :=
  match s.find id with
  | none => s
  | some c =>
    let (c, isNew) := c.queueReply s.lastLsn s.committedLsn bytes
    let s := if isNew then { s with gated := s.gated ++ [⟨s.lastLsn, id⟩] } else s
    s.markDirty id c

/-- What the entry at the front of the queue releases. -/
def releaseEntry (s : Server) (id : Nat) : Server :=
  match s.find id with
  | none => s
  | some c =>
    match c.release s.committedLsn with
    | (c, false) => s.setConnection id c
    | (c, true) => s.markDirty id c

/-- The loop over the queue. -/
def releaseGated : List Gated → Server → Server
  | [], s => { s with gated := [] }
  | entry :: entries, s =>
    if entry.lsn ≤ s.committedLsn then releaseGated entries (s.releaseEntry entry.connection)
    else { s with gated := entry :: entries }

/-- `flush`, which may close the connection. -/
def flush (s : Server) (id : Nat) (results : List IoResult) (c : Connection) : Server :=
  match c.flush results with
  | none => s.closeConnection id
  | some c => s.setConnection id c

/-- One write per connection, however many replies it got.  `results` are those of
the writes to each connection. -/
def flushDirty (results : Nat → List IoResult) : List Nat → Server → Server
  | [], s => s
  | id :: ids, s =>
    match s.find id with
    | none => flushDirty results ids s
    | some c =>
      let c := { c with dirty := false }
      let s :=
        if s.maxOutputBufferBytes < c.unsentBytes then s.closeConnection id
        else s.flush id (results id) c
      flushDirty results ids s

/-- `release_durable_replies` up to the writes; `committedLsn` is what the log has
announced. -/
def releaseReplies (s : Server) (committedLsn : Nat) : Server :=
  releaseGated s.gated { s with committedLsn }

def releaseDurableReplies (s : Server) (committedLsn : Nat) (results : Nat → List IoResult) :
    Server :=
  let s := s.releaseReplies committedLsn
  flushDirty results s.dirty { s with dirty := [] }

end Server

end Baton
