/-
# Snapshot.File — snapshot files, written and loaded

The format half of `snapshot/snapshot.{h,cpp}`: a snapshot file is a 40-byte header
and then chunks framed exactly like log records, with the chunk number in the place
of the LSN; the last one is an end chunk with the totals.

The writer goes through a bounded buffer, so what reaches the file is a list of
appends.  The loader reads through a bounded window; how many bytes a read returns
is up to the file, and `ReadSizes` stands for that.

A path is shown by the file name: there is one data directory.
-/
import Baton.Log.Format
import Baton.State.Image
import Baton.Theory.Chunks

namespace Baton

open Theory
open ByteWriter (u32 u64 varint)

set_option autoImplicit false

/-- `"BATONSNP"`. -/
def kSnapshotMagic : Bytes := [0x42, 0x41, 0x54, 0x4F, 0x4E, 0x53, 0x4E, 0x50]
def kSnapshotFormatVersion : Nat := 1
def kSnapshotHeaderSize : Nat := 40
def kSnapshotJobsPerChunk : Nat := 4096

/-- Jobs are grouped by count and by size. -/
def kTargetChunkBytes : Nat := 4 * 2 ^ 20
def kWriteBufferBytes : Nat := 2 ^ 20
def kReadBytes : Nat := 256 * 2 ^ 10

namespace SnapshotChunk

def kMeta : UInt8 := 1
def kJobs : UInt8 := 2
def kIdem : UInt8 := 3
def kEnd : UInt8 := 255

end SnapshotChunk

/-! ## Names -/

def kSnapshotPrefix : FileName := ['s', 'n', 'a', 'p', 's', 'h', 'o', 't', '-']
def kFinalSuffix : FileName := ['.', 's', 'n', 'a', 'p']

def snapshotFileName (lsn : Nat) : FileName :=
  kSnapshotPrefix ++ decimal kLsnDigits lsn ++ kFinalSuffix

def parseSnapshotFileName (name : FileName) : Option Nat :=
  parseNumberedName kSnapshotPrefix kFinalSuffix name

theorem parseSnapshotFileName_eq_some {name : FileName} {lsn : Nat} :
    parseSnapshotFileName name = some lsn ↔ lsn < 2 ^ 64 ∧ name = snapshotFileName lsn :=
  parseNumberedName_eq_some

/-! ## Writing -/

/-- `static_cast<uint64_t>` of a signed time, and back. -/
def toU64 (t : Int) : Nat := (t % 2 ^ 64).toNat
def ofU64 (n : Nat) : Int := if n < 2 ^ 63 then n else n - 2 ^ 64

structure SnapshotInfo where
  lsn : Nat := 0
  createdAt : Int := 0
  bytes : Nat := 0
  chunks : Nat := 0
  jobs : Nat := 0
  idemKeys : Nat := 0
  deriving DecidableEq, Repr

/-- The 32 header bytes under the header checksum. -/
def snapshotHeaderFields (lsn : Nat) (createdAt : Int) : Bytes :=
  kSnapshotMagic ++ (u32 kSnapshotFormatVersion ++ (u32 0 ++
    (u64 lsn ++ u64 (toU64 createdAt))))

/-- `append_header`. -/
def snapshotHeader (lsn : Nat) (createdAt : Int) : Bytes :=
  snapshotHeaderFields lsn createdAt ++
    (u32 (crc32c (snapshotHeaderFields lsn createdAt)).toNat ++ u32 0)

structure ChunkWriter where
  /-- what went to the file, append by append -/
  appended : List Bytes := []
  buffer : Bytes := []
  sequence : Nat := 0
  deriving DecidableEq

namespace ChunkWriter

def flush (w : ChunkWriter) : ChunkWriter :=
  { w with appended := w.appended ++ [w.buffer], buffer := [] }

def add (w : ChunkWriter) (type : UInt8) (payload : Bytes) : Option ChunkWriter :=
  (appendRecord w.buffer (w.sequence + 1) type payload).map fun buffer =>
    let w := { w with buffer, sequence := w.sequence + 1 }
    if kWriteBufferBytes ≤ w.buffer.length then w.flush else w

def addAll : List (UInt8 × Bytes) → ChunkWriter → Option ChunkWriter
  | [], w => some w
  | (type, payload) :: chunks, w => (w.add type payload).bind (addAll chunks)

def addRaw (w : ChunkWriter) (bytes : Bytes) : ChunkWriter := { w with buffer := w.buffer ++ bytes }

end ChunkWriter

/-- How many of the jobs go into the next chunk: `taken` and `bytes` count those that
are in it already. -/
def chunkEnd : List JobImage → Nat → Nat → Nat
  | [], taken, _ => taken
  | job :: jobs, taken, bytes =>
    if taken < kSnapshotJobsPerChunk ∧ bytes < kTargetChunkBytes then
      chunkEnd jobs (taken + 1) (bytes + (job.payload.length + 256))
    else taken

/-- The loop over the jobs.  A chunk takes at least one. -/
def jobChunks : Nat → List JobImage → List (List JobImage) := chunksOf fun jobs => chunkEnd jobs 0 0

/-- The loop over the keys. -/
def idemChunks : Nat → List IdemImage → List (List IdemImage) := chunksOf fun _ => kSnapshotJobsPerChunk

/-- Every chunk but the end chunk. -/
def imageChunks (image : StateImage) : List (UInt8 × Bytes) :=
  (SnapshotChunk.kMeta, encodeImageMeta image) ::
    ((jobChunks image.jobs.length image.jobs).map fun jobs =>
      (SnapshotChunk.kJobs, encodeImageJobs jobs)) ++
    ((idemChunks image.idem.length image.idem).map fun keys =>
      (SnapshotChunk.kIdem, encodeImageIdem keys))

def endChunk (chunks : Nat) (image : StateImage) : Bytes :=
  varint chunks ++ varint image.jobs.length ++
    varint image.idem.length

/-- `write_chunks`, after the header: `none` where `append_record` fails a check. -/
def writeChunks (image : StateImage) (w : ChunkWriter) : Option ChunkWriter := do
  let w ← w.addAll (imageChunks image)
  let w ← w.add SnapshotChunk.kEnd (endChunk w.sequence image)
  some w.flush

/-- What `write_snapshot` appends to the temporary file. -/
def snapshotAppends (image : StateImage) (lsn : Nat) (createdAt : Int) : Option (List Bytes) :=
  (writeChunks image ((ChunkWriter.addRaw {}) (snapshotHeader lsn createdAt))).map
    ChunkWriter.appended

/-- The bytes of the file. -/
def snapshotFile (image : StateImage) (lsn : Nat) (createdAt : Int) : Option Bytes :=
  (snapshotAppends image lsn createdAt).map List.flatten

/-! ## Loading -/

/-- How many bytes the reads of a file return: the `i`-th one returns at least one
byte and at most this many, if any are left. -/
abbrev ReadSizes := Nat → Nat

/-- Sequential access to a file with a bounded window held in memory. -/
structure ChunkReader where
  /-- the bytes of the file that have not been read -/
  file : Bytes
  sizes : ReadSizes
  reads : Nat := 0
  buffer : Bytes := []
  pos : Nat := 0

namespace ChunkReader

/-- `file_.read(n, buffer_)`, with the number of bytes read. -/
def read (r : ChunkReader) (n : Nat) : Nat × ChunkReader :=
  let got := min (min n (max 1 (r.sizes r.reads))) r.file.length
  (got, { r with
    file := r.file.drop got
    reads := r.reads + 1
    buffer := r.buffer ++ r.file.take got })

/-- `if (pos_ >= kWriteBufferBytes)`: what was consumed leaves the buffer. -/
def trim (r : ChunkReader) : ChunkReader :=
  if kWriteBufferBytes ≤ r.pos then { r with buffer := r.buffer.drop r.pos, pos := 0 } else r

/-- The loop of `ensure`.  A read returns a byte or it is the last one. -/
def ensureLoop (n : Nat) : Nat → ChunkReader → Bool × ChunkReader
  | 0, r => (false, r)
  | fuel + 1, r =>
    if r.buffer.length - r.pos < n then
      let (got, r) := r.trim.read (max kReadBytes n)
      if got = 0 then (false, r) else ensureLoop n fuel r
    else (true, r)

def ensure (r : ChunkReader) (n : Nat) : Bool × ChunkReader := ensureLoop n (r.file.length + 2) r

def peek (r : ChunkReader) (n : Nat) : Bytes := (r.buffer.drop r.pos).take n

def consume (r : ChunkReader) (n : Nat) : ChunkReader := { r with pos := r.pos + n }

end ChunkReader

def corruptSnapshot (name : FileName) (what : String) : Error :=
  ⟨.kCorruption, s!"snapshot {String.ofList name}: {what}"⟩

/-- The header: its LSN and its time. -/
def parseSnapshotHeader (name : FileName) (raw : Bytes) : Result (Nat × Int) :=
  let (magic, r) := ByteReader.raw ⟨raw, true⟩ kSnapshotMagic.length
  if magic ≠ kSnapshotMagic then .error (corruptSnapshot name "bad magic")
  else
    let (version, r) := r.u32
    let (_, r) := r.u32
    let (lsn, r) := r.u64
    let (createdAt, r) := r.u64
    let (storedCrc, r) := r.u32
    if storedCrc ≠ (crc32c (raw.take 32)).toNat then
      .error (corruptSnapshot name "bad header checksum")
    else
      let (padding, _) := r.u32
      if padding ≠ 0 then .error (corruptSnapshot name "bad header padding")
      else if version ≠ kSnapshotFormatVersion then
        .error ⟨.kFailedPrecondition,
          s!"snapshot {String.ofList name}: unsupported format version {version}"⟩
      else if parseSnapshotFileName name ≠ some lsn then
        .error (corruptSnapshot name "header LSN does not match the file name")
      else .ok (lsn, ofU64 createdAt)

/-- The chunk goes to the builder. -/
def addChunk (name : FileName) (sequence : Nat) (b : StateBuilder) (type : UInt8) (payload : Bytes) :
    Result StateBuilder :=
  let added : Option (Result StateBuilder) :=
    if type = SnapshotChunk.kMeta then some (b.addMeta payload)
    else if type = SnapshotChunk.kJobs then some (b.addJobs payload)
    else if type = SnapshotChunk.kIdem then some (b.addIdem payload)
    else none
  match added with
  | none => .error (corruptSnapshot name s!"chunk {sequence} has unknown type {type.toNat}")
  | some (.error e) => .error (corruptSnapshot name s!"chunk {sequence}: {e.message}")
  | some (.ok b) => .ok b

/-- The end chunk: the totals it carries must be those of what was read. -/
def checkEnd (name : FileName) (sequence : Nat) (b : StateBuilder) (payload : Bytes) :
    Result (Nat × Nat) :=
  let (chunks, r) := ByteReader.varint ⟨payload, true⟩
  let (jobs, r) := r.varint
  let (keys, r) := r.varint
  if !r.ok ∨ !r.atEnd ∨ chunks ≠ sequence - 1 ∨ jobs ≠ b.jobsAdded ∨ keys ≠ b.idemAdded then
    .error (corruptSnapshot name "end chunk totals do not match the contents")
  else .ok (jobs, keys)

/-- The chunk loop.  A chunk takes at least its header, so a fuel of the bytes there
are is never used up. -/
def loadChunks (name : FileName) :
    Nat → ChunkReader → StateBuilder → Nat → SnapshotInfo → Result (SnapshotInfo × State)
  | 0, _, _, _, _ => .error (corruptSnapshot name "truncated: no end chunk")
  | fuel + 1, reader, b, sequence, info =>
    let (haveFrame, reader) := reader.ensure kRecordHeaderSize
    if !haveFrame then .error (corruptSnapshot name "truncated: no end chunk")
    else
      let length := leNat (reader.peek 4)
      if kMaxRecordPayload < length then .error (corruptSnapshot name "implausible chunk length")
      else
        let total := kRecordHeaderSize + length
        let (haveChunk, reader) := reader.ensure total
        if !haveChunk then .error (corruptSnapshot name "truncated chunk")
        else
          let parsed := parseRecord (reader.peek total)
          if parsed.status ≠ .kOk then
            .error (corruptSnapshot name s!"chunk {sequence}: {parsed.status.toString}")
          else if parsed.record.lsn ≠ sequence then
            .error (corruptSnapshot name s!"chunk {sequence} is out of sequence")
          else if parsed.record.type = SnapshotChunk.kEnd then
            match checkEnd name sequence b parsed.record.payload with
            | .error e => .error e
            | .ok (jobs, keys) =>
              let (trailing, _) := (reader.consume total).ensure 1
              if trailing then .error (corruptSnapshot name "data after the end chunk")
              else
                match b.finish with
                | .error e => .error e
                | .ok state =>
                  .ok ({ info with
                    bytes := info.bytes + total
                    chunks := sequence
                    jobs := jobs
                    idemKeys := keys }, state)
          else
            match addChunk name sequence b parsed.record.type parsed.record.payload with
            | .error e => .error e
            | .ok b =>
              loadChunks name fuel (reader.consume total) b (sequence + 1)
                { info with bytes := info.bytes + total }

def loadSnapshot (name : FileName) (file : Bytes) (sizes : ReadSizes) (options : StateOptions)
    (platform : Platform) : Result (SnapshotInfo × State) :=
  let (haveHeader, reader) := (ChunkReader.mk file sizes 0 [] 0).ensure kSnapshotHeaderSize
  if !haveHeader then .error (corruptSnapshot name "truncated header")
  else
    match parseSnapshotHeader name (reader.peek kSnapshotHeaderSize) with
    | .error e => .error e
    | .ok (lsn, createdAt) =>
      loadChunks name (file.length + 1) (reader.consume kSnapshotHeaderSize)
        (StateBuilder.new options platform) 1
        { lsn := lsn, createdAt := createdAt, bytes := kSnapshotHeaderSize }

end Baton
