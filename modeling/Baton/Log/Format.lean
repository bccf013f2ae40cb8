/-
# Log.Format — segment headers and record frames

The on-disk format of the durable log (`log/format.cpp`): a segment file is a
32-byte header and then record frames back to back.  The CRC of a frame covers
everything but itself.

`parseRecord_frame` reads back what `append_record` wrote, with any bytes behind
it; `parseRecord_sound` is the converse: whatever `parse_record` accepts is, byte
for byte, the frame of the record it reports.  A parse therefore never looks
past the frame it accepts.

A log sequence number (LSN) is a 64-bit counter; here it is a natural number,
stored in eight bytes.
-/
import Baton.Common.Crc32c
import Baton.Common.SimFs
import Baton.Theory.Decimal

namespace Baton

open Theory
open ByteWriter (u32 u64 u8)
open List (append_assoc drop_left' drop_zero length_append take_left')

set_option autoImplicit false

/-- `"BATONLOG"`. -/
def kSegmentMagic : Bytes := [0x42, 0x41, 0x54, 0x4F, 0x4E, 0x4C, 0x4F, 0x47]
def kLogFormatVersion : Nat := 1
def kSegmentHeaderSize : Nat := 32
def kRecordHeaderSize : Nat := 17
def kMaxRecordPayload : Nat := 64 * 2 ^ 20 + 64 * 2 ^ 10

structure LogRecordView where
  lsn : Nat
  type : UInt8
  payload : Bytes
  deriving DecidableEq, Repr

/-! ## Names -/

def kSegmentPrefix : FileName := ['w', 'a', 'l', '-']
def kSegmentSuffix : FileName := ['.', 'l', 'o', 'g']
def kLsnDigits : Nat := 20

def segmentFileName (firstLsn : Nat) : FileName :=
  kSegmentPrefix ++ decimal kLsnDigits firstLsn ++ kSegmentSuffix

/-- The digits between `pre` and `suf`, as `std::from_chars` reads them: any
non-digit and any value of 2^64 or more is refused. -/
def parseNumberedName (pre suf name : FileName) : Option Nat :=
  if name.length ≠ pre.length + kLsnDigits + suf.length then none
  else if name.take pre.length ≠ pre ∨ name.drop (pre.length + kLsnDigits) ≠ suf then none
  else
    match parseDecimal ((name.drop pre.length).take kLsnDigits) with
    | none => none
    | some lsn => if lsn < 2 ^ 64 then some lsn else none

def parseSegmentFileName (name : FileName) : Option Nat :=
  parseNumberedName kSegmentPrefix kSegmentSuffix name

variable {lsn : Nat} {segment payload : Bytes} {type : UInt8}

theorem parseNumberedName_eq_some {pre suf name : FileName} :
    parseNumberedName pre suf name = some lsn ↔
      lsn < 2 ^ 64 ∧ name = pre ++ decimal kLsnDigits lsn ++ suf := by
  constructor
  · intro parsed
    unfold parseNumberedName at parsed
    split at parsed
    · cases parsed
    rename_i size
    split at parsed
    · cases parsed
    rename_i ends
    push Not at size ends
    obtain ⟨front, back⟩ := ends
    cases digits : parseDecimal ((name.drop pre.length).take kLsnDigits) with
    | none => simp [digits] at parsed
    | some value =>
      simp only [digits, Option.ite_none_right_eq_some, Option.some.injEq] at parsed
      obtain ⟨small, rfl⟩ := parsed
      refine ⟨small, ?_⟩
      have width : ((name.drop pre.length).take kLsnDigits).length = kLsnDigits := by
        simp; omega
      have numeral := decimal_parseDecimal digits
      rw [width] at numeral
      rw [numeral]
      calc name = name.take pre.length ++ name.drop pre.length := (List.take_append_drop _ _).symm
        _ = pre ++ ((name.drop pre.length).take kLsnDigits ++
              (name.drop pre.length).drop kLsnDigits) := by
            rw [front, List.take_append_drop]
        _ = pre ++ (name.drop pre.length).take kLsnDigits ++ suf := by
            rw [List.drop_drop, back, append_assoc]
  · rintro ⟨small, rfl⟩
    have width : (decimal kLsnDigits lsn).length = kLsnDigits := decimal_length _ _
    have value : lsn % 10 ^ kLsnDigits = lsn := Nat.mod_eq_of_lt (lt_trans small (by decide))
    unfold parseNumberedName
    simp [width, parseDecimal_decimal, value, List.drop_append]
    exact ⟨by omega, small⟩

theorem parseSegmentFileName_eq_some {name : FileName} :
    parseSegmentFileName name = some lsn ↔ lsn < 2 ^ 64 ∧ name = segmentFileName lsn :=
  parseNumberedName_eq_some

theorem parseSegmentFileName_segmentFileName (small : lsn < 2 ^ 64) :
    parseSegmentFileName (segmentFileName lsn) = some lsn :=
  parseSegmentFileName_eq_some.2 ⟨small, rfl⟩

/-- A name is parsed to at most one LSN, and an LSN comes from at most one name. -/
theorem segmentFileName_inj {a b : Nat} (ha : a < 2 ^ 64) (hb : b < 2 ^ 64)
    (same : segmentFileName a = segmentFileName b) : a = b := by
  have left := parseSegmentFileName_segmentFileName ha
  rw [same, parseSegmentFileName_segmentFileName hb] at left
  exact (Option.some.inj left).symm

/-! ## Segment headers -/

/-- The 24 header bytes under the header checksum. -/
def headerFields (firstLsn : Nat) : Bytes :=
  kSegmentMagic ++ (u32 kLogFormatVersion ++ (u32 0 ++ u64 firstLsn))

def segmentHeader (firstLsn : Nat) : Bytes :=
  headerFields firstLsn ++
    (u32 (crc32c (headerFields firstLsn)).toNat ++ u32 0)

def appendSegmentHeader (out : Bytes) (firstLsn : Nat) : Bytes := out ++ segmentHeader firstLsn

def parseSegmentHeader (segment : Bytes) : Result Nat :=
  if segment.length < kSegmentHeaderSize then
    .error ⟨.kCorruption,
      s!"segment header truncated: {segment.length} of {kSegmentHeaderSize} bytes"⟩
  else
    let r : ByteReader := ⟨segment.take kSegmentHeaderSize, true⟩
    let (magic, r) := r.raw kSegmentMagic.length
    if magic ≠ kSegmentMagic then .error ⟨.kCorruption, "segment header: bad magic"⟩
    else
      let (version, r) := r.u32
      let (_, r) := r.u32
      let (firstLsn, r) := r.u64
      let (storedCrc, _) := r.u32
      if storedCrc ≠ (crc32c (segment.take 24)).toNat then
        .error ⟨.kCorruption, "segment header: bad checksum"⟩
      -- after the checksum, so that a damaged version field reads as corruption
      else if version ≠ kLogFormatVersion then
        .error ⟨.kFailedPrecondition, s!"segment header: unsupported format version {version}"⟩
      else if firstLsn = 0 then .error ⟨.kCorruption, "segment header: first LSN is 0"⟩
      else .ok firstLsn

@[simp] theorem headerFields_length (lsn : Nat) : (headerFields lsn).length = 24 := by
  simp [headerFields, kSegmentMagic, u32, u64]

@[simp] theorem segmentHeader_length (lsn : Nat) :
    (segmentHeader lsn).length = kSegmentHeaderSize := by
  simp [segmentHeader, u32, kSegmentHeaderSize]

theorem parseSegmentHeader_pos (ok : parseSegmentHeader segment = .ok lsn) :
    kSegmentHeaderSize ≤ segment.length ∧ lsn ≠ 0 := by
  simp only [parseSegmentHeader] at ok
  split at ok
  · cases ok
  · rename_i long
    repeat (split at ok; · cases ok)
    cases ok
    exact ⟨Nat.le_of_not_lt long, by assumption⟩

theorem parseSegmentHeader_header (positive : lsn ≠ 0) (small : lsn < 2 ^ 64)
    (rest : Bytes) : parseSegmentHeader (segmentHeader lsn ++ rest) = .ok lsn := by
  have long : ¬ (segmentHeader lsn ++ rest).length < kSegmentHeaderSize := by simp
  have front : (segmentHeader lsn ++ rest).take kSegmentHeaderSize = segmentHeader lsn :=
    take_left' (segmentHeader_length lsn)
  have fields : (segmentHeader lsn ++ rest).take 24 = headerFields lsn := by
    rw [segmentHeader, append_assoc]
    exact take_left' (headerFields_length lsn)
  have crc : (crc32c (headerFields lsn)).toNat % 2 ^ 32 = (crc32c (headerFields lsn)).toNat :=
    Nat.mod_eq_of_lt (UInt32.toNat_lt _)
  have stored : lsn % 2 ^ 64 = lsn := Nat.mod_eq_of_lt small
  have layout : segmentHeader lsn = kSegmentMagic ++ (u32 kLogFormatVersion ++
      (u32 0 ++ (u64 lsn ++
        (u32 (crc32c (headerFields lsn)).toNat ++ u32 0)))) := by
    simp [segmentHeader, headerFields]
  unfold parseSegmentHeader
  rw [if_neg long]
  simp only [front, fields]
  rw [layout]
  simp only [ByteReader.raw_append, ByteReader.u32_append, ByteReader.u64_append, crc, stored]
  simp [positive, kLogFormatVersion]

/-! ## Record frames -/

/-- The record CRC covers the length field and everything after the CRC field. -/
def recordCrc (lengthField afterCrc : Bytes) : UInt32 := crc32cExtend (crc32c lengthField) afterCrc

/-- What follows the CRC field. -/
def frameBody (lsn : Nat) (type : UInt8) (payload : Bytes) : Bytes :=
  [type] ++ (u64 lsn ++ payload)

/-- The bytes of one record. -/
def frame (lsn : Nat) (type : UInt8) (payload : Bytes) : Bytes :=
  u32 payload.length ++
    (u32 (recordCrc (u32 payload.length) (frameBody lsn type payload)).toNat ++
      frameBody lsn type payload)

/-- `none` is a failed `BATON_CHECK`, which aborts.  The frame is first written
with a zero CRC field, which is then overwritten. -/
def appendRecord (out : Bytes) (lsn : Nat) (type : UInt8) (payload : Bytes) : Option Bytes :=
  if payload.length ≤ kMaxRecordPayload ∧ lsn % 2 ^ 64 ≠ 0 then
    let encoded := u32 payload.length ++ (u32 0 ++ frameBody lsn type payload)
    let crc := recordCrc (encoded.take 4) (encoded.drop 8)
    some (out ++ (encoded.take 4 ++ (u32 crc.toNat ++ encoded.drop 8)))
  else none

inductive RecordParseStatus where
  | kOk
  | kEndOfData
  | kTruncated
  | kBadLength
  | kBadCrc
  deriving DecidableEq, Repr

def RecordParseStatus.toString : RecordParseStatus → String
  | .kOk => "ok"
  | .kEndOfData => "end of data"
  | .kTruncated => "truncated record"
  | .kBadLength => "implausible record length"
  | .kBadCrc => "checksum mismatch"

structure RecordParseResult where
  status : RecordParseStatus
  record : LogRecordView := ⟨0, 0, []⟩
  size : Nat := 0
  deriving DecidableEq, Repr

def loadU32 (data : Bytes) (offset : Nat) : Nat := leNat ((data.drop offset).take 4)
def loadU64 (data : Bytes) (offset : Nat) : Nat := leNat ((data.drop offset).take 8)

def parseRecord (data : Bytes) : RecordParseResult :=
  if data = [] then { status := .kEndOfData }
  else if data.length < kRecordHeaderSize then { status := .kTruncated }
  else
    let length := loadU32 data 0
    if kMaxRecordPayload < length then { status := .kBadLength }
    else
      let total := kRecordHeaderSize + length
      if data.length < total then { status := .kTruncated }
      else
        let encoded := data.take total
        if loadU32 encoded 4 ≠ (recordCrc (encoded.take 4) (encoded.drop 8)).toNat then
          { status := .kBadCrc }
        else
          let r : ByteReader := ⟨encoded.drop 8, true⟩
          let (type, r) := r.u8
          let (lsn, r) := r.u64
          let (payload, _) := r.raw length
          { status := .kOk, record := ⟨lsn, UInt8.ofNat type, payload⟩, size := total }

@[simp] theorem frameBody_length (lsn : Nat) (type : UInt8) (payload : Bytes) :
    (frameBody lsn type payload).length = 9 + payload.length := by
  simp [frameBody, u64]
  omega

@[simp] theorem frame_length (lsn : Nat) (type : UInt8) (payload : Bytes) :
    (frame lsn type payload).length = kRecordHeaderSize + payload.length := by
  simp [frame, u32, kRecordHeaderSize]
  omega

theorem appendRecord_eq (out : Bytes) (type : UInt8)
    (fits : payload.length ≤ kMaxRecordPayload) (positive : lsn % 2 ^ 64 ≠ 0) :
    appendRecord out lsn type payload = some (out ++ frame lsn type payload) := by
  have width : (u32 payload.length).length = 4 := leBytes_length 4 _
  have zeros : (u32 0).length = 4 := leBytes_length 4 _
  have front (body : Bytes) : (u32 payload.length ++ body).take 4 =
      u32 payload.length := take_left' width
  have back (body : Bytes) :
      (u32 payload.length ++ (u32 0 ++ body)).drop 8 = body := by
    rw [← append_assoc]
    exact drop_left' (by simp [width, zeros])
  simp only [appendRecord, fits, positive, ne_eq, not_false_eq_true, and_self, if_true, front, back]
  rfl

/-- `append_record` succeeds only on a payload and an LSN the format allows. -/
theorem appendRecord_isSome {out result : Bytes}
    (appended : appendRecord out lsn type payload = some result) :
    payload.length ≤ kMaxRecordPayload ∧ lsn % 2 ^ 64 ≠ 0 ∧
      result = out ++ frame lsn type payload := by
  by_cases checks : payload.length ≤ kMaxRecordPayload ∧ lsn % 2 ^ 64 ≠ 0
  · rw [appendRecord_eq out type checks.1 checks.2] at appended
    exact ⟨checks.1, checks.2, (Option.some.inj appended).symm⟩
  · simp only [appendRecord, checks, if_false] at appended
    cases appended

theorem loadU32_append (v : Nat) (rest : Bytes) : loadU32 (u32 v ++ rest) 0 = v % 2 ^ 32 := by
  have front : (u32 v ++ rest).take 4 = u32 v :=
    take_left' (leBytes_length 4 v)
  simp only [loadU32, drop_zero, front]
  exact leNat_leBytes 4 v

/-- The result of a successful parse. -/
def RecordParseResult.accepted (record : LogRecordView) : RecordParseResult :=
  { status := .kOk, record := record, size := kRecordHeaderSize + record.payload.length }

theorem kMaxRecordPayload_lt : kMaxRecordPayload < 2 ^ 32 := by decide

theorem loadU32_frame (lsn : Nat) (type : UInt8) (fits : payload.length ≤ kMaxRecordPayload)
    (rest : Bytes) : loadU32 (frame lsn type payload ++ rest) 0 = payload.length := by
  have room := kMaxRecordPayload_lt
  rw [frame, append_assoc, loadU32_append, Nat.mod_eq_of_lt (by omega)]

theorem loadU64_frame (type : UInt8) (payload : Bytes) (small : lsn < 2 ^ 64)
    (rest : Bytes) : loadU64 (frame lsn type payload ++ rest) 9 = lsn := by
  have front : frame lsn type payload ++ rest =
      (u32 payload.length ++ (u32 (recordCrc
        (u32 payload.length) (frameBody lsn type payload)).toNat ++ [type])) ++
        (u64 lsn ++ (payload ++ rest)) := by
    simp [frame, frameBody]
  have behind : (frame lsn type payload ++ rest).drop 9 =
      u64 lsn ++ (payload ++ rest) := by
    rw [front]
    exact drop_left' (by simp [u32])
  have width : (u64 lsn).length = 8 := leBytes_length 8 lsn
  rw [loadU64, behind, take_left' width]
  exact leNat_leBytes_of_lt small

/-- A frame cut short is reported as such. -/
theorem parseRecord_cut {n : Nat} (fits : payload.length ≤ kMaxRecordPayload) (some_ : 0 < n)
    (short : n < kRecordHeaderSize + payload.length) :
    (parseRecord ((frame lsn type payload).take n)).status = .kTruncated := by
  have size : ((frame lsn type payload).take n).length = n := by
    rw [List.length_take, frame_length]
    omega
  have nonempty : (frame lsn type payload).take n ≠ [] := by
    intro empty
    rw [empty] at size
    simp at size
    omega
  simp only [parseRecord, nonempty, if_false, size]
  split
  · rfl
  · rename_i header
    have length : loadU32 ((frame lsn type payload).take n) 0 = payload.length := by
      have whole := loadU32_frame lsn type fits []
      simp only [kRecordHeaderSize] at header
      rw [List.append_nil, loadU32, drop_zero] at whole
      rw [loadU32, drop_zero, List.take_take, Nat.min_eq_left (by omega), whole]
    rw [length, if_neg (by omega), if_pos short]

/-- The three parts of a frame where `parse_record` looks for them. -/
theorem frame_parts (lsn : Nat) (type : UInt8) (payload : Bytes) :
    (frame lsn type payload).take 4 = u32 payload.length ∧
      (frame lsn type payload).drop 8 = frameBody lsn type payload ∧
      loadU32 (frame lsn type payload) 4 =
        (recordCrc (u32 payload.length) (frameBody lsn type payload)).toNat := by
  have width : (u32 payload.length).length = 4 := leBytes_length 4 _
  refine ⟨take_left' width, ?_, ?_⟩
  · rw [frame, ← append_assoc]
    exact drop_left' (by simp [u32])
  · have field : (frame lsn type payload).drop 4 =
        u32 (recordCrc (u32 payload.length)
          (frameBody lsn type payload)).toNat ++ frameBody lsn type payload :=
      drop_left' width
    rw [← Nat.mod_eq_of_lt (UInt32.toNat_lt _), ← loadU32_append _ (frameBody lsn type payload),
      ← field]
    simp [loadU32]

/-- What was written is read back, whatever follows it. -/
theorem parseRecord_frame (type : UInt8)
    (fits : payload.length ≤ kMaxRecordPayload) (small : lsn < 2 ^ 64) (rest : Bytes) :
    parseRecord (frame lsn type payload ++ rest) = .accepted ⟨lsn, type, payload⟩ := by
  have length := loadU32_frame lsn type fits rest
  have encoded : (frame lsn type payload ++ rest).take (kRecordHeaderSize + payload.length) =
      frame lsn type payload := take_left' (frame_length lsn type payload)
  obtain ⟨lengthField, body, crc⟩ := frame_parts lsn type payload
  have fields : frameBody lsn type payload = u8 type.toNat ++
      (u64 lsn ++ (payload ++ [])) := by
    simp [frameBody, u8]
  have nonempty : frame lsn type payload ++ rest ≠ [] := by
    intro empty
    have := congrArg List.length empty
    simp [kRecordHeaderSize] at this
  have long : ¬ (frame lsn type payload ++ rest).length < kRecordHeaderSize := by simp; omega
  have whole : ¬ (frame lsn type payload ++ rest).length <
      kRecordHeaderSize + payload.length := by simp
  have byte : type.toNat % 256 = type.toNat := Nat.mod_eq_of_lt type.toNat_lt
  simp only [parseRecord, nonempty, if_false, long, length, not_lt.2 fits, whole, encoded,
    lengthField, body, crc, ne_eq, not_true_eq_false]
  rw [fields]
  simp only [ByteReader.u8_append, ByteReader.u64_append, ByteReader.raw_append, byte,
    Nat.mod_eq_of_lt small, UInt8.ofNat_toNat, RecordParseResult.accepted]

theorem exists_split {α : Type} {n : Nat} {l : List α} (enough : n ≤ l.length) :
    ∃ front back, l = front ++ back ∧ front.length = n :=
  ⟨l.take n, l.drop n, (List.take_append_drop n l).symm, List.length_take_of_le enough⟩

/-- A word of the right width is the encoding of the number it denotes. -/
theorem eq_leBytes {w : Nat} {word : Bytes} (width : word.length = w) :
    word = leBytes w (leNat word) := by
  subst width
  exact (leBytes_leNat word).symm

/-- Whatever parses is the frame of the record it parses to. -/
theorem parseRecord_sound {data : Bytes} (ok : (parseRecord data).status = .kOk) :
    ∃ (record : LogRecordView) (rest : Bytes),
      data = frame record.lsn record.type record.payload ++ rest ∧
      record.payload.length ≤ kMaxRecordPayload ∧ record.lsn < 2 ^ 64 ∧
      parseRecord data = .accepted record := by
  simp only [parseRecord] at ok
  split at ok
  · cases ok
  split at ok
  · cases ok
  rename_i long
  split at ok
  · cases ok
  rename_i fits
  split at ok
  · cases ok
  rename_i whole
  split at ok
  · cases ok
  rename_i crc
  -- the five fields, as the reader cuts them
  simp only [kRecordHeaderSize] at long whole crc
  obtain ⟨lengthField, tail, rfl, width⟩ := exists_split (n := 4) (l := data) (by omega)
  have length : loadU32 (lengthField ++ tail) 0 = leNat lengthField := by
    simp [loadU32, width]
  rw [length] at fits whole crc
  simp only [length_append, width] at long whole
  obtain ⟨crcField, tail, rfl, crcWidth⟩ := exists_split (n := 4) (l := tail) (by omega)
  simp only [length_append, crcWidth] at long whole
  obtain ⟨typeField, tail, rfl, typeWidth⟩ := exists_split (n := 1) (l := tail) (by omega)
  simp only [length_append, typeWidth] at long whole
  obtain ⟨lsnField, tail, rfl, lsnWidth⟩ := exists_split (n := 8) (l := tail) (by omega)
  simp only [length_append, lsnWidth] at long whole
  obtain ⟨payload, rest, rfl, payloadWidth⟩ :=
    exists_split (n := leNat lengthField) (l := tail) (by omega)
  obtain ⟨type, rfl⟩ := List.length_eq_one_iff.1 typeWidth
  have small : leNat lsnField < 2 ^ 64 := by
    have := leNat_lt lsnField
    rwa [lsnWidth] at this
  have lengthWord : lengthField = u32 payload.length := by
    rw [payloadWidth]
    exact eq_leBytes width
  have lsnWord : lsnField = u64 (leNat lsnField) := eq_leBytes lsnWidth
  have encoded : (lengthField ++ (crcField ++ ([type] ++ (lsnField ++ (payload ++ rest))))).take
      (17 + leNat lengthField) = lengthField ++ (crcField ++ ([type] ++ (lsnField ++ payload))) := by
    simp only [← append_assoc]
    exact take_left' (by simp [width, crcWidth, lsnWidth, payloadWidth]; omega)
  rw [encoded] at crc
  have crcValue : leNat crcField = (recordCrc lengthField ([type] ++ (lsnField ++ payload))).toNat := by
    have back : (lengthField ++ (crcField ++ ([type] ++ (lsnField ++ payload)))).drop 8 =
        [type] ++ (lsnField ++ payload) := by
      rw [← append_assoc]
      exact drop_left' (by simp [width, crcWidth])
    rw [take_left' width, back] at crc
    simpa [loadU32, width, crcWidth] using crc
  have crcWord : crcField =
      u32 (recordCrc lengthField ([type] ++ (lsnField ++ payload))).toNat := by
    rw [← crcValue]
    exact eq_leBytes crcWidth
  have bytes : lengthField ++ (crcField ++ ([type] ++ (lsnField ++ (payload ++ rest)))) =
      frame (leNat lsnField) type payload ++ rest := by
    rw [frame, frameBody, ← lengthWord, ← lsnWord, ← crcWord]
    simp only [append_assoc]
  refine ⟨⟨leNat lsnField, type, payload⟩, rest, bytes, by simp only; omega, small, ?_⟩
  rw [bytes]
  exact parseRecord_frame type (by omega) small rest

end Baton
