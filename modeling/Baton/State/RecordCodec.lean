/-
# State.RecordCodec — what is decoded from the log is what was encoded

`decodeRecord` reads back every record whose fields fit the wire
(`decodeRecord_encode`), and only such records come out of it (`wire_of_decode`).
`Record.Wire` is that condition: identifiers in 64 bits and times in the decoder's
range.  The lengths are those of strings that exist.
-/
import Baton.State.Records

namespace Baton

set_option autoImplicit false

/-- The times a decoder accepts. -/
def TimeInRange (t : Int) : Prop := 0 ≤ t ∧ t ≤ kMaxWallTimeMs

instance (t : Int) : Decidable (TimeInRange t) := inferInstanceAs (Decidable (_ ∧ _))

theorem TimeInRange.signed {t : Int} (inRange : TimeInRange t) : ByteReader.Signed64 t := by
  unfold TimeInRange kMaxWallTimeMs at inRange
  unfold ByteReader.Signed64
  omega

/-- A number or a length that a varint carries. -/
def Word (n : Nat) : Prop := n < 2 ^ 64

instance (n : Nat) : Decidable (Word n) := inferInstanceAs (Decidable (_ < _))

def Record.Wire : Record → Prop
  | .jobEnqueued r =>
    Word r.id ∧ Word r.queue.length ∧ Word r.payload.length ∧ TimeInRange r.runAt ∧
      Word r.idemKey.length ∧ TimeInRange r.idemExpiresAt ∧ TimeInRange r.at_
  | .jobLeased r => Word r.id ∧ Word r.token ∧ TimeInRange r.leaseExpiresAt ∧ TimeInRange r.at_
  | .leaseExtended r =>
    Word r.id ∧ Word r.token ∧ TimeInRange r.leaseExpiresAt ∧ TimeInRange r.at_
  | .jobSucceeded r => Word r.id ∧ Word r.token ∧ TimeInRange r.at_
  | .attemptFailed r =>
    Word r.id ∧ Word r.token ∧ Word r.error.length ∧ TimeInRange r.at_ ∧ TimeInRange r.retryAt
  | .jobCancelled r => Word r.id ∧ TimeInRange r.at_
  | .deadJobRetried r => Word r.id ∧ TimeInRange r.runAt ∧ TimeInRange r.at_
  | .jobsPurged r => Word r.ids.length ∧ ∀ id ∈ r.ids, Word id

namespace RecordReader

/-! ## Reading what was written -/

variable (rest : Bytes) (flag : Bool)

theorem varint_append {v : Nat} (small : Word v) :
    varint ⟨⟨ByteWriter.varint v ++ rest, true⟩, flag⟩ = (v, ⟨⟨rest, true⟩, flag⟩) := by
  simp only [varint, ByteReader.varint_append small rest]

theorem bytes_append {v : Bytes} (short : Word v.length) :
    bytes ⟨⟨ByteWriter.bytes v ++ rest, true⟩, flag⟩ = (v, ⟨⟨rest, true⟩, flag⟩) := by
  simp only [bytes, ByteReader.bytes_append short rest]

theorem u8_append {v : Nat} (small : v < 256) :
    u8 ⟨⟨ByteWriter.u8 v ++ rest, true⟩, flag⟩ = (v, ⟨⟨rest, true⟩, flag⟩) := by
  simp only [u8, ByteReader.u8_append, Nat.mod_eq_of_lt small]

theorem time_append {t : Int} (inRange : TimeInRange t) :
    time ⟨⟨putTime t ++ rest, true⟩, flag⟩ = (t, ⟨⟨rest, true⟩, flag⟩) := by
  have range : decide (0 ≤ t ∧ t ≤ kMaxWallTimeMs) = true := decide_eq_true inRange
  simp only [time, putTime, ByteReader.svarint_append inRange.signed rest, range, Bool.and_true]

theorem u32_append (v : UInt32) :
    u32 ⟨⟨ByteWriter.varint v.toNat ++ rest, true⟩, flag⟩ = (v, ⟨⟨rest, true⟩, flag⟩) := by
  have small : v.toNat < 2 ^ 32 := v.toNat_lt
  have range : decide (v.toNat < 2 ^ 32) = true := decide_eq_true small
  have read := ByteReader.varint_append (v := v.toNat) (by omega) rest
  simp only [u32, read, UInt32.ofNat_toNat, range, Bool.and_true]

theorem i32_append (v : Int32) :
    i32 ⟨⟨ByteWriter.svarint v.toInt ++ rest, true⟩, flag⟩ = (v, ⟨⟨rest, true⟩, flag⟩) := by
  have lower : -2 ^ 31 ≤ v.toInt := v.le_toInt
  have upper : v.toInt < 2 ^ 31 := v.toInt_lt
  have fits : ByteReader.Signed64 v.toInt := by
    unfold ByteReader.Signed64
    omega
  have range : decide (-2 ^ 31 ≤ v.toInt ∧ v.toInt < 2 ^ 31) = true := decide_eq_true ⟨lower, upper⟩
  simp only [i32, ByteReader.svarint_append fits rest, Int32.ofInt_toInt, range, Bool.and_true]

theorem ids_append : ∀ {list : List Nat}, (∀ id ∈ list, Word id) →
    ids list.length ⟨⟨(list.map ByteWriter.varint).flatten ++ rest, true⟩, flag⟩ =
      (list, ⟨⟨rest, true⟩, flag⟩)
  | [], _ => rfl
  | id :: list, small => by
    have head := varint_append ((list.map ByteWriter.varint).flatten ++ rest) flag
      (small id List.mem_cons_self)
    have tail := @ids_append list fun x member => small x (List.mem_cons_of_mem _ member)
    simp only [List.length_cons, List.map_cons, List.flatten_cons, List.append_assoc, ids, head,
      tail]

end RecordReader

theorem length_le_flatten_varint (list : List Nat) :
    list.length ≤ (list.map ByteWriter.varint).flatten.length := by
  induction list with
  | nil => exact Nat.zero_le _
  | cons id list ih =>
    have := ByteWriter.varint_length_pos id
    simp only [List.length_cons, List.map_cons, List.flatten_cons, List.length_append]
    omega

variable {record : Record} {type : Nat}

theorem decodeFields_encode (wire : record.Wire) :
    decodeFields record.typeOf ⟨⟨record.encodeFields, true⟩, true⟩ =
      .ok (record, ⟨⟨[], true⟩, true⟩) := by
  rw [← List.append_nil record.encodeFields]
  cases record with
  | jobEnqueued r =>
    obtain ⟨id, queue, payload, runAt, idemKey, idemExpiresAt, at_⟩ := wire
    simp only [decodeFields, Record.typeOf, Record.encodeFields, List.append_assoc,
      RecordReader.varint_append _ _ id, RecordReader.bytes_append _ _ queue,
      RecordReader.bytes_append _ _ payload, RecordReader.i32_append,
      RecordReader.time_append _ _ runAt, RecordReader.u32_append,
      RecordReader.bytes_append _ _ idemKey, RecordReader.time_append _ _ idemExpiresAt,
      RecordReader.time_append _ _ at_]
  | jobLeased r =>
    obtain ⟨id, token, expires, at_⟩ := wire
    simp only [decodeFields, Record.typeOf, Record.encodeFields, List.append_assoc,
      RecordReader.varint_append _ _ id, RecordReader.varint_append _ _ token,
      RecordReader.time_append _ _ expires, RecordReader.time_append _ _ at_]
  | leaseExtended r =>
    obtain ⟨id, token, expires, at_⟩ := wire
    simp only [decodeFields, Record.typeOf, Record.encodeFields, List.append_assoc,
      RecordReader.varint_append _ _ id, RecordReader.varint_append _ _ token,
      RecordReader.time_append _ _ expires, RecordReader.time_append _ _ at_]
  | jobSucceeded r =>
    obtain ⟨id, token, at_⟩ := wire
    simp only [decodeFields, Record.typeOf, Record.encodeFields, List.append_assoc,
      RecordReader.varint_append _ _ id, RecordReader.varint_append _ _ token,
      RecordReader.time_append _ _ at_]
  | attemptFailed r =>
    obtain ⟨id, token, error, at_, retryAt⟩ := wire
    have reason : r.reason.toByte < 256 := by cases r.reason <;> decide
    have dead : (if r.dead then 1 else 0) < 256 := by split <;> decide
    simp only [decodeFields, Record.typeOf, Record.encodeFields, List.append_assoc,
      RecordReader.varint_append _ _ id, RecordReader.varint_append _ _ token,
      RecordReader.u8_append _ _ reason, RecordReader.bytes_append _ _ error,
      RecordReader.time_append _ _ at_, RecordReader.u8_append _ _ dead,
      RecordReader.time_append _ _ retryAt]
    clear reason dead
    obtain ⟨i, t, reason, e, a, dead, retry⟩ := r
    cases reason <;> cases dead <;> rfl
  | jobCancelled r =>
    obtain ⟨id, at_⟩ := wire
    simp only [decodeFields, Record.typeOf, Record.encodeFields, List.append_assoc,
      RecordReader.varint_append _ _ id, RecordReader.time_append _ _ at_]
  | deadJobRetried r =>
    obtain ⟨id, runAt, at_⟩ := wire
    simp only [decodeFields, Record.typeOf, Record.encodeFields, List.append_assoc,
      RecordReader.varint_append _ _ id, RecordReader.time_append _ _ runAt,
      RecordReader.time_append _ _ at_]
  | jobsPurged r =>
    obtain ⟨count, small⟩ := wire
    have room := length_le_flatten_varint r.ids
    have read := RecordReader.ids_append [] true small
    rw [List.append_nil] at read
    simp only [decodeFields, Record.typeOf, Record.encodeFields, List.append_nil,
      RecordReader.varint_append _ _ count, ByteReader.remaining]
    rw [if_neg (by omega), read]

theorem decodeRecord_encode (wire : record.Wire) :
    decodeRecord record.typeOf record.encode = .ok record := by
  have version : kPayloadVersion % 256 = kPayloadVersion := rfl
  simp only [decodeRecord, Record.encode, ByteReader.u8_append, version,
    decodeFields_encode wire, ByteReader.atEnd]
  rfl

/-! ## Only such records are decoded -/

namespace RecordReader

variable (r : RecordReader)

theorem word_varint : Word r.varint.1 := ByteReader.varint_lt r.reader

theorem word_bytes : Word r.bytes.1.length := ByteReader.bytes_short r.reader

theorem word_ids : ∀ (count : Nat) (r : RecordReader),
    (ids count r).1.length = count ∧ ∀ id ∈ (ids count r).1, Word id
  | 0, _ => ⟨rfl, fun _ member => absurd member List.not_mem_nil⟩
  | count + 1, r => by
    obtain ⟨length, words⟩ := word_ids count r.varint.2
    refine ⟨congrArg (· + 1) length, fun id member => ?_⟩
    rcases List.mem_cons.mp member with rfl | member
    · exact r.word_varint
    · exact words id member

end RecordReader

theorem wire_of_decodeFields {r r' : RecordReader}
    (decoded : decodeFields type r = .ok (record, r')) (inRange : r'.inRange = true) :
    record.Wire ∧ record.typeOf = type := by
  unfold decodeFields at decoded
  split at decoded
  · cases decoded
    simp only [Bool.and_eq_true, decide_eq_true_eq] at inRange
    obtain ⟨⟨⟨⟨⟨⟨-, runAt⟩, -⟩, -⟩, -⟩, idemExpiresAt⟩, at_⟩ := inRange
    exact ⟨⟨RecordReader.word_varint _, RecordReader.word_bytes _, RecordReader.word_bytes _, runAt,
      RecordReader.word_bytes _, idemExpiresAt, at_⟩, rfl⟩
  · cases decoded
    simp only [Bool.and_eq_true, decide_eq_true_eq] at inRange
    exact ⟨⟨RecordReader.word_varint _, RecordReader.word_varint _, inRange.1.2, inRange.2⟩, rfl⟩
  · cases decoded
    simp only [Bool.and_eq_true, decide_eq_true_eq] at inRange
    exact ⟨⟨RecordReader.word_varint _, RecordReader.word_varint _, inRange.1.2, inRange.2⟩, rfl⟩
  · cases decoded
    simp only [Bool.and_eq_true, decide_eq_true_eq] at inRange
    exact ⟨⟨RecordReader.word_varint _, RecordReader.word_varint _, inRange.2⟩, rfl⟩
  · dsimp only at decoded
    split at decoded
    · cases decoded
    · split at decoded
      · cases decoded
      · injection decoded with same
        injection same with record reader
        subst record reader
        simp only [RecordReader.time, RecordReader.u8, RecordReader.bytes, RecordReader.varint,
          Bool.and_eq_true] at inRange
        exact ⟨⟨RecordReader.word_varint _, RecordReader.word_varint _, RecordReader.word_bytes _,
          of_decide_eq_true inRange.1.2, of_decide_eq_true inRange.2⟩, rfl⟩
  · cases decoded
    simp only [Bool.and_eq_true, decide_eq_true_eq] at inRange
    exact ⟨⟨RecordReader.word_varint _, inRange.2⟩, rfl⟩
  · cases decoded
    simp only [Bool.and_eq_true, decide_eq_true_eq] at inRange
    exact ⟨⟨RecordReader.word_varint _, inRange.1.2, inRange.2⟩, rfl⟩
  · dsimp only at decoded
    split at decoded
    · cases decoded
    · cases decoded
      obtain ⟨length, words⟩ := RecordReader.word_ids r.varint.1 r.varint.2
      refine ⟨⟨?_, words⟩, rfl⟩
      rw [length]
      exact r.word_varint
  · cases decoded

theorem wire_of_decode {payload : Bytes}
    (decoded : decodeRecord type payload = .ok record) : record.Wire ∧ record.typeOf = type := by
  unfold decodeRecord at decoded
  dsimp only at decoded
  split at decoded
  · cases decoded
  · split at decoded
    · cases decoded
    · rename_i decodedRecord reader fields
      split at decoded
      · cases decoded
      · split at decoded
        · cases decoded
        · rename_i inRange
          split at decoded
          · cases decoded
          · cases decoded
            exact wire_of_decodeFields fields (by simpa using inRange)

/-! ## Truncated and extended records -/

namespace RecordReader

def more (r : RecordReader) (tail : Bytes) : RecordReader := ⟨r.reader.more tail, r.inRange⟩

variable {α : Type}

/-- `ByteReader.Local`, with the flag beside the reader. -/
def Local (read : RecordReader → α × RecordReader) : Prop :=
  ∀ r, (read r).2.reader.ok = true →
    r.reader.ok = true ∧ ∀ tail, read (r.more tail) = ((read r).1, (read r).2.more tail)

theorem local_lift {β : Type} {read : ByteReader → α × ByteReader} (near : ByteReader.Local read)
    (value : α → β) (flag : α → Bool → Bool) :
    Local fun r => (value (read r.reader).1, ⟨(read r.reader).2, flag (read r.reader).1 r.inRange⟩) := by
  intro r well
  obtain ⟨ok, same⟩ := near r.reader well
  refine ⟨ok, fun tail => ?_⟩
  simp only [more, same tail]

theorem varint_local : Local varint := local_lift ByteReader.varint_local id fun _ flag => flag

theorem bytes_local : Local bytes := local_lift ByteReader.bytes_local id fun _ flag => flag

theorem u8_local : Local u8 := local_lift ByteReader.u8_local id fun _ flag => flag

theorem time_local : Local time :=
  local_lift ByteReader.svarint_local id fun ms flag => flag && decide (0 ≤ ms ∧ ms ≤ kMaxWallTimeMs)

theorem u32_local : Local u32 :=
  local_lift ByteReader.varint_local UInt32.ofNat fun v flag => flag && decide (v < 2 ^ 32)

theorem i32_local : Local i32 :=
  local_lift ByteReader.svarint_local Int32.ofInt fun v flag => flag && decide (-2 ^ 31 ≤ v ∧ v < 2 ^ 31)

theorem ids_local : ∀ count, Local (ids count)
  | 0, _, well => ⟨well, fun _ => rfl⟩
  | count + 1, r, well => by
    obtain ⟨ok, rest⟩ := ids_local count r.varint.2 well
    obtain ⟨start, first⟩ := varint_local r ok
    refine ⟨start, fun tail => ?_⟩
    simp only [ids, first tail, rest tail]

/-- A decoder that ends with a reader that is well reads the same with more bytes behind. -/
def Steady (decode : RecordReader → Result (Record × RecordReader)) : Prop :=
  ∀ r record r', decode r = .ok (record, r') → r'.reader.ok = true →
    r.reader.ok = true ∧ ∀ tail, decode (r.more tail) = .ok (record, r'.more tail)

theorem steady_ok (record : Record) : Steady fun r => .ok (record, r) := by
  rintro r _ _ ⟨⟩ well
  exact ⟨well, fun _ => rfl⟩

theorem steady_unless {p : Prop} [Decidable p] {e : Error}
    {decode : RecordReader → Result (Record × RecordReader)} (steady : Steady decode) :
    Steady fun r => if p then .error e else decode r := by
  intro r record r' decoded well
  obtain ⟨allowed, decoded⟩ := Result.check_ok decoded
  obtain ⟨start, same⟩ := steady r record r' decoded well
  exact ⟨start, fun tail => (if_neg allowed).trans (same tail)⟩

theorem Local.then {read : RecordReader → α × RecordReader} (near : Local read)
    {next : α → RecordReader → Result (Record × RecordReader)} (steady : ∀ a, Steady (next a)) :
    Steady fun r => match read r with | (a, r) => next a r := by
  intro r record r' decoded well
  obtain ⟨ok, later⟩ := steady _ _ _ _ decoded well
  obtain ⟨start, first⟩ := near r ok
  refine ⟨start, fun tail => ?_⟩
  simp only [first tail]
  exact later tail

/-- The list of a purge, whose length is checked against the bytes that are left. -/
theorem steady_purged (type : Nat) : Steady fun r =>
    if r.varint.2.reader.remaining < r.varint.1 then .error (badRecord type "id count exceeds payload")
    else .ok (.jobsPurged ⟨(ids r.varint.1 r.varint.2).1⟩, (ids r.varint.1 r.varint.2).2) := by
  intro r record r' decoded well
  obtain ⟨within, decoded⟩ := Result.check_ok decoded
  cases decoded
  obtain ⟨ok, list⟩ := ids_local _ _ well
  obtain ⟨start, count⟩ := varint_local _ ok
  refine ⟨start, fun tail => ?_⟩
  have still : ¬ (r.varint.2.more tail).reader.remaining < r.varint.1 := by
    simp only [ByteReader.remaining, RecordReader.more, ByteReader.more, List.length_append] at within ⊢
    omega
  simp only [count tail, list tail]
  rw [if_neg still]

theorem steady_decodeFields (type : Nat) : Steady (decodeFields type) := by
  unfold decodeFields
  split
  · exact varint_local.then fun id => bytes_local.then fun queue => bytes_local.then fun payload =>
      i32_local.then fun priority => time_local.then fun runAt => u32_local.then fun attempts =>
      u32_local.then fun base => u32_local.then fun cap => bytes_local.then fun key =>
      time_local.then fun expires => time_local.then fun at_ => steady_ok
        (.jobEnqueued ⟨id, queue, payload, priority, runAt, attempts, base, cap, key, expires, at_⟩)
  · exact varint_local.then fun id => varint_local.then fun token => time_local.then fun expires =>
      time_local.then fun at_ => steady_ok (.jobLeased ⟨id, token, expires, at_⟩)
  · exact varint_local.then fun id => varint_local.then fun token => time_local.then fun expires =>
      time_local.then fun at_ => steady_ok (.leaseExtended ⟨id, token, expires, at_⟩)
  · exact varint_local.then fun id => varint_local.then fun token => time_local.then fun at_ =>
      steady_ok (.jobSucceeded ⟨id, token, at_⟩)
  · exact varint_local.then fun id => varint_local.then fun token => u8_local.then fun reason =>
      steady_unless (p := 1 < reason) (bytes_local.then fun error => time_local.then fun at_ =>
        u8_local.then fun dead => steady_unless (p := 1 < dead) (time_local.then fun retryAt => steady_ok
          (.attemptFailed ⟨id, token, if reason = 0 then .kWorkerFailed else .kLeaseExpired, error, at_,
            dead = 1, retryAt⟩)))
  · exact varint_local.then fun id => time_local.then fun at_ => steady_ok (.jobCancelled ⟨id, at_⟩)
  · exact varint_local.then fun id => time_local.then fun runAt => time_local.then fun at_ =>
      steady_ok (.deadJobRetried ⟨id, runAt, at_⟩)
  · exact steady_purged 8
  · exact nofun

end RecordReader

/-- Behind a payload that is decoded no byte is accepted. -/
theorem decodeRecord_extended {payload tail : Bytes}
    (decoded : decodeRecord type payload = .ok record) (behind : tail ≠ []) :
    ∃ e, decodeRecord type (payload ++ tail) = .error e := by
  unfold decodeRecord at decoded ⊢
  dsimp only at decoded ⊢
  obtain ⟨version, decoded⟩ := Result.check_ok decoded
  have started : (ByteReader.u8 ⟨payload, true⟩).2.ok = true := by
    by_contra failed
    exact version (Or.inr (by simpa using failed))
  have first : ByteReader.u8 ⟨payload ++ tail, true⟩ = _ := (ByteReader.u8_local _ started).2 tail
  cases fields : decodeFields type ⟨(ByteReader.u8 ⟨payload, true⟩).2, true⟩ with
  | error e =>
    rw [fields] at decoded
    cases decoded
  | ok result =>
    rw [fields] at decoded
    obtain ⟨well, -⟩ := Result.check_ok decoded
    have again := (RecordReader.steady_decodeFields type _ _ _ fields (by simpa using well)).2 tail
    have unread : (!(result.2.more tail).reader.atEnd) = true := by
      simp [RecordReader.more, ByteReader.more, ByteReader.atEnd, behind]
    rw [first]
    split
    · exact ⟨_, rfl⟩
    rw [show decodeFields type ⟨_, true⟩ = _ from again]
    dsimp only
    split
    · exact ⟨_, rfl⟩
    split
    · exact ⟨_, rfl⟩
    · exact ⟨_, rfl⟩

/-- **The record codec.**  A record is decoded from its encoding, and neither from less of it
nor from more. -/
theorem record_codec {record : Record} (wire : record.Wire) :
    decodeRecord record.typeOf record.encode = .ok record ∧
    (∀ start tail, tail ≠ [] → start ++ tail = record.encode →
      ∃ e, decodeRecord record.typeOf start = .error e) ∧
    ∀ tail, tail ≠ [] → ∃ e, decodeRecord record.typeOf (record.encode ++ tail) = .error e := by
  have whole := decodeRecord_encode wire
  refine ⟨whole, ?_, fun tail behind => decodeRecord_extended whole behind⟩
  intro start tail behind cut
  cases decoded : decodeRecord record.typeOf start with
  | error e => exact ⟨e, rfl⟩
  | ok other =>
    -- had the start been enough, the rest would be bytes behind a record
    obtain ⟨e, refused⟩ := decodeRecord_extended decoded behind
    rw [cut, whole] at refused
    cases refused

theorem record_codec_purged : (Record.jobsPurged ⟨[7, 300]⟩).Wire ∧
    ∃ e, decodeRecord 8 [1, 2, 7, 0xAC] = .error e :=
  have wire : (Record.jobsPurged ⟨[7, 300]⟩).Wire := ⟨by decide, by decide⟩
  ⟨wire, (record_codec wire).2.1 [1, 2, 7, 0xAC] [2] (by decide) (by decide)⟩

end Baton
