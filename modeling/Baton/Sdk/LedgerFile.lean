/-
# Sdk.LedgerFile — the records of a ledger file

A ledger writes two kinds of records, `Rec`.  A file is the frames of the records that
were written completely, and what a writer that crashed left of one more: `Torn`.

What is left of a frame does not begin a record anywhere behind its first byte
(`parse_inside`), with no assumption on checksums: the bytes of a payload are printable,
so they make a length beyond `_MAX_RECORD`, and the few places before them would have to
hold a dict that begins with one of the characters behind the brace.  So `catchUp` reads
the complete records and cuts off the rest (`catchUp_spec`).

All this is about records that are read back as they were written by every reader whose
limits are not below given ones (`Rec.Readable`).
-/
import Baton.Sdk.Ledger

namespace Baton.Sdk

open Theory
open ByteWriter (u32)
open List (append_assoc length_append take_left' take_length)

set_option autoImplicit false

/-! ## Records -/

inductive Rec where
  | done (key : Str) (token : Int) (value : Json)
  | claim (key : Str) (token : Int)

namespace Rec

def members : Rec → Members
  | .done key token value => doneRecord key token value
  | .claim key token => claimRecord key token

theorem members_injective {r r' : Rec} (same : r.members = r'.members) : r = r' := by
  cases r <;> cases r' <;> simp_all [members, doneRecord, claimRecord]

def payload (r : Rec) : Bytes := dumps (.object r.members)

def frame (r : Rec) : Bytes := recordFrame r.members

/-- The payload is short enough for the reader, and is read back as it was written. -/
structure Readable (r : Rec) (limits : Limits) : Prop where
  short : r.payload.length ≤ kMaxRecord
  same : ∀ reader, limits.Le reader → loads reader r.payload = .ok (.object r.members)

end Rec

/-- The frames of records. -/
def frames (rs : List Rec) : Bytes := (rs.map Rec.frame).flatten

/-- A part of a frame, and not all of it.  A frame whose length does not fit its field is
not written at all. -/
def Torn (bytes : Bytes) : Prop :=
  ∃ (r : Rec) (n : Nat), r.payload.length < 2 ^ 32 ∧ n < r.frame.length ∧ bytes = r.frame.take n

namespace Ledger

def applyRec (l : Ledger) : Rec → Ledger
  | .done key token value => (l.setDefault ⟨key, token, value⟩).raiseClaim key token
  | .claim key token => l.raiseClaim key token

theorem apply_members (l : Ledger) (r : Rec) : l.apply r.members = some (l.applyRec r) := by
  cases r <;> rfl

end Ledger

/-! ## Frames -/

section Frames

variable {limits reader : Limits} {r : Rec} {data more : Bytes} {n k : Nat}

theorem Rec.frame_eq (r : Rec) :
    r.frame = u32 r.payload.length ++ (u32 (crc32 r.payload).toNat ++ r.payload) := rfl

theorem Rec.frame_length (r : Rec) : r.frame.length = kHeaderSize + r.payload.length := by
  rw [r.frame_eq]
  simp only [u32, length_append, leBytes_length, kHeaderSize]
  omega

theorem torn_nil : Torn [] := by
  refine ⟨.claim [] 0, 0, by decide, ?_, rfl⟩
  rw [Rec.frame_length]
  exact Nat.lt_of_lt_of_le (by decide) (Nat.le_add_right kHeaderSize _)

theorem u32_length (v : Nat) : (u32 v).length = 4 := leBytes_length 4 v

/-- A payload begins with a brace and the name of its first field. -/
theorem Rec.payload_start (r : Rec) : ∃ rest, r.payload = 0x7b :: 0x22 :: 0x6f :: 0x70 :: 0x22 :: rest := by
  cases r with
  | done key token value => exact ⟨_, rfl⟩
  | claim key token => exact ⟨_, rfl⟩

theorem Rec.payload_printable (r : Rec) : ∀ b ∈ r.payload, isPrintable b = true :=
  List.all_eq_true.1 (dumps_printable _)

/-- Parsing in the middle is parsing what is there. -/
theorem parse_shift (before data : Bytes) (position : Nat) :
    parse limits (before ++ data) (before.length + position) =
      (parse limits data position).map fun read => read.map fun read =>
        (read.1, before.length + read.2) := by
  have drop : ∀ k, (before ++ data).drop (before.length + k) = data.drop k := fun k => by
    rw [List.drop_append, List.drop_of_length_le (Nat.le_add_right _ _), List.nil_append,
      Nat.add_sub_cancel_left]
  have length : (before ++ data).length = before.length + data.length := length_append
  unfold parse
  simp only [length, drop, Nat.add_assoc]
  by_cases short : data.length < position + kHeaderSize
  · rw [if_pos short, if_pos (by omega)]
    rfl
  rw [if_neg short, if_neg (by omega)]
  by_cases bad : kMaxRecord < leNat ((data.drop position).take 4) ∨
      data.length < position + (kHeaderSize + leNat ((data.drop position).take 4))
  · rw [if_pos bad, if_pos (by omega)]
    rfl
  rw [if_neg bad, if_neg (by omega)]
  split
  · rfl
  rcases recordOf _ with raised | _ | members <;> rfl

/-- A record that can be read is read, whatever follows it. -/
theorem parse_frame (readable : r.Readable limits) (allows : limits.Le reader) (more : Bytes) :
    parse reader (r.frame ++ more) 0 = .ok (some (r.members, r.frame.length)) := by
  have short := readable.short
  have limit : kMaxRecord = 16 * 1024 * 1024 := rfl
  have length := r.frame_length
  have first : ((r.frame ++ more).drop 0).take 4 = u32 r.payload.length := by
    rw [List.drop_zero, r.frame_eq, append_assoc]
    exact take_left' (u32_length _)
  have second : ((r.frame ++ more).drop (0 + 4)).take 4 = u32 (crc32 r.payload).toNat := by
    rw [r.frame_eq, append_assoc, Nat.zero_add, List.drop_left' (u32_length _), append_assoc]
    exact take_left' (u32_length _)
  have size : leNat (u32 r.payload.length) = r.payload.length :=
    leNat_leBytes_of_lt (by omega)
  have checksum : leNat (u32 (crc32 r.payload).toNat) = (crc32 r.payload).toNat :=
    leNat_leBytes_of_lt (crc32 r.payload).toNat_lt
  have body : ((r.frame ++ more).drop (0 + kHeaderSize)).take r.payload.length = r.payload := by
    have header : (u32 r.payload.length ++ u32 (crc32 r.payload).toNat).length =
        0 + kHeaderSize := by
      simp only [u32, length_append, leBytes_length, kHeaderSize]
    rw [r.frame_eq, ← append_assoc, append_assoc, List.drop_left' header]
    exact List.take_left
  have named : ((field r.members keyName).isSome && (field r.members opName).isSome) = true := by
    cases r <;> rfl
  unfold parse
  dsimp only
  rw [first, second, size, checksum, body, length_append, length]
  rw [if_neg (by omega), if_neg (by omega), if_neg (not_not.2 rfl), readable.same reader allows, recordOf,
    if_pos named, Nat.zero_add]
  rfl

/-- The first part of a frame is not a record. -/
theorem parse_torn (torn : Torn data) : parse limits data 0 = .ok none := by
  obtain ⟨r, n, small, part, rfl⟩ := torn
  have length := r.frame_length
  have taken : (r.frame.take n).length = n := by
    rw [List.length_take]
    omega
  unfold parse
  rw [taken]
  by_cases header : n < 0 + kHeaderSize
  · rw [if_pos header]
  have four : 4 ≤ n := by
    simp only [kHeaderSize] at header
    omega
  have first : ((r.frame.take n).drop 0).take 4 = u32 r.payload.length := by
    rw [List.drop_zero, List.take_take, Nat.min_eq_left four, r.frame_eq]
    exact take_left' (u32_length _)
  have size : leNat (u32 r.payload.length) = r.payload.length := leNat_leBytes_of_lt small
  rw [if_neg header, first, size, if_pos (by omega)]

/-- A byte of a frame behind its header is a byte of the payload. -/
theorem payload_of_frame {i : Nat} {b : UInt8} (here : (r.frame.take n)[kHeaderSize + i]? = some b) :
    r.payload[i]? = some b := by
  have header : (u32 r.payload.length ++ u32 (crc32 r.payload).toNat).length =
      kHeaderSize := by
    rw [length_append, u32_length, u32_length]
    rfl
  rw [List.getElem?_take] at here
  split at here
  · rw [r.frame_eq, ← append_assoc, List.getElem?_append_right (by omega), header,
      Nat.add_sub_cancel_left] at here
    exact here
  · cases here

theorem recordOf_flat {b : UInt8} {bytes : Bytes} (black : isWhitespace b = false) (brace : b ≠ 0x7b)
    (bracket : b ≠ 0x5b) : recordOf (loads limits (b :: bytes)) = .ok none := by
  obtain ⟨shallow, plain⟩ := @loads_flat limits b bytes black brace bracket
  unfold recordOf
  split
  · exact absurd (by assumption) (plain _)
  · exact absurd (by assumption) shallow
  · rfl

/-- Four bytes of a payload make a length that is not accepted. -/
theorem length_of_printable {bytes : Bytes} {b : UInt8} (four : bytes.length = 4) (last : bytes[3]? = some b)
    (printable : isPrintable b = true) : kMaxRecord < leNat bytes := by
  match bytes, four with
  | [b₀, b₁, b₂, b₃], _ =>
    cases last
    simp only [isPrintable, Bool.and_eq_true, decide_eq_true_eq] at printable
    have low : 0x20 ≤ b.toNat := UInt8.le_iff_toNat_le.1 printable.1
    simp only [leNat, kMaxRecord]
    omega

/-- Behind the first byte of a frame, no record begins. -/
theorem parse_inside (r : Rec) (n : Nat) (inside : 1 ≤ k) : parse limits (r.frame.take n) k = .ok none := by
  unfold parse
  set data := r.frame.take n with data_eq
  by_cases short : data.length < k + kHeaderSize
  · rw [if_pos short]
  rw [if_neg short]
  dsimp only
  have room : k + 8 ≤ data.length := Nat.not_lt.1 short
  by_cases behind : 5 ≤ k
  · -- the length is made of the payload
    have four : ((data.drop k).take 4).length = 4 := by
      rw [List.length_take, List.length_drop]
      omega
    obtain ⟨b, here⟩ : ∃ b, data[k + 3]? = some b := ⟨_, List.getElem?_eq_getElem (by omega)⟩
    have last : ((data.drop k).take 4)[3]? = some b := by
      rw [List.getElem?_take_of_lt (by decide), List.getElem?_drop]
      exact here
    have at_payload : r.payload[k - 5]? = some b := by
      apply @payload_of_frame r n
      rw [← data_eq, show kHeaderSize + (k - 5) = k + 3 by simp only [kHeaderSize]; omega]
      exact here
    have large := length_of_printable four last (r.payload_printable b (List.mem_of_getElem? at_payload))
    rw [if_pos (Or.inl large)]
  · -- the payload would begin behind the brace of the real one
    split
    · rfl
    split
    · rfl
    generalize leNat ((data.drop k).take 4) = size
    cases slice : (data.drop (k + kHeaderSize)).take size with
    | nil => rfl
    | cons b rest =>
      have here : data[kHeaderSize + k]? = some b := by
        have first := congrArg (·[0]?) slice
        rw [List.getElem?_take] at first
        split at first
        · rw [List.getElem?_drop, Nat.add_zero, Nat.add_comm] at first
          exact first
        · cases first
      have at_payload := @payload_of_frame r n k b here
      obtain ⟨tail, start⟩ := r.payload_start
      rw [start] at at_payload
      have cases_k : k = 1 ∨ k = 2 ∨ k = 3 ∨ k = 4 := by omega
      rcases cases_k with rfl | rfl | rfl | rfl
      all_goals
        cases at_payload
        rw [recordOf_flat (by decide) (by decide) (by decide)]
        rfl

theorem anyRecord_none (nothing : ∀ k, n ≤ k → parse limits data k = .ok none) (count : Nat) :
    anyRecord limits data count n = .ok false := by
  induction count generalizing n with
  | zero => rfl
  | succ count ih =>
    rw [anyRecord, nothing n (Nat.le_refl _)]
    exact ih fun k later => nothing k (Nat.le_of_succ_le later)

end Frames

/-! ## Reading a file -/

theorem frames_append (rs ts : List Rec) : frames (rs ++ ts) = frames rs ++ frames ts := by
  simp [frames]

theorem frames_cons (r : Rec) (rs : List Rec) : frames (r :: rs) = r.frame ++ frames rs := rfl

theorem length_le_frames (rs : List Rec) : rs.length ≤ (frames rs).length := by
  induction rs with
  | nil => exact Nat.le_refl _
  | cons r rs ih =>
    rw [frames_cons, length_append, List.length_cons, r.frame_length]
    simp only [kHeaderSize]
    omega

namespace Ledger

variable {limits reader : Limits} {host : Host} {l : Ledger} {rs : List Rec} {tail : Bytes} {n : Nat}

/-- The complete records are read, one after the other. -/
theorem readRecords_frames (allows : limits.Le reader) (torn : Torn tail) :
    ∀ (rs : List Rec) (before : Bytes) (fuel : Nat) (l : Ledger),
    (∀ r ∈ rs, r.Readable limits) → rs.length ≤ fuel →
    readRecords reader (before ++ (frames rs ++ tail)) fuel before.length l =
      (none, rs.foldl applyRec l, before.length + (frames rs).length)
  | [], before, fuel, l, _, _ => by
    have stop : parse reader (before ++ (frames [] ++ tail)) before.length = .ok none := by
      have shifted := @parse_shift reader before tail 0
      rw [parse_torn torn] at shifted
      exact shifted
    cases fuel with
    | zero => rfl
    | succ fuel =>
      rw [readRecords, stop]
      split <;> rfl
  | r :: rs, before, 0, l, _, enough => by cases enough
  | r :: rs, before, fuel + 1, l, readable, enough => by
    have first := @parse_shift reader before (r.frame ++ (frames rs ++ tail)) 0
    rw [parse_frame (readable r List.mem_cons_self) allows, Nat.add_zero] at first
    have inside : before.length < (before ++ (frames (r :: rs) ++ tail)).length := by
      rw [frames_cons, length_append, length_append, length_append, r.frame_length]
      simp only [kHeaderSize]
      omega
    have rest := readRecords_frames allows torn rs (before ++ r.frame) fuel (l.applyRec r)
      (fun r' mem => readable r' (List.mem_cons_of_mem _ mem)) (Nat.le_of_succ_le_succ enough)
    rw [length_append, append_assoc] at rest
    rw [readRecords, if_pos inside, frames_cons, append_assoc, first]
    dsimp only [Except.map, Option.map_some]
    rw [apply_members]
    dsimp only
    rw [rest, List.foldl_cons, length_append, Nat.add_assoc]

/-- What belongs to the object, and not to its maps. -/
def Kept (l l' : Ledger) : Prop :=
  l'.offset = l.offset ∧ l'.path = l.path ∧ l'.duplicateRuns = l.duplicateRuns

theorem setDefault_kept (l : Ledger) (entry : Entry) : l.Kept (l.setDefault entry) := by
  unfold setDefault
  split <;> exact ⟨rfl, rfl, rfl⟩

theorem applyRec_kept (l : Ledger) (r : Rec) : l.Kept (l.applyRec r) := by
  cases r with
  | done key token value => exact l.setDefault_kept ⟨key, token, value⟩
  | claim key token => exact ⟨rfl, rfl, rfl⟩

theorem foldl_applyRec (rs : List Rec) (l : Ledger) : l.Kept (rs.foldl applyRec l) := by
  induction rs generalizing l with
  | nil => exact ⟨rfl, rfl, rfl⟩
  | cons r rs ih =>
    obtain ⟨offset, path, runs⟩ := ih (l.applyRec r)
    obtain ⟨offset', path', runs'⟩ := l.applyRec_kept r
    exact ⟨offset.trans offset', path.trans path', runs.trans runs'⟩

/-- The maps of two ledgers are the same. -/
def Same (l l' : Ledger) : Prop := l.done = l'.done ∧ l.claims = l'.claims

section Same

variable {l' : Ledger}

theorem Same.find (same : l.Same l') (key : Str) : l.find key = l'.find key := by
  unfold Ledger.find
  rw [same.1]

theorem Same.setDefault (same : l.Same l') (entry : Entry) : (l.setDefault entry).Same (l'.setDefault entry) := by
  unfold Ledger.setDefault
  rw [same.find]
  split
  · exact same
  · exact ⟨congrArg (· ++ [entry]) same.1, same.2⟩

theorem Same.raiseClaim (same : l.Same l') (key : Str) (token : Int) :
    (l.raiseClaim key token).Same (l'.raiseClaim key token) := by
  refine ⟨same.1, ?_⟩
  unfold Ledger.raiseClaim
  rw [same.2]

theorem Same.applyRec (same : l.Same l') (r : Rec) : (l.applyRec r).Same (l'.applyRec r) := by
  cases r with
  | done key token value => exact (same.setDefault ⟨key, token, value⟩).raiseClaim key token
  | claim key token => exact same.raiseClaim key token

theorem Same.foldl (same : l.Same l') (rs : List Rec) :
    (rs.foldl Ledger.applyRec l).Same (rs.foldl Ledger.applyRec l') := by
  induction rs generalizing l l' with
  | nil => exact same
  | cons r rs ih => exact ih (same.applyRec r)

end Same

/-- A ledger that has read the records. -/
def reading (rs : List Rec) : Ledger := rs.foldl applyRec { path := "" }

theorem reading_append (rs ts : List Rec) : reading (rs ++ ts) = ts.foldl applyRec (reading rs) :=
  List.foldl_append

/-- The ledger has read the first records of the file. -/
structure UpTo (rs : List Rec) (n : Nat) (l : Ledger) : Prop where
  reached : n ≤ rs.length
  offset : l.offset = (frames (rs.take n)).length
  same : l.Same (reading (rs.take n))

/-- The ledger has read all of them. -/
abbrev Current (rs : List Rec) (l : Ledger) : Prop := UpTo rs rs.length l

theorem upTo_new (rs : List Rec) (path : String) : UpTo rs 0 { path } := ⟨Nat.zero_le _, rfl, rfl, rfl⟩

theorem Current.same_reading (current : Current rs l) : l.Same (reading rs) := by
  have same := current.same
  rwa [take_length] at same

theorem UpTo.append (upTo : UpTo rs n l) (more : List Rec) : UpTo (rs ++ more) n l := by
  have same : (rs ++ more).take n = rs.take n := List.take_append_of_le_length upTo.reached
  refine ⟨?_, ?_, ?_⟩
  · rw [length_append]
    exact Nat.le_trans upTo.reached (Nat.le_add_right _ _)
  · rw [same]
    exact upTo.offset
  · rw [same]
    exact upTo.same

/-- Catching up reads the complete records, raises nothing, and leaves exactly them. -/
theorem catchUp_spec (readable : ∀ r ∈ rs, r.Readable limits) (allows : limits.Le host.loads)
    (torn : Torn tail) (upTo : UpTo rs n l) :
    ∃ l', l.catchUp host (frames rs ++ tail) = (none, l', frames rs) ∧ Current rs l' ∧
      l'.duplicateRuns = l.duplicateRuns ∧ l'.path = l.path := by
  have split : frames rs = frames (rs.take n) ++ frames (rs.drop n) := by
    rw [← frames_append, List.take_append_drop]
  have data : (frames rs ++ tail).drop l.offset = frames (rs.drop n) ++ tail := by
    rw [split, append_assoc, upTo.offset, List.drop_left]
  have total : l.offset + (frames (rs.drop n)).length = (frames rs).length := by
    rw [split, length_append, upTo.offset]
  have enough : (rs.drop n).length ≤ (frames (rs.drop n) ++ tail).length := by
    rw [length_append]
    exact Nat.le_trans (length_le_frames _) (Nat.le_add_right _ _)
  have read := readRecords_frames allows torn (rs.drop n) [] _ l
    (fun r mem => readable r (List.mem_of_mem_drop mem)) enough
  rw [List.nil_append, List.length_nil, Nat.zero_add] at read
  have current : Current rs { (rs.drop n).foldl applyRec l with
      offset := l.offset + (frames (rs.drop n)).length } := by
    refine ⟨Nat.le_refl _, ?_, ?_⟩
    · rw [take_length]
      exact total
    · have same := upTo.same.foldl (rs.drop n)
      rw [← reading_append, List.take_append_drop] at same
      rw [take_length]
      exact ⟨same.1, same.2⟩
  have kept := foldl_applyRec (rs.drop n) l
  refine ⟨_, ?_, current, kept.2.2, kept.2.1⟩
  unfold catchUp
  rw [if_neg, data]
  · dsimp only
    rw [read]
    dsimp only
    by_cases left : tail = []
    · subst left
      rw [List.append_nil, if_neg (Nat.lt_irrefl _), List.append_nil]
    · have more : (frames (rs.drop n)).length < (frames (rs.drop n) ++ tail).length := by
        rw [length_append]
        have := List.length_pos_iff.2 left
        omega
      have nothing : ∀ later, (frames (rs.drop n)).length + 1 ≤ later →
          parse host.search (frames (rs.drop n) ++ tail) later = .ok none := by
        intro later behind
        obtain ⟨k, rfl⟩ := Nat.exists_eq_add_of_le behind
        rw [Nat.add_assoc, parse_shift]
        obtain ⟨r, m, -, -, rfl⟩ := torn
        rw [parse_inside r m (Nat.le_add_right 1 k)]
        rfl
      rw [if_pos more, anyRecord_none nothing]
      rw [total, List.take_left]
  · rw [length_append]
    omega

end Ledger

end Baton.Sdk
