/-
# Common.Codec — the byte writer and the byte reader

`ByteWriter` and `ByteReader` of `common/codec.h`.  A writer method is the bytes
it appends; a reader method returns the value and the reader after it.  The
reader has a sticky failure flag: after a failure its input is empty and every
read returns a zero value, so a whole structure is decoded first and `ok` is
checked once.

Integers are natural numbers below the width the source declares; signed ones
are `Int`.  The `read_*` lemmas say what each method reads from the bytes the
writer's method of the same name appended, with any suffix behind them.
-/
import Baton.Theory.LittleEndian
import Mathlib.Tactic.Ring
import Mathlib.Tactic.NormNum

namespace Baton

open Theory

set_option autoImplicit false

abbrev Bytes := List UInt8

/-! ## Writing -/

namespace ByteWriter

def u8 (v : Nat) : Bytes := [UInt8.ofNat v]
def u32 (v : Nat) : Bytes := leBytes 4 v
def u64 (v : Nat) : Bytes := leBytes 8 v

/-- The LEB128 loop.  Nine continuation bytes and a last one hold any 64-bit
value (`varint_append`), so the loop is bounded by `9`. -/
def varintLoop : Nat → Nat → Bytes
  | 0, v => [UInt8.ofNat v]
  | fuel + 1, v =>
    if 0x80 ≤ v then UInt8.ofNat (v % 0x80 + 0x80) :: varintLoop fuel (v / 0x80)
    else [UInt8.ofNat v]

def varint (v : Nat) : Bytes := varintLoop 9 v

/-- `(v << 1) ^ (v >> 63)` on two's complement words. -/
def zigzag (v : Int) : Nat := if 0 ≤ v then 2 * v.toNat else 2 * (-v).toNat - 1

def svarint (v : Int) : Bytes := varint (zigzag v)

def bytes (v : Bytes) : Bytes := varint v.length ++ v

end ByteWriter

/-! ## Reading -/

structure ByteReader where
  input : Bytes
  ok : Bool := true
  deriving DecidableEq, Repr

namespace ByteReader

def atEnd (r : ByteReader) : Bool := r.input.isEmpty
def remaining (r : ByteReader) : Nat := r.input.length

/-- `fail`: the flag is cleared and the input dropped. -/
def failed : ByteReader := ⟨[], false⟩

def need (r : ByteReader) (n : Nat) : Bool := r.ok && n ≤ r.input.length

def u8 (r : ByteReader) : Nat × ByteReader :=
  if r.need 1 then ((r.input.headD 0).toNat, ⟨r.input.drop 1, r.ok⟩) else (0, failed)

def fixed (w : Nat) (r : ByteReader) : Nat × ByteReader :=
  if r.need w then (leNat (r.input.take w), ⟨r.input.drop w, r.ok⟩) else (0, failed)

def u32 (r : ByteReader) : Nat × ByteReader := fixed 4 r
def u64 (r : ByteReader) : Nat × ByteReader := fixed 8 r

/-- The loop of `varint` with `n` bytes to go, `shift = 63 - 7 * (n - 1)`; the
tenth byte may only contribute the one remaining bit. -/
def varintLoop : Nat → Nat → Nat → ByteReader → Nat × ByteReader
  | 0, _, _, _ => (0, failed)
  | n + 1, shift, result, r =>
    if r.need 1 then
      let byte := (r.input.headD 0).toNat
      let rest : ByteReader := ⟨r.input.drop 1, r.ok⟩
      if shift = 63 ∧ 1 < byte then (0, failed)
      else
        let result := result ||| ((byte % 0x80) <<< shift)
        if byte < 0x80 then (result, rest) else varintLoop n (shift + 7) result rest
    else (0, failed)

def varint (r : ByteReader) : Nat × ByteReader := varintLoop 10 0 0 r

/-- `(z >> 1) ^ (~(z & 1) + 1)` on two's complement words. -/
def unzigzag (z : Nat) : Int := if z % 2 = 0 then (z / 2 : Nat) else -((z / 2 : Nat) : Int) - 1

def svarint (r : ByteReader) : Int × ByteReader :=
  let (z, r) := r.varint
  (unzigzag z, r)

def raw (r : ByteReader) (n : Nat) : Bytes × ByteReader :=
  if r.need n then (r.input.take n, ⟨r.input.drop n, r.ok⟩) else ([], failed)

def bytes (r : ByteReader) : Bytes × ByteReader :=
  let (n, r) := r.varint
  if !r.ok || r.input.length < n then ([], failed) else r.raw n

/-! ## What the reader makes of the writer's bytes -/

@[simp] theorem u8_append (v : Nat) (rest : Bytes) :
    u8 ⟨ByteWriter.u8 v ++ rest, true⟩ = (v % 256, ⟨rest, true⟩) := by
  simp [u8, need, ByteWriter.u8]

theorem fixed_append (w v : Nat) (rest : Bytes) :
    fixed w ⟨leBytes w v ++ rest, true⟩ = (v % 256 ^ w, ⟨rest, true⟩) := by
  have enough : need ⟨leBytes w v ++ rest, true⟩ w = true := by simp [need]
  have front : (leBytes w v ++ rest).take w = leBytes w v := by
    rw [List.take_left' (leBytes_length w v)]
  have back : (leBytes w v ++ rest).drop w = rest := by
    rw [List.drop_left' (leBytes_length w v)]
  simp only [fixed, enough, if_true, front, back, leNat_leBytes]

@[simp] theorem u32_append (v : Nat) (rest : Bytes) :
    u32 ⟨ByteWriter.u32 v ++ rest, true⟩ = (v % 2 ^ 32, ⟨rest, true⟩) :=
  fixed_append 4 v rest

@[simp] theorem u64_append (v : Nat) (rest : Bytes) :
    u64 ⟨ByteWriter.u64 v ++ rest, true⟩ = (v % 2 ^ 64, ⟨rest, true⟩) :=
  fixed_append 8 v rest

@[simp] theorem raw_append (v rest : Bytes) :
    raw ⟨v ++ rest, true⟩ v.length = (v, ⟨rest, true⟩) := by
  simp [raw, need]

/-- `n` continuation bytes are to go after this one, so what is left of the value has
at most `7 * n + 1` bits. -/
theorem varintLoop_append (rest : Bytes) : ∀ (n v shift result : Nat), shift + 7 * n = 63 →
    v < 2 ^ (7 * n + 1) → result < 2 ^ shift →
      varintLoop (n + 1) shift result ⟨ByteWriter.varintLoop n v ++ rest, true⟩ =
        (result + v * 2 ^ shift, ⟨rest, true⟩) := by
  intro n
  induction n with
  | zero =>
    intro v shift result last small below
    have byte : (UInt8.ofNat v).toNat = v := by
      rw [UInt8.toNat_ofNat', Nat.mod_eq_of_lt (by omega)]
    have joined : result ||| (v <<< shift) = result + v * 2 ^ shift := by
      rw [Nat.or_comm, ← Nat.shiftLeft_add_eq_or_of_lt below, Nat.shiftLeft_eq, Nat.add_comm]
    rw [ByteWriter.varintLoop, varintLoop]
    simp only [need, List.singleton_append, List.length_cons, Bool.true_and, List.headD_cons,
      List.drop_succ_cons, List.drop_zero, byte]
    rw [if_pos (by simp), if_neg (by omega), Nat.mod_eq_of_lt (by omega), if_pos (by omega), joined]
  | succ n ih =>
    intro v shift result last small below
    rw [ByteWriter.varintLoop]
    by_cases more : 0x80 ≤ v
    · -- a continuation byte carries the low seven bits
      have byte : (UInt8.ofNat (v % 0x80 + 0x80)).toNat = v % 0x80 + 0x80 := by
        rw [UInt8.toNat_ofNat', Nat.mod_eq_of_lt (by omega)]
      have joined : result ||| ((v % 0x80) <<< shift) = result + v % 0x80 * 2 ^ shift := by
        rw [Nat.or_comm, ← Nat.shiftLeft_add_eq_or_of_lt below, Nat.shiftLeft_eq, Nat.add_comm]
      have room : result + v % 0x80 * 2 ^ shift < 2 ^ (shift + 7) := by
        have low : v % 0x80 * 2 ^ shift ≤ 127 * 2 ^ shift :=
          Nat.mul_le_mul_right _ (by omega)
        rw [Nat.pow_add]
        omega
      have high : v / 0x80 < 2 ^ (7 * n + 1) := by
        apply Nat.div_lt_of_lt_mul
        calc v < 2 ^ (7 * (n + 1) + 1) := small
          _ = 0x80 * 2 ^ (7 * n + 1) := by rw [show 7 * (n + 1) + 1 = 7 + (7 * n + 1) by omega,
            Nat.pow_add]
      rw [if_pos more, varintLoop]
      simp only [need, List.cons_append, List.length_cons, Bool.true_and, List.headD_cons,
        List.drop_succ_cons, List.drop_zero, byte]
      rw [if_pos (by simp), if_neg (by omega), if_neg (by omega), Nat.add_mod_right,
        Nat.mod_mod, joined, ih _ _ _ (by omega) high room]
      congr 1
      calc result + v % 0x80 * 2 ^ shift + v / 0x80 * 2 ^ (shift + 7)
          = result + (v % 0x80 + 0x80 * (v / 0x80)) * 2 ^ shift := by rw [Nat.pow_add]; ring
        _ = result + v * 2 ^ shift := by rw [Nat.mod_add_div]
    · have byte : (UInt8.ofNat v).toNat = v := by
        rw [UInt8.toNat_ofNat', Nat.mod_eq_of_lt (by omega)]
      have joined : result ||| (v <<< shift) = result + v * 2 ^ shift := by
        rw [Nat.or_comm, ← Nat.shiftLeft_add_eq_or_of_lt below, Nat.shiftLeft_eq, Nat.add_comm]
      rw [if_neg more, varintLoop]
      simp only [need, List.singleton_append, List.length_cons, Bool.true_and, List.headD_cons,
        List.drop_succ_cons, List.drop_zero, byte]
      rw [if_pos (by simp), if_neg (by omega), Nat.mod_eq_of_lt (by omega), if_pos (by omega),
        joined]

theorem varint_append {v : Nat} (small : v < 2 ^ 64) (rest : Bytes) :
    varint ⟨ByteWriter.varint v ++ rest, true⟩ = (v, ⟨rest, true⟩) := by
  have read := varintLoop_append rest 9 v 0 0 rfl (by omega) (by omega)
  simpa [varint, ByteWriter.varint] using read

/-- Whatever the input is, what a varint reads fits in 64 bits. -/
theorem varintLoop_lt : ∀ (n shift result : Nat) (r : ByteReader), shift + 7 * n = 63 →
    result < 2 ^ shift → (varintLoop (n + 1) shift result r).1 < 2 ^ 64 := by
  intro n
  induction n with
  | zero =>
    intro shift result r last below
    rw [varintLoop]
    split
    · dsimp only
      split
      · exact Nat.two_pow_pos 64
      · have bit : (r.input.headD 0).toNat ≤ 1 := by omega
        have top : ((r.input.headD 0).toNat % 0x80) <<< shift < 2 ^ 64 := by
          rw [Nat.shiftLeft_eq, show shift = 63 by omega]
          omega
        have low : result < 2 ^ 64 := by
          rw [show shift = 63 by omega] at below
          omega
        split
        · exact Nat.or_lt_two_pow low top
        · exact Nat.two_pow_pos 64
    · exact Nat.two_pow_pos 64
  | succ n ih =>
    intro shift result r last below
    rw [varintLoop]
    split
    · dsimp only
      split
      · exact Nat.two_pow_pos 64
      · have low : result < 2 ^ (shift + 7) :=
          below.trans_le (Nat.pow_le_pow_right (by omega) (by omega))
        have top : ((r.input.headD 0).toNat % 0x80) <<< shift < 2 ^ (shift + 7) := by
          rw [Nat.shiftLeft_eq, Nat.pow_add, Nat.mul_comm]
          exact Nat.mul_lt_mul_of_pos_left (Nat.mod_lt _ (by omega)) (Nat.two_pow_pos shift)
        have joined := Nat.or_lt_two_pow low top
        split
        · exact joined.trans_le (Nat.pow_le_pow_right (by omega) (by omega))
        · exact ih _ _ _ (by omega) joined
    · exact Nat.two_pow_pos 64

theorem varint_lt (r : ByteReader) : r.varint.1 < 2 ^ 64 :=
  varintLoop_lt 9 0 0 r rfl (by omega)

theorem bytes_eq (r : ByteReader) :
    r.bytes = if !r.varint.2.ok || r.varint.2.input.length < r.varint.1 then ([], failed)
      else r.varint.2.raw r.varint.1 := rfl

theorem bytes_short (r : ByteReader) : r.bytes.1.length < 2 ^ 64 := by
  rw [bytes_eq]
  split
  · exact Nat.two_pow_pos 64
  · rw [raw]
    split
    · exact lt_of_le_of_lt (List.length_take_le ..) (varint_lt r)
    · exact Nat.two_pow_pos 64

/-- A 64-bit signed integer. -/
def Signed64 (v : Int) : Prop := -2 ^ 63 ≤ v ∧ v < 2 ^ 63

theorem unzigzag_zigzag (v : Int) : unzigzag (ByteWriter.zigzag v) = v := by
  unfold unzigzag ByteWriter.zigzag
  split <;> split <;> omega

theorem svarint_append {v : Int} (fits : Signed64 v) (rest : Bytes) :
    svarint ⟨ByteWriter.svarint v ++ rest, true⟩ = (v, ⟨rest, true⟩) := by
  have small : ByteWriter.zigzag v < 2 ^ 64 := by
    unfold Signed64 at fits
    unfold ByteWriter.zigzag
    split <;> omega
  rw [svarint, ByteWriter.svarint, varint_append small]
  show (unzigzag (ByteWriter.zigzag v), _) = _
  rw [unzigzag_zigzag]

theorem bytes_append {v : Bytes} (short : v.length < 2 ^ 64) (rest : Bytes) :
    bytes ⟨ByteWriter.bytes v ++ rest, true⟩ = (v, ⟨rest, true⟩) := by
  have read := varint_append short (v ++ rest)
  rw [bytes, ByteWriter.bytes, List.append_assoc, read]
  have enough : ¬ (v ++ rest).length < v.length := by simp
  simp only [Bool.not_true, Bool.false_or, decide_eq_true_eq, enough, if_false]
  exact raw_append v rest

/-! ## More bytes behind -/

/-- The reader with more bytes behind its input. -/
def more (r : ByteReader) (tail : Bytes) : ByteReader := ⟨r.input ++ tail, r.ok⟩

/-- A read that goes well starts from a reader that is well, and reads the same with more
bytes behind. -/
def Local {α : Type} (read : ByteReader → α × ByteReader) : Prop :=
  ∀ r, (read r).2.ok = true →
    r.ok = true ∧ ∀ tail, read (r.more tail) = ((read r).1, (read r).2.more tail)

theorem raw_local (n : Nat) : Local fun r => r.raw n := by
  intro r well
  unfold raw at well ⊢
  dsimp only at well ⊢
  split at well
  · rename_i enough
    have ⟨ok, within⟩ : r.ok = true ∧ n ≤ r.input.length := by simpa [need] using enough
    refine ⟨ok, fun tail => ?_⟩
    have still : (r.more tail).need n = true := by
      simp only [need, more, ok, List.length_append, Bool.true_and, decide_eq_true_eq]
      omega
    rw [if_pos enough, if_pos still]
    simp only [more, List.take_append_of_le_length within, List.drop_append_of_le_length within]
  · cases well

theorem u8_local : Local u8 := by
  rintro ⟨input, ok⟩ well
  unfold u8 at well ⊢
  cases input with
  | nil => simp [need, failed] at well
  | cons byte rest =>
    cases ok with
    | false => simp [need, failed] at well
    | true => exact ⟨rfl, fun tail => by simp [need, more]⟩

theorem varintLoop_cons (n shift result : Nat) (byte : UInt8) (rest : Bytes) :
    varintLoop (n + 1) shift result ⟨byte :: rest, true⟩ =
      if shift = 63 ∧ 1 < byte.toNat then (0, failed)
      else if byte.toNat < 0x80 then (result ||| ((byte.toNat % 0x80) <<< shift), ⟨rest, true⟩)
      else varintLoop n (shift + 7) (result ||| ((byte.toNat % 0x80) <<< shift)) ⟨rest, true⟩ := rfl

theorem varintLoop_local (n : Nat) : ∀ shift result, Local (varintLoop n shift result) := by
  induction n with
  | zero => exact fun _ _ _ well => absurd well Bool.false_ne_true
  | succ n ih =>
    rintro shift result ⟨input, ok⟩ well
    cases input with
    | nil => simp [varintLoop, need, failed] at well
    | cons byte rest =>
      cases ok with
      | false => simp [varintLoop, need, failed] at well
      | true =>
        refine ⟨rfl, fun tail => ?_⟩
        rw [varintLoop_cons] at well ⊢
        rw [more, List.cons_append, varintLoop_cons]
        split at well
        · exact absurd well Bool.false_ne_true
        rename_i small
        rw [if_neg small, if_neg small]
        split at well
        · rename_i last
          rw [if_pos last, if_pos last]
          rfl
        · rename_i continued
          rw [if_neg continued, if_neg continued]
          exact (ih _ _ _ well).2 tail

theorem varint_local : Local varint := varintLoop_local 10 0 0

theorem svarint_local : Local svarint := by
  intro r well
  obtain ⟨ok, same⟩ := varint_local r well
  refine ⟨ok, fun tail => ?_⟩
  unfold svarint
  rw [same tail]

theorem bytes_local : Local bytes := by
  intro r well
  have long : ¬ (!r.varint.2.ok || r.varint.2.input.length < r.varint.1) = true := by
    intro bad
    rw [bytes_eq, if_pos bad] at well
    exact Bool.false_ne_true well
  rw [bytes_eq, if_neg long] at well ⊢
  obtain ⟨ok, same⟩ := raw_local r.varint.1 r.varint.2 well
  obtain ⟨start, number⟩ := varint_local r ok
  refine ⟨start, fun tail => ?_⟩
  have still : ¬ (!(r.varint.2.more tail).ok || (r.varint.2.more tail).input.length < r.varint.1) = true := by
    have within : r.varint.1 ≤ r.varint.2.input.length := by simpa [ok] using long
    simp only [more, ok, Bool.not_true, Bool.false_or, decide_eq_true_eq, List.length_append]
    omega
  rw [bytes_eq, number tail, if_neg still]
  exact same tail

end ByteReader

namespace ByteWriter

theorem varintLoop_length_pos (n v : Nat) : 0 < (varintLoop n v).length := by
  cases n with
  | zero => simp [varintLoop]
  | succ n =>
    rw [varintLoop]
    split <;> simp

theorem varint_length_pos (v : Nat) : 0 < (varint v).length := varintLoop_length_pos 9 v

theorem bytes_length_pos (v : Bytes) : 0 < (bytes v).length := by
  have := varint_length_pos v.length
  simp only [bytes, List.length_append]
  omega

theorem length_le_bytes (v : Bytes) : v.length ≤ (bytes v).length := by
  simp only [bytes, List.length_append]
  omega

end ByteWriter

end Baton
