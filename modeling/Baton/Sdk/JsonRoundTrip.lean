/-
# Sdk.JsonRoundTrip — what `json.loads` makes of what `json.dumps` wrote

`loads_dumps`: a value comes back as it was if the reader's limits allow it and it is
`WellFormed`, that is, the names in each dict differ, no string in it has a high surrogate
directly before a low one as two code points, and nothing in it is of a type that is
written like another.  The reader's lemmas hold with any bytes behind the value that a number
does not run into (`Ends`).

So a record of the ledger can be read back if it is short enough, by every reader that
would write it (`Limits.Allow.le`): `Rec.readable_done`, `Rec.readable_claim`.
-/
import Baton.Sdk.LedgerFile
import Mathlib.Data.List.Chain

namespace Baton.Sdk

open Theory
open List (all_append all_cons all_eq_true append_assoc append_nil cons_append drop_left drop_one flatMap_cons
  length_append length_cons mem_cons mem_cons_self mem_singleton singleton_append tail_cons)

set_option autoImplicit false

variable {b : UInt8} {text rest : Bytes} {v : Json} {members : List (Str × Json)}

/-! ## Strings -/

/-- Two code points that would be read back as one. -/
def Split (c d : Nat) : Prop := isHigh c = true ∧ isLow d = true

/-- Code points, none of them split. -/
structure StrFormed (s : Str) : Prop where
  points : ∀ c ∈ s, c < 0x110000
  whole : s.IsChain fun c d => ¬ Split c d

theorem hexValue_hexByte (d : Nat) : hexValue (hexByte d) = some (d % 16) := by
  have all : ∀ d < 16, hexValue (hexByte d) = some d := by decide
  have low : hexByte d = hexByte (d % 16) := by
    unfold hexByte
    rw [Nat.mod_mod]
  rw [low]
  exact all _ (Nat.mod_lt _ (by decide))

variable {u limit : Nat} {c : UInt8}

theorem readHex_hexBytes (unit : u < 0x10000) (rest : Bytes) :
    readHex (hexByte (u / 4096) :: hexByte (u / 256) :: hexByte (u / 16) :: hexByte u :: rest) =
      some (u, rest) := by
  have value : ((u / 4096 % 16 * 16 + u / 256 % 16) * 16 + u / 16 % 16) * 16 + u % 16 = u := by omega
  unfold readHex
  simp only [hexValue_hexByte, Option.bind_eq_bind, Option.bind_some]
  rw [value]

theorem readUnits_escape {u : Nat} {escape rest more : Bytes} {fuel : Nat}
    (read : readEscape (escape ++ rest) = some (u, more)) :
    readUnits (fuel + 1) (0x5c :: (escape ++ rest)) =
      (readUnits fuel more).map fun read => (u :: read.1, read.2) := by
  rw [readUnits, if_neg (by decide), if_pos rfl, read]
  rfl

/-- A code unit is read back. -/
theorem readUnits_encodeUnit (unit : u < 0x10000) (fuel : Nat) (rest : Bytes) :
    readUnits (fuel + 1) (encodeUnit u ++ rest) =
      (readUnits fuel rest).map fun read => (u :: read.1, read.2) := by
  unfold encodeUnit
  split
  · subst u; exact @readUnits_escape _ [0x22] rest rest fuel rfl
  split
  · subst u; exact @readUnits_escape _ [0x5c] rest rest fuel rfl
  split
  · subst u; exact @readUnits_escape _ [0x6e] rest rest fuel rfl
  split
  · subst u; exact @readUnits_escape _ [0x72] rest rest fuel rfl
  split
  · subst u; exact @readUnits_escape _ [0x74] rest rest fuel rfl
  split
  · subst u; exact @readUnits_escape _ [0x66] rest rest fuel rfl
  split
  · subst u; exact @readUnits_escape _ [0x62] rest rest fuel rfl
  rename_i quote backslash _ _ _ _ _
  split
  · rename_i printable
    have back : (UInt8.ofNat u).toNat = u := by
      rw [UInt8.toNat_ofNat']
      omega
    have differs : ∀ b : UInt8, u ≠ b.toNat → UInt8.ofNat u ≠ b := by
      rintro b other rfl
      exact other back.symm
    have plain : ¬ (UInt8.ofNat u < 0x20 ∨ 0x80 ≤ UInt8.ofNat u) := by
      rw [UInt8.lt_iff_toNat_lt, UInt8.le_iff_toNat_le, back]
      show ¬ (u < 32 ∨ 128 ≤ u)
      omega
    rw [singleton_append, readUnits, if_neg (differs 0x22 quote), if_neg (differs 0x5c backslash),
      if_neg plain, back]
  · refine @readUnits_escape _ [0x75, _, _, _, _] rest rest fuel ?_
    rw [cons_append, readEscape, if_pos rfl]
    exact readHex_hexBytes unit rest

theorem encodeUnit_length (u : Nat) : 1 ≤ (encodeUnit u).length := by
  unfold encodeUnit escapeUnit
  repeat' split
  all_goals exact Nat.succ_le_succ (Nat.zero_le _)

theorem readUnits_encode (rest : Bytes) : ∀ (units : List Nat) (fuel : Nat), (∀ u ∈ units, u < 0x10000) →
    (units.flatMap encodeUnit).length < fuel →
    readUnits fuel (units.flatMap encodeUnit ++ 0x22 :: rest) = some (units, rest)
  | _, 0, _, enough => absurd enough (Nat.not_lt_zero _)
  | [], fuel + 1, _, _ => by
    show readUnits (fuel + 1) (0x22 :: rest) = _
    rw [readUnits, if_pos rfl]
  | u :: units, fuel + 1, small, enough => by
    rw [flatMap_cons, length_append] at enough
    have one := encodeUnit_length u
    rw [flatMap_cons, append_assoc, readUnits_encodeUnit (small u mem_cons_self),
      readUnits_encode rest units fuel (fun u mem => small u (List.mem_cons_of_mem _ mem)) (by omega)]
    rfl

theorem unitsOf_small (c : Nat) : ∀ u ∈ unitsOf c, u < 0x10000 := by
  unfold unitsOf
  split
  · intro u mem
    cases mem_singleton.1 mem
    assumption
  · intro u mem
    simp only [mem_cons, List.not_mem_nil, or_false] at mem
    omega

/-- A unit that is not joined with what follows it. -/
theorem joinSurrogates_cons {units : List Nat} (apart : ∀ v ∈ units.head?, ¬ Split u v) :
    joinSurrogates (u :: units) = u :: joinSurrogates units := by
  cases units with
  | nil => rfl
  | cons v units =>
    have other : ¬ (isHigh u && isLow v) = true := by
      rw [Bool.and_eq_true]
      exact apart v rfl
    rw [joinSurrogates, if_neg other]

theorem joinSurrogates_pair {c : Nat} (astral : 0x10000 ≤ c) (point : c < 0x110000) (units : List Nat) :
    joinSurrogates ((0xd800 + (c - 0x10000) / 0x400 % 0x400) :: (0xdc00 + (c - 0x10000) % 0x400) :: units) =
      c :: joinSurrogates units := by
  have pair : (isHigh (0xd800 + (c - 0x10000) / 0x400 % 0x400) && isLow (0xdc00 + (c - 0x10000) % 0x400)) = true := by
    simp only [isHigh, isLow, Bool.and_eq_true, decide_eq_true_eq]
    omega
  have value : 0x10000 + (0xd800 + (c - 0x10000) / 0x400 % 0x400 - 0xd800) * 0x400 +
      (0xdc00 + (c - 0x10000) % 0x400 - 0xdc00) = c := by
    omega
  rw [joinSurrogates, if_pos pair, value]

/-- What a code point's units begin with does not make a pair with the one before it. -/
theorem head_unitsOf {c d : Nat} {s : Str} (apart : ¬ Split c d) :
    ∀ v ∈ ((d :: s).flatMap unitsOf).head?, ¬ Split c v := by
  intro v head
  rw [flatMap_cons] at head
  by_cases basic : d < 0x10000
  · rw [unitsOf, if_pos basic] at head
    cases head
    exact apart
  · rw [unitsOf, if_neg basic] at head
    cases head
    rintro ⟨-, low⟩
    simp only [isLow, decide_eq_true_eq] at low
    omega

theorem joinSurrogates_unitsOf : ∀ s : Str, StrFormed s → joinSurrogates (s.flatMap unitsOf) = s
  | [], _ => rfl
  | c :: s, formed => by
    have ih := joinSurrogates_unitsOf s
      ⟨fun d mem => formed.points d (List.mem_cons_of_mem _ mem), formed.whole.tail⟩
    have point := formed.points c mem_cons_self
    rw [flatMap_cons]
    by_cases basic : c < 0x10000
    · rw [unitsOf, if_pos basic, singleton_append, joinSurrogates_cons, ih]
      cases s with
      | nil =>
        intro v head
        cases head
      | cons d s => exact head_unitsOf (List.isChain_cons_cons.1 formed.whole).1
    · rw [unitsOf, if_neg basic, cons_append, singleton_append,
        joinSurrogates_pair (Nat.not_lt.1 basic) point, ih]

theorem readString_encode {s : Str} (formed : StrFormed s) (rest : Bytes) :
    readString ((s.flatMap unitsOf).flatMap encodeUnit ++ 0x22 :: rest) = some (s, rest) := by
  have small : ∀ u ∈ s.flatMap unitsOf, u < 0x10000 := by
    intro u mem
    obtain ⟨c, -, unit⟩ := List.mem_flatMap.1 mem
    exact unitsOf_small c u unit
  unfold readString
  rw [readUnits_encode rest _ _ small (by rw [length_append]; omega), Option.map_some,
    joinSurrogates_unitsOf s formed]

/-! ## Numbers -/

/-- No number goes on here. -/
def Ends (rest : Bytes) : Prop := ∀ b ∈ rest.head?, isNumberByte b = false

theorem ends_nil : Ends [] := by
  intro b head
  cases head

theorem ends_cons (other : isNumberByte b = false) (rest : Bytes) : Ends (b :: rest) := by
  intro b' head
  cases head
  exact other

theorem digit_iff (b : UInt8) : isDigitByte b = true ↔ 0x30 ≤ b.toNat ∧ b.toNat ≤ 0x39 := by
  simp [isDigitByte, UInt8.le_iff_toNat_le]

theorem digit_ne (digit : isDigitByte b = true) (other : isDigitByte c = false) : b ≠ c := by
  rintro rfl
  rw [digit] at other
  cases other

theorem number_of_digit (digit : isDigitByte b = true) : isNumberByte b = true := by
  simp [isNumberByte, digit]

theorem digitByte_toNat (d : Nat) : (digitByte d).toNat = 0x30 + d % 10 := by
  unfold digitByte
  rw [UInt8.toNat_ofNat']
  omega

theorem digitByte_digit (d : Nat) : isDigitByte (digitByte d) = true := by
  rw [digit_iff, digitByte_toNat]
  omega

theorem natTextLoop_digits : ∀ (fuel n : Nat), ∀ b ∈ natTextLoop fuel n, isDigitByte b = true
  | 0, n, b, mem => by
    cases mem_singleton.1 mem
    exact digitByte_digit n
  | fuel + 1, n, b, mem => by
    rw [natTextLoop] at mem
    split at mem
    · cases mem_singleton.1 mem
      exact digitByte_digit n
    · rcases List.mem_append.1 mem with high | low
      · exact natTextLoop_digits fuel _ b high
      · cases mem_singleton.1 low
        exact digitByte_digit n

theorem readNat_snoc (digits : Bytes) (b : UInt8) :
    readNat (digits ++ [b]) = readNat digits * 10 + (b.toNat - 0x30) := by
  simp [readNat, List.foldl_append]

theorem readNat_digitByte {n : Nat} (one : n < 10) : readNat [digitByte n] = n := by
  rw [← List.nil_append [digitByte n], readNat_snoc, digitByte_toNat]
  show 0 * 10 + _ = n
  omega

theorem readNat_natTextLoop : ∀ (fuel n : Nat), n ≤ fuel → readNat (natTextLoop fuel n) = n
  | 0, n, enough => readNat_digitByte (by omega)
  | fuel + 1, n, enough => by
    rw [natTextLoop]
    split
    · exact readNat_digitByte (by assumption)
    · rw [readNat_snoc, readNat_natTextLoop fuel (n / 10) (by omega), digitByte_toNat]
      omega

/-- There is no leading zero. -/
theorem natTextLoop_start : ∀ (fuel n : Nat), n ≤ fuel →
    ∃ b digits, natTextLoop fuel n = b :: digits ∧ (0 < n → b ≠ 0x30) ∧ (n < 10 → digits = [])
  | 0, n, enough => ⟨digitByte n, [], rfl, fun pos => absurd pos (by omega), fun _ => rfl⟩
  | fuel + 1, n, enough => by
    rw [natTextLoop]
    split
    · refine ⟨digitByte n, [], rfl, ?_, fun _ => rfl⟩
      intro pos zero
      have value := digitByte_toNat n
      rw [zero] at value
      have byte : (0x30 : UInt8).toNat = 48 := rfl
      omega
    · obtain ⟨b, digits, high, leading, -⟩ := natTextLoop_start fuel (n / 10) (by omega)
      refine ⟨b, digits ++ [digitByte n], ?_, fun _ => leading (by omega), fun one => absurd one (by assumption)⟩
      rw [high]
      rfl

theorem isNatText_natText (n : Nat) : isNatText (natText n) = true := by
  obtain ⟨b, digits, text, leading, one⟩ := natTextLoop_start n n (Nat.le_refl n)
  have all : (natText n).all isDigitByte = true := all_eq_true.2 (natTextLoop_digits n n)
  have text : natText n = b :: digits := text
  unfold isNatText
  rw [all, text]
  by_cases pos : 0 < n
  · simp [leading pos]
  · simp [one (by omega)]

/-- A text that is read as a number: digits, with or without a sign. -/
inductive Numeral : Bytes → Prop where
  | plain {b : UInt8} {text : Bytes} (digit : isDigitByte b = true) : Numeral (b :: text)
  | signed {b : UInt8} {text : Bytes} (digit : isDigitByte b = true) : Numeral (0x2d :: b :: text)

theorem natText_cons (n : Nat) : ∃ b digits, natText n = b :: digits ∧ isDigitByte b = true := by
  obtain ⟨b, digits, text, -, -⟩ := natTextLoop_start n n (Nat.le_refl n)
  refine ⟨b, digits, text, natTextLoop_digits n n b ?_⟩
  rw [text]
  exact mem_cons_self

theorem numeral_intText (n : Int) : Numeral (intText n) := by
  obtain ⟨b, digits, text, digit⟩ := natText_cons n.natAbs
  unfold intText
  rw [text]
  split
  · exact .signed digit
  · exact .plain digit

theorem numeral_float (valid : isFloatText text = true) : Numeral text := by
  simp only [isFloatText, Bool.and_eq_true] at valid
  obtain ⟨⟨-, digits⟩, -⟩ := valid
  have first : ∀ {t : Bytes}, isNatText (t.takeWhile isDigitByte) = true →
      ∃ b more, t = b :: more ∧ isDigitByte b = true := by
    intro t nat
    cases t with
    | nil => cases nat
    | cons b more =>
      refine ⟨b, more, rfl, ?_⟩
      by_contra other
      rw [List.takeWhile_cons_of_neg other] at nat
      cases nat
  obtain ⟨b, more, rest, digit⟩ := first digits
  by_cases sign : text.headD 0 = 0x2d
  · rw [if_pos sign] at rest
    cases text with
    | nil => cases rest
    | cons c text =>
      cases (show c = 0x2d from sign)
      cases (show text = b :: more from rest)
      exact .signed digit
  · rw [if_neg sign, List.drop_zero] at rest
    rw [rest]
    exact .plain digit

theorem takeWhile_number (number : ∀ b ∈ text, isNumberByte b = true) (ends : Ends rest) :
    (text ++ rest).takeWhile isNumberByte = text := by
  rw [List.takeWhile_append_of_pos number]
  cases rest with
  | nil => rw [List.takeWhile_nil, append_nil]
  | cons b rest =>
    have stop : ¬ isNumberByte b = true := by
      rw [ends b rfl]
      exact Bool.false_ne_true
    rw [List.takeWhile_cons_of_neg stop, append_nil]

theorem readNumber_int {n : Int} (short : (natText n.natAbs).length ≤ limit) (ends : Ends rest) :
    readNumber limit (intText n ++ rest) = some (.int n, rest) := by
  obtain ⟨b, digits, text, digit⟩ := natText_cons n.natAbs
  have nat : isNatText (b :: digits) = true := by
    rw [← text]
    exact isNatText_natText _
  have value : readNat (b :: digits) = n.natAbs := by
    rw [← text]
    exact readNat_natTextLoop _ _ (Nat.le_refl _)
  have numbers : ∀ c ∈ b :: digits, isNumberByte c = true := by
    intro c mem
    rw [← text] at mem
    exact number_of_digit (natTextLoop_digits _ _ c mem)
  have unsigned : b ≠ 0x2d := digit_ne digit rfl
  rw [text] at short
  unfold readNumber
  by_cases negative : n < 0
  · have whole : intText n = 0x2d :: b :: digits := by
      unfold intText
      rw [if_pos negative, text]
    have all : ∀ c ∈ (0x2d :: b :: digits : Bytes), isNumberByte c = true := List.forall_mem_cons.2 ⟨rfl, numbers⟩
    have int : isIntText (0x2d :: b :: digits) = true := by
      rw [isIntText, if_pos rfl]
      exact nat
    rw [whole, takeWhile_number all ends]
    dsimp only
    rw [if_pos int, if_pos rfl, if_pos short, value, drop_left]
    congr 3
    omega
  · have whole : intText n = b :: digits := by
      unfold intText
      rw [if_neg negative, text]
    have int : isIntText (b :: digits) = true := by
      rw [isIntText, if_neg unsigned]
      exact nat
    rw [whole, takeWhile_number numbers ends]
    dsimp only
    rw [if_pos int, if_neg unsigned, if_pos short, value, drop_left]
    congr 3
    omega

/-- A float has more than an integer part. -/
theorem float_not_int (valid : isFloatText text = true) : isIntText text = false := by
  simp only [isFloatText, Bool.and_eq_true] at valid
  obtain ⟨-, rest⟩ := valid
  have short : ∀ {t : Bytes}, isNatText t = true → t.takeWhile isDigitByte = t := by
    intro t nat
    simp only [isNatText, Bool.and_eq_true] at nat
    have digits := all_eq_true.1 nat.1.2
    have whole := @List.takeWhile_append_of_pos _ isDigitByte t [] digits
    rw [append_nil, List.takeWhile_nil, append_nil] at whole
    exact whole
  rw [← Bool.not_eq_true]
  intro int
  cases text with
  | nil => cases int
  | cons b text =>
    rw [isIntText] at int
    by_cases sign : b = 0x2d
    · rw [if_pos sign] at int
      have head : (b :: text).headD 0 = 0x2d := sign
      rw [if_pos head] at rest
      have digits : ((b :: text).drop 1).takeWhile isDigitByte = text := short int
      rw [digits, List.drop_of_length_le (by simp [Nat.add_comm])] at rest
      cases rest
    · rw [if_neg sign] at int
      have head : ¬ (b :: text).headD 0 = 0x2d := sign
      rw [if_neg head, List.drop_zero, short int, List.drop_of_length_le (Nat.le_of_eq (Nat.zero_add _).symm)] at rest
      cases rest

theorem readNumber_float (text : FloatText) (ends : Ends rest) :
    readNumber limit (text.1 ++ rest) = some (.float text, rest) := by
  have valid := text.2
  have notInt : ¬ isIntText text.1 = true := by
    rw [float_not_int valid]
    exact Bool.false_ne_true
  have numbers : ∀ b ∈ text.1, isNumberByte b = true := by
    simp only [isFloatText, Bool.and_eq_true] at valid
    exact all_eq_true.1 valid.1.1
  have taken := takeWhile_number numbers ends
  unfold readNumber
  simp only [taken]
  rw [if_neg notInt, dif_pos text.2, drop_left]

theorem readConstant_numeral (numeral : Numeral text) (rest : Bytes) :
    readConstant (text ++ rest) = none := by
  have none_ : constants.find? (fun constant => constant.1.isPrefixOf (text ++ rest)) = none := by
    rw [List.find?_eq_none]
    intro constant listed
    simp only [constants, mem_cons, List.not_mem_nil, or_false] at listed
    cases numeral with
    | plain digit =>
      rcases listed with rfl | rfl | rfl | rfl | rfl | rfl <;>
        · simp only [cons_append, List.isPrefixOf, Bool.and_eq_true, beq_iff_eq]
          rintro ⟨rfl, -⟩
          exact absurd digit (by decide)
    | signed digit =>
      rcases listed with rfl | rfl | rfl | rfl | rfl | rfl <;>
        simp only [cons_append, List.isPrefixOf, Bool.and_eq_true, beq_iff_eq]
      case inr.inr.inr.inr.inr =>
        -- the sign of `-Infinity` is not followed by a digit
        rintro ⟨-, rfl, -⟩
        exact absurd digit (by decide)
      all_goals
        rintro ⟨sign, -⟩
        exact absurd sign (by decide)
  unfold readConstant
  rw [none_]
  rfl

theorem readValue_number {more : Bytes} {fuel room : Nat} (numeral : Numeral text)
    (read : readNumber limit (text ++ rest) = some (v, more)) :
    readValue limit (fuel + 1) room (text ++ rest) = .ok (v, more) := by
  have constant := readConstant_numeral numeral rest
  cases numeral with
  | plain digit =>
    rw [cons_append] at constant read ⊢
    rw [readValue, if_neg (digit_ne digit rfl), if_neg (digit_ne digit rfl), if_neg (digit_ne digit rfl), constant,
      read]
    rfl
  | signed digit =>
    rw [cons_append] at constant read ⊢
    rw [readValue, if_neg (by decide), if_neg (by decide), if_neg (by decide), constant, read]
    rfl

/-! ## Values -/

mutual

/-- The values that are read back as they were. -/
def Json.WellFormed : Json → Prop
  | .string s => StrFormed s
  | .array items => ItemsFormed items
  | .object members => (members.map Prod.fst).Nodup ∧ MembersFormed members
  | .foreign _ => False
  | _ => True

def ItemsFormed : List Json → Prop
  | [] => True
  | item :: items => item.WellFormed ∧ ItemsFormed items

def MembersFormed : List (Str × Json) → Prop
  | [] => True
  | (name, value) :: members => StrFormed name ∧ value.WellFormed ∧ MembersFormed members

end

/-- The bytes a value can begin with. -/
def isStart (b : UInt8) : Bool :=
  isDigitByte b || [0x22, 0x2d, 0x49, 0x4e, 0x5b, 0x66, 0x6e, 0x74, 0x7b].contains b

theorem start_not (start : isStart b = true) (other : isStart c = false) : b ≠ c := by
  rintro rfl
  rw [start] at other
  cases other

theorem start_black (start : isStart b = true) : isWhitespace b = false := by
  rw [← Bool.not_eq_true]
  intro white
  simp only [isWhitespace, Bool.or_eq_true, beq_iff_eq] at white
  rcases white with ((rfl | rfl) | rfl) | rfl <;> exact absurd start (by decide)

theorem numeral_start (numeral : Numeral text) :
    ∃ b bytes, text = b :: bytes ∧ isStart b = true := by
  cases numeral with
  | plain digit => exact ⟨_, _, rfl, by simp [isStart, digit]⟩
  | signed digit => exact ⟨_, _, rfl, by decide⟩

theorem dumps_start (v : Json) : ∃ b bytes, dumps v = b :: bytes ∧ isStart b = true := by
  cases v with
  | null => exact ⟨_, _, by rw [dumps], by decide⟩
  | bool value => cases value <;> exact ⟨_, _, by rw [dumps], by decide⟩
  | int n =>
    rw [dumps]
    exact numeral_start (numeral_intText n)
  | float text =>
    rw [dumps]
    exact numeral_start (numeral_float text.2)
  | nan => exact ⟨_, _, by rw [dumps], by decide⟩
  | infinity negative =>
    rw [dumps]
    cases negative <;> exact ⟨_, _, rfl, by decide⟩
  | string s =>
    rw [dumps]
    exact ⟨_, _, rfl, by decide⟩
  | array items => cases items <;> exact ⟨_, _, by rw [dumps], by decide⟩
  | object members =>
    rcases members with _ | ⟨⟨name, value⟩, members⟩ <;> exact ⟨_, _, by rw [dumps], by decide⟩
  | foreign shown =>
    rw [dumps]
    exact dumps_start shown

theorem skip_cons (black : isWhitespace b = false) (rest : Bytes) :
    skipWhitespace (b :: rest) = b :: rest := by
  simp [skipWhitespace, black]

theorem skip_dumps (v : Json) (rest : Bytes) : skipWhitespace (dumps v ++ rest) = dumps v ++ rest := by
  obtain ⟨b, bytes, text, start⟩ := dumps_start v
  rw [text]
  exact skip_cons (start_black start) _

theorem skip_string (s : Str) (rest : Bytes) : skipWhitespace (encodeString s ++ rest) = encodeString s ++ rest :=
  skip_cons rfl _

theorem dumps_ne_close (v : Json) (rest : Bytes) : (dumps v ++ rest).headD 0 ≠ 0x5d := by
  obtain ⟨b, bytes, text, start⟩ := dumps_start v
  rw [text]
  exact start_not start rfl

/-- Names that differ are kept as they come. -/
theorem dictOf_nodup (differ : (members.map Prod.fst).Nodup) : dictOf members = members := by
  have kept : ∀ (rest known : List (Str × Json)), ((known ++ rest).map Prod.fst).Nodup →
      rest.foldl (fun dict pair =>
        if dict.any (fun known => known.1 == pair.1) then
          dict.map fun known => if known.1 == pair.1 then (known.1, pair.2) else known
        else dict ++ [pair]) known = known ++ rest := by
    intro rest
    induction rest with
    | nil =>
      intro known _
      rw [append_nil]
      rfl
    | cons pair rest ih =>
      intro known differ
      have new : ¬ known.any (fun known => known.1 == pair.1) = true := by
        rw [List.any_eq_true]
        rintro ⟨old, listed, same⟩
        rw [List.map_append, List.nodup_append] at differ
        exact differ.2.2 old.1 (List.mem_map_of_mem listed) pair.1 mem_cons_self (beq_iff_eq.1 same)
      rw [List.foldl_cons, if_neg new, ih (known ++ [pair]) (by rwa [append_assoc, singleton_append]),
        append_assoc, singleton_append]
  exact kept members [] differ

/-! ## What limits allow -/

namespace Limits

variable {limits reader : Limits}

theorem Allow.le (allowed : limits.Allow v) (le : limits.Le reader) : reader.Allow v := by
  unfold Allow at allowed ⊢
  rw [all_eq_true] at allowed ⊢
  intro need mem
  have met := allowed need mem
  simp only [meets, Bool.and_eq_true, decide_eq_true_eq] at met ⊢
  exact ⟨Nat.le_trans met.1 le.depth, Nat.le_trans met.2 le.digits⟩

theorem room_of_meets {nested : Nat} (met : limits.meets ⟨nested + 1, 0⟩ = true) :
    limits.depth - nested ≠ 0 := by
  simp only [meets, Bool.and_eq_true, decide_eq_true_eq] at met
  omega

end Limits

/-! ## Reading what was written -/

/-- What a fuel is enough for. -/
structure ReadsBack (limits : Limits) (fuel : Nat) : Prop where
  value : ∀ (v : Json) (rest : Bytes) (nested : Nat), v.WellFormed → (needs v nested).all limits.meets = true →
    (dumps v).length ≤ fuel → Ends rest →
    readValue limits.digits fuel (limits.depth - nested) (dumps v ++ rest) = .ok (v, rest)
  items : ∀ (item : Json) (items : List Json) (rest : Bytes) (nested : Nat), ItemsFormed (item :: items) →
    (needsOfItems (item :: items) nested).all limits.meets = true →
    (dumps item).length + (dumpItems items).length ≤ fuel →
    readItems limits.digits fuel (limits.depth - nested) (dumps item ++ (dumpItems items ++ rest)) =
      .ok (item :: items, rest)
  members : ∀ (name : Str) (v : Json) (members : List (Str × Json)) (rest : Bytes) (nested : Nat),
    MembersFormed ((name, v) :: members) →
    (needsOfMembers ((name, v) :: members) nested).all limits.meets = true →
    (dumps v).length + (dumpMembers members).length ≤ fuel →
    readMembers limits.digits fuel (limits.depth - nested)
        (encodeString name ++ 0x3a :: (dumps v ++ (dumpMembers members ++ rest))) =
      .ok ((name, v) :: members, rest)

theorem dumps_length_pos (v : Json) : 0 < (dumps v).length := by
  obtain ⟨b, bytes, text, -⟩ := dumps_start v
  rw [text]
  exact Nat.succ_pos _

theorem encodeString_append (s : Str) (rest : Bytes) :
    encodeString s ++ rest = 0x22 :: ((s.flatMap unitsOf).flatMap encodeUnit ++ 0x22 :: rest) := by
  simp [encodeString]

section Step

variable {limits : Limits} {limit fuel room nested : Nat}

theorem readValue_string {s : Str} (formed : StrFormed s) (rest : Bytes) :
    readValue limit (fuel + 1) room (encodeString s ++ rest) = .ok (.string s, rest) := by
  rw [encodeString_append, readValue, if_pos rfl, readString_encode formed]
  rfl

/-- A constant that is not a number and does not open anything. -/
theorem readValue_constant {bytes : Bytes} (quote : b ≠ 0x22) (brace : b ≠ 0x7b)
    (bracket : b ≠ 0x5b) (read : readConstant (b :: (bytes ++ rest)) = some (v, rest)) :
    readValue limit (fuel + 1) room (b :: bytes ++ rest) = .ok (v, rest) := by
  rw [cons_append, readValue, if_neg quote, if_neg brace, if_neg bracket, read]
  rfl

theorem ends_dumpItems (items : List Json) (rest : Bytes) : Ends (dumpItems items ++ rest) := by
  cases items with
  | nil => exact ends_cons rfl _
  | cons item items => exact ends_cons rfl _

theorem ends_dumpMembers (members : List (Str × Json)) (rest : Bytes) : Ends (dumpMembers members ++ rest) := by
  rcases members with _ | ⟨⟨name, value⟩, members⟩
  · exact ends_cons rfl _
  · exact ends_cons rfl _

variable {items : List Json}

theorem readValue_array (reads : ReadsBack limits fuel) (formed : ItemsFormed items)
    (met : (needs (.array items) nested).all limits.meets = true)
    (enough : (dumps (.array items)).length ≤ fuel + 1) (rest : Bytes) :
    readValue limits.digits (fuel + 1) (limits.depth - nested) (dumps (.array items) ++ rest) =
      .ok (.array items, rest) := by
  rw [needs, all_cons, Bool.and_eq_true] at met
  have room := Limits.room_of_meets met.1
  cases items with
  | nil =>
    rw [dumps, cons_append, readValue, if_neg (by decide), if_neg (by decide), if_pos rfl, if_neg room]
    rfl
  | cons item items =>
    rw [dumps, length_cons, length_append] at enough
    rw [dumps, cons_append, append_assoc, readValue, if_neg (by decide), if_neg (by decide), if_pos rfl,
      if_neg room, skip_dumps, if_neg (dumps_ne_close _ _), Nat.sub_sub,
      reads.items item items rest _ formed met.2 (by omega)]
    rfl

section

variable (reads : ReadsBack limits fuel)

include reads

theorem readValue_members (differ : (members.map Prod.fst).Nodup)
    (formed : MembersFormed members) (met : (needs (.object members) nested).all limits.meets = true)
    (enough : (dumps (.object members)).length ≤ fuel + 1) (rest : Bytes) :
    readValue limits.digits (fuel + 1) (limits.depth - nested) (dumps (.object members) ++ rest) =
      .ok (.object members, rest) := by
  rw [needs, all_cons, Bool.and_eq_true] at met
  have room := Limits.room_of_meets met.1
  rcases members with _ | ⟨⟨name, v⟩, members⟩
  · rw [dumps, cons_append, readValue, if_neg (by decide), if_pos rfl, if_neg room]
    rfl
  · have open_ : ∀ more : Bytes, (encodeString name ++ more).headD 0 ≠ 0x7d := by
      intro more
      show (0x22 : UInt8) ≠ 0x7d
      decide
    rw [dumps, length_cons, length_append, length_cons, length_append] at enough
    rw [dumps, cons_append, append_assoc, cons_append, append_assoc, readValue, if_neg (by decide), if_pos rfl,
      if_neg room, skip_string, if_neg (open_ _), Nat.sub_sub,
      reads.members name v members rest _ formed met.2 (by omega)]
    show Except.ok (Json.object (dictOf _), rest) = _
    rw [dictOf_nodup differ]

theorem readItems_step {item : Json}
    (formed : ItemsFormed (item :: items)) (met : (needsOfItems (item :: items) nested).all limits.meets = true)
    (enough : (dumps item).length + (dumpItems items).length ≤ fuel + 1) (rest : Bytes) :
    readItems limits.digits (fuel + 1) (limits.depth - nested) (dumps item ++ (dumpItems items ++ rest)) =
      .ok (item :: items, rest) := by
  rw [needsOfItems, all_append, Bool.and_eq_true] at met
  obtain ⟨first, others⟩ := met
  cases items with
  | nil =>
    have small : (dumps item).length ≤ fuel := by
      simp only [dumpItems, List.length_singleton] at enough
      omega
    rw [readItems, reads.value item _ nested formed.1 first small (ends_dumpItems _ _)]
    rfl
  | cons next items =>
    have size : (dumpItems (next :: items)).length = 1 + ((dumps next).length + (dumpItems items).length) := by
      simp only [dumpItems, length_cons, length_append]
      omega
    rw [readItems, reads.value item _ nested formed.1 first (by omega) (ends_dumpItems _ _)]
    dsimp only [Except.bind]
    rw [dumpItems, cons_append, skip_cons rfl]
    show (if (0x2c : UInt8) = 0x5d then _ else _) = _
    rw [if_neg (by decide)]
    show (if (0x2c : UInt8) = 0x2c then _ else _) = _
    rw [if_pos rfl, drop_one, tail_cons, append_assoc, skip_dumps,
      reads.items next items rest nested formed.2 others (by omega)]
    rfl

theorem readMembers_step {name : Str} (formed : MembersFormed ((name, v) :: members))
    (met : (needsOfMembers ((name, v) :: members) nested).all limits.meets = true)
    (enough : (dumps v).length + (dumpMembers members).length ≤ fuel + 1) (rest : Bytes) :
    readMembers limits.digits (fuel + 1) (limits.depth - nested)
        (encodeString name ++ 0x3a :: (dumps v ++ (dumpMembers members ++ rest))) =
      .ok ((name, v) :: members, rest) := by
  have small : (dumps v).length ≤ fuel := by
    rcases members with _ | ⟨⟨next, value⟩, members⟩
    · simp only [dumpMembers, List.length_singleton] at enough
      omega
    · simp only [dumpMembers, length_cons] at enough
      omega
  obtain ⟨named, first, others⟩ := formed
  rw [needsOfMembers, all_append, Bool.and_eq_true] at met
  rw [encodeString_append, readMembers]
  show (if (0x22 : UInt8) ≠ 0x22 then _ else _) = _
  rw [if_neg (not_not_intro rfl), drop_one, tail_cons, readString_encode named]
  dsimp only [orValueError, Except.bind]
  rw [skip_cons rfl]
  show (if (0x3a : UInt8) ≠ 0x3a then _ else _) = _
  rw [if_neg (not_not_intro rfl), drop_one, tail_cons, skip_dumps,
    reads.value v _ nested first met.1 small (ends_dumpMembers _ _)]
  dsimp only [Except.bind]
  rcases members with _ | ⟨⟨next, value⟩, members⟩
  · rfl
  · have size : (dumpMembers ((next, value) :: members)).length =
        1 + ((encodeString next).length + (1 + ((dumps value).length + (dumpMembers members).length))) := by
      simp only [dumpMembers, length_cons, length_append]
      omega
    rw [dumpMembers, cons_append, skip_cons rfl]
    show (if (0x2c : UInt8) = 0x7d then _ else _) = _
    rw [if_neg (by decide)]
    show (if (0x2c : UInt8) = 0x2c then _ else _) = _
    rw [if_pos rfl, drop_one, tail_cons, append_assoc, skip_string, cons_append, append_assoc,
      reads.members next value members rest nested others met.2 (by omega)]
    rfl

theorem readValue_step (formed : v.WellFormed)
    (met : (needs v nested).all limits.meets = true) (enough : (dumps v).length ≤ fuel + 1) (ends : Ends rest) :
    readValue limits.digits (fuel + 1) (limits.depth - nested) (dumps v ++ rest) = .ok (v, rest) := by
  cases v with
  | null =>
    rw [dumps]
    exact readValue_constant (by decide) (by decide) (by decide) rfl
  | bool value =>
    cases value <;>
      · rw [dumps]
        exact readValue_constant (by decide) (by decide) (by decide) rfl
  | int n =>
    have few : (natText n.natAbs).length ≤ limits.digits := by simpa [needs, Limits.meets] using met
    rw [dumps]
    exact readValue_number (numeral_intText n) (readNumber_int few ends)
  | float text =>
    rw [dumps]
    exact readValue_number (numeral_float text.2) (readNumber_float text ends)
  | nan =>
    rw [dumps]
    exact readValue_constant (by decide) (by decide) (by decide) rfl
  | infinity negative =>
    rw [dumps]
    cases negative <;> exact readValue_constant (by decide) (by decide) (by decide) rfl
  | string s =>
    rw [Json.WellFormed] at formed
    rw [dumps]
    exact readValue_string formed rest
  | array items =>
    rw [Json.WellFormed] at formed
    exact readValue_array reads formed met enough rest
  | object members =>
    rw [Json.WellFormed] at formed
    exact readValue_members reads formed.1 formed.2 met enough rest
  | foreign shown => cases formed

end

end Step

theorem readsBack (limits : Limits) (fuel : Nat) : ReadsBack limits fuel := by
  induction fuel with
  | zero =>
    refine ⟨?_, ?_, ?_⟩
    · intro v rest nested _ _ enough
      exact absurd enough (Nat.not_le.2 (dumps_length_pos v))
    · intro item items rest nested _ _ enough
      have one := dumps_length_pos item
      omega
    · intro name v members rest nested _ _ enough
      have one := dumps_length_pos v
      omega
  | succ fuel reads =>
    exact ⟨fun v rest nested formed met enough ends => readValue_step reads formed met enough ends,
      fun item items rest nested formed met enough => readItems_step reads formed met enough rest,
      fun name v members rest nested formed met enough => readMembers_step reads formed met enough rest⟩

/-- A value comes back as it was. -/
theorem loads_dumps {limits : Limits} (formed : v.WellFormed) (allowed : limits.Allow v) :
    loads limits (dumps v) = .ok v := by
  have start := skip_dumps v []
  have read := (readsBack limits (2 * (dumps v).length + 2)).value v [] 0 formed allowed (by omega) ends_nil
  rw [append_nil] at start read
  rw [Nat.sub_zero] at read
  unfold loads
  rw [start, read]
  rfl

/-- Two surrogates do not: this is one character for every reader. -/
example : ((loads ⟨0, 0⟩ (dumps (.string [0xd83d, 0xde00]))).map dumps).toOption =
    some (dumps (.string [0x1f600])) := by
  decide +kernel

/-- Nor does a list in two others, for a reader with room for two. -/
example : (loads ⟨2, 0⟩ (dumps (.array [.array [.array []]]))).map dumps = .error .recursionError := by
  decide +kernel

/-! ## Records -/

namespace Rec

variable {key : Str} {token : Int} {value : Json} {limits : Limits}

/-- A string without surrogates. -/
theorem strFormed_low {s : Str} (low : ∀ c ∈ s, c < 0xd800) : StrFormed s := by
  constructor
  · intro c mem
    exact Nat.lt_trans (low c mem) (by decide)
  · induction s with
    | nil => exact .nil
    | cons c s ih =>
      refine (ih fun d mem => low d (List.mem_cons_of_mem _ mem)).cons ?_
      rintro d - ⟨high, -⟩
      have small := low c mem_cons_self
      simp only [isHigh, decide_eq_true_eq] at high
      omega

theorem readable_of_formed {r : Rec} (short : r.payload.length ≤ kMaxRecord)
    (formed : (Json.object r.members).WellFormed) (allowed : limits.Allow (.object r.members)) :
    r.Readable limits :=
  ⟨short, fun _ le => loads_dumps formed (allowed.le le)⟩

/-- A record of a key and a value that are read back is read back if it is short enough. -/
theorem readable_done (named : StrFormed key) (formed : value.WellFormed)
    (short : (Rec.done key token value).payload.length ≤ kMaxRecord)
    (allowed : limits.Allow (.object (doneRecord key token value))) :
    (Rec.done key token value).Readable limits := by
  refine readable_of_formed short ?_ allowed
  have differ : [opName, keyName, tokenName, valueName].Nodup := by decide
  show (Json.object (doneRecord key token value)).WellFormed
  simp only [doneRecord, Json.WellFormed, MembersFormed, and_true, true_and]
  exact ⟨differ, strFormed_low (by decide), strFormed_low (by decide), strFormed_low (by decide), named,
    strFormed_low (by decide), strFormed_low (by decide), formed⟩

theorem readable_claim (named : StrFormed key)
    (short : (Rec.claim key token).payload.length ≤ kMaxRecord)
    (allowed : limits.Allow (.object (claimRecord key token))) : (Rec.claim key token).Readable limits := by
  refine readable_of_formed short ?_ allowed
  have differ : [opName, keyName, tokenName].Nodup := by decide
  show (Json.object (claimRecord key token)).WellFormed
  simp only [claimRecord, Json.WellFormed, MembersFormed, and_true]
  exact ⟨differ, strFormed_low (by decide), strFormed_low (by decide), strFormed_low (by decide), named,
    strFormed_low (by decide)⟩

end Rec

end Baton.Sdk
