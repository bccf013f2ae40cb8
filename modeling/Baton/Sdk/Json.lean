/-
# Sdk.Json — the JSON that the ledger of the Python SDK writes and reads

`json.dumps(value, separators=(",", ":"))` and `json.loads`, on bytes.  A `str` is its
code points, lone surrogates included; a `float` is the text Python prints for it; a value
of another type is what it is written like (`foreign`).  Both functions have `Limits`: the
nesting for which the stack has room, beyond which they raise `RecursionError`, and the
digits of an int that the interpreter converts, beyond which they raise `ValueError`.

The encoder writes printable ASCII only (`dumps_printable`): everything else in a string
is escaped by UTF-16 code units.  So a high surrogate followed by a low one comes back as
one character (`joinSurrogates`), and only then is a string not read back as it was.

The decoder is given what the encoder wrote, or a part of it; other encodings that
`json.loads` detects do not occur and are refused here.  It keeps the text of a float,
where Python would print another one for a text it has not printed itself (`1e5`).
-/
import Baton.Common.Codec

namespace Baton.Sdk

open List (all_append all_cons all_eq_true all_nil)

set_option autoImplicit false

/-- The code points of a `str`. -/
abbrev Str := List Nat

/-! ## Numbers -/

def isDigitByte (b : UInt8) : Bool := 0x30 ≤ b && b ≤ 0x39

/-- The bytes of number texts. -/
def isNumberByte (b : UInt8) : Bool :=
  isDigitByte b || b == 0x2d || b == 0x2b || b == 0x2e || b == 0x65 || b == 0x45

/-- `0|[1-9]\d*`. -/
def isNatText (text : Bytes) : Bool :=
  !text.isEmpty && text.all isDigitByte && (text.length == 1 || text.headD 0 != 0x30)

/-- `-?(0|[1-9]\d*)`. -/
def isIntText : Bytes → Bool
  | [] => false
  | b :: text => if b = 0x2d then isNatText text else isNatText (b :: text)

/-- `[eE][-+]?\d+`. -/
def isExponent : Bytes → Bool
  | [] => false
  | b :: text =>
    let digits := if text.headD 0 = 0x2d ∨ text.headD 0 = 0x2b then text.drop 1 else text
    (b == 0x65 || b == 0x45) && !digits.isEmpty && digits.all isDigitByte

/-- What follows the integer part of a float: a fraction, an exponent, or both. -/
def isFloatRest : Bytes → Bool
  | [] => false
  | b :: text =>
    if b = 0x2e then
      let digits := text.takeWhile isDigitByte
      let rest := text.drop digits.length
      !digits.isEmpty && (rest.isEmpty || isExponent rest)
    else isExponent (b :: text)

def isFloatText (text : Bytes) : Bool :=
  let sign := if text.headD 0 = 0x2d then 1 else 0
  let digits := (text.drop sign).takeWhile isDigitByte
  text.all isNumberByte && isNatText digits && isFloatRest (text.drop (sign + digits.length))

/-- The text of a finite float. -/
abbrev FloatText := { text : Bytes // isFloatText text = true }

inductive Json where
  | null
  | bool (value : Bool)
  | int (value : Int)
  | float (text : FloatText)
  | nan
  | infinity (negative : Bool)
  | string (value : Str)
  | array (items : List Json)
  | object (members : List (Str × Json))
  /-- a value of another type that is written like this one: a tuple like the list of its
  items, a dict with names of other types like the dict of their texts, an enum member like
  its number; it is read back as this one -/
  | foreign (shown : Json)

inductive JsonError where
  | valueError
  | recursionError
  deriving DecidableEq, Repr

/-- What an interpreter allows at a call of `json.dumps` or `json.loads`. -/
structure Limits where
  /-- brackets and braces inside one another -/
  depth : Nat
  /-- of an int: `sys.get_int_max_str_digits()`, where that is not 0 for any number -/
  digits : Nat

/-- Everything that the first allows, the second does. -/
protected structure Limits.Le (limits limits' : Limits) : Prop where
  depth : limits.depth ≤ limits'.depth
  digits : limits.digits ≤ limits'.digits

/-! ## Encoding -/

def digitByte (d : Nat) : UInt8 := UInt8.ofNat (0x30 + d % 10)

/-- The decimal digits of a number that needs no more than `fuel` of them after the first. -/
def natTextLoop : Nat → Nat → Bytes
  | 0, n => [digitByte n]
  | fuel + 1, n => if n < 10 then [digitByte n] else natTextLoop fuel (n / 10) ++ [digitByte n]

def natText (n : Nat) : Bytes := natTextLoop n n

def intText (n : Int) : Bytes := if n < 0 then 0x2d :: natText n.natAbs else natText n.natAbs

def hexByte (d : Nat) : UInt8 :=
  if d % 16 < 10 then UInt8.ofNat (0x30 + d % 16) else UInt8.ofNat (0x61 + (d % 16 - 10))

/-- `'\\u{0:04x}'`. -/
def escapeUnit (u : Nat) : Bytes :=
  [0x5c, 0x75, hexByte (u / 4096), hexByte (u / 256), hexByte (u / 16), hexByte u]

/-- `ESCAPE_DCT`, and everything outside `[ -~]`. -/
def encodeUnit (u : Nat) : Bytes :=
  if u = 0x22 then [0x5c, 0x22]
  else if u = 0x5c then [0x5c, 0x5c]
  else if u = 0x0a then [0x5c, 0x6e]
  else if u = 0x0d then [0x5c, 0x72]
  else if u = 0x09 then [0x5c, 0x74]
  else if u = 0x0c then [0x5c, 0x66]
  else if u = 0x08 then [0x5c, 0x62]
  else if 0x20 ≤ u ∧ u ≤ 0x7e then [UInt8.ofNat u]
  else escapeUnit u

/-- The UTF-16 code units of a code point. -/
def unitsOf (c : Nat) : List Nat :=
  if c < 0x10000 then [c]
  else [0xd800 + (c - 0x10000) / 0x400 % 0x400, 0xdc00 + (c - 0x10000) % 0x400]

def encodeString (s : Str) : Bytes :=
  0x22 :: ((s.flatMap unitsOf).flatMap encodeUnit ++ [0x22])

mutual

def dumps : Json → Bytes
  | .null => [0x6e, 0x75, 0x6c, 0x6c]
  | .bool true => [0x74, 0x72, 0x75, 0x65]
  | .bool false => [0x66, 0x61, 0x6c, 0x73, 0x65]
  | .int n => intText n
  | .float text => text.1
  | .nan => [0x4e, 0x61, 0x4e]
  | .infinity negative =>
    (if negative then [0x2d] else []) ++ [0x49, 0x6e, 0x66, 0x69, 0x6e, 0x69, 0x74, 0x79]
  | .string s => encodeString s
  | .array [] => [0x5b, 0x5d]
  | .array (item :: items) => 0x5b :: (dumps item ++ dumpItems items)
  | .object [] => [0x7b, 0x7d]
  | .object ((name, value) :: members) =>
    0x7b :: (encodeString name ++ 0x3a :: (dumps value ++ dumpMembers members))
  | .foreign shown => dumps shown

def dumpItems : List Json → Bytes
  | [] => [0x5d]
  | item :: items => 0x2c :: (dumps item ++ dumpItems items)

def dumpMembers : List (Str × Json) → Bytes
  | [] => [0x7d]
  | (name, value) :: members =>
    0x2c :: (encodeString name ++ 0x3a :: (dumps value ++ dumpMembers members))

end

mutual

/-- What `json.dumps` needs for a value inside so many brackets, in the order it comes to it. -/
def needs : Json → Nat → List Limits
  | .int n, _ => [⟨0, (natText n.natAbs).length⟩]
  | .array items, nested => ⟨nested + 1, 0⟩ :: needsOfItems items (nested + 1)
  | .object members, nested => ⟨nested + 1, 0⟩ :: needsOfMembers members (nested + 1)
  | .foreign shown, nested => needs shown nested
  | _, _ => []

def needsOfItems : List Json → Nat → List Limits
  | [], _ => []
  | item :: items, nested => needs item nested ++ needsOfItems items nested

def needsOfMembers : List (Str × Json) → Nat → List Limits
  | [], _ => []
  | (_, value) :: members, nested => needs value nested ++ needsOfMembers members nested

end

def Limits.meets (limits need : Limits) : Bool := need.depth ≤ limits.depth && need.digits ≤ limits.digits

/-- What `json.dumps` raises. -/
def Limits.raised (limits : Limits) (value : Json) : Option JsonError :=
  ((needs value 0).find? fun need => !limits.meets need).map fun need =>
    if limits.depth < need.depth then .recursionError else .valueError

/-- The interpreter writes the value. -/
def Limits.Allow (limits : Limits) (value : Json) : Prop := (needs value 0).all limits.meets = true

instance (limits : Limits) (value : Json) : Decidable (limits.Allow value) :=
  inferInstanceAs (Decidable (_ = _))

/-! ## Decoding -/

def isWhitespace (b : UInt8) : Bool := b == 0x20 || b == 0x09 || b == 0x0a || b == 0x0d

def skipWhitespace (bytes : Bytes) : Bytes := bytes.dropWhile isWhitespace

def hexValue (b : UInt8) : Option Nat :=
  if 0x30 ≤ b ∧ b ≤ 0x39 then some (b.toNat - 0x30)
  else if 0x61 ≤ b ∧ b ≤ 0x66 then some (b.toNat - 0x61 + 10)
  else if 0x41 ≤ b ∧ b ≤ 0x46 then some (b.toNat - 0x41 + 10)
  else none

/-- `_decode_uXXXX`. -/
def readHex : Bytes → Option (Nat × Bytes)
  | a :: b :: c :: d :: rest => do
    let a ← hexValue a
    let b ← hexValue b
    let c ← hexValue c
    let d ← hexValue d
    some (((a * 16 + b) * 16 + c) * 16 + d, rest)
  | _ => none

/-- `BACKSLASH`. -/
def simpleEscape (b : UInt8) : Option Nat :=
  if b = 0x22 then some 0x22
  else if b = 0x5c then some 0x5c
  else if b = 0x2f then some 0x2f
  else if b = 0x62 then some 0x08
  else if b = 0x66 then some 0x0c
  else if b = 0x6e then some 0x0a
  else if b = 0x72 then some 0x0d
  else if b = 0x74 then some 0x09
  else none

def readEscape : Bytes → Option (Nat × Bytes)
  | [] => none
  | b :: rest => if b = 0x75 then readHex rest else (simpleEscape b).map fun u => (u, rest)

/-- The code units of a string behind its opening quote. -/
def readUnits : Nat → Bytes → Option (List Nat × Bytes)
  | 0, _ => none
  | _ + 1, [] => none
  | fuel + 1, b :: rest =>
    if b = 0x22 then some ([], rest)
    else if b = 0x5c then
      (readEscape rest).bind fun read =>
        (readUnits fuel read.2).map fun more => (read.1 :: more.1, more.2)
    else if b < 0x20 ∨ 0x80 ≤ b then none
    else (readUnits fuel rest).map fun more => (b.toNat :: more.1, more.2)

def isHigh (u : Nat) : Bool := decide (0xd800 ≤ u ∧ u ≤ 0xdbff)
def isLow (u : Nat) : Bool := decide (0xdc00 ≤ u ∧ u ≤ 0xdfff)

/-- A high surrogate and the low one behind it are one code point. -/
def joinSurrogates : List Nat → Str
  | [] => []
  | [u] => [u]
  | u :: v :: units =>
    if isHigh u && isLow v then
      (0x10000 + (u - 0xd800) * 0x400 + (v - 0xdc00)) :: joinSurrogates units
    else u :: joinSurrogates (v :: units)

def readString (bytes : Bytes) : Option (Str × Bytes) :=
  (readUnits (bytes.length + 1) bytes).map fun read => (joinSurrogates read.1, read.2)

def readNat (digits : Bytes) : Nat := digits.foldl (fun n b => n * 10 + (b.toNat - 0x30)) 0

/-- A number goes as far as its bytes do: behind one, Python takes none of them either. -/
def readNumber (digits : Nat) (bytes : Bytes) : Option (Json × Bytes) :=
  let text := bytes.takeWhile isNumberByte
  let rest := bytes.drop text.length
  if isIntText text then
    match text with
    | [] => none
    | b :: figures =>
      if b = 0x2d then
        if figures.length ≤ digits then some (.int (-(readNat figures : Int)), rest) else none
      else if (b :: figures).length ≤ digits then some (.int (readNat (b :: figures)), rest)
      else none
  else if valid : isFloatText text = true then some (.float ⟨text, valid⟩, rest)
  else none

/-- The constants. -/
def constants : List (Bytes × Json) :=
  [([0x6e, 0x75, 0x6c, 0x6c], .null), ([0x74, 0x72, 0x75, 0x65], .bool true),
    ([0x66, 0x61, 0x6c, 0x73, 0x65], .bool false), ([0x4e, 0x61, 0x4e], .nan),
    ([0x49, 0x6e, 0x66, 0x69, 0x6e, 0x69, 0x74, 0x79], .infinity false),
    ([0x2d, 0x49, 0x6e, 0x66, 0x69, 0x6e, 0x69, 0x74, 0x79], .infinity true)]

def readConstant (bytes : Bytes) : Option (Json × Bytes) :=
  (constants.find? fun constant => constant.1.isPrefixOf bytes).map fun constant =>
    (constant.2, bytes.drop constant.1.length)

/-- `dict(pairs)`: a name that comes again takes the place of the first. -/
def dictOf (pairs : List (Str × Json)) : List (Str × Json) :=
  pairs.foldl (fun dict pair =>
    if dict.any (fun known => known.1 == pair.1) then
      dict.map fun known => if known.1 == pair.1 then (known.1, pair.2) else known
    else dict ++ [pair]) []

def orValueError {α : Type} : Option α → Except JsonError α
  | some a => .ok a
  | none => .error .valueError

mutual

/-- The scanner, with so much room for brackets.  It takes at most two units of fuel for
each byte. -/
def readValue (digits : Nat) : Nat → Nat → Bytes → Except JsonError (Json × Bytes)
  | 0, _, _ => .error .valueError
  | _ + 1, _, [] => .error .valueError
  | fuel + 1, room, b :: rest =>
    if b = 0x22 then orValueError ((readString rest).map fun read => (.string read.1, read.2))
    else if b = 0x7b then
      let rest := skipWhitespace rest
      if room = 0 then .error .recursionError
      else if rest.headD 0 = 0x7d then .ok (.object [], rest.drop 1)
      else (readMembers digits fuel (room - 1) rest).map fun read => (.object (dictOf read.1), read.2)
    else if b = 0x5b then
      let rest := skipWhitespace rest
      if room = 0 then .error .recursionError
      else if rest.headD 0 = 0x5d then .ok (.array [], rest.drop 1)
      else (readItems digits fuel (room - 1) rest).map fun read => (.array read.1, read.2)
    else orValueError ((readConstant (b :: rest)).or (readNumber digits (b :: rest)))

/-- An item, and what follows it. -/
def readItems (digits : Nat) : Nat → Nat → Bytes → Except JsonError (List Json × Bytes)
  | 0, _, _ => .error .valueError
  | fuel + 1, room, bytes =>
    (readValue digits fuel room bytes).bind fun read =>
      let rest := skipWhitespace read.2
      if rest.headD 0 = 0x5d then .ok ([read.1], rest.drop 1)
      else if rest.headD 0 = 0x2c then
        (readItems digits fuel room (skipWhitespace (rest.drop 1))).map fun more =>
          (read.1 :: more.1, more.2)
      else .error .valueError

/-- A name with its value, and what follows them. -/
def readMembers (digits : Nat) : Nat → Nat → Bytes → Except JsonError (List (Str × Json) × Bytes)
  | 0, _, _ => .error .valueError
  | fuel + 1, room, bytes =>
    if bytes.headD 0 ≠ 0x22 then .error .valueError
    else
      (orValueError (readString (bytes.drop 1))).bind fun name =>
        let rest := skipWhitespace name.2
        if rest.headD 0 ≠ 0x3a then .error .valueError
        else
          (readValue digits fuel room (skipWhitespace (rest.drop 1))).bind fun read =>
            let rest := skipWhitespace read.2
            if rest.headD 0 = 0x7d then .ok ([(name.1, read.1)], rest.drop 1)
            else if rest.headD 0 = 0x2c then
              (readMembers digits fuel room (skipWhitespace (rest.drop 1))).map fun more =>
                ((name.1, read.1) :: more.1, more.2)
            else .error .valueError

end

/-- `json.loads`. -/
def loads (limits : Limits) (bytes : Bytes) : Except JsonError Json :=
  (readValue limits.digits (2 * bytes.length + 2) limits.depth (skipWhitespace bytes)).bind fun read =>
    if (skipWhitespace read.2).isEmpty then .ok read.1 else .error .valueError

/-! ## What is written is printable -/

/-- `[ -~]`. -/
def isPrintable (b : UInt8) : Bool := 0x20 ≤ b && b ≤ 0x7e

theorem printable_of_number {b : UInt8} (number : isNumberByte b = true) : isPrintable b = true := by
  simp only [isNumberByte, isDigitByte, Bool.or_eq_true, Bool.and_eq_true, decide_eq_true_eq,
    beq_iff_eq] at number
  rcases number with ((((⟨low, high⟩ | rfl) | rfl) | rfl) | rfl) | rfl
  · simp only [isPrintable, Bool.and_eq_true, decide_eq_true_eq]
    exact ⟨UInt8.le_trans (by decide) low, UInt8.le_trans high (by decide)⟩
  all_goals rfl

theorem digitByte_printable (d : Nat) : isPrintable (digitByte d) = true := by
  have small : d % 10 < 10 := Nat.mod_lt _ (by decide)
  unfold digitByte
  generalize d % 10 = k at small
  revert k
  decide +kernel

theorem hexByte_printable (d : Nat) : isPrintable (hexByte d) = true := by
  have small : d % 16 < 16 := Nat.mod_lt _ (by decide)
  unfold hexByte
  generalize d % 16 = k at small
  revert k
  decide +kernel

theorem natTextLoop_printable : ∀ (fuel n : Nat), (natTextLoop fuel n).all isPrintable = true
  | 0, n => by simp [natTextLoop, digitByte_printable]
  | fuel + 1, n => by
    rw [natTextLoop]
    split
    · simp [digitByte_printable]
    · simp [natTextLoop_printable fuel, digitByte_printable]

theorem intText_printable (n : Int) : (intText n).all isPrintable = true := by
  unfold intText
  split
  · rw [all_cons, natText, natTextLoop_printable]
    rfl
  · exact natTextLoop_printable _ _

theorem encodeUnit_printable (u : Nat) : (encodeUnit u).all isPrintable = true := by
  have escaped : (escapeUnit u).all isPrintable = true := by
    simp only [escapeUnit, all_cons, hexByte_printable, all_nil, Bool.and_true]
    decide
  unfold encodeUnit
  repeat' split
  all_goals first
    | rfl
    | exact escaped
    | skip
  rename_i range
  obtain ⟨low, high⟩ := range
  have small : u < 256 := by omega
  simp only [all_cons, all_nil, Bool.and_true, isPrintable, Bool.and_eq_true, decide_eq_true_eq]
  constructor
  · apply UInt8.le_iff_toNat_le.2
    rw [UInt8.toNat_ofNat_of_lt' small]
    exact low
  · apply UInt8.le_iff_toNat_le.2
    rw [UInt8.toNat_ofNat_of_lt' small]
    exact high

theorem encodeString_printable (s : Str) : (encodeString s).all isPrintable = true := by
  have units : ∀ units : List Nat, (units.flatMap encodeUnit).all isPrintable = true := by
    intro units
    rw [List.all_flatMap]
    exact all_eq_true.2 fun u _ => encodeUnit_printable u
  rw [encodeString, all_cons, all_append, units]
  rfl

mutual

theorem dumps_printable : ∀ value : Json, (dumps value).all isPrintable = true
  | .null => rfl
  | .bool true => rfl
  | .bool false => rfl
  | .int n => intText_printable n
  | .float text => by
    rw [dumps]
    have valid := text.2
    simp only [isFloatText, Bool.and_eq_true] at valid
    refine all_eq_true.2 fun b mem => ?_
    exact printable_of_number (all_eq_true.1 valid.1.1 b mem)
  | .nan => rfl
  | .infinity true => rfl
  | .infinity false => rfl
  | .string s => encodeString_printable s
  | .array [] => rfl
  | .array (item :: items) => by
    rw [dumps, all_cons, all_append, dumps_printable item, dumpItems_printable items]
    rfl
  | .object [] => rfl
  | .object ((name, value) :: members) => by
    rw [dumps, all_cons, all_append, all_cons, all_append, encodeString_printable,
      dumps_printable value, dumpMembers_printable members]
    rfl
  | .foreign shown => by
    rw [dumps]
    exact dumps_printable shown

theorem dumpItems_printable : ∀ items : List Json, (dumpItems items).all isPrintable = true
  | [] => rfl
  | item :: items => by
    rw [dumpItems, all_cons, all_append, dumps_printable item, dumpItems_printable items]
    rfl

theorem dumpMembers_printable : ∀ members : List (Str × Json), (dumpMembers members).all isPrintable = true
  | [] => rfl
  | (name, value) :: members => by
    rw [dumpMembers, all_cons, all_append, all_cons, all_append,
      encodeString_printable, dumps_printable value, dumpMembers_printable members]
    rfl

end

/-! ## What is read as a dict -/

theorem readConstant_not_object {bytes rest : Bytes} {members : List (Str × Json)} :
    readConstant bytes ≠ some (.object members, rest) := by
  intro read
  obtain ⟨constant, found, same⟩ := Option.map_eq_some_iff.1 read
  have listed := List.mem_of_find?_eq_some found
  have value : constant.2 = .object members := congrArg Prod.fst same
  simp only [constants, List.mem_cons, List.not_mem_nil, or_false] at listed
  rcases listed with rfl | rfl | rfl | rfl | rfl | rfl <;> cases value

theorem readNumber_not_object {digits : Nat} {bytes rest : Bytes} {members : List (Str × Json)} :
    readNumber digits bytes ≠ some (.object members, rest) := by
  intro read
  unfold readNumber at read
  dsimp only at read
  split at read
  · split at read
    · cases read
    · split at read <;> split at read <;> cases read
  · split at read <;> cases read

/-- What begins with neither a brace nor a bracket is no dict, and is read in one call. -/
theorem loads_flat {limits : Limits} {b : UInt8} {bytes : Bytes} (black : isWhitespace b = false)
    (brace : b ≠ 0x7b) (bracket : b ≠ 0x5b) :
    loads limits (b :: bytes) ≠ .error .recursionError ∧
      ∀ members, loads limits (b :: bytes) ≠ .ok (.object members) := by
  have start : skipWhitespace (b :: bytes) = b :: bytes := by
    simp [skipWhitespace, black]
  obtain ⟨read, value, plain⟩ : ∃ read,
      readValue limits.digits (2 * (b :: bytes).length + 2) limits.depth (b :: bytes) = orValueError read ∧
        ∀ members rest, read ≠ some (.object members, rest) := by
    rw [readValue]
    by_cases quote : b = 0x22
    · rw [if_pos quote]
      refine ⟨_, rfl, fun members rest same => ?_⟩
      obtain ⟨_, -, same⟩ := Option.map_eq_some_iff.1 same
      cases same
    · rw [if_neg quote, if_neg brace, if_neg bracket]
      refine ⟨_, rfl, fun members rest same => ?_⟩
      rcases Option.or_eq_some_iff.1 same with constant | ⟨-, number⟩
      · exact readConstant_not_object constant
      · exact readNumber_not_object number
  unfold loads
  rw [start, value]
  rcases read with _ | ⟨v, rest⟩
  · exact ⟨by rintro ⟨⟩, by rintro members ⟨⟩⟩
  · dsimp only [orValueError, Except.bind]
    split
    · refine ⟨by rintro ⟨⟩, fun members same => ?_⟩
      cases same
      exact plain members rest rfl
    · exact ⟨by rintro ⟨⟩, by rintro members ⟨⟩⟩

end Baton.Sdk
