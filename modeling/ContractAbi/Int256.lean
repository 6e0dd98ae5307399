import ContractAbi.Word
import ContractAbi.Text.Blank
import ContractAbi.Text.Numeral
import ContractAbi.Text.Quoted

/-!
# Signed 256-bit integers

An `Int256` is an integer in `[-2^255, 2^255)`.  Words carry such integers in two's complement;
`toWord_ofWord` and `ofWord_toWord` say that the words are exactly the integers.
-/

namespace ContractAbi

/-- An integer that fits a word in two's complement. -/
@[ext]
structure Int256 where
  toInt : Int
  min_le : -(1 <<< 255) ≤ toInt
  lt_limit : toInt < 1 <<< 255
deriving DecidableEq, Repr

namespace Int256

/-- The given integer, if it is in range. -/
def ofInt? (i : Int) : Option Int256 :=
  if h : -(1 <<< 255) ≤ i ∧ i < 1 <<< 255 then some ⟨i, h.1, h.2⟩ else none

theorem ofInt?_eq_some_iff (i : Int) (v : Int256) : ofInt? i = some v ↔ v.toInt = i := by
  constructor
  · intro h
    simp only [ofInt?] at h
    split at h
    · cases h
      rfl
    · contradiction
  · rintro rfl
    exact dif_pos ⟨v.min_le, v.lt_limit⟩

/-- The integer with the given magnitude and sign, if it is in range. -/
def ofSignMagnitude? (negative : Bool) (magnitude : Nat) : Option Int256 :=
  ofInt? (if negative then -(magnitude : Int) else magnitude)

/-- Zero. -/
def zero : Int256 := ⟨0, by decide, by decide⟩

/-- The absolute value. -/
def magnitude (v : Int256) : Nat := v.toInt.natAbs

/-- Whether the integer is below zero. -/
def isNegative (v : Int256) : Bool := v.toInt < 0

/-- Whether the integer is zero. -/
def isZero (v : Int256) : Bool := v.toInt == 0

/-- Whether the integer is a signed number of `bits` bits; the only number of no bits is zero, and
every `Int256` is a number of 256 bits or more. -/
def fits (v : Int256) (bits : Nat) : Bool :=
  if 256 ≤ bits then true
  else if bits = 0 then v.isZero
  else -((1 : Int) <<< (bits - 1)) ≤ v.toInt ∧ v.toInt < (1 : Int) <<< (bits - 1)

/-- The two's complement word. -/
def toWord (v : Int256) : Word :=
  BitVec.ofInt 256 v.toInt

/-- The integer whose two's complement word is given. -/
def ofWord (w : Word) : Int256 where
  toInt := w.toInt
  min_le := by simpa using BitVec.le_toInt w
  lt_limit := by simpa using BitVec.toInt_lt (x := w)

/-- The number of whole bytes in `bits` bits, at least one and at most a whole word. -/
def byteWidth (bits : Nat) : Nat :=
  min (max (bits / 8) 1) wordSize

/-- A two's complement integer of at most one word is in range. -/
theorem toInt_setWidth_bounds (w : Word) (bits : Nat) :
    -(1 <<< 255) ≤ (w.setWidth (8 * byteWidth bits)).toInt ∧
      (w.setWidth (8 * byteWidth bits)).toInt < 1 <<< 255 := by
  have hlow := BitVec.le_toInt (w.setWidth (8 * byteWidth bits))
  have hhigh := BitVec.toInt_lt (x := w.setWidth (8 * byteWidth bits))
  have hpow : (2 : Int) ^ (8 * byteWidth bits - 1) ≤ 2 ^ 255 := by
    have hn : 2 ^ (8 * byteWidth bits - 1) ≤ 2 ^ 255 :=
      Nat.pow_le_pow_right (by decide) (by simp only [byteWidth, wordSize]; omega)
    exact_mod_cast hn
  omega

/-- The two's complement integer in the low `bits` bits of a word, `bits` being cut to whole bytes. -/
def ofLowBits (w : Word) (bits : Nat) : Int256 where
  toInt := (w.setWidth (8 * byteWidth bits)).toInt
  min_le := (toInt_setWidth_bounds w bits).1
  lt_limit := (toInt_setWidth_bounds w bits).2

/-- A signed number of 128 bits. -/
def ofInt128 (x : BitVec 128) : Int256 where
  toInt := x.toInt
  min_le := by
    have := BitVec.le_toInt x
    omega
  lt_limit := by
    have := BitVec.toInt_lt (x := x)
    omega

/-- The integer, if it is a signed number of 128 bits. -/
def toInt128? (v : Int256) : Option Int :=
  if -(1 <<< 127) ≤ v.toInt ∧ v.toInt < 1 <<< 127 then some v.toInt else none

/-- The integer in decimal. -/
def text (v : Int256) : String :=
  String.ofList ((if v.isNegative then ['-'] else []) ++ Text.numeral v.magnitude)

/-- Why a text is not an `Int256`; the text is shown without the blanks around it. -/
inductive ParseError where
  | notAnInteger (text : String)
  | outOfRange (text : String)
deriving DecidableEq, Repr

namespace ParseError

/-- The text of the error. -/
def message : ParseError → String
  | notAnInteger text => "invalid integer: " ++ Text.quoted text
  | outOfRange text => "integer out of range: " ++ text

end ParseError

/-- The integer that a text denotes: blanks, an optional sign, digits, blanks. -/
def parse (s : String) : Except ParseError Int256 :=
  let cs := Text.trim s.toList
  let (negative, digits) := Text.splitSign cs
  if digits.isEmpty || !Text.allDigits digits then .error (.notAnInteger (String.ofList cs))
  else
    match ofSignMagnitude? negative (Text.numeralValue digits) with
    | some v => .ok v
    | none => .error (.outOfRange (String.ofList cs))

@[simp] theorem ofWord_toWord (v : Int256) : ofWord (toWord v) = v := by
  apply Int256.ext
  simp only [ofWord, toWord, BitVec.toInt_ofInt]
  have := v.min_le
  have := v.lt_limit
  apply Int.bmod_eq_of_le <;> omega

@[simp] theorem toWord_ofWord (w : Word) : toWord (ofWord w) = w := by
  simp [ofWord, toWord]

end Int256
end ContractAbi
