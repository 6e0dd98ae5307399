import ContractAbi.Bytes
import ContractAbi.Text.Quoted

/-!
# Bytes as hexadecimal text

Bytes are written with two lower-case digits each; digits are read in either case.  Reading first
looks at the number of digits and then at the digits from left to right.
-/

namespace ContractAbi.Text

/-- Why a text is not a sequence of digit pairs. -/
inductive HexError where
  /-- The number of digits is odd. -/
  | oddLength
  /-- The byte of the text at a position is not a digit. -/
  | notADigit (byte : UInt8) (position : Nat)
deriving DecidableEq, Repr

namespace HexError

/-- The text of the error.  The offending byte is shown as the character with its code. -/
def message : HexError → String
  | oddLength => "Odd number of digits"
  | notADigit byte position =>
      "Invalid character " ++ quotedChar (Char.ofNat byte.toNat) ++
        " at position " ++ toString position

end HexError

namespace Hex

/-- The two digits of a byte, high half first. -/
def digitPair (b : UInt8) : List Char :=
  [Nat.digitChar (b.toNat / 16), Nat.digitChar (b.toNat % 16)]

/-- Bytes as digits. -/
def encode (bytes : Bytes) : String :=
  String.ofList (bytes.flatMap digitPair)

/-- Bytes as digits behind the marker `0x`. -/
def encodeMarked (bytes : Bytes) : String :=
  "0x" ++ encode bytes

/-- The value of a digit, given as the byte of its character. -/
def digitValue? (b : UInt8) : Option Nat :=
  let code := b.toNat
  if 0x30 ≤ code ∧ code ≤ 0x39 then some (code - 0x30)
  else if 0x61 ≤ code ∧ code ≤ 0x66 then some (code - 0x57)
  else if 0x41 ≤ code ∧ code ≤ 0x46 then some (code - 0x37)
  else none

/-- The value of the digit at a position. -/
def digit (b : UInt8) (position : Nat) : Except HexError Nat :=
  match digitValue? b with
  | some value => .ok value
  | none => .error (.notADigit b position)

/-- Read digit pairs, counting positions from the given one. -/
def decodePairs (position : Nat) : Bytes → Except HexError Bytes
  | [] => .ok []
  | [_] => .error .oddLength
  | high :: low :: rest => do
      let h ← digit high position
      let l ← digit low (position + 1)
      let bytes ← decodePairs (position + 2) rest
      return UInt8.ofNat (16 * h + l) :: bytes

/-- The bytes that a text of digits stands for. -/
def decode (text : Bytes) : Except HexError Bytes :=
  if text.length % 2 = 1 then .error .oddLength else decodePairs 0 text

end Hex
end ContractAbi.Text
