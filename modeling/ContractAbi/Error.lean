import ContractAbi.AbiType.Valid
import ContractAbi.Value.Dump

/-!
# What can go wrong

An `AbiError` is the cause of a failure; `message` is the only place that words it.  Descriptors are
named by their canonical text, so errors do not depend on field names.

`unaddressable` is unlike the others: it stands for a computation that leaves the numbers a machine
can address and cannot go on.  No answer is formed in that case.
-/

namespace ContractAbi

/-- Why a value does not go with a descriptor. -/
inductive Mismatch where
  /-- Another value was expected. -/
  | value (expected : String) (got : Value)
  /-- An array has an element of another type. -/
  | element (index : Nat) (actual expected : String)
  | address (cause : AddressError)
  | integer (cause : Int256.ParseError)
  | decimal (cause : Decimal.ParseError)
  | scale (cause : Decimal.ScaleError)
  /-- The wire integer of a decimal is too wide. -/
  | tooWide (value : Decimal) (expected : String)
  /-- A word is not the word of a value. -/
  | dirtyWord (expected : String) (word : Word)
  | notUtf8 (cause : Text.Utf8Error)
  /-- Call data belongs to another function. -/
  | selector (got : Bytes) (signature : String) (expected : Bytes)
  /-- A log belongs to another event. -/
  | topic (got : Word) (signature : String) (expected : Word)
deriving DecidableEq

namespace Mismatch

/-- The text of the mismatch. -/
def message : Mismatch → String
  | value expected got => "expected " ++ expected ++ ", got " ++ got.dump
  | element index actual expected =>
      "array element " ++ Text.ofNat index ++ " is " ++ actual ++ ", expected " ++ expected
  | address cause => "address error: " ++ cause.message
  | integer cause => cause.message
  | decimal cause => cause.message
  | scale cause => cause.message
  | tooWide v expected => v.text ++ " does not fit " ++ expected
  | dirtyWord expected word =>
      "invalid " ++ expected ++ " word " ++ Text.Hex.encodeMarked word.toBytes
  | notUtf8 cause => "invalid UTF-8: " ++ cause.message
  | selector got signature expected =>
      "selector " ++ Text.Hex.encodeMarked got ++ " does not match " ++ signature ++ " (" ++
        Text.Hex.encodeMarked expected ++ ")"
  | topic got signature expected =>
      "topic " ++ Text.Hex.encodeMarked got.toBytes ++ " does not match " ++ signature ++ " (" ++
        Text.Hex.encodeMarked expected.toBytes ++ ")"

end Mismatch

/-- Why an offset cannot be followed; the position is that of the offset word. -/
inductive OffsetFault where
  /-- The offset is not a whole number of words. -/
  | misaligned (offset : Word) (position : Nat)
  /-- The offset passes `maxSize`. -/
  | tooLarge (offset : Word) (position : Nat)
deriving DecidableEq

namespace OffsetFault

/-- The text of the fault. -/
def message : OffsetFault → String
  | misaligned offset position =>
      "offset " ++ Text.ofNat offset.toNat ++ " at byte " ++ Text.ofNat position ++
        " is not a multiple of " ++ Text.ofNat wordSize
  | tooLarge offset position =>
      "offset " ++ Text.ofNat offset.toNat ++ " at byte " ++ Text.ofNat position ++
        " does not fit in memory"

end OffsetFault

/-- The cause of a failure. -/
inductive AbiError where
  /-- A descriptor does not exist or passes a limit. -/
  | unsupportedType (cause : TypeError)
  /-- A value, word or text does not go with its descriptor. -/
  | typeMismatch (cause : Mismatch)
  /-- The element type of an array without elements is not known. -/
  | emptyTypedArray
  /-- A static array is longer than allowed. -/
  | sizeOverflow (length limit : Nat)
  /-- A static array has another number of elements. -/
  | arityMismatch (expected got : Nat)
  /-- The input ends too early. -/
  | truncatedInput (needed available : Nat)
  | malformedOffset (cause : OffsetFault)
  /-- There are not as many values as descriptors. -/
  | typeArityMismatch (expected got : Nat)
  /-- No function has the name. -/
  | unknownFunction (name : String)
  /-- A size or position leaves the range of sizes. -/
  | unaddressable
deriving DecidableEq

namespace AbiError

/-- The text of the error. -/
def message : AbiError → String
  | unsupportedType cause => "unsupported type: " ++ cause.message
  | typeMismatch cause => "type mismatch: " ++ cause.message
  | emptyTypedArray =>
      "cannot infer element type of an empty array; use an explicitly typed constructor"
  | sizeOverflow length limit =>
      "static array length " ++ Text.ofNat length ++ " exceeds maximum " ++ Text.ofNat limit
  | arityMismatch expected got =>
      "static array expects " ++ Text.ofNat expected ++ " elements, got " ++ Text.ofNat got
  | truncatedInput needed available =>
      "truncated input: need " ++ Text.ofNat needed ++ " bytes, have " ++ Text.ofNat available
  | malformedOffset cause => "malformed offset: " ++ cause.message
  | typeArityMismatch expected got =>
      "expected " ++ Text.ofNat expected ++ " values, got " ++ Text.ofNat got
  | unknownFunction name => "unknown function " ++ name
  | unaddressable => "size out of range"

/-- The error of a decimal that cannot be scaled: a fraction that no number can have is a matter of
the descriptor, everything else one of the value. -/
def ofScale : Decimal.ScaleError → AbiError
  | .fractionTooWide fraction => .unsupportedType (.fractionTooWide fraction)
  | cause => .typeMismatch (.scale cause)

end AbiError
end ContractAbi
