import ContractAbi.Config
import ContractAbi.Error

/-!
# Building arrays

An array takes the descriptor of its elements either from its first element or from the caller, and
every other element has to be compatible with it.  A static array is as long as the caller says, or,
if nothing is said, at most as long as a limit.  The index in a mismatch counts the elements that
were compared: all of them for a stated descriptor, those after the first for an inferred one.
-/

namespace ContractAbi
namespace Value

/-- Check that all items are compatible with a descriptor, counting from the given index. -/
def checkElements (element : AbiType) : Nat → List Value → Except AbiError Unit
  | _, [] => .ok ()
  | index, v :: vs =>
      if AbiType.compatible v.typeOf element then checkElements element (index + 1) vs
      else .error (.typeMismatch (.element index v.typeOf.text element.text))

/-- The descriptor of the first item, if all items are compatible with it. -/
def inferElement : List Value → Except AbiError AbiType
  | [] => .error .emptyTypedArray
  | v :: vs => do
      checkElements v.typeOf 0 vs
      return v.typeOf

/-- A dynamic array of the given items. -/
def arrayFrom (items : List Value) : Except AbiError Value := do
  let element ← inferElement items
  return .array element items

/-- A dynamic array of items of the given descriptor. -/
def arrayOf (element : AbiType) (items : List Value) : Except AbiError Value := do
  checkElements element 0 items
  return .array element items

/-- A dynamic array without elements. -/
def emptyArray (element : AbiType) : Value :=
  .array element []

/-- Check the length of a static array against the stated length, or else against a limit. -/
def checkLength (length : Nat) (stated : Option Nat) (limit : Nat) : Except AbiError Unit :=
  match stated with
  | some expected =>
      if expected = length then .ok () else .error (.arityMismatch expected length)
  | none => if limit < length then .error (.sizeOverflow length limit) else .ok ()

/-- A static array of the given items, bounded by a limit unless its length is stated. -/
def fixedArrayWithin (limit : Nat) (items : List Value) (stated : Option Nat) :
    Except AbiError Value := do
  checkLength items.length stated limit
  let element ← inferElement items
  return .fixedArray element items

/-- A static array of the given items under the standard limit. -/
def fixedArrayFrom (items : List Value) (stated : Option Nat) : Except AbiError Value :=
  fixedArrayWithin Config.standard.maxStaticLength items stated

/-- A static array of items of the given descriptor under the standard limit. -/
def fixedArrayOf (element : AbiType) (items : List Value) (stated : Option Nat) :
    Except AbiError Value := do
  checkLength items.length stated Config.standard.maxStaticLength
  if items.isEmpty then
    throw (.unsupportedType (.invalid (AbiType.fixedArray element 0).text))
  checkElements element 0 items
  return .fixedArray element items

end Value
end ContractAbi
