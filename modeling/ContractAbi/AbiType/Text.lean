import ContractAbi.AbiType
import ContractAbi.Text.Numeral

/-!
# The canonical text of a descriptor

The text names every leaf with its widths, puts the suffixes of arrays behind their element from the
inside out, and lists the fields of a tuple between parentheses without their names.
-/

namespace ContractAbi
namespace AbiType

mutual

/-- The characters of the canonical text. -/
def chars : AbiType → List Char
  | .address => "address".toList
  | .uint n => "uint".toList ++ Text.numeral n
  | .int n => "int".toList ++ Text.numeral n
  | .bool => "bool".toList
  | .bytes => "bytes".toList
  | .fixedBytes n => "bytes".toList ++ Text.numeral n
  | .string => "string".toList
  | .fixed m n => "fixed".toList ++ Text.numeral m ++ 'x' :: Text.numeral n
  | .array e => chars e ++ ['[', ']']
  | .fixedArray e n => chars e ++ '[' :: (Text.numeral n ++ [']'])
  | .tuple fs => '(' :: (fieldChars fs ++ [')'])

/-- The texts of the fields, separated by commas. -/
def fieldChars : List Param → List Char
  | [] => []
  | ⟨_, t⟩ :: fs => chars t ++ moreFieldChars fs

/-- The texts of the fields, each behind a comma. -/
def moreFieldChars : List Param → List Char
  | [] => []
  | ⟨_, t⟩ :: fs => ',' :: (chars t ++ moreFieldChars fs)

end

@[simp] theorem chars_address : chars .address = "address".toList := rfl

@[simp] theorem chars_uint (n : Nat) : chars (.uint n) = "uint".toList ++ Text.numeral n := rfl

@[simp] theorem chars_int (n : Nat) : chars (.int n) = "int".toList ++ Text.numeral n := rfl

@[simp] theorem chars_bool : chars .bool = "bool".toList := rfl

@[simp] theorem chars_bytes : chars .bytes = "bytes".toList := rfl

@[simp] theorem chars_fixedBytes (n : Nat) :
    chars (.fixedBytes n) = "bytes".toList ++ Text.numeral n := rfl

@[simp] theorem chars_string : chars .string = "string".toList := rfl

@[simp] theorem chars_fixed (m n : Nat) :
    chars (.fixed m n) = "fixed".toList ++ Text.numeral m ++ 'x' :: Text.numeral n := rfl

@[simp] theorem chars_array (e : AbiType) : chars (.array e) = chars e ++ ['[', ']'] := rfl

@[simp] theorem chars_fixedArray (e : AbiType) (n : Nat) :
    chars (.fixedArray e n) = chars e ++ '[' :: (Text.numeral n ++ [']']) := rfl

@[simp] theorem chars_tuple (fs : List Param) :
    chars (.tuple fs) = '(' :: (fieldChars fs ++ [')']) := rfl

@[simp] theorem fieldChars_nil : fieldChars [] = [] := rfl

@[simp] theorem fieldChars_cons (f : Param) (fs : List Param) :
    fieldChars (f :: fs) = chars f.kind ++ moreFieldChars fs := by
  cases f
  rfl

@[simp] theorem moreFieldChars_nil : moreFieldChars [] = [] := rfl

@[simp] theorem moreFieldChars_cons (f : Param) (fs : List Param) :
    moreFieldChars (f :: fs) = ',' :: (chars f.kind ++ moreFieldChars fs) := by
  cases f
  rfl

/-- The canonical text. -/
def text (t : AbiType) : String :=
  String.ofList (chars t)

end AbiType
end ContractAbi
