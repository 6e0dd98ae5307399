import ContractAbi.Value
import ContractAbi.Text.Quoted

/-!
# Values and descriptors, constructor by constructor

Messages show a value by its dump: the constructor with its arguments in parentheses, lists in
brackets, records with the names of their parts in braces.
-/

namespace ContractAbi

/-- Items between brackets, separated by a comma and a space. -/
def dumpList (items : List String) : String :=
  "[" ++ ", ".intercalate items ++ "]"

/-- A truth value. -/
def dumpBool (b : Bool) : String :=
  if b then "true" else "false"

/-- Bytes as decimal numbers. -/
def dumpBytes (bytes : Bytes) : String :=
  dumpList (bytes.map (fun b => Text.ofNat b.toNat))

/-- The dump of an address. -/
def Address.dump (a : Address) : String :=
  "Address(" ++ a.toHex ++ ")"

/-- The dump of a digest. -/
def Word.dump (w : Word) : String :=
  "H256(" ++ Text.Hex.encodeMarked (Word.toBytes w) ++ ")"

/-- The dump of a signed integer: magnitude and sign. -/
def Int256.dump (v : Int256) : String :=
  "I256 \x7b abs: " ++ Text.ofNat v.magnitude ++ ", negative: " ++ dumpBool v.isNegative ++ " \x7d"

/-- The dump of a decimal: mantissa and scale. -/
def Decimal.dump (v : Decimal) : String :=
  "FixedPoint \x7b mantissa: " ++ v.mantissa.dump ++ ", scale: " ++ Text.ofNat v.scale ++ " \x7d"

/-- The dump of a name that may be missing. -/
def dumpName : Option String → String
  | none => "None"
  | some name => "Some(" ++ Text.quoted name ++ ")"

namespace AbiType

mutual

/-- The dump of a descriptor. -/
def dump : AbiType → String
  | .address => "Address"
  | .uint n => "Uint(" ++ Text.ofNat n ++ ")"
  | .int n => "Int(" ++ Text.ofNat n ++ ")"
  | .bool => "Bool"
  | .bytes => "Bytes"
  | .fixedBytes n => "FixedBytes(" ++ Text.ofNat n ++ ")"
  | .string => "String"
  | .fixed m n => "Fixed(" ++ Text.ofNat m ++ ", " ++ Text.ofNat n ++ ")"
  | .array e => "Array(" ++ dump e ++ ")"
  | .fixedArray e n => "FixedArray(" ++ dump e ++ ", " ++ Text.ofNat n ++ ")"
  | .tuple fs => "Tuple(" ++ dumpList (dumpFields fs) ++ ")"

/-- The dumps of fields. -/
def dumpFields : List Param → List String
  | [] => []
  | ⟨name, t⟩ :: fs =>
      ("Param \x7b name: " ++ dumpName name ++ ", kind: " ++ dump t ++ " \x7d") :: dumpFields fs

end

end AbiType

namespace Value

mutual

/-- The dump of a value. -/
def dump : Value → String
  | .address a => "Address(" ++ a.dump ++ ")"
  | .uint n w => "Uint(" ++ Text.ofNat n ++ ", " ++ Text.ofNat w.toNat ++ ")"
  | .int n v => "Int(" ++ Text.ofNat n ++ ", " ++ v.dump ++ ")"
  | .bool b => "Bool(" ++ dumpBool b ++ ")"
  | .bytes c => "Bytes(" ++ dumpBytes c ++ ")"
  | .fixedBytes c => "FixedBytes(" ++ dumpBytes c ++ ")"
  | .string s => "String(" ++ Text.quoted s ++ ")"
  | .fixed m n v =>
      "Fixed(" ++ Text.ofNat m ++ ", " ++ Text.ofNat n ++ ", " ++ v.dump ++ ")"
  | .array e vs => "Array(" ++ e.dump ++ ", " ++ dumpList (dumpItems vs) ++ ")"
  | .fixedArray e vs => "FixedArray(" ++ e.dump ++ ", " ++ dumpList (dumpItems vs) ++ ")"
  | .tuple vs => "Tuple(" ++ dumpList (dumpItems vs) ++ ")"

/-- The dumps of items. -/
def dumpItems : List Value → List String
  | [] => []
  | v :: vs => dump v :: dumpItems vs

end

end Value
end ContractAbi
