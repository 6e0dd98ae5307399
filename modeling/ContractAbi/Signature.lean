import ContractAbi.AbiType.Text
import ContractAbi.Digest
import ContractAbi.Text.Utf8

/-!
# Signatures, selectors and topics

A signature is a name with the canonical texts of the parameters.  Its digest names an event, and the
first four bytes of its digest name a function.
-/

namespace ContractAbi

/-- A name with texts between parentheses, separated by commas. -/
def joinSignature (name : String) (types : List String) : String :=
  name ++ "(" ++ ",".intercalate types ++ ")"

/-- The signature of a name with the given parameters. -/
def signature (name : String) (types : List AbiType) : String :=
  joinSignature name (types.map AbiType.text)

/-- The digest of a signature. -/
def eventTopic (hash : Hasher) (signature : String) : Word :=
  hash (Text.Utf8.encode signature)

/-- The number of bytes in a selector. -/
def selectorSize : Nat := 4

/-- The first bytes of the digest of a signature. -/
def selector (hash : Hasher) (signature : String) : Bytes :=
  (Word.toBytes (hash (Text.Utf8.encode signature))).take selectorSize

end ContractAbi
