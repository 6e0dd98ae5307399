import ContractAbi.Decode
import ContractAbi.Encode
import ContractAbi.Signature

/-!
# Functions and constructors

A call is the selector of the function followed by the encoded arguments.  Deploying a contract takes
its bytecode followed by the encoded arguments of the constructor.
-/

namespace ContractAbi

/-- The declaration of a function. -/
structure FunctionDecl where
  name : String
  inputs : List Param
  outputs : List Param
deriving DecidableEq

namespace FunctionDecl

/-- The descriptors of the arguments. -/
def inputTypes (f : FunctionDecl) : List AbiType :=
  f.inputs.map Param.kind

/-- The descriptors of the results. -/
def outputTypes (f : FunctionDecl) : List AbiType :=
  f.outputs.map Param.kind

/-- The name with the types of the arguments. -/
def signature (f : FunctionDecl) : String :=
  ContractAbi.signature f.name f.inputTypes

/-- The bytes that calls of the function begin with. -/
def selector (f : FunctionDecl) (hash : Hasher) : Bytes :=
  ContractAbi.selector hash f.signature

/-- The call with the given arguments. -/
def encodeCall (f : FunctionDecl) (config : Config) (hash : Hasher) (arguments : List Value) :
    Except AbiError Bytes := do
  let encoded ← encodeParams config f.inputTypes arguments
  return f.selector hash ++ encoded

/-- The arguments of a call, which has to be a call of this function. -/
def decodeInput (f : FunctionDecl) (config : Config) (hash : Hasher) (data : Bytes) :
    Except AbiError (List Value) :=
  if data.length < selectorSize then .error (.truncatedInput selectorSize data.length)
  else if data.take selectorSize ≠ f.selector hash then
    .error (.typeMismatch (.selector (data.take selectorSize) f.signature (f.selector hash)))
  else decode config f.inputTypes (data.drop selectorSize)

/-- The results that a call returned. -/
def decodeOutput (f : FunctionDecl) (config : Config) (data : Bytes) :
    Except AbiError (List Value) :=
  decode config f.outputTypes data

end FunctionDecl

/-- The declaration of a constructor. -/
structure ConstructorDecl where
  inputs : List Param
deriving DecidableEq

namespace ConstructorDecl

/-- The payload that deploys bytecode with the given arguments. -/
def encode (c : ConstructorDecl) (config : Config) (bytecode : Bytes) (arguments : List Value) :
    Except AbiError Bytes := do
  let encoded ← encodeParams config (c.inputs.map Param.kind) arguments
  return bytecode ++ encoded

end ConstructorDecl
end ContractAbi
