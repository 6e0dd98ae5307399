import ContractAbi.AbiType.Parser
import ContractAbi.Interface
import ContractAbi.Value.Build

/-!
# Network profiles

A profile pairs a configuration with a hash function, and everything that depends on either is an
operation on the profile.  Two profiles with the same parts give the same answers.
-/

namespace ContractAbi

/-- The conventions of a network. -/
structure Profile where
  hash : HashAlgorithm := .keccak256
  config : Config := {}
deriving DecidableEq, Repr

namespace Profile

/-- The profile that holds where nothing else is said. -/
def standard : Profile := {}

/-- The descriptor that a text denotes under the limits of the profile. -/
def parseType (p : Profile) (s : String) : Except AbiError AbiType :=
  (AbiType.parse p.config.maxDepth s).mapError .unsupportedType

/-- The encoding of values under their own descriptors. -/
def encode (p : Profile) (values : List Value) : Except AbiError Bytes :=
  ContractAbi.encode p.config values

/-- The encoding of values under declared descriptors. -/
def encodeParams (p : Profile) (types : List AbiType) (values : List Value) :
    Except AbiError Bytes :=
  ContractAbi.encodeParams p.config types values

/-- The values of the given descriptors at the front of the data. -/
def decode (p : Profile) (types : List AbiType) (data : Bytes) : Except AbiError (List Value) :=
  ContractAbi.decode p.config types data

/-- A static array under the limit of the profile. -/
def fixedArray (p : Profile) (items : List Value) (stated : Option Nat) : Except AbiError Value :=
  Value.fixedArrayWithin p.config.maxStaticLength items stated

/-- The selector of a signature. -/
def selector (p : Profile) (signature : String) : Bytes :=
  ContractAbi.selector p.hash.hasher signature

/-- The topic of a signature. -/
def eventTopic (p : Profile) (signature : String) : Word :=
  ContractAbi.eventTopic p.hash.hasher signature

/-- The call of a function with the given arguments. -/
def encodeCall (p : Profile) (f : FunctionDecl) (arguments : List Value) : Except AbiError Bytes :=
  f.encodeCall p.config p.hash.hasher arguments

/-- The arguments of a call of a function. -/
def decodeInput (p : Profile) (f : FunctionDecl) (data : Bytes) : Except AbiError (List Value) :=
  f.decodeInput p.config p.hash.hasher data

/-- The results that a call of a function returned. -/
def decodeOutput (p : Profile) (f : FunctionDecl) (data : Bytes) : Except AbiError (List Value) :=
  f.decodeOutput p.config data

/-- The payload that deploys bytecode. -/
def encodeConstructor (p : Profile) (c : ConstructorDecl) (bytecode : Bytes)
    (arguments : List Value) : Except AbiError Bytes :=
  c.encode p.config bytecode arguments

/-- The parameters of a log of an event. -/
def decodeLog (p : Profile) (e : EventDecl) (topics : List Word) (data : Bytes) :
    Except AbiError (List Value) :=
  e.decodeLog p.config p.hash.hasher topics data

end Profile
end ContractAbi
