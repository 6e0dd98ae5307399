import ContractAbi.Event
import ContractAbi.Function

/-!
# Contract interfaces

An interface lists the functions and events of a contract in the order in which they were added.
Names need not be unique; the first declaration with a name is the one found, so what is added later
never changes what a name already stands for.
-/

namespace ContractAbi

/-- The declarations of a contract. -/
structure Interface where
  constructor : Option ConstructorDecl := none
  functions : List FunctionDecl := []
  events : List EventDecl := []
deriving DecidableEq

namespace Interface

/-- The interface without declarations. -/
def empty : Interface := {}

/-- The interface with a constructor of the given parameters. -/
def withConstructor (i : Interface) (inputs : List AbiType) : Interface :=
  { i with constructor := some ⟨inputs.map Param.unnamed⟩ }

/-- The interface with one more function. -/
def addFunction (i : Interface) (f : FunctionDecl) : Interface :=
  { i with functions := i.functions ++ [f] }

/-- The interface with one more event. -/
def addEvent (i : Interface) (e : EventDecl) : Interface :=
  { i with events := i.events ++ [e] }

/-- The interface with one more function, whose parameters have no names. -/
def withFunction (i : Interface) (name : String) (inputs outputs : List AbiType) : Interface :=
  i.addFunction ⟨name, inputs.map Param.unnamed, outputs.map Param.unnamed⟩

/-- The interface with one more event that is not anonymous. -/
def withEvent (i : Interface) (name : String) (inputs : List EventParam) : Interface :=
  i.addEvent ⟨name, inputs, false⟩

/-- The first function with a name. -/
def function? (i : Interface) (name : String) : Option FunctionDecl :=
  i.functions.find? (fun f => f.name == name)

/-- The first event with a name. -/
def event? (i : Interface) (name : String) : Option EventDecl :=
  i.events.find? (fun e => e.name == name)

/-- The first function with a selector. -/
def functionBySelector? (i : Interface) (hash : Hasher) (selector : Bytes) :
    Option FunctionDecl :=
  i.functions.find? (fun f => f.selector hash == selector)

/-- The first function with a name, which has to exist. -/
def requireFunction (i : Interface) (name : String) : Except AbiError FunctionDecl :=
  match i.function? name with
  | some f => .ok f
  | none => .error (.unknownFunction name)

/-- A call of the named function. -/
def encodeCall (i : Interface) (hash : Hasher) (name : String) (arguments : List Value) :
    Except AbiError Bytes := do
  let f ← i.requireFunction name
  f.encodeCall Config.standard hash arguments

/-- The results that a call of the named function returned. -/
def decodeOutput (i : Interface) (name : String) (data : Bytes) :
    Except AbiError (List Value) := do
  let f ← i.requireFunction name
  f.decodeOutput Config.standard data

/-- The parameters of a log of the named event, if there is such an event. -/
def decodeLog? (i : Interface) (hash : Hasher) (name : String) (topics : List Word)
    (data : Bytes) : Option (Except AbiError (List Value)) :=
  (i.event? name).map (fun e => e.decodeLog Config.standard hash topics data)

/-- The payload that deploys bytecode, if there is a constructor. -/
def encodeConstructor? (i : Interface) (bytecode : Bytes) (arguments : List Value) :
    Option (Except AbiError Bytes) :=
  i.constructor.map (fun c => c.encode Config.standard bytecode arguments)

/-- The interface of an ERC-20 token. -/
def erc20 : Interface :=
  let word := AbiType.uint 256
  let indexedAddress (name : String) : EventParam := ⟨some name, .address, true⟩
  let amount : EventParam := ⟨some "value", word, false⟩
  empty
    |>.withFunction "name" [] [.string]
    |>.withFunction "symbol" [] [.string]
    |>.withFunction "decimals" [] [.uint 8]
    |>.withFunction "totalSupply" [] [word]
    |>.withFunction "balanceOf" [.address] [word]
    |>.withFunction "transfer" [.address, word] [.bool]
    |>.withFunction "approve" [.address, word] [.bool]
    |>.withFunction "allowance" [.address, .address] [word]
    |>.withFunction "transferFrom" [.address, .address, word] [.bool]
    |>.withEvent "Transfer" [indexedAddress "from", indexedAddress "to", amount]
    |>.withEvent "Approval" [indexedAddress "owner", indexedAddress "spender", amount]

end Interface
end ContractAbi
