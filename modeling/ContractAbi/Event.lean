import ContractAbi.Decode
import ContractAbi.Signature

/-!
# Events and logs

A log carries the indexed parameters of an event in topics, one word each, and the others in its
data.  The first topic of an event that is not anonymous is the digest of its signature.  An indexed
parameter that is not a single word has only its digest in the topic, and that digest is what comes
back, as 32 bytes.
-/

namespace ContractAbi

/-- The declaration of an event parameter. -/
structure EventParam where
  name : Option String
  kind : AbiType
  indexed : Bool
deriving DecidableEq

/-- The declaration of an event. -/
structure EventDecl where
  name : String
  inputs : List EventParam
  /-- Whether logs go without the digest of the signature. -/
  anonymous : Bool
deriving DecidableEq

namespace EventDecl

/-- The name with the types of all parameters. -/
def signature (e : EventDecl) : String :=
  ContractAbi.signature e.name (e.inputs.map EventParam.kind)

/-- The first topic of logs of the event, unless it is anonymous. -/
def topic (e : EventDecl) (hash : Hasher) : Word :=
  eventTopic hash e.signature

/-- The number of indexed parameters. -/
def indexedCount (e : EventDecl) : Nat :=
  e.inputs.countP EventParam.indexed

/-- The number of topics of a log. -/
def topicCount (e : EventDecl) : Nat :=
  e.indexedCount + if e.anonymous then 0 else 1

/-- The descriptors of the parameters that are in the data. -/
def dataTypes (e : EventDecl) : List AbiType :=
  (e.inputs.filter (fun p => !p.indexed)).map EventParam.kind

/-- The value that a topic carries for a parameter. -/
def decodeTopic (config : Config) (kind : AbiType) (topic : Word) : Except AbiError Value :=
  if kind.isValueType then do
    match (← decode config [kind] topic.toBytes).getLast? with
    | some v => return v
    | none => throw (.typeArityMismatch 1 0)
  else .ok (.fixedBytes topic.toBytes)

/-- Values in the order of declaration, taken from the topics and from the data.  Running out of
either is the error `short`. -/
def merge (config : Config) (short : AbiError) :
    List EventParam → List Word → List Value → Except AbiError (List Value)
  | [], _, _ => .ok []
  | p :: ps, topics, values =>
      if p.indexed then
        match topics with
        | [] => .error short
        | topic :: topics => do
            let v ← decodeTopic config p.kind topic
            let vs ← merge config short ps topics values
            return v :: vs
      else
        match values with
        | [] => .error short
        | v :: values => do
            let vs ← merge config short ps topics values
            return v :: vs

/-- The topics behind the digest of the signature, which has to be there unless the event is
anonymous. -/
def indexedTopics (e : EventDecl) (hash : Hasher) (topics : List Word) :
    Except AbiError (List Word) :=
  if e.anonymous then .ok topics
  else
    match topics with
    | [] => .ok []
    | first :: rest =>
        if first = e.topic hash then .ok rest
        else .error (.typeMismatch (.topic first e.signature (e.topic hash)))

/-- The parameters of a log in the order of declaration. -/
def decodeLog (e : EventDecl) (config : Config) (hash : Hasher) (topics : List Word)
    (data : Bytes) : Except AbiError (List Value) := do
  if topics.length ≠ e.topicCount then
    throw (.typeArityMismatch e.topicCount topics.length)
  let indexed ← e.indexedTopics hash topics
  let values ← decode config e.dataTypes data
  let short := .typeArityMismatch e.inputs.length (e.indexedCount + e.dataTypes.length)
  merge config short e.inputs indexed values

end EventDecl
end ContractAbi
