import ContractAbi.Digest.Keccak
import ContractAbi.Digest.Sm3
import ContractAbi.Text.Blank

/-!
# Hash functions

Signatures are hashed by whatever function the network uses.  Everything that hashes therefore takes
a `Hasher`, of which the named algorithms are two.  A digest is one word and so serves as a topic.
-/

namespace ContractAbi

/-- A function from messages to digests. -/
abbrev Hasher := Bytes → Word

/-- A hash function with a name. -/
inductive HashAlgorithm where
  | keccak256
  | sm3
deriving DecidableEq, Repr, Inhabited

namespace HashAlgorithm

/-- The hash function. -/
def hasher : HashAlgorithm → Hasher
  | keccak256 => Keccak.digest
  | sm3 => Sm3.digest

/-- The name of the algorithm. -/
def name : HashAlgorithm → String
  | keccak256 => "keccak256"
  | sm3 => "sm3"

/-- A text that names no algorithm, in lower case and without the blanks around it. -/
structure Unknown where
  name : String
deriving DecidableEq, Repr

/-- The text of the error. -/
def Unknown.message (e : Unknown) : String :=
  "unknown hash algorithm: " ++ e.name

/-- The algorithm that a text names, in upper or lower case, blanks around it aside.  Only ASCII
letters have a case here. -/
def parse (s : String) : Except Unknown HashAlgorithm :=
  let name := String.ofList ((Text.trim s.toList).map Char.toLower)
  if name = "keccak256" ∨ name = "keccak-256" then .ok keccak256
  else if name = "sm3" then .ok sm3
  else .error ⟨name⟩

/-- The algorithm with exactly the given name. -/
def ofName? (name : String) : Option HashAlgorithm :=
  [keccak256, sm3].find? (fun algorithm => algorithm.name == name)

end HashAlgorithm
end ContractAbi
