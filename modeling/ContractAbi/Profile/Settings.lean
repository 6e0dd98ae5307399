import ContractAbi.Profile
import ContractAbi.Toml.Document

/-!
# Profiles as TOML documents

A document sets what it names; everything else keeps its standard, and keys that name no setting are
ignored.  A setting of the wrong kind makes the whole document unusable.

A choice is written as its name, or as a table with the name as its only key and nothing below it.
The configuration is a table, or an array of its settings in order; a date counts as a table without
settings.
-/

namespace ContractAbi
namespace Toml.Node

/-- The size that a node stands for. -/
def size? : Node → Option Nat
  | .integer i => if 0 ≤ i then some i.toNat else none
  | _ => none

/-- The truth value that a node stands for. -/
def boolean? : Node → Option Bool
  | .boolean b => some b
  | _ => none

/-- Whether there is nothing in a node. -/
def isVoid : Node → Bool
  | .array [] => true
  | .table ⟨_, []⟩ => true
  | _ => false

/-- The name of the choice that a node stands for. -/
def choice? : Node → Option String
  | .text name => some name
  | .table ⟨_, [(name, below)]⟩ => if below.isVoid then some name else none
  | _ => none

/-- What a node stands for, or the standard if there is no node. -/
def orStandard {α : Type} (standard : α) (read : Node → Option α) : Option Node → Option α
  | none => some standard
  | some node => read node

end Toml.Node

open Toml (Node)

/-- The name of a scaling. -/
def Scaling.name : Scaling → String
  | .decimal => "decimal"
  | .binary => "binary"

/-- The scaling with exactly the given name. -/
def Scaling.ofName? (name : String) : Option Scaling :=
  [.decimal, .binary].find? (fun scaling => scaling.name == name)

namespace Config

/-- The configuration with the given settings, in their order. -/
def ofSettings? (maxStaticLength maxDepth scaling strictPadding : Option Node) :
    Option Config := do
  let maxStaticLength ← Node.orStandard standard.maxStaticLength Node.size? maxStaticLength
  let maxDepth ← Node.orStandard standard.maxDepth Node.size? maxDepth
  let scaling ← Node.orStandard standard.scaling (fun n => n.choice? >>= Scaling.ofName?) scaling
  let strictPadding ← Node.orStandard standard.strictPadding Node.boolean? strictPadding
  return { maxStaticLength, maxDepth, scaling, strictPadding }

/-- The configuration that a table describes. -/
def ofTable? (t : Toml.Table) : Option Config :=
  ofSettings? (t.get? "max_static_array_len") (t.get? "max_depth") (t.get? "fixed_scaling")
    (t.get? "strict_padding")

/-- The configuration that a node describes. -/
def ofNode? : Node → Option Config
  | .table t => ofTable? t
  | .array items => ofSettings? items[0]? items[1]? items[2]? items[3]?
  | .dateTime => some standard
  | _ => none

/-- The configuration that a document describes. -/
def ofToml? (s : String) : Option Config :=
  Toml.parse s >>= ofTable?

end Config

namespace Profile

/-- The profile that a document describes. -/
def ofToml? (s : String) : Option Profile := do
  let t ← Toml.parse s
  let hash ← Node.orStandard standard.hash (fun n => n.choice? >>= HashAlgorithm.ofName?)
    (t.get? "hash")
  let config ← Node.orStandard Config.standard Config.ofNode? (t.get? "abi")
  return { hash, config }

end Profile
end ContractAbi
