import ContractAbi.Word

/-!
# Regions

A region holds the components of one container: first the heads, then the tails.  A static component
stands in its head.  A dynamic component stands in its tail, and its head is one word with the
distance from the start of the region to that tail.

`assemble` is told how many bytes the heads take.  It writes correct offsets exactly when that number
is the length of the heads.
-/

namespace ContractAbi

/-- An encoded component of a region. -/
structure Part where
  dynamic : Bool
  bytes : Bytes
deriving DecidableEq, Repr

namespace Part

/-- What a part takes among the heads. -/
def headLength (p : Part) : Nat :=
  if p.dynamic then wordSize else p.bytes.length

/-- The heads of parts, the first tail being at the given offset. -/
def heads : Nat → List Part → Bytes
  | _, [] => []
  | offset, ⟨true, body⟩ :: ps => Word.toBytes (Word.ofNat offset) ++ heads (offset + body.length) ps
  | offset, ⟨false, body⟩ :: ps => body ++ heads offset ps

/-- The tails of parts, one behind the other. -/
def tails : List Part → Bytes
  | [] => []
  | ⟨true, body⟩ :: ps => body ++ tails ps
  | ⟨false, _⟩ :: ps => tails ps

/-- The region of parts whose heads take `headSize` bytes. -/
def assemble (headSize : Nat) (ps : List Part) : Bytes :=
  heads headSize ps ++ tails ps

end Part
end ContractAbi
