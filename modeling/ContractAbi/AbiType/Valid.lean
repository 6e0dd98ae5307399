import ContractAbi.AbiType.Text
import ContractAbi.Text.Quoted

/-!
# Which descriptors have an encoding

A descriptor is refused if one of its leaves has a width that does not exist, if it has an array of no
elements or a tuple of no fields, if its containers are nested deeper than a given limit, or if a
static size passes `maxSize`.

Leaves and containers are looked at one by one from a list of pending descriptors; sizes, which take a
recursion, are computed after that, when the depth is known to be bounded.  Fields are looked at from
the last to the first.  This order decides the error of a descriptor with several faults.
-/

namespace ContractAbi

/-- What a type text lacks or has too much of. -/
inductive TypeTextFault where
  | expectedBracket
  | lengthOutOfRange
  | expectedSeparator
  | expectedName
  | trailingInput
deriving DecidableEq, Repr

namespace TypeTextFault

/-- The text of the fault. -/
def message : TypeTextFault → String
  | expectedBracket => "expected ']'"
  | lengthOutOfRange => "array length out of range"
  | expectedSeparator => "expected ',' or ')'"
  | expectedName => "expected a type name"
  | trailingInput => "unexpected trailing input"

end TypeTextFault

/-- Why there is no descriptor, or none that can be used. -/
inductive TypeError where
  /-- A descriptor, given by its canonical text, that does not exist. -/
  | invalid (text : String)
  | zeroLengthArray
  | emptyTuple
  | tooDeep (limit : Nat)
  | sizeOverflow
  | unknownName (name : String)
  /-- A type text with a fault at the given byte. -/
  | malformed (fault : TypeTextFault) (position : Nat) (source : String)
  /-- More fractional places or bits than a number can have. -/
  | fractionTooWide (fraction : Nat)
deriving DecidableEq, Repr

namespace TypeError

/-- The text of the error. -/
def message : TypeError → String
  | invalid text => text
  | zeroLengthArray => "zero-length static array"
  | emptyTuple => "empty tuple"
  | tooDeep limit => "nesting deeper than " ++ Text.ofNat limit ++ " levels"
  | sizeOverflow => "static size overflows the address space"
  | unknownName name => "unknown type: " ++ name
  | malformed fault position source =>
      fault.message ++ " at byte " ++ Text.ofNat position ++ " of " ++ Text.quoted source
  | fractionTooWide fraction => "fractional width " ++ Text.ofNat fraction

end TypeError

namespace AbiType

/-- The largest number of fractional places or bits of a descriptor. -/
def maxFraction : Nat := 80

/-- Whether integers of that many bits exist: whole bytes, at most a word. -/
def isIntegerWidth (bits : Nat) : Bool :=
  0 < bits && bits ≤ 256 && bits % 8 == 0

/-- Accept the descriptor if the condition holds. -/
def accept (t : AbiType) (condition : Bool) : Except TypeError Unit :=
  if condition then .ok () else .error (.invalid t.text)

/-- Whether one more container fits below `depth` others. -/
def enter (limit depth : Nat) : Except TypeError Unit :=
  if limit < depth + 1 then .error (.tooDeep limit) else .ok ()

/-- Check a descriptor that lies inside `depth` containers, apart from what lies inside it. -/
def checkNode (limit depth : Nat) : AbiType → Except TypeError Unit
  | .uint n => accept (.uint n) (isIntegerWidth n)
  | .int n => accept (.int n) (isIntegerWidth n)
  | .fixedBytes n => accept (.fixedBytes n) (1 ≤ n && n ≤ 32)
  | .fixed m n => accept (.fixed m n) (isIntegerWidth m && n ≤ maxFraction)
  | .array _ => enter limit depth
  | .fixedArray _ n => if n = 0 then .error .zeroLengthArray else enter limit depth
  | .tuple [] => .error .emptyTuple
  | .tuple (_ :: _) => enter limit depth
  | _ => .ok ()

/-- What lies directly inside a descriptor, the last field of a tuple first. -/
def inner : AbiType → List AbiType
  | .array e => [e]
  | .fixedArray e _ => [e]
  | .tuple fs => (fs.map Param.kind).reverse
  | _ => []

theorem foldl_sizeOf_kinds_le (fs : List Param) (n : Nat) :
    fs.foldl (fun total f => sizeOf f.kind + total) n ≤ sizeOf fs + n := by
  induction fs generalizing n with
  | nil => exact Nat.le_add_left _ _
  | cons f fs ih =>
      obtain ⟨name, t⟩ := f
      have hrest := ih (sizeOf t + n)
      simp only [List.foldl_cons, List.cons.sizeOf_spec, Param.mk.sizeOf_spec]
      omega

/-- What lies inside a descriptor is smaller, all of it together. -/
theorem foldr_sizeOf_inner_lt (t : AbiType) (n : Nat) :
    t.inner.foldr (fun u total => sizeOf u + total) n < sizeOf t + n := by
  cases t with
  | array e =>
      show sizeOf e + n < _
      rw [array.sizeOf_spec]
      omega
  | fixedArray e count =>
      show sizeOf e + n < _
      rw [fixedArray.sizeOf_spec]
      omega
  | tuple fs =>
      have hkinds := foldl_sizeOf_kinds_le fs n
      rw [inner, List.foldr_reverse, List.foldl_map, tuple.sizeOf_spec]
      omega
  | _ =>
      show n < _
      grind only [address.sizeOf_spec, uint.sizeOf_spec, int.sizeOf_spec, bool.sizeOf_spec,
        bytes.sizeOf_spec, fixedBytes.sizeOf_spec, string.sizeOf_spec, fixed.sizeOf_spec]

/-- Check the descriptors that are still to be looked at, each with the number of containers around
it, and everything inside them.  What lies inside a descriptor comes next, so that no more than the
pending descriptors have to be kept, however deep they are. -/
def checkPending (limit : Nat) : List (Nat × AbiType) → Except TypeError Unit
  | [] => .ok ()
  | (depth, t) :: pending => do
      checkNode limit depth t
      checkPending limit (t.inner.map (depth + 1, ·) ++ pending)
termination_by pending => pending.foldr (fun p total => sizeOf p.2 + total) 0
decreasing_by
  rw [List.foldr_append, List.foldr_map]
  exact foldr_sizeOf_inner_lt t _

/-- A size, unless it passes `maxSize`. -/
def size? (n : Nat) : Option Nat :=
  if n ≤ maxSize then some n else none

mutual

/-- The head size in exact arithmetic, if no size anywhere in the descriptor passes `maxSize`. -/
def exactHeadSize? : AbiType → Option Nat
  | .array e => do
      let _ ← exactHeadSize? e
      return wordSize
  | .fixedArray e n => do
      let one ← exactHeadSize? e
      let all ← size? (one * n)
      return if isDynamic e then wordSize else all
  | .tuple fs => do
      let all ← exactFieldsSize? fs
      return if anyDynamic fs then wordSize else all
  | _ => some wordSize

/-- The sum of the head sizes of fields in exact arithmetic. -/
def exactFieldsSize? : List Param → Option Nat
  | [] => some 0
  | ⟨_, t⟩ :: fs => do
      let one ← exactHeadSize? t
      let rest ← exactFieldsSize? fs
      size? (one + rest)

end

/-- Accept a descriptor that has an encoding and nests at most `limit` containers. -/
def validate (limit : Nat) (t : AbiType) : Except TypeError Unit := do
  checkPending limit [(0, t)]
  match exactHeadSize? t with
  | some _ => .ok ()
  | none => .error .sizeOverflow

/-- Accept a list of descriptors, looking from the first to the last. -/
def validateAll (limit : Nat) : List AbiType → Except TypeError Unit
  | [] => .ok ()
  | t :: ts => do
      validate limit t
      validateAll limit ts

end AbiType
end ContractAbi
