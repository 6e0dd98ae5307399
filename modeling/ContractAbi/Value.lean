import ContractAbi.AbiType
import ContractAbi.Address
import ContractAbi.Decimal

/-!
# Values

A value knows its descriptor: numbers carry their widths and arrays the descriptor of their elements,
so that an empty array has a type too.  Nothing ties the carried descriptor of an array to its
elements; that is checked when an array is built or encoded.
-/

namespace ContractAbi

/-- A value of some descriptor. -/
inductive Value where
  | address (address : Address)
  | uint (bits : Nat) (value : Word)
  | int (bits : Nat) (value : Int256)
  | bool (value : Bool)
  | bytes (content : Bytes)
  | fixedBytes (content : Bytes)
  | string (content : String)
  | fixed (bits fraction : Nat) (value : Decimal)
  | array (element : AbiType) (items : List Value)
  | fixedArray (element : AbiType) (items : List Value)
  | tuple (items : List Value)

namespace Value

/-- Induction over values, with the hypothesis on containers stated for the list of items. -/
theorem induction {P : Value → Prop} (address : ∀ a, P (.address a))
    (uint : ∀ n w, P (.uint n w)) (int : ∀ n v, P (.int n v)) (bool : ∀ b, P (.bool b))
    (bytes : ∀ c, P (.bytes c)) (fixedBytes : ∀ c, P (.fixedBytes c))
    (string : ∀ s, P (.string s)) (fixed : ∀ m n v, P (.fixed m n v))
    (array : ∀ e vs, (∀ v ∈ vs, P v) → P (.array e vs))
    (fixedArray : ∀ e vs, (∀ v ∈ vs, P v) → P (.fixedArray e vs))
    (tuple : ∀ vs : List Value, (∀ v ∈ vs, P v) → P (.tuple vs)) (v : Value) : P v := by
  refine Value.rec (motive_1 := P) (motive_2 := fun vs => ∀ v ∈ vs, P v) address uint int bool
    bytes fixedBytes string fixed array fixedArray tuple ?_ ?_ v
  · intro v hv
    cases hv
  · intro v vs hv hvs w hw
    rcases List.mem_cons.mp hw with rfl | hw
    · exact hv
    · exact hvs w hw

mutual

/-- The descriptor of a value; tuple fields have no names. -/
def typeOf : Value → AbiType
  | .address _ => .address
  | .uint n _ => .uint n
  | .int n _ => .int n
  | .bool _ => .bool
  | .bytes _ => .bytes
  | .fixedBytes content => .fixedBytes content.length
  | .string _ => .string
  | .fixed m n _ => .fixed m n
  | .array e _ => .array e
  | .fixedArray e vs => .fixedArray e vs.length
  | .tuple vs => .tuple (fieldsOf vs)

/-- The fields of a tuple with the given items. -/
def fieldsOf : List Value → List Param
  | [] => []
  | v :: vs => .unnamed (typeOf v) :: fieldsOf vs

end

/-! ## Equality -/

mutual

/-- Whether two values are the same, carried descriptors included. -/
def same : Value → Value → Bool
  | .address a, .address b => a == b
  | .uint m v, .uint n w => m == n && v == w
  | .int m v, .int n w => m == n && v == w
  | .bool a, .bool b => a == b
  | .bytes a, .bytes b => a == b
  | .fixedBytes a, .fixedBytes b => a == b
  | .string a, .string b => a == b
  | .fixed m n v, .fixed m' n' w => m == m' && n == n' && v == w
  | .array d vs, .array e ws => d == e && sameItems vs ws
  | .fixedArray d vs, .fixedArray e ws => d == e && sameItems vs ws
  | .tuple vs, .tuple ws => sameItems vs ws
  | _, _ => false

/-- Whether two lists of values are the same. -/
def sameItems : List Value → List Value → Bool
  | [], [] => true
  | v :: vs, w :: ws => same v w && sameItems vs ws
  | _, _ => false

end

theorem sameItems_iff (vs ws : List Value)
    (h : ∀ v ∈ vs, ∀ w, same v w = true ↔ v = w) : sameItems vs ws = true ↔ vs = ws := by
  induction vs generalizing ws with
  | nil => cases ws <;> simp [sameItems]
  | cons v vs ih =>
      cases ws with
      | nil => simp [sameItems]
      | cons w ws =>
          have hv := h v (List.mem_cons_self ..) w
          have hvs := ih ws (fun u hu => h u (List.mem_cons_of_mem _ hu))
          simp [sameItems, hv, hvs]

theorem same_iff (v w : Value) : same v w = true ↔ v = w := by
  induction v using Value.induction generalizing w with
  | array e vs ih => cases w <;> simp [same, sameItems_iff vs _ ih]
  | fixedArray e vs ih => cases w <;> simp [same, sameItems_iff vs _ ih]
  | tuple vs ih => cases w <;> simp [same, sameItems_iff vs _ ih]
  | _ => cases w <;> simp [same, and_assoc]

instance : DecidableEq Value := fun v w =>
  decidable_of_iff (same v w = true) (same_iff v w)

/-! ## Looking into a value -/

/-- The address of an address value. -/
def address? : Value → Option Address
  | .address a => some a
  | _ => none

/-- The number of an unsigned integer. -/
def uint? : Value → Option Word
  | .uint _ w => some w
  | _ => none

/-- The number of a signed integer. -/
def int? : Value → Option Int256
  | .int _ v => some v
  | _ => none

/-- The truth value of a boolean. -/
def bool? : Value → Option Bool
  | .bool b => some b
  | _ => none

/-- The content of a string. -/
def string? : Value → Option String
  | .string s => some s
  | _ => none

/-- The content of a byte sequence, of fixed length or not. -/
def bytes? : Value → Option Bytes
  | .bytes c => some c
  | .fixedBytes c => some c
  | _ => none

/-- The items of an array or a tuple. -/
def items? : Value → Option (List Value)
  | .array _ vs => some vs
  | .fixedArray _ vs => some vs
  | .tuple vs => some vs
  | _ => none

end Value
end ContractAbi
