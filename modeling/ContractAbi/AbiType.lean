import ContractAbi.Word

/-!
# Type descriptors

An `AbiType` says how a value is laid out.  A descriptor is dynamic if the size of its values is not
fixed by the descriptor; such a value stands behind an offset word, every other value stands in
place.  `headSize` is what a value takes in the head of the region that it belongs to.

Field names are carried but never change an encoding: `compatible` compares descriptors without
them and `eraseNames` drops them.
-/

namespace ContractAbi

mutual

/-- How a value is laid out. -/
inductive AbiType where
  | address
  | uint (bits : Nat)
  | int (bits : Nat)
  | bool
  /-- A byte sequence of any length. -/
  | bytes
  /-- A byte sequence of the given length. -/
  | fixedBytes (size : Nat)
  | string
  /-- A signed number of the given width with that many fractional places or bits. -/
  | fixed (bits fraction : Nat)
  /-- Any number of elements. -/
  | array (element : AbiType)
  /-- Exactly `length` elements. -/
  | fixedArray (element : AbiType) (length : Nat)
  | tuple (fields : List Param)

/-- A tuple field or a parameter, with its name if it was declared with one. -/
structure Param where
  name : Option String
  kind : AbiType

end

instance : Inhabited AbiType := ⟨.bool⟩

/-- A parameter without a name. -/
def Param.unnamed (kind : AbiType) : Param := ⟨none, kind⟩

namespace AbiType

/-- Induction over descriptors, with the hypothesis on tuples stated for the descriptors of the
fields. -/
theorem induction {P : AbiType → Prop} (address : P .address) (uint : ∀ n, P (.uint n))
    (int : ∀ n, P (.int n)) (bool : P .bool) (bytes : P .bytes)
    (fixedBytes : ∀ n, P (.fixedBytes n)) (string : P .string)
    (fixed : ∀ m n, P (.fixed m n)) (array : ∀ e, P e → P (.array e))
    (fixedArray : ∀ e n, P e → P (.fixedArray e n))
    (tuple : ∀ fs : List Param, (∀ t ∈ fs.map Param.kind, P t) → P (.tuple fs)) (t : AbiType) :
    P t := by
  refine AbiType.rec (motive_1 := P) (motive_2 := fun p => P p.kind)
    (motive_3 := fun fs => ∀ t ∈ fs.map Param.kind, P t) address uint int bool bytes fixedBytes
    string fixed array fixedArray tuple (fun _ _ h => h) ?_ ?_ t
  · intro t ht
    cases ht
  · intro p ps hp hps t ht
    rcases List.mem_cons.mp ht with rfl | ht
    · exact hp
    · exact hps t ht

/-! ## Equality, with and without field names -/

mutual

/-- Whether two descriptors are the same, field names included. -/
def same : AbiType → AbiType → Bool
  | .address, .address => true
  | .uint m, .uint n => m == n
  | .int m, .int n => m == n
  | .bool, .bool => true
  | .bytes, .bytes => true
  | .fixedBytes m, .fixedBytes n => m == n
  | .string, .string => true
  | .fixed m n, .fixed m' n' => m == m' && n == n'
  | .array a, .array b => same a b
  | .fixedArray a m, .fixedArray b n => m == n && same a b
  | .tuple fs, .tuple gs => sameFields fs gs
  | _, _ => false

/-- Whether two lists of fields are the same. -/
def sameFields : List Param → List Param → Bool
  | [], [] => true
  | ⟨m, a⟩ :: fs, ⟨n, b⟩ :: gs => m == n && same a b && sameFields fs gs
  | _, _ => false

end

mutual

/-- Whether two descriptors are the same but for field names. -/
def compatible : AbiType → AbiType → Bool
  | .address, .address => true
  | .uint m, .uint n => m == n
  | .int m, .int n => m == n
  | .bool, .bool => true
  | .bytes, .bytes => true
  | .fixedBytes m, .fixedBytes n => m == n
  | .string, .string => true
  | .fixed m n, .fixed m' n' => m == m' && n == n'
  | .array a, .array b => compatible a b
  | .fixedArray a m, .fixedArray b n => m == n && compatible a b
  | .tuple fs, .tuple gs => compatibleFields fs gs
  | _, _ => false

/-- Whether two lists of fields have compatible descriptors position by position. -/
def compatibleFields : List Param → List Param → Bool
  | [], [] => true
  | ⟨_, a⟩ :: fs, ⟨_, b⟩ :: gs => compatible a b && compatibleFields fs gs
  | _, _ => false

end

mutual

/-- The descriptor without field names. -/
def eraseNames : AbiType → AbiType
  | .array a => .array (eraseNames a)
  | .fixedArray a n => .fixedArray (eraseNames a) n
  | .tuple fs => .tuple (eraseFields fs)
  | t => t

/-- The fields without names, at every level. -/
def eraseFields : List Param → List Param
  | [] => []
  | ⟨_, a⟩ :: fs => ⟨none, eraseNames a⟩ :: eraseFields fs

end

theorem same_iff (a b : AbiType) : same a b = true ↔ a = b := by
  induction a using AbiType.induction generalizing b with
  | tuple fs ih =>
      cases b with
      | tuple gs =>
          simp only [same, tuple.injEq]
          induction fs generalizing gs with
          | nil => cases gs <;> simp [sameFields]
          | cons f fs ihfs =>
              obtain ⟨m, a⟩ := f
              cases gs with
              | nil => simp [sameFields]
              | cons g gs =>
                  obtain ⟨n, b⟩ := g
                  have ha := ih a (List.mem_cons_self ..) b
                  have hfs := ihfs (fun t ht => ih t (List.mem_cons_of_mem _ ht)) gs
                  simp [sameFields, ha, hfs]
      | _ => simp [same]
  | array e ih => cases b <;> simp [same, ih]
  | fixedArray e n ih => cases b <;> simp [same, ih, and_comm]
  | _ => cases b <;> simp [same]

instance : DecidableEq AbiType := fun a b =>
  decidable_of_iff (same a b = true) (same_iff a b)

/-! ## Layout -/

mutual

/-- Whether the size of a value depends on the value. -/
def isDynamic : AbiType → Bool
  | .bytes => true
  | .string => true
  | .array _ => true
  | .fixedArray e _ => isDynamic e
  | .tuple fs => anyDynamic fs
  | _ => false

/-- Whether some field is dynamic. -/
def anyDynamic : List Param → Bool
  | [] => false
  | ⟨_, t⟩ :: fs => isDynamic t || anyDynamic fs

end

/-- Whether a value is a single word and no container. -/
def isValueType : AbiType → Bool
  | .address | .uint _ | .int _ | .bool | .fixedBytes _ | .fixed _ _ => true
  | _ => false

mutual

/-- What a value takes in the head of its region: one offset word if it is dynamic, its own size if
it is static.  A size past `maxSize` is cut to `maxSize`. -/
def headSize : AbiType → Nat
  | .fixedArray e n => if isDynamic e then wordSize else min maxSize (headSize e * n)
  | .tuple fs => if anyDynamic fs then wordSize else fieldsHeadSize fs
  | _ => wordSize

/-- What the fields of a static tuple take together. -/
def fieldsHeadSize : List Param → Nat
  | [] => 0
  | ⟨_, t⟩ :: fs => min maxSize (headSize t + fieldsHeadSize fs)

end

mutual

/-- How many containers lie around the innermost leaf. -/
def depth : AbiType → Nat
  | .array e => depth e + 1
  | .fixedArray e _ => depth e + 1
  | .tuple fs => fieldsDepth fs + 1
  | _ => 0

/-- The largest depth among the fields. -/
def fieldsDepth : List Param → Nat
  | [] => 0
  | ⟨_, t⟩ :: fs => max (depth t) (fieldsDepth fs)

end

/-- The given descriptor inside `n` dynamic arrays. -/
def nested (t : AbiType) : Nat → AbiType
  | 0 => t
  | n + 1 => .array (nested t n)

end AbiType

instance : DecidableEq Param
  | ⟨m, a⟩, ⟨n, b⟩ => decidable_of_iff (m = n ∧ a = b) (by simp)

end ContractAbi
