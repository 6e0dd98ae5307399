import ContractAbi.Proofs.Reading
import ContractAbi.Proofs.Validity

/-!
# Head sizes of valid descriptors

The size of a head is computed twice: `exactHeadSize?` gives up where a product or a sum passes
`maxSize`, `headSize` cuts it off there.  Validation runs the first on the whole descriptor; reading and
writing use the second on whatever occurs in it, also on what stands below a dynamic array.

`headSize_exact` says that validation settles this for everything that occurs (`ExactHead`): both
computations give the size in unbounded arithmetic, nothing is cut off on the way, and the size is a
positive number of words, for a static descriptor as many as it has `leaves`.  A count of elements that
passes `checkRoom` is therefore bounded by the words of the data.
-/

namespace ContractAbi
namespace AbiType

/-! ## Leaf words -/

mutual

/-- The leaves of a descriptor in the order in which a static value has them as words.  Those of an array
element stand there once for each element. -/
def leaves : AbiType → List AbiType
  | .fixedArray e n => (List.replicate n (leaves e)).flatten
  | .tuple fs => fieldLeaves fs
  | t => [t]

/-- The leaves of all fields. -/
def fieldLeaves : List Param → List AbiType
  | [] => []
  | ⟨_, t⟩ :: fs => leaves t ++ fieldLeaves fs

end

theorem fieldLeaves_eq_flatMap (fs : List Param) :
    fieldLeaves fs = (fs.map Param.kind).flatMap leaves := by
  induction fs with
  | nil => rfl
  | cons f fs ih =>
      obtain ⟨name, t⟩ := f
      rw [fieldLeaves, ih, List.map_cons, List.flatMap_cons]

/-- Each leaf of a static descriptor is a single word. -/
theorem isValueType_of_mem_leaves (t leaf : AbiType) (hstatic : isDynamic t = false)
    (h : leaf ∈ leaves t) : isValueType leaf = true := by
  induction t using AbiType.induction with
  | bytes => contradiction
  | string => contradiction
  | array e => contradiction
  | fixedArray e n ih =>
      rw [leaves, List.mem_flatten] at h
      obtain ⟨copy, hcopy, hleaf⟩ := h
      obtain rfl := List.eq_of_mem_replicate hcopy
      exact ih hstatic hleaf
  | tuple fs ih =>
      rw [leaves, fieldLeaves_eq_flatMap, List.mem_flatMap] at h
      obtain ⟨u, hu, hleaf⟩ := h
      exact ih u hu ((anyDynamic_eq_false_iff fs).mp hstatic u hu) hleaf
  | _ =>
      obtain rfl := List.mem_singleton.mp h
      rfl

/-- A static value takes one word for each leaf. -/
theorem exactSize_eq_leaves (t : AbiType) (hstatic : isDynamic t = false) :
    exactSize t = wordSize * (leaves t).length := by
  induction t using AbiType.induction with
  | bytes => contradiction
  | string => contradiction
  | array e => contradiction
  | fixedArray e n ih =>
      have helement : isDynamic e = false := hstatic
      have hcount : (leaves (.fixedArray e n)).length = n * (leaves e).length := by
        rw [leaves, List.length_flatten, List.map_replicate, List.sum_replicate_nat]
      rw [exactSize, if_neg (by simp [helement]), ih helement, hcount, Nat.mul_comm n, Nat.mul_assoc]
  | tuple fs ih =>
      have hfields := (anyDynamic_eq_false_iff fs).mp hstatic
      have hsizes : (fs.map Param.kind).map exactSize =
          (fs.map Param.kind).map fun u => wordSize * (leaves u).length :=
        List.map_congr_left fun u hu => ih u hu (hfields u hu)
      have hany : anyDynamic fs = false := hstatic
      rw [exactSize, if_neg (by simp [hany]), fieldsExactSize_eq_sum, hsizes, List.sum_map_mul_left,
        leaves, fieldLeaves_eq_flatMap, List.length_flatMap]
  | _ => rfl

/-! ## Nothing is cut off -/

/-- What is multiplied or added for the head size of a container itself does not pass `maxSize`: the
product for an array, and the sum over any fields that follow one another, so that it does not matter
from which end the fields of a tuple are added. -/
def Uncut : AbiType → Prop
  | .fixedArray e n => headSize e * n ≤ maxSize
  | .tuple fs => ∀ part, part <:+: fs → ((part.map Param.kind).map headSize).sum ≤ maxSize
  | _ => True

theorem uncut_of_sized (t : AbiType) (h : Sized t) : Uncut t := by
  cases t with
  | fixedArray e n =>
      obtain ⟨hsized, hfits⟩ := h
      rw [Uncut, headSize_eq_exactSize e hsized]
      exact hfits
  | tuple fs =>
      obtain ⟨hsized, hfits⟩ := h
      rw [fieldsExactSize_eq_sum,
        ← map_headSize_eq_map_exactSize _ ((sizedFields_iff fs).mp hsized)] at hfits
      rintro part ⟨front, back, rfl⟩
      simp only [List.map_append, List.sum_append] at hfits
      omega
  | _ => trivial

/-- Both computations of a head size give the size in unbounded arithmetic, nothing being cut off.  It is
a positive number of words, and the words of a static descriptor are its leaves. -/
structure ExactHead (t : AbiType) : Prop where
  checked : exactHeadSize? t = some (headSize t)
  unbounded : headSize t = exactSize t
  uncut : Uncut t
  positive : 0 < headSize t
  whole : wordSize ∣ headSize t
  words : isDynamic t = false →
    headSize t = wordSize * (leaves t).length ∧ ∀ leaf ∈ leaves t, isValueType leaf = true

theorem exactHead_of_legal_of_sized (t : AbiType) (hlegal : Legal t) (hsized : Sized t) :
    ExactHead t := by
  have hexact : headSize t = exactSize t := headSize_eq_exactSize t hsized
  exact {
    checked := by rw [hexact, exactHeadSize?_of_sized t hsized]
    unbounded := hexact
    uncut := uncut_of_sized t hsized
    positive := Nat.lt_of_lt_of_le (by decide) (wordSize_le_headSize t hlegal hsized)
    whole := wordSize_dvd_headSize t hsized
    words := fun hstatic =>
      ⟨hexact.trans (exactSize_eq_leaves t hstatic), fun leaf hleaf =>
        isValueType_of_mem_leaves t leaf hstatic hleaf⟩ }

end AbiType

namespace Decode

/-- Elements of at least one word each do not outnumber the words of the data. -/
theorem words_le_of_checkRoom (data : Input) (hdata : data.size < maxSize)
    (start count stride : Nat) (hstride : wordSize ≤ stride) (s s' : Nat)
    (h : (checkRoom data start count stride : Reader Nat Unit).run s = .ok () s') :
    start + count * wordSize ≤ data.size := by
  have hroom := ((run_checkRoom data s s' start count stride ()).mp h).1
  have hwords : count * wordSize ≤ count * stride := Nat.mul_le_mul_left count hstride
  -- The data is shorter than `maxSize`, so that the sum compared with it has not been cut off.
  omega

end Decode

/-- In a descriptor that validation accepts, the head size of everything that occurs is exact and a
positive number of words, and elements of that size are bounded by the data that they are read from. -/
theorem headSize_exact (config : Config) (t : AbiType)
    (hvalid : AbiType.validate config.maxDepth t = .ok ()) (k : Nat) (u : AbiType)
    (hu : AbiType.Occurs t k u) :
    AbiType.ExactHead u ∧
    ∀ (data : Decode.Input) (start count s s' : Nat), data.size < maxSize →
      (Decode.checkRoom data start count u.headSize : Reader Nat Unit).run s = .ok () s' →
      start + count * wordSize ≤ data.size := by
  obtain ⟨hlegal, hsized⟩ := AbiType.legal_and_sized_of_validate config.maxDepth u
    (AbiType.validate_of_occurs hvalid hu)
  refine ⟨AbiType.exactHead_of_legal_of_sized u hlegal hsized, ?_⟩
  intro data start count s s' hdata hroom
  exact Decode.words_le_of_checkRoom data hdata start count u.headSize
    (AbiType.wordSize_le_headSize u hlegal hsized) s s' hroom

/-- A tuple below a dynamic array that takes as many whole words as a size can: its sum and the product in
it are exact.  The room for two of its leaves is that of two words. -/
theorem headSize_exact_largest :
    AbiType.validate Config.standard.maxDepth
        (.array (.tuple [.unnamed .bool, .unnamed (.fixedArray .address (2 ^ 59 - 2))])) = .ok () ∧
    (AbiType.ExactHead (.tuple [.unnamed .bool, .unnamed (.fixedArray .address (2 ^ 59 - 2))]) ∧
      AbiType.headSize (.tuple [.unnamed .bool, .unnamed (.fixedArray .address (2 ^ 59 - 2))]) =
        2 ^ 64 - 32 ∧
      (AbiType.leaves (.tuple [.unnamed .bool, .unnamed (.fixedArray .address (2 ^ 59 - 2))])).length =
        2 ^ 59 - 1) ∧
    ((Decode.checkRoom (Array.replicate 64 0) 0 2 (AbiType.headSize .address) :
        Reader Nat Unit).run 0 = .ok () 0 ∧
      0 + 2 * wordSize ≤ (Array.replicate 64 (0 : UInt8)).size) := by
  have hvalid : AbiType.validate Config.standard.maxDepth
      (.array (.tuple [.unnamed .bool, .unnamed (.fixedArray .address (2 ^ 59 - 2))])) = .ok () := by
    decide +kernel
  have htuple := (headSize_exact Config.standard _ hvalid 1 _ (.array (.here _))).1
  have hsize : AbiType.headSize
      (.tuple [.unnamed .bool, .unnamed (.fixedArray .address (2 ^ 59 - 2))]) = 2 ^ 64 - 32 := by
    decide +kernel
  have hwords := (htuple.words rfl).1
  rw [hsize, wordSize] at hwords
  have hroom : (Decode.checkRoom (Array.replicate 64 0) 0 2 (AbiType.headSize .address) :
      Reader Nat Unit).run 0 = .ok () 0 := rfl
  have haddress := (headSize_exact Config.standard _ hvalid 3 .address
    (.array (.tuple (List.mem_cons_of_mem _ (List.mem_singleton_self _)) (.fixedArray (.here _))))).2
  exact ⟨hvalid, ⟨htuple, hsize, by omega⟩, hroom,
    haddress (Array.replicate 64 0) 0 2 0 0 (by decide) hroom⟩

/-- With one word more the size is cut off, and validation refuses the descriptor. -/
example : AbiType.headSize (.fixedArray .address (2 ^ 59)) = maxSize ∧
    AbiType.validate 32 (.array (.fixedArray .address (2 ^ 59))) = .error .sizeOverflow := by
  decide +kernel

end ContractAbi
