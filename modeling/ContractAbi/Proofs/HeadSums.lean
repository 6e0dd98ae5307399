import ContractAbi.Proofs.Validity
import ContractAbi.Proofs.Writing

/-!
# How far the heads of a region add up

Before a region is written, the sizes of its heads are added without a check.  Validation looks at one
descriptor at a time; which sums it bounds depends on where the region comes from.

* The region of a tuple or of a static array belongs to one descriptor, whose size has been computed with
  checks.  Its sum never passes `maxSize`.
* The parameters of a call have no descriptor in common, and the number of elements of a dynamic array is
  not in its descriptor.  There the sum passes `maxSize` exactly if validation would refuse the tuple of
  the parameters, or the static array of as many elements.

`headSum_le_maxSize_iff` states both.  In the second case nothing is written, whatever the values are.
-/

namespace ContractAbi
namespace AbiType

variable (limit : Nat)

/-- The heads of sized descriptors are as large as their sizes in unbounded arithmetic. -/
theorem sum_headSize_of_valid (ts : List AbiType) (hvalid : ∀ t ∈ ts, Valid limit t) :
    (ts.map headSize).sum = (ts.map exactSize).sum := by
  have hsized : ∀ t ∈ ts, Sized t := fun t ht => ((valid_iff limit t).mp (hvalid t ht)).2
  rw [map_headSize_eq_map_exactSize ts hsized]

/-- Descriptors make a valid tuple if there are any and their sizes fit together. -/
theorem valid_tuple_iff (ts : List AbiType) (hvalid : ∀ t ∈ ts, Valid limit t) :
    Valid (limit + 1) (.tuple (ts.map Param.unnamed)) ↔
      ts ≠ [] ∧ (ts.map headSize).sum ≤ maxSize := by
  have hkinds : (ts.map Param.unnamed).map Param.kind = ts := by
    rw [List.map_map]
    exact List.map_id ts
  have hinner : ∀ s ∈ (AbiType.tuple (ts.map Param.unnamed)).inner, Valid limit s := by
    intro s hs
    rw [inner, hkinds, List.mem_reverse] at hs
    exact hvalid s hs
  rw [valid_succ_iff, sum_headSize_of_valid limit ts hvalid]
  simp only [LeafExists, HasItems, SizeFits, hkinds, ne_eq, List.map_eq_nil_iff, true_and]
  exact ⟨fun h => ⟨h.1, h.2.1⟩, fun h => ⟨h.1, h.2, hinner⟩⟩

/-- Elements of a valid dynamic array make a valid static one if there are any and their sizes fit
together. -/
theorem valid_fixedArray_iff (e : AbiType) (n : Nat) (hvalid : Valid limit (.array e)) :
    Valid limit (.fixedArray e n) ↔
      n ≠ 0 ∧ ((List.replicate n e).map headSize).sum ≤ maxSize := by
  -- The element lies inside the dynamic array, so that there is room for one level.
  obtain ⟨below, rfl⟩ : ∃ below, limit = below + 1 :=
    Nat.exists_eq_add_of_le' (hvalid.depth 1 e (.array (.here e)))
  have helement : Valid below e :=
    ((valid_succ_iff below _).mp hvalid).2.2.2 e (List.mem_singleton_self e)
  rw [valid_succ_iff, sum_headSize_of_valid below _
    (List.forall_mem_replicate.mpr (.inr helement)), List.map_replicate, List.sum_replicate_nat,
    Nat.mul_comm]
  simp only [LeafExists, HasItems, SizeFits, inner, List.forall_mem_singleton, true_and]
  exact ⟨fun h => ⟨h.1, h.2.1⟩, fun h => ⟨h.1, h.2, helement⟩⟩

/-- The heads of a valid tuple can be added. -/
theorem sum_headSize_tuple_le (fs : List Param) (hvalid : Valid limit (.tuple fs)) :
    ((fs.map Param.kind).map headSize).sum ≤ maxSize := by
  have hkinds : ∀ t ∈ fs.map Param.kind, Valid limit t :=
    fun t ht => hvalid.of_occurs (.tuple ht (.here t))
  rw [sum_headSize_of_valid limit _ hkinds]
  exact hvalid.sizes 0 _ (.here _)

/-- The heads of a valid static array can be added. -/
theorem sum_headSize_fixedArray_le (e : AbiType) (n : Nat) (hvalid : Valid limit (.fixedArray e n)) :
    ((List.replicate n e).map headSize).sum ≤ maxSize := by
  have helement : Valid limit e := hvalid.of_occurs (.fixedArray (.here e))
  have hsize : exactSize e * n ≤ maxSize := hvalid.sizes 0 _ (.here _)
  rwa [sum_headSize_of_valid limit _ (List.forall_mem_replicate.mpr (.inr helement)),
    List.map_replicate, List.sum_replicate_nat, Nat.mul_comm]

end AbiType

namespace Encode

/-- A region whose heads cannot be added is not written, whatever its parts are. -/
theorem region_of_maxSize_lt (ts : List AbiType) (parts : Except AbiError (List Part))
    (h : maxSize < (ts.map AbiType.headSize).sum) : region ts parts = .error .unaddressable := by
  have hbuffer : maxBuffer < (ts.map AbiType.headSize).sum :=
    Nat.lt_trans (by decide) h
  rw [region, regionHeadSize_eq_ite, if_pos hbuffer]
  rfl

end Encode

/-- In a list of descriptors that validation accepts, the heads of every tuple and of every static array
add up to a size.  Those of the list itself do if the tuple of the descriptors would be accepted, those
of the elements of a dynamic array if the static array of as many elements would be; otherwise nothing is
written. -/
theorem headSum_le_maxSize_iff (config : Config) (ts : List AbiType) (vs : List Value)
    (hvalid : AbiType.validateAll config.maxDepth ts = .ok ()) (hlength : ts.length = vs.length) :
    (((ts.map AbiType.headSize).sum ≤ maxSize ↔
        ts = [] ∨ AbiType.validate (config.maxDepth + 1) (.tuple (ts.map Param.unnamed)) = .ok ()) ∧
      (maxSize < (ts.map AbiType.headSize).sum →
        encodeParams config ts vs = .error .unaddressable)) ∧
    ∀ t ∈ ts, ∀ k u, AbiType.Occurs t k u →
      (∀ fs, u = .tuple fs → ((fs.map Param.kind).map AbiType.headSize).sum ≤ maxSize) ∧
      (∀ e n, u = .fixedArray e n →
        ((List.replicate n e).map AbiType.headSize).sum ≤ maxSize) ∧
      ∀ e, u = .array e → ∀ carried items, AbiType.compatible carried e = true →
        (((List.replicate items.length e).map AbiType.headSize).sum ≤ maxSize ↔
          items = [] ∨
            AbiType.validate config.maxDepth (.fixedArray e items.length) = .ok ()) ∧
        (maxSize < ((List.replicate items.length e).map AbiType.headSize).sum →
          Encode.value config.scaling u (.array carried items) = .error .unaddressable) := by
  have hall := (AbiType.forall_valid_iff config.maxDepth ts).mpr hvalid
  refine ⟨⟨?_, fun hsum => ?_⟩, fun t ht k u hu => ?_⟩
  · rw [← AbiType.valid_iff_validate_eq_ok, AbiType.valid_tuple_iff config.maxDepth ts hall]
    by_cases hts : ts = []
    · simp [hts]
    · simp [hts]
  · rw [encodeParams, if_neg (not_not_intro hlength), hvalid,
      Encode.region_of_maxSize_lt ts _ hsum]
    rfl
  · have hvalidu := (hall t ht).of_occurs hu
    refine ⟨?_, ?_, ?_⟩
    · rintro fs rfl
      exact AbiType.sum_headSize_tuple_le config.maxDepth fs hvalidu
    · rintro e n rfl
      exact AbiType.sum_headSize_fixedArray_le config.maxDepth e n hvalidu
    · rintro e rfl carried items hcompatible
      refine ⟨?_, fun hsum => ?_⟩
      · rw [← AbiType.valid_iff_validate_eq_ok,
          AbiType.valid_fixedArray_iff config.maxDepth e _ hvalidu]
        by_cases hitems : items = []
        · simp [hitems]
        · simp [hitems]
      · rw [Encode.value, if_pos hcompatible, Encode.region_of_maxSize_lt _ _ hsum]
        rfl

/-- An element takes half of all sizes: the heads of one can be added, those of two cannot. -/
theorem headSum_le_maxSize_half :
    AbiType.validateAll Config.standard.maxDepth [.array (.fixedArray (.uint 256) (2 ^ 58))] = .ok () ∧
    ((List.replicate 1 (.fixedArray (.uint 256) (2 ^ 58))).map AbiType.headSize).sum ≤ maxSize ∧
    Encode.value Config.standard.scaling (.array (.fixedArray (.uint 256) (2 ^ 58)))
        (.array (.fixedArray (.uint 256) (2 ^ 58)) [.bool true, .bool true]) =
      .error .unaddressable := by
  have hvalid : AbiType.validateAll Config.standard.maxDepth
      [.array (.fixedArray (.uint 256) (2 ^ 58))] = .ok () := by
    decide +kernel
  have helements := (headSum_le_maxSize_iff Config.standard [.array (.fixedArray (.uint 256) (2 ^ 58))]
    [.bool true] hvalid rfl).2 _ (List.mem_singleton_self _) 0 _ (.here _)
  have hcompatible := AbiType.compatible_refl (.fixedArray (.uint 256) (2 ^ 58))
  refine ⟨hvalid, ?_, ?_⟩
  · exact (helements.2.2 _ rfl _ [.bool true] hcompatible).1.mpr (.inr (by decide +kernel))
  · exact (helements.2.2 _ rfl _ [.bool true, .bool true] hcompatible).2 (by decide +kernel)

/-- Validation looks at one descriptor at a time: each of the two is as large as half of all sizes, and
their sum is no size any more, as parameters and as elements of a dynamic array. -/
theorem exists_headSum_overflow :
    (AbiType.validateAll Config.standard.maxDepth
        [.fixedArray (.uint 256) (2 ^ 58), .fixedArray (.uint 256) (2 ^ 58)] = .ok () ∧
      maxSize <
        ([.fixedArray (.uint 256) (2 ^ 58), .fixedArray (.uint 256) (2 ^ 58)].map AbiType.headSize).sum ∧
      encodeParams Config.standard
          [.fixedArray (.uint 256) (2 ^ 58), .fixedArray (.uint 256) (2 ^ 58)]
          [.bool true, .bool true] = .error .unaddressable) ∧
    (AbiType.validateAll Config.standard.maxDepth [.array (.fixedArray (.uint 256) (2 ^ 58))] = .ok () ∧
      maxSize <
        ((List.replicate 2 (.fixedArray (.uint 256) (2 ^ 58))).map AbiType.headSize).sum ∧
      encodeParams Config.standard [.array (.fixedArray (.uint 256) (2 ^ 58))]
          [.array (.fixedArray (.uint 256) (2 ^ 58)) [.bool true, .bool true]] =
        .error .unaddressable) := by
  decide +kernel

end ContractAbi
