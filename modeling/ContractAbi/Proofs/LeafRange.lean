import ContractAbi.Proofs.Building
import ContractAbi.Proofs.ReadBudget

/-!
# Why encoding fails

Values that are well typed under descriptors that have an encoding can be encoded, but for leaves that
are out of range.  `FailsBecause` says so for a list of leaves; it is proved along the descriptor, with
one lemma for regions, since those are the only place where failures of several items meet.

There is one more way to fail, which no machine reaches: a region whose heads pass `maxBuffer`.  Heads
take no more than the weight of what stands in the region, so the values themselves would have to.

For values from the checked builders (`encode_of_built`) this leaves validation and the range of the
leaves, and rules out every mismatch between a value and its descriptor.
-/

namespace ContractAbi
namespace Value

mutual

/-- The leaves of a value in the order in which they are written. -/
def leaves : Value → List Value
  | .array _ vs => leavesAll vs
  | .fixedArray _ vs => leavesAll vs
  | .tuple vs => leavesAll vs
  | v => [v]

/-- The leaves of all values of a list. -/
def leavesAll : List Value → List Value
  | [] => []
  | v :: vs => leaves v ++ leavesAll vs

end

/-- Whether the number in a leaf is one of the width that the leaf names. -/
def InRange (scaling : Scaling) : Value → Prop
  | .uint n w => w.toNat < 2 ^ n
  | .int n i => i.fits n = true
  | .fixed m n x => ∃ raw, x.toWire n scaling = .ok raw ∧ raw.fits m = true
  | _ => True

theorem mem_leavesAll_iff (leaf : Value) (vs : List Value) :
    leaf ∈ leavesAll vs ↔ ∃ v ∈ vs, leaf ∈ leaves v := by
  induction vs with
  | nil => simp [leavesAll]
  | cons v vs ih => simp [leavesAll, ih]

theorem leaves_of_leaf (v : Value) (hleaf : v.items? = none) : leaves v = [v] := by
  cases v <;> simp_all [items?, leaves]

/-- Leaves have no items. -/
theorem items?_of_mem_leaves (v leaf : Value) (h : leaf ∈ leaves v) : leaf.items? = none := by
  have hall : ∀ vs : List Value, (∀ v ∈ vs, leaf ∈ leaves v → leaf.items? = none) →
      leaf ∈ leavesAll vs → leaf.items? = none := by
    intro vs ih hmem
    obtain ⟨v, hv, hleaf⟩ := (mem_leavesAll_iff leaf vs).mp hmem
    exact ih v hv hleaf
  induction v using Value.induction with
  | array e vs ih => exact hall vs ih h
  | fixedArray e vs ih => exact hall vs ih h
  | tuple vs ih => exact hall vs ih h
  | _ =>
      obtain rfl := List.mem_singleton.mp h
      rfl

theorem weight_le_regionWeight (v : Value) (vs : List Value) (h : v ∈ vs) :
    v.weight ≤ regionWeight vs := by
  induction vs with
  | nil => contradiction
  | cons w vs ih =>
      rw [regionWeight]
      rcases List.mem_cons.mp h with rfl | h
      · omega
      · have hrest := ih h
        omega

/-- A descriptor compatible with that of a leaf is that of the leaf. -/
theorem eq_typeOf_of_leaf (t : AbiType) (v : Value) (hleaf : v.items? = none)
    (h : AbiType.compatible v.typeOf t = true) : t = v.typeOf := by
  cases v <;> cases t <;> simp_all [items?, typeOf, AbiType.compatible]

end Value

namespace Encode

open Value (WellTyped)

variable (scaling : Scaling)

/-- A leaf in range is written. -/
theorem exists_body_of_inRange (v : Value) (hleaf : v.items? = none) (h : v.InRange scaling) :
    ∃ body, value scaling v.typeOf v = .ok body := by
  cases v with
  | address a => exact ⟨_, rfl⟩
  | uint n w => exact ⟨_, (value_uint scaling _ _ n).mpr ⟨w, rfl, (Word.fits_iff w n).mpr h, rfl⟩⟩
  | int n i => exact ⟨_, (value_int scaling _ _ n).mpr ⟨i, rfl, h, rfl⟩⟩
  | bool b => exact ⟨_, rfl⟩
  | bytes content => exact ⟨_, rfl⟩
  | fixedBytes content => exact ⟨_, (value_fixedBytes scaling _ _ _).mpr ⟨content, rfl, rfl, rfl⟩⟩
  | string s => exact ⟨_, rfl⟩
  | fixed m n x =>
      obtain ⟨raw, hraw, hfits⟩ := h
      exact ⟨_, (value_fixed scaling _ _ m n).mpr ⟨x, raw, rfl, hraw, hfits, rfl⟩⟩
  | _ => contradiction

/-- The error is that of writing one of the leaves under its own descriptor, or the weight is more
than any buffer holds. -/
def FailsBecause (leaves : List Value) (weight : Nat) (e : AbiError) : Prop :=
  (∃ leaf ∈ leaves, value scaling leaf.typeOf leaf = .error e) ∨
    (e = .unaddressable ∧ maxBuffer < weight)

theorem FailsBecause.mono {leaves leaves' : List Value} {weight weight' : Nat} {e : AbiError}
    (h : FailsBecause scaling leaves weight e) (hleaves : ∀ leaf ∈ leaves, leaf ∈ leaves')
    (hweight : weight ≤ weight') : FailsBecause scaling leaves' weight' e := by
  rcases h with ⟨leaf, hleaf, herror⟩ | ⟨he, hlarge⟩
  · exact .inl ⟨leaf, hleaves leaf hleaf, herror⟩
  · exact .inr ⟨he, Nat.lt_of_lt_of_le hlarge hweight⟩

/-- The components of a region fail because one of them does. -/
theorem exists_of_valueParts_eq_error (ts : List AbiType) (vs : List Value) (e : AbiError)
    (h : valueParts scaling ts vs = .error e) :
    ∃ t v, (t, v) ∈ ts.zip vs ∧ value scaling t v = .error e := by
  induction ts generalizing vs with
  | nil => cases vs <;> contradiction
  | cons t ts ih =>
      cases vs with
      | nil => contradiction
      | cons v vs =>
          rcases (Except.bind_eq_error_iff _ _ e).mp h with hv | ⟨body, -, hmore⟩
          · exact ⟨t, v, List.mem_cons_self .., hv⟩
          · rcases (Except.bind_eq_error_iff _ _ e).mp hmore with hrest | ⟨ps, -, hlast⟩
            · obtain ⟨u, w, hmem, hw⟩ := ih vs hrest
              exact ⟨u, w, List.mem_cons_of_mem _ hmem, hw⟩
            · contradiction

/-- A region fails because its components do, or because its heads pass all buffers. -/
theorem region_eq_error (ts : List AbiType) (parts : Except AbiError (List Part)) (e : AbiError)
    (h : region ts parts = .error e) :
    parts = .error e ∨ (e = .unaddressable ∧ maxBuffer < (ts.map AbiType.headSize).sum) := by
  rw [region, regionHeadSize_eq_ite] at h
  by_cases hlarge : maxBuffer < (ts.map AbiType.headSize).sum
  · simp only [if_pos hlarge] at h
    cases h
    exact .inr ⟨rfl, hlarge⟩
  · simp only [if_neg hlarge] at h
    cases parts with
    | error cause =>
        cases h
        exact .inl rfl
    | ok ps => contradiction

/-- If the items of a region fail for their leaves only, the region does. -/
theorem failsBecause_of_region (ts : List AbiType) (hsized : ∀ t ∈ ts, t.Sized)
    (ih : ∀ t ∈ ts, ∀ v, WellTyped t v → ∀ e, value scaling t v = .error e →
      FailsBecause scaling v.leaves v.weight e)
    (vs : List Value) (htyped : List.Forall₂ WellTyped ts vs) (e : AbiError)
    (h : region ts (valueParts scaling ts vs) = .error e) :
    FailsBecause scaling (Value.leavesAll vs) (Value.regionWeight vs) e := by
  rcases region_eq_error ts _ e h with hparts | ⟨he, hlarge⟩
  · obtain ⟨t, v, hmem, hv⟩ := exists_of_valueParts_eq_error scaling ts vs e hparts
    obtain ⟨ht, hvs⟩ := List.of_mem_zip hmem
    have hitem := ih t ht v (List.forall₂_zip htyped hmem) e hv
    refine hitem.mono scaling (fun leaf hleaf => ?_) (Value.weight_le_regionWeight v vs hvs)
    exact (Value.mem_leavesAll_iff leaf vs).mpr ⟨v, hvs, hleaf⟩
  · have hheads := Value.sum_headSize_le_regionWeight ts hsized vs htyped
    exact .inr ⟨he, by omega⟩

/-- Well-typed values fail to be written for their leaves only. -/
theorem failsBecause_of_value (t : AbiType) (hsized : t.Sized) (v : Value) (htyped : WellTyped t v)
    (e : AbiError) (h : value scaling t v = .error e) :
    FailsBecause scaling v.leaves v.weight e := by
  induction t using AbiType.induction generalizing v e with
  | array d ih =>
      obtain ⟨carried, vs, rfl, hcarried, hitems⟩ := (Value.wellTyped_array_iff v d).mp htyped
      rw [value, if_pos hcarried, elementParts_eq_valueParts] at h
      have hregion : region (List.replicate vs.length d)
          (valueParts scaling (List.replicate vs.length d) vs) = .error e := by
        -- Only the region can fail; behind it the count is put in front.
        rcases (Except.bind_eq_error_iff _ _ e).mp h with hbody | ⟨body, -, hcount⟩
        · exact hbody
        · contradiction
      have hfails := failsBecause_of_region scaling (List.replicate vs.length d)
        (List.forall_mem_replicate.mpr (.inr hsized))
        (List.forall_mem_replicate.mpr (.inr (ih hsized))) vs
        ((List.forall₂_replicate_iff _ _ _ _).mpr ⟨rfl, hitems⟩) e hregion
      exact hfails.mono scaling (fun leaf hleaf => hleaf) (Nat.le_add_left _ _)
  | fixedArray d n ih =>
      obtain ⟨carried, vs, rfl, hlength, -, hitems⟩ := (Value.wellTyped_fixedArray_iff v d n).mp htyped
      rw [value, if_pos hlength, elementParts_eq_valueParts] at h
      exact failsBecause_of_region scaling (List.replicate vs.length d)
        (List.forall_mem_replicate.mpr (.inr hsized.1))
        (List.forall_mem_replicate.mpr (.inr (ih hsized.1))) vs
        ((List.forall₂_replicate_iff _ _ _ _).mpr ⟨rfl, hitems⟩) e h
  | tuple fs ih =>
      obtain ⟨vs, rfl, hitems⟩ := (Value.wellTyped_tuple_iff v fs).mp htyped
      have hlength : fs.length = vs.length := by
        rw [← hitems.length_eq, List.length_map]
      have hsizedfs := (AbiType.sizedFields_iff fs).mp hsized.1
      rw [value, if_pos hlength, fieldParts_eq_valueParts] at h
      exact failsBecause_of_region scaling (fs.map Param.kind) hsizedfs
        (fun u hu => ih u hu (hsizedfs u hu)) vs hitems e h
  | _ =>
      have hcompatible := Value.compatible_of_wellTyped v _ htyped
      have hleaf : v.items? = none := by
        cases v <;> simp_all [Value.items?, Value.typeOf, AbiType.compatible]
      have htype := Value.eq_typeOf_of_leaf _ v hleaf hcompatible
      rw [Value.leaves_of_leaf v hleaf]
      exact .inl ⟨v, List.mem_singleton_self v, htype ▸ h⟩

end Encode

/-- What is wrong where values from the checked builders are not encoded. -/
theorem exists_of_encode_built_eq_error (config : Config) (vs : List Value)
    (hbuilt : ∀ v ∈ vs, Value.Built v) (e : AbiError) (h : encode config vs = .error e) :
    (∃ v ∈ vs, ∃ cause, AbiType.validate config.maxDepth v.typeOf = .error cause ∧
      e = .unsupportedType cause) ∨
    (∃ leaf ∈ Value.leavesAll vs, ¬ leaf.InRange config.scaling ∧
      Encode.value config.scaling leaf.typeOf leaf = .error e) ∨
    (e = .unaddressable ∧ maxBuffer < Value.regionWeight vs) := by
  have hlength : (vs.map Value.typeOf).length = vs.length := List.length_map ..
  rcases encodeParams_eq_error config _ vs hlength e h with ⟨cause, hcause, rfl⟩ | ⟨hvalid, hregion⟩
  · obtain ⟨t, ht, hcause⟩ := AbiType.exists_of_validateAll_eq_error _ _ cause hcause
    obtain ⟨v, hv, rfl⟩ := List.mem_map.mp ht
    exact .inl ⟨v, hv, cause, hcause, rfl⟩
  · have hlegal := AbiType.legal_and_sized_of_validateAll config.maxDepth _ hvalid
    have htyped : List.Forall₂ Value.WellTyped (vs.map Value.typeOf) vs := by
      rw [List.forall₂_map_left_iff, List.forall₂_same]
      intro v hv
      exact Value.wellTyped_of_built v (hbuilt v hv) v.typeOf (AbiType.compatible_refl _)
    have hfails := Encode.failsBecause_of_region config.scaling _ (fun t ht => (hlegal t ht).2)
      (fun t ht => Encode.failsBecause_of_value config.scaling t (hlegal t ht).2) vs htyped e hregion
    rcases hfails with ⟨leaf, hleaf, herror⟩ | hlarge
    · refine .inr (.inl ⟨leaf, hleaf, ?_, herror⟩)
      intro hrange
      obtain ⟨v, -, hmem⟩ := (Value.mem_leavesAll_iff leaf vs).mp hleaf
      obtain ⟨body, hbody⟩ := Encode.exists_body_of_inRange config.scaling leaf
        (Value.items?_of_mem_leaves v leaf hmem) hrange
      rw [hbody] at herror
      contradiction
    · exact .inr (.inr hlarge)

/-- Values from the checked builders are encoded if their descriptors are valid and their leaves are in
range.  Validation and the range of a leaf are also the only reasons not to encode them.

What a value weighs is less than it takes in memory, so that no value that exists weighs more than
`maxBuffer`. -/
theorem encode_of_built (config : Config) (vs : List Value) (hbuilt : ∀ v ∈ vs, Value.Built v) :
    ((∀ v ∈ vs, AbiType.validate config.maxDepth v.typeOf = .ok ()) →
      (∀ leaf ∈ Value.leavesAll vs, leaf.InRange config.scaling) →
      Value.regionWeight vs ≤ maxBuffer → ∃ out, encode config vs = .ok out) ∧
    ∀ e, encode config vs = .error e →
      (∃ v ∈ vs, ∃ cause, AbiType.validate config.maxDepth v.typeOf = .error cause ∧
        e = .unsupportedType cause) ∨
      (∃ leaf ∈ Value.leavesAll vs, ¬ leaf.InRange config.scaling ∧
        Encode.value config.scaling leaf.typeOf leaf = .error e) ∨
      (e = .unaddressable ∧ maxBuffer < Value.regionWeight vs) := by
  have hfails := exists_of_encode_built_eq_error config vs hbuilt
  refine ⟨fun hvalid hrange hweight => ?_, hfails⟩
  cases hout : encode config vs with
  | ok out => exact ⟨out, rfl⟩
  | error e =>
      rcases hfails e hout with ⟨v, hv, cause, hcause, -⟩ | ⟨leaf, hleaf, hout, -⟩ | ⟨-, hlarge⟩
      · rw [hvalid v hv] at hcause
        contradiction
      · exact absurd (hrange leaf hleaf) hout
      · omega

/-- The inner arrays differ in the name of a field, and the outer one carries the first of the two
descriptors. -/
theorem encode_of_built_renamed :
    ∃ out, encode Config.standard
      [.array (.array (.tuple [⟨some "amount", .uint 8⟩]))
        [.array (.tuple [⟨some "amount", .uint 8⟩]) [.tuple [.uint 8 255]],
          .array (.tuple [.unnamed (.uint 8)]) [.tuple [.uint 8 0]]]] = .ok out := by
  have hitem : ∀ w, ∀ v ∈ [Value.tuple [.uint 8 w]], Value.Built v := by
    intro w
    exact List.forall_mem_singleton.mpr (.tuple _ (List.forall_mem_singleton.mpr (.leaf _ rfl)))
  have hnamed := Value.Built.array _ _ (hitem 255)
    (.arrayOf (.tuple [⟨some "amount", .uint 8⟩]) _ _ rfl)
  have hunnamed := Value.Built.array _ _ (hitem 0) (.arrayFrom _ _ rfl)
  have hbuilt := Value.Built.array _ _
    (List.forall_mem_cons.mpr ⟨hnamed, List.forall_mem_singleton.mpr hunnamed⟩) (.arrayFrom _ _ rfl)
  apply (encode_of_built Config.standard _ (List.forall_mem_singleton.mpr hbuilt)).1
  · decide +kernel
  · simp [Value.leavesAll, Value.leaves, Value.InRange]
  · decide

end ContractAbi
