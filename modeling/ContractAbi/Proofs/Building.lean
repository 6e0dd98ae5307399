import ContractAbi.Proofs.Typing
import ContractAbi.Proofs.Writing
import ContractAbi.Value.Build

/-!
# Values from the checked builders

A builder of arrays compares the descriptors of the items with the one that the array will carry, and
looks no further inside.  `Built` values come from leaves by these builders and by tuples alone.  That is
enough for them to be well typed at every depth, under any descriptor compatible with their own
(`wellTyped_of_built`): each builder has done its part when the items were built, and compatibility
carries over from the descriptor of the first item to the declared one.
-/

namespace ContractAbi
namespace Value

/-! ## When a builder succeeds -/

theorem checkElements_eq_ok_iff (element : AbiType) (index : Nat) (vs : List Value) :
    checkElements element index vs = .ok () ↔
      ∀ v ∈ vs, AbiType.compatible v.typeOf element = true := by
  induction vs generalizing index with
  | nil => simp [checkElements]
  | cons v vs ih =>
      rw [checkElements, List.forall_mem_cons]
      by_cases hv : AbiType.compatible v.typeOf element = true
      · rw [if_pos hv, ih, and_iff_right hv]
      · rw [if_neg hv]
        simp [hv]

/-- The inferred descriptor is that of the first item, and all items are compatible with it. -/
theorem inferElement_eq_ok_iff (vs : List Value) (e : AbiType) :
    inferElement vs = .ok e ↔
      ∃ v rest, vs = v :: rest ∧ e = v.typeOf ∧
        ∀ w ∈ vs, AbiType.compatible w.typeOf e = true := by
  cases vs with
  | nil => simp [inferElement]
  | cons v rest =>
      refine (Except.bind_eq_ok_iff (checkElements v.typeOf 0 rest) _ e).trans ?_
      constructor
      · intro h
        obtain ⟨⟨⟩, hcheck, heq⟩ := h
        cases heq
        have hrest := (checkElements_eq_ok_iff _ 0 rest).mp hcheck
        exact ⟨v, rest, rfl, rfl,
          List.forall_mem_cons.mpr ⟨AbiType.compatible_refl v.typeOf, hrest⟩⟩
      · intro h
        obtain ⟨v', rest', heq, rfl, hall⟩ := h
        cases heq
        have hrest := (List.forall_mem_cons.mp hall).2
        exact ⟨(), (checkElements_eq_ok_iff _ 0 rest).mpr hrest, rfl⟩

/-- The value is what one of the builders of arrays makes of the items. -/
inductive Makes : List Value → Value → Prop where
  | arrayFrom (vs : List Value) (w : Value) (h : arrayFrom vs = .ok w) : Makes vs w
  | arrayOf (e : AbiType) (vs : List Value) (w : Value) (h : arrayOf e vs = .ok w) : Makes vs w
  | emptyArray (e : AbiType) : Makes [] (emptyArray e)
  | fixedArrayFrom (vs : List Value) (stated : Option Nat) (w : Value)
      (h : fixedArrayFrom vs stated = .ok w) : Makes vs w
  | fixedArrayWithin (limit : Nat) (vs : List Value) (stated : Option Nat) (w : Value)
      (h : fixedArrayWithin limit vs stated = .ok w) : Makes vs w
  | fixedArrayOf (e : AbiType) (vs : List Value) (stated : Option Nat) (w : Value)
      (h : fixedArrayOf e vs stated = .ok w) : Makes vs w

/-- The value is made of leaves by tuples and by the builders of arrays. -/
inductive Built : Value → Prop where
  | leaf (v : Value) (h : v.items? = none) : Built v
  | tuple (vs : List Value) (h : ∀ v ∈ vs, Built v) : Built (.tuple vs)
  | array (vs : List Value) (w : Value) (h : ∀ v ∈ vs, Built v) (hw : Makes vs w) : Built w

theorem arrayFrom_eq_ok (vs : List Value) (w : Value) (h : arrayFrom vs = .ok w) :
    ∃ e, w = .array e vs ∧ ∀ v ∈ vs, AbiType.compatible v.typeOf e = true := by
  obtain ⟨e, hinfer, heq⟩ := (Except.bind_eq_ok_iff (inferElement vs) _ w).mp h
  obtain ⟨-, -, -, -, hall⟩ := (inferElement_eq_ok_iff vs e).mp hinfer
  exact ⟨e, (Except.ok.inj heq).symm, hall⟩

theorem arrayOf_eq_ok (e : AbiType) (vs : List Value) (w : Value) (h : arrayOf e vs = .ok w) :
    w = .array e vs ∧ ∀ v ∈ vs, AbiType.compatible v.typeOf e = true := by
  obtain ⟨⟨⟩, hcheck, heq⟩ := (Except.bind_eq_ok_iff (checkElements e 0 vs) _ w).mp h
  exact ⟨(Except.ok.inj heq).symm, (checkElements_eq_ok_iff e 0 vs).mp hcheck⟩

theorem fixedArrayWithin_eq_ok (limit : Nat) (vs : List Value) (stated : Option Nat) (w : Value)
    (h : fixedArrayWithin limit vs stated = .ok w) :
    ∃ e, w = .fixedArray e vs ∧ ∀ v ∈ vs, AbiType.compatible v.typeOf e = true := by
  obtain ⟨-, -, h⟩ := (Except.bind_eq_ok_iff (checkLength vs.length stated limit) _ w).mp h
  obtain ⟨e, hinfer, heq⟩ := (Except.bind_eq_ok_iff (inferElement vs) _ w).mp h
  obtain ⟨-, -, -, -, hall⟩ := (inferElement_eq_ok_iff vs e).mp hinfer
  exact ⟨e, (Except.ok.inj heq).symm, hall⟩

theorem fixedArrayOf_eq_ok (e : AbiType) (vs : List Value) (stated : Option Nat) (w : Value)
    (h : fixedArrayOf e vs stated = .ok w) :
    w = .fixedArray e vs ∧ ∀ v ∈ vs, AbiType.compatible v.typeOf e = true := by
  obtain ⟨-, -, h⟩ := (Except.bind_eq_ok_iff (checkLength _ stated _) _ w).mp h
  cases vs with
  | nil => contradiction
  | cons v rest =>
      obtain ⟨⟨⟩, hcheck, heq⟩ := (Except.bind_eq_ok_iff (checkElements e 0 (v :: rest)) _ w).mp h
      exact ⟨(Except.ok.inj heq).symm, (checkElements_eq_ok_iff e 0 _).mp hcheck⟩

/-- Every builder makes an array of just the given items, all of them compatible with the descriptor
that the array carries. -/
theorem Makes.compatible_items {vs : List Value} {w : Value} (h : Makes vs w) :
    ∃ e, (w = .array e vs ∨ w = .fixedArray e vs) ∧
      ∀ v ∈ vs, AbiType.compatible v.typeOf e = true := by
  cases h with
  | arrayFrom vs w h =>
      obtain ⟨e, rfl, hall⟩ := arrayFrom_eq_ok vs w h
      exact ⟨e, .inl rfl, hall⟩
  | arrayOf e vs w h =>
      obtain ⟨rfl, hall⟩ := arrayOf_eq_ok e vs w h
      exact ⟨e, .inl rfl, hall⟩
  | emptyArray e => exact ⟨e, .inl rfl, List.forall_mem_nil _⟩
  | fixedArrayFrom vs stated w h =>
      obtain ⟨e, rfl, hall⟩ := fixedArrayWithin_eq_ok _ vs stated w h
      exact ⟨e, .inr rfl, hall⟩
  | fixedArrayWithin limit vs stated w h =>
      obtain ⟨e, rfl, hall⟩ := fixedArrayWithin_eq_ok limit vs stated w h
      exact ⟨e, .inr rfl, hall⟩
  | fixedArrayOf e vs stated w h =>
      obtain ⟨rfl, hall⟩ := fixedArrayOf_eq_ok e vs stated w h
      exact ⟨e, .inr rfl, hall⟩

/-! ## Built values are well typed -/

/-- Under a descriptor of a leaf, or as a leaf, being compatible is all there is to check. -/
theorem wellTyped_of_leaf (v : Value) (hleaf : v.items? = none) (t : AbiType)
    (h : AbiType.compatible v.typeOf t = true) : WellTyped t v := by
  cases t with
  | array e =>
      obtain ⟨carried, vs, rfl, -⟩ := (compatible_typeOf_array_iff v e).mp h
      contradiction
  | fixedArray e n =>
      obtain ⟨carried, vs, rfl, -⟩ := (compatible_typeOf_fixedArray_iff v e n).mp h
      contradiction
  | tuple fs =>
      obtain ⟨vs, rfl, -⟩ := (compatible_typeOf_tuple_iff v fs).mp h
      contradiction
  | _ => exact h

/-- Built values are well typed under every descriptor that is compatible with their own. -/
theorem wellTyped_of_built (v : Value) (h : Built v) (t : AbiType)
    (hcompatible : AbiType.compatible v.typeOf t = true) : WellTyped t v := by
  induction h generalizing t with
  | leaf v hleaf => exact wellTyped_of_leaf v hleaf t hcompatible
  | tuple vs _ ih =>
      cases t with
      | tuple fs =>
          obtain ⟨vs', heq, hitems⟩ := (compatible_typeOf_tuple_iff _ fs).mp hcompatible
          cases heq
          have htyped := List.forall₂_imp_of_mem (fun w hw t ht => ih w hw t ht) hitems.flip
          exact (wellTyped_tuple_iff _ fs).mpr ⟨vs, rfl, htyped.flip⟩
      | _ => simp [typeOf, AbiType.compatible] at hcompatible
  | array vs w _ hmakes ih =>
      obtain ⟨carried, hw, hitems⟩ := hmakes.compatible_items
      -- What the items agree with is the carried descriptor, and that agrees with the declared one.
      have htyped : ∀ e, AbiType.compatible carried e = true → ∀ v ∈ vs, WellTyped e v :=
        fun e hcarried v hv =>
          ih v hv e (AbiType.compatible_equivalence.trans (hitems v hv) hcarried)
      rcases hw with rfl | rfl
      · cases t with
        | array e =>
            exact (wellTyped_array_iff _ e).mpr
              ⟨carried, vs, rfl, hcompatible, htyped e hcompatible⟩
        | _ => simp [typeOf, AbiType.compatible] at hcompatible
      · cases t with
        | fixedArray e n =>
            obtain ⟨carried', vs', heq, hlength, hcarried⟩ :=
              (compatible_typeOf_fixedArray_iff _ e n).mp hcompatible
            cases heq
            exact (wellTyped_fixedArray_iff _ e n).mpr
              ⟨carried, vs, rfl, hlength, hcarried, htyped e hcarried⟩
        | _ => simp [typeOf, AbiType.compatible] at hcompatible

end Value
end ContractAbi
