import ContractAbi.Proofs.Compatibility
import ContractAbi.Value

/-!
# Well-typed values

Being compatible with a descriptor says little about what is inside a value: an array is asked for the
descriptor that it carries, not for its items.  A value is well typed if its descriptor is compatible
with the declared one and the same holds of its items, at every depth and each of them under the
descriptor that is declared for its position.

* `Everywhere` takes a property of a value under a descriptor to all positions inside the value;
  `WellTyped` is this for compatibility.
* `wellTyped_array_iff`, `wellTyped_fixedArray_iff` and `wellTyped_tuple_iff` say what well-typed
  containers look like, so that later proofs follow the descriptor.
-/

namespace List

/-- The same member at every position: the number of the others and a property of each of them. -/
theorem forall₂_replicate_iff {α β : Type} (R : α → β → Prop) (n : Nat) (a : α) (bs : List β) :
    Forall₂ R (replicate n a) bs ↔ bs.length = n ∧ ∀ b ∈ bs, R a b := by
  induction n generalizing bs with
  | zero => cases bs <;> simp
  | succ n ih =>
      cases bs with
      | nil => simp
      | cons b bs =>
          rw [replicate_succ, forall₂_cons, ih]
          simp only [length_cons, Nat.add_right_cancel_iff, mem_cons, forall_eq_or_imp]
          tauto

theorem forall₂_imp_of_mem {α β : Type} {R S : α → β → Prop} {as : List α} {bs : List β}
    (himp : ∀ a ∈ as, ∀ b, R a b → S a b) (h : Forall₂ R as bs) : Forall₂ S as bs := by
  induction h with
  | nil => exact .nil
  | cons hab _ ih =>
      exact .cons (himp _ (mem_cons_self ..) _ hab)
        (ih fun a ha => himp a (mem_cons_of_mem _ ha))

end List

namespace ContractAbi

namespace Value

/-- The items of a container; a leaf has none. -/
def items (v : Value) : List Value :=
  v.items?.getD []

mutual

/-- Whether the property holds of the value under the descriptor, and of all items inside it under the
descriptors that are declared for their positions. -/
def Everywhere (P : AbiType → Value → Prop) : AbiType → Value → Prop
  | .array e, v => P (.array e) v ∧ ∀ w ∈ v.items, Everywhere P e w
  | .fixedArray e n, v => P (.fixedArray e n) v ∧ ∀ w ∈ v.items, Everywhere P e w
  | .tuple fs, v => P (.tuple fs) v ∧ EverywhereFields P fs v.items
  | t, v => P t v

/-- Whether there is one item for each field, and the property holds everywhere in each of them. -/
def EverywhereFields (P : AbiType → Value → Prop) : List Param → List Value → Prop
  | [], [] => True
  | ⟨_, t⟩ :: fs, v :: vs => Everywhere P t v ∧ EverywhereFields P fs vs
  | _, _ => False

end

/-- Whether the descriptor of the value is compatible with the declared one, and so on for all items
inside it. -/
def WellTyped : AbiType → Value → Prop :=
  Everywhere fun t v => AbiType.compatible v.typeOf t = true

section Everywhere

variable {P Q : AbiType → Value → Prop}

theorem everywhereFields_iff (fs : List Param) (vs : List Value) :
    EverywhereFields P fs vs ↔ List.Forall₂ (Everywhere P) (fs.map Param.kind) vs := by
  induction fs generalizing vs with
  | nil => cases vs <;> simp [EverywhereFields]
  | cons f fs ih =>
      obtain ⟨name, t⟩ := f
      cases vs with
      | nil => simp [EverywhereFields]
      | cons v vs => simp [EverywhereFields, ih]

theorem everywhere_tuple_iff (fs : List Param) (vs : List Value) :
    Everywhere P (.tuple fs) (.tuple vs) ↔
      P (.tuple fs) (.tuple vs) ∧ List.Forall₂ (Everywhere P) (fs.map Param.kind) vs := by
  rw [← everywhereFields_iff]
  exact Iff.rfl

/-- What holds everywhere holds of the whole. -/
theorem here_of_everywhere (t : AbiType) (v : Value) (h : Everywhere P t v) : P t v := by
  cases t with
  | array e => exact h.1
  | fixedArray e n => exact h.1
  | tuple fs => exact h.1
  | _ => exact h

end Everywhere

/-! ## Which values have a compatible descriptor -/

section Compatible

variable (v : Value)

theorem compatible_typeOf_array_iff (e : AbiType) :
    AbiType.compatible v.typeOf (.array e) = true ↔
      ∃ carried vs, v = .array carried vs ∧ AbiType.compatible carried e = true := by
  cases v <;> simp [typeOf, AbiType.compatible]

theorem compatible_typeOf_fixedArray_iff (e : AbiType) (n : Nat) :
    AbiType.compatible v.typeOf (.fixedArray e n) = true ↔
      ∃ carried vs, v = .fixedArray carried vs ∧ vs.length = n ∧
        AbiType.compatible carried e = true := by
  cases v <;> simp [typeOf, AbiType.compatible]

theorem map_kind_fieldsOf (vs : List Value) : (fieldsOf vs).map Param.kind = vs.map typeOf := by
  induction vs with
  | nil => rfl
  | cons v vs ih => simp [fieldsOf, Param.unnamed, ih]

theorem compatible_typeOf_tuple_iff (fs : List Param) :
    AbiType.compatible v.typeOf (.tuple fs) = true ↔
      ∃ vs, v = .tuple vs ∧
        List.Forall₂ (fun t w => AbiType.compatible (typeOf w) t = true) (fs.map Param.kind) vs := by
  cases v with
  | tuple vs =>
      rw [typeOf, AbiType.compatible, AbiType.compatibleFields_iff, map_kind_fieldsOf,
        List.forall₂_map_left_iff]
      constructor
      · intro h
        exact ⟨vs, rfl, h.flip⟩
      · intro h
        obtain ⟨vs', heq, h⟩ := h
        cases heq
        exact h.flip
  | _ => simp [typeOf, AbiType.compatible]

end Compatible

/-! ## What well-typed values look like -/

section WellTyped

variable (v : Value)

theorem compatible_of_wellTyped (t : AbiType) (h : WellTyped t v) :
    AbiType.compatible v.typeOf t = true :=
  here_of_everywhere t v h

theorem wellTyped_array_iff (e : AbiType) :
    WellTyped (.array e) v ↔
      ∃ carried vs, v = .array carried vs ∧ AbiType.compatible carried e = true ∧
        ∀ w ∈ vs, WellTyped e w := by
  constructor
  · intro h
    obtain ⟨hcompatible, hitems⟩ := h
    obtain ⟨carried, vs, rfl, hcarried⟩ := (compatible_typeOf_array_iff v e).mp hcompatible
    exact ⟨carried, vs, rfl, hcarried, hitems⟩
  · intro h
    obtain ⟨carried, vs, rfl, hcarried, hitems⟩ := h
    exact ⟨hcarried, hitems⟩

theorem wellTyped_fixedArray_iff (e : AbiType) (n : Nat) :
    WellTyped (.fixedArray e n) v ↔
      ∃ carried vs, v = .fixedArray carried vs ∧ vs.length = n ∧
        AbiType.compatible carried e = true ∧ ∀ w ∈ vs, WellTyped e w := by
  constructor
  · intro h
    obtain ⟨hcompatible, hitems⟩ := h
    obtain ⟨carried, vs, rfl, hlength, hcarried⟩ :=
      (compatible_typeOf_fixedArray_iff v e n).mp hcompatible
    exact ⟨carried, vs, rfl, hlength, hcarried, hitems⟩
  · intro h
    obtain ⟨carried, vs, rfl, hlength, hcarried, hitems⟩ := h
    exact ⟨(compatible_typeOf_fixedArray_iff _ e n).mpr ⟨carried, vs, rfl, hlength, hcarried⟩,
      hitems⟩

/-- A tuple is well typed if its items are: it carries no descriptor of its own. -/
theorem wellTyped_tuple_iff (fs : List Param) :
    WellTyped (.tuple fs) v ↔
      ∃ vs, v = .tuple vs ∧ List.Forall₂ WellTyped (fs.map Param.kind) vs := by
  constructor
  · intro h
    obtain ⟨hcompatible, hitems⟩ := h
    obtain ⟨vs, rfl, -⟩ := (compatible_typeOf_tuple_iff v fs).mp hcompatible
    exact ⟨vs, rfl, (everywhereFields_iff fs vs).mp hitems⟩
  · intro h
    obtain ⟨vs, rfl, hitems⟩ := h
    have hcompatible := hitems.imp fun t w hw => compatible_of_wellTyped w t hw
    exact ⟨(compatible_typeOf_tuple_iff _ fs).mpr ⟨vs, rfl, hcompatible⟩,
      (everywhereFields_iff fs vs).mpr hitems⟩

end WellTyped

end Value
end ContractAbi
