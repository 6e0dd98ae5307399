import ContractAbi.Proofs.Reading
import ContractAbi.Proofs.Scaling
import ContractAbi.Proofs.SignedWord
import ContractAbi.Proofs.Typing

/-!
# Decoded values inhabit their descriptors

`Inhabits` says what it takes for a value to be one of a descriptor: every number lies in its range,
every container has the declared number of items, and every array carries exactly the declared
descriptor of its elements, at every depth.  Decoding returns inhabitants only, whatever the data is
and whether or not padding has to be clean.
-/

namespace ContractAbi

namespace Value

mutual

/-- Whether a value is one of the given descriptor. -/
def Inhabits (scaling : Scaling) : AbiType → Value → Prop
  | .address, .address _ => True
  | .uint n, .uint m w => m = n ∧ w.toNat < 2 ^ n
  | .int n, .int m i => m = n ∧ i.fits n = true
  | .bool, .bool _ => True
  | .bytes, .bytes _ => True
  | .fixedBytes n, .fixedBytes content => content.length = n
  | .string, .string _ => True
  | .fixed m n, .fixed m' n' v =>
      (m' = m ∧ n' = n) ∧
        ∃ raw : Int256, raw.fits m = true ∧ v.toRat * scaling.factor n = raw.toInt
  | .array e, .array e' vs => e' = e ∧ ∀ v ∈ vs, Inhabits scaling e v
  | .fixedArray e n, .fixedArray e' vs =>
      e' = e ∧ vs.length = n ∧ ∀ v ∈ vs, Inhabits scaling e v
  | .tuple fs, .tuple vs => InhabitAll scaling fs vs
  | _, _ => False

/-- Whether there is one item for each field, each of them one of the field's descriptor. -/
def InhabitAll (scaling : Scaling) : List Param → List Value → Prop
  | [], [] => True
  | ⟨_, t⟩ :: fs, v :: vs => Inhabits scaling t v ∧ InhabitAll scaling fs vs
  | _, _ => False

end

variable (scaling : Scaling)

theorem inhabitAll_iff (fs : List Param) (vs : List Value) :
    InhabitAll scaling fs vs ↔ List.Forall₂ (Inhabits scaling) (fs.map Param.kind) vs := by
  induction fs generalizing vs with
  | nil => cases vs <;> simp [InhabitAll]
  | cons f fs ih =>
      obtain ⟨name, t⟩ := f
      cases vs with
      | nil => simp [InhabitAll]
      | cons v vs => simp [InhabitAll, ih]

/-- Inhabitants are well typed: they carry the declared descriptors themselves. -/
theorem wellTyped_of_inhabits (t : AbiType) (v : Value) (h : Inhabits scaling t v) :
    WellTyped t v := by
  induction t using AbiType.induction generalizing v with
  | array e ih =>
      cases v with
      | array carried vs =>
          obtain ⟨rfl, hitems⟩ := h
          exact (wellTyped_array_iff _ carried).mpr ⟨carried, vs, rfl,
            AbiType.compatible_refl carried, fun w hw => ih w (hitems w hw)⟩
      | _ => exact h.elim
  | fixedArray e n ih =>
      cases v with
      | fixedArray carried vs =>
          obtain ⟨rfl, hlength, hitems⟩ := h
          exact (wellTyped_fixedArray_iff _ carried n).mpr ⟨carried, vs, rfl, hlength,
            AbiType.compatible_refl carried, fun w hw => ih w (hitems w hw)⟩
      | _ => exact h.elim
  | tuple fs ih =>
      cases v with
      | tuple vs =>
          have hitems := (inhabitAll_iff scaling fs vs).mp h
          exact (wellTyped_tuple_iff _ fs).mpr ⟨vs, rfl, List.forall₂_imp_of_mem ih hitems⟩
      | _ => exact h.elim
  | _ => cases v <;> simp_all [Inhabits, WellTyped, Everywhere, typeOf, AbiType.compatible]

/-- The descriptor that an inhabitant knows is the declared one but for field names. -/
theorem compatible_typeOf (t : AbiType) (v : Value) (h : Inhabits scaling t v) :
    AbiType.compatible (typeOf v) t = true :=
  compatible_of_wellTyped v t (wellTyped_of_inhabits scaling t v h)

end Value

namespace Decode

open Value (Inhabits)

variable (config : Config) (data : Input)

/-- An integer that has been read has the declared width. -/
theorem fits_of_signed (u : AbiType) (bits position s t : Nat) (i : Int256)
    (hwidth : AbiType.isIntegerWidth bits = true)
    (h : (signed config data u bits position).run s = .ok i t) : i.fits bits = true := by
  obtain ⟨w, -, hi⟩ := (run_signed data s t config u bits position i).mp h
  split at hi
  · obtain ⟨hfits, rfl⟩ := hi
    exact hfits
  · subst hi
    exact Int256.fits_ofLowBits w bits hwidth

/-- What holds of every value that is read holds, position by position, of a region. -/
theorem forall₂_of_region (R : AbiType → Value → Prop) (ts : List AbiType)
    (ih : ∀ u ∈ ts, ∀ position (s t : Nat) v,
      (value config data u position).run s = .ok v t → R u v)
    (start cursor s t : Nat) (vs : List Value)
    (h : (region config data ts start cursor).run s = .ok vs t) : List.Forall₂ R ts vs := by
  induction ts generalizing cursor s vs with
  | nil =>
      obtain ⟨rfl, -⟩ := (run_region_nil data s t config start cursor vs).mp h
      exact .nil
  | cons u us ihus =>
      obtain ⟨v, next, x, rest, hcomponent, hrest, rfl⟩ :=
        (run_region_cons data s t config u us start cursor vs).mp h
      have hv : R u v := by
        -- Where the component stands does not matter.
        rcases (run_component data s x u _ start cursor v next).mp hcomponent with
          ⟨-, distance, y, -, -, hread, -⟩ | ⟨-, hread, -⟩
        · exact ih u (List.mem_cons_self ..) _ _ _ _ hread
        · exact ih u (List.mem_cons_self ..) _ _ _ _ hread
      exact .cons hv (ihus (fun w hw => ih w (List.mem_cons_of_mem _ hw)) next x rest hrest)

/-- A value that has been read under a legal descriptor inhabits it. -/
theorem inhabits_of_value (u : AbiType) (hlegal : u.Legal) (position s t : Nat) (v : Value)
    (h : (value config data u position).run s = .ok v t) : Inhabits config.scaling u v := by
  induction u using AbiType.induction generalizing position s t v with
  | address =>
      obtain ⟨w, -, -, rfl⟩ := (run_address data s t config position v).mp h
      trivial
  | uint n =>
      obtain ⟨w, -, -, rfl⟩ := (run_uint data s t config n position v).mp h
      -- The remainder alone is small enough, so that dirty words need no case of their own.
      exact ⟨rfl, (Word.fits_iff _ n).mp (Word.fits_ofNat_mod w n)⟩
  | int n =>
      obtain ⟨i, hi, rfl⟩ := (run_int data s t config n position v).mp h
      exact ⟨rfl, fits_of_signed config data _ n position s t i hlegal hi⟩
  | bool =>
      obtain ⟨w, -, -, rfl⟩ := (run_bool data s t config position v).mp h
      trivial
  | bytes =>
      obtain ⟨content, -, rfl⟩ := (run_bytes data s t config position v).mp h
      trivial
  | fixedBytes n =>
      obtain ⟨w, -, hsize, -, rfl⟩ := (run_fixedBytes data s t config n position v).mp h
      simp only [wordSize] at hsize
      simp [Inhabits, hsize]
  | string =>
      obtain ⟨content, x, -, -, rfl⟩ := (run_string data s t config position v).mp h
      trivial
  | fixed m n =>
      obtain ⟨raw, x, hraw, hx, rfl⟩ := (run_fixed data s t config m n position v).mp h
      have hfits := fits_of_signed config data _ m position s t raw hlegal.1 hraw
      exact ⟨⟨rfl, rfl⟩, raw, hfits, Decimal.toRat_of_ofWire raw n config.scaling x hx⟩
  | array e ih =>
      obtain ⟨count, x, vs, -, -, -, hvs, rfl⟩ := (run_array data s t config e position v).mp h
      have hitems := forall₂_of_region config data (Inhabits config.scaling) _
        (List.forall_mem_replicate.mpr (.inr (ih hlegal))) _ _ _ _ _ hvs
      exact ⟨rfl, ((List.forall₂_replicate_iff _ _ _ _).mp hitems).2⟩
  | fixedArray e n ih =>
      obtain ⟨vs, -, hvs, rfl⟩ := (run_fixedArray data s t config e n position v).mp h
      have hitems := forall₂_of_region config data (Inhabits config.scaling) _
        (List.forall_mem_replicate.mpr (.inr (ih hlegal.2))) _ _ _ _ _ hvs
      exact ⟨rfl, (List.forall₂_replicate_iff _ _ _ _).mp hitems⟩
  | tuple fs ih =>
      obtain ⟨vs, hvs, rfl⟩ := (run_tuple data s t config fs position v).mp h
      have hfields := (AbiType.legalFields_iff fs).mp hlegal.2
      have hitems := forall₂_of_region config data (Inhabits config.scaling) _
        (fun u hu => ih u hu (hfields u hu)) _ _ _ _ _ hvs
      exact (Value.inhabitAll_iff config.scaling fs vs).mpr hitems

end Decode

/-- Decoding any data under any settings gives one value for each descriptor, each of them an
inhabitant whose own descriptor is the declared one but for field names. -/
theorem decode_inhabits (config : Config) (ts : List AbiType) (data : Bytes) (vs : List Value)
    (h : decode config ts data = .ok vs) :
    vs.length = ts.length ∧
      List.Forall₂ (fun t v => Value.Inhabits config.scaling t v ∧
        AbiType.compatible v.typeOf t = true) ts vs := by
  obtain ⟨hvalid, t, hrun⟩ := (decode_eq_ok_iff config ts data vs).mp h
  have hlegal := AbiType.legal_and_sized_of_validateAll config.maxDepth ts hvalid
  have hitems := Decode.forall₂_of_region config data.toArray
    (fun t v => Value.Inhabits config.scaling t v ∧ AbiType.compatible v.typeOf t = true) ts
    (fun u hu position s t v hv => by
      have hinhabits := Decode.inhabits_of_value config data.toArray u (hlegal u hu).1 _ _ _ _ hv
      exact ⟨hinhabits, Value.compatible_typeOf config.scaling u v hinhabits⟩) 0 0 0 t vs hrun
  exact ⟨hitems.length_eq.symm, hitems⟩

/-- Dirty words, read leniently, still give numbers of the declared widths. -/
theorem decode_inhabits_dirty :
    decode { Config.standard with strictPadding := false }
        [.int 8, .fixed 16 2, .array (.uint 8)]
        ([2 ^ 200 + 254, 2 ^ 16 + 150, 96, 1, 2 ^ 64 + 5].flatMap (Bytes.ofNat wordSize)) =
      .ok [.int 8 ⟨-2, by decide, by decide⟩,
        .fixed 16 2 ⟨⟨15, by decide, by decide⟩, 1, .inr (by decide)⟩,
        .array (.uint 8) [.uint 8 5]] ∧
    List.Forall₂ (fun t v => Value.Inhabits .decimal t v ∧
        AbiType.compatible v.typeOf t = true)
      [.int 8, .fixed 16 2, .array (.uint 8)]
      [.int 8 ⟨-2, by decide, by decide⟩,
        .fixed 16 2 ⟨⟨15, by decide, by decide⟩, 1, .inr (by decide)⟩,
        .array (.uint 8) [.uint 8 5]] := by
  have hdecode : decode { Config.standard with strictPadding := false }
        [.int 8, .fixed 16 2, .array (.uint 8)]
        ([2 ^ 200 + 254, 2 ^ 16 + 150, 96, 1, 2 ^ 64 + 5].flatMap (Bytes.ofNat wordSize)) =
      .ok [.int 8 ⟨-2, by decide, by decide⟩,
        .fixed 16 2 ⟨⟨15, by decide, by decide⟩, 1, .inr (by decide)⟩,
        .array (.uint 8) [.uint 8 5]] := by
    decide +kernel
  exact ⟨hdecode, (decode_inhabits _ _ _ _ hdecode).2⟩

end ContractAbi
