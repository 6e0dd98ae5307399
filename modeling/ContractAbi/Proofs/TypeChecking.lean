import ContractAbi.Proofs.Typing
import ContractAbi.Proofs.Writing

/-!
# What the encoder makes sure of

Only values that go with their declared descriptors are to be encoded.  `Checked` is what the encoder
compares at one position; it does so everywhere inside a value (`checked_of_value`).  What is missing to
well-typedness is one comparison: the descriptor that a dynamic array carries is compared with the
declared one, the descriptor that a static array carries is not looked at.

`wellTyped_iff` says that nothing else is missing, and `exists_encoding_of_ill_typed` that this is
enough for a value to be encoded under a descriptor that is not its own.
-/

namespace ContractAbi
namespace Value

/-- What the encoder compares of a value and the declared descriptor, the items aside. -/
def Checked : AbiType → Value → Prop
  | .fixedArray _ n, .fixedArray _ vs => vs.length = n
  | .tuple fs, .tuple vs => fs.length = vs.length
  | t, v => AbiType.compatible v.typeOf t = true

/-- Whether the descriptor that a static array carries is compatible with the declared one. -/
def StaticCarries : AbiType → Value → Prop
  | .fixedArray e _, .fixedArray carried _ => AbiType.compatible carried e = true
  | _, _ => True

/-- Comparing what static arrays carry as well would be comparing everything. -/
theorem wellTyped_iff (t : AbiType) (v : Value) :
    WellTyped t v ↔ Everywhere Checked t v ∧ Everywhere StaticCarries t v := by
  induction t using AbiType.induction generalizing v with
  | array e ih =>
      rw [wellTyped_array_iff]
      constructor
      · intro h
        obtain ⟨carried, vs, rfl, hcarried, hitems⟩ := h
        exact ⟨⟨hcarried, fun w hw => ((ih w).mp (hitems w hw)).1⟩,
          ⟨trivial, fun w hw => ((ih w).mp (hitems w hw)).2⟩⟩
      · intro h
        obtain ⟨⟨hcompatible, hchecked⟩, ⟨-, hstatic⟩⟩ := h
        obtain ⟨carried, vs, rfl, hcarried⟩ := (compatible_typeOf_array_iff v e).mp hcompatible
        exact ⟨carried, vs, rfl, hcarried, fun w hw => (ih w).mpr ⟨hchecked w hw, hstatic w hw⟩⟩
  | fixedArray e n ih =>
      rw [wellTyped_fixedArray_iff]
      constructor
      · intro h
        obtain ⟨carried, vs, rfl, hlength, hcarried, hitems⟩ := h
        exact ⟨⟨hlength, fun w hw => ((ih w).mp (hitems w hw)).1⟩,
          ⟨hcarried, fun w hw => ((ih w).mp (hitems w hw)).2⟩⟩
      · intro h
        obtain ⟨⟨hhere, hchecked⟩, ⟨hcarried, hstatic⟩⟩ := h
        cases v with
        | fixedArray carried vs =>
            exact ⟨carried, vs, rfl, hhere, hcarried,
              fun w hw => (ih w).mpr ⟨hchecked w hw, hstatic w hw⟩⟩
        | _ => simp [Checked, typeOf, AbiType.compatible] at hhere
  | tuple fs ih =>
      rw [wellTyped_tuple_iff]
      constructor
      · intro h
        obtain ⟨vs, rfl, hitems⟩ := h
        have hlength : fs.length = vs.length := by
          rw [← hitems.length_eq, List.length_map]
        have hchecked := List.forall₂_imp_of_mem (fun t ht w hw => ((ih t ht w).mp hw).1) hitems
        have hstatic := List.forall₂_imp_of_mem (fun t ht w hw => ((ih t ht w).mp hw).2) hitems
        exact ⟨(everywhere_tuple_iff fs vs).mpr ⟨hlength, hchecked⟩,
          (everywhere_tuple_iff fs vs).mpr ⟨trivial, hstatic⟩⟩
      · intro h
        obtain ⟨⟨hhere, hchecked⟩, ⟨-, hstatic⟩⟩ := h
        cases v with
        | tuple vs =>
            rw [everywhereFields_iff] at hchecked hstatic
            have hboth := List.Forall₂.mp (fun _ _ hc hs => And.intro hc hs) hchecked hstatic
            exact ⟨vs, rfl, List.forall₂_imp_of_mem (fun t ht w hw => (ih t ht w).mpr hw) hboth⟩
        | _ => simp [Checked, typeOf, AbiType.compatible] at hhere
  | _ => exact (and_iff_left trivial).symm

end Value

namespace Encode

open Value (Everywhere Checked StaticCarries WellTyped)

variable (scaling : Scaling)

/-- What holds of every value that is written holds, position by position, of a region. -/
theorem forall₂_of_region (P : AbiType → Value → Prop) (ts : List AbiType)
    (ih : ∀ t ∈ ts, ∀ v body, value scaling t v = .ok body → P t v) (vs : List Value)
    (hlength : ts.length = vs.length) (out : Bytes)
    (h : region ts (valueParts scaling ts vs) = .ok out) : List.Forall₂ P ts vs := by
  obtain ⟨ps, hps, -⟩ := (region_eq_ok_iff ts _ out).mp h
  obtain ⟨ws, rfl, rfl, -⟩ := exists_written scaling ts vs ps hlength hps
  rw [List.forall₂_map_left_iff, List.forall₂_map_right_iff, List.forall₂_same]
  exact fun w hw => ih w.kind (List.mem_map_of_mem hw) w.value w.body w.written

/-- A value that is written has passed the comparison at every position. -/
theorem checked_of_value (t : AbiType) (v : Value) (body : Bytes)
    (h : value scaling t v = .ok body) : Everywhere Checked t v := by
  induction t using AbiType.induction generalizing v body with
  | address =>
      obtain ⟨a, rfl, -⟩ := (value_address scaling v body).mp h
      exact AbiType.compatible_refl _
  | uint n =>
      obtain ⟨w, rfl, -⟩ := (value_uint scaling v body n).mp h
      exact AbiType.compatible_refl _
  | int n =>
      obtain ⟨i, rfl, -⟩ := (value_int scaling v body n).mp h
      exact AbiType.compatible_refl _
  | bool =>
      obtain ⟨b, rfl, -⟩ := (value_bool scaling v body).mp h
      exact AbiType.compatible_refl _
  | bytes =>
      obtain ⟨content, rfl, -⟩ := (value_bytes scaling v body).mp h
      exact AbiType.compatible_refl _
  | fixedBytes n =>
      obtain ⟨content, rfl, rfl, -⟩ := (value_fixedBytes scaling v body n).mp h
      exact AbiType.compatible_refl _
  | string =>
      obtain ⟨s, rfl, -⟩ := (value_string scaling v body).mp h
      exact AbiType.compatible_refl _
  | fixed m n =>
      obtain ⟨x, raw, rfl, -⟩ := (value_fixed scaling v body m n).mp h
      exact AbiType.compatible_refl _
  | array e ih =>
      obtain ⟨carried, vs, inner, rfl, hcarried, hregion, -⟩ := (value_array scaling v body e).mp h
      have hitems := forall₂_of_region scaling (Everywhere Checked) _
        (List.forall_mem_replicate.mpr (.inr ih)) vs List.length_replicate inner hregion
      exact ⟨hcarried, ((List.forall₂_replicate_iff _ _ _ _).mp hitems).2⟩
  | fixedArray e n ih =>
      obtain ⟨carried, vs, rfl, hlength, hregion⟩ := (value_fixedArray scaling v body e n).mp h
      have hitems := forall₂_of_region scaling (Everywhere Checked) _
        (List.forall_mem_replicate.mpr (.inr ih)) vs (by rw [List.length_replicate, hlength]) body
        hregion
      exact ⟨hlength, ((List.forall₂_replicate_iff _ _ _ _).mp hitems).2⟩
  | tuple fs ih =>
      obtain ⟨vs, rfl, hlength, hregion⟩ := (value_tuple scaling v body fs).mp h
      have hitems := forall₂_of_region scaling (Everywhere Checked) _ ih vs
        (by rw [List.length_map, hlength]) body hregion
      exact (Value.everywhere_tuple_iff fs vs).mpr ⟨hlength, hitems⟩

end Encode

/-- Values that have been encoded are what their declared descriptors say at every position, but for
the descriptors of elements that static arrays carry.  They are well typed exactly if these are
compatible with the declared ones, too. -/
theorem wellTyped_of_encodeParams (config : Config) (ts : List AbiType) (vs : List Value)
    (out : Bytes) (h : encodeParams config ts vs = .ok out) :
    List.Forall₂ (fun t v => Value.Everywhere Value.Checked t v ∧
      (Value.WellTyped t v ↔ Value.Everywhere Value.StaticCarries t v)) ts vs := by
  obtain ⟨hlength, -, hregion⟩ := (encodeParams_eq_ok_iff config ts vs out).mp h
  refine Encode.forall₂_of_region config.scaling _ ts ?_ vs hlength out hregion
  intro t _ v body hbody
  have hchecked := Encode.checked_of_value config.scaling t v body hbody
  exact ⟨hchecked, (Value.wellTyped_iff t v).trans (and_iff_right hchecked)⟩

/-- The static array carries a descriptor without the declared name of the field. -/
theorem wellTyped_of_encodeParams_unnamed :
    encodeParams Config.standard
        [.tuple [.unnamed (.fixedArray (.tuple [⟨some "amount", .uint 8⟩]) 1), .unnamed (.array .bool)]]
        [.tuple [.fixedArray (.tuple [.unnamed (.uint 8)]) [.tuple [.uint 8 5]],
          .array .bool [.bool true]]] =
      .ok ([32, 5, 64, 1, 1].flatMap (Bytes.ofNat wordSize)) ∧
    Value.WellTyped
      (.tuple [.unnamed (.fixedArray (.tuple [⟨some "amount", .uint 8⟩]) 1), .unnamed (.array .bool)])
      (.tuple [.fixedArray (.tuple [.unnamed (.uint 8)]) [.tuple [.uint 8 5]],
        .array .bool [.bool true]]) := by
  have hencode : encodeParams Config.standard
        [.tuple [.unnamed (.fixedArray (.tuple [⟨some "amount", .uint 8⟩]) 1), .unnamed (.array .bool)]]
        [.tuple [.fixedArray (.tuple [.unnamed (.uint 8)]) [.tuple [.uint 8 5]],
          .array .bool [.bool true]]] =
      .ok ([32, 5, 64, 1, 1].flatMap (Bytes.ofNat wordSize)) := by
    decide +kernel
  have htyped := (List.forall₂_cons.mp (wellTyped_of_encodeParams _ _ _ _ hencode)).1.2
  refine ⟨hencode, htyped.mpr ?_⟩
  simp [Value.Everywhere, Value.EverywhereFields, Value.StaticCarries, Value.items, Value.items?,
    Param.unnamed, AbiType.compatible, AbiType.compatibleFields]

/-- So there are values that are encoded under a descriptor that is not theirs. -/
theorem exists_encoding_of_ill_typed :
    ∃ (config : Config) (t : AbiType) (v : Value) (out : Bytes),
      encodeParams config [t] [v] = .ok out ∧ AbiType.compatible v.typeOf t = false :=
  ⟨Config.standard, .fixedArray (.uint 256) 1, .fixedArray .bool [.uint 256 1],
    Bytes.ofNat wordSize 1, by decide +kernel, by decide +kernel⟩

end ContractAbi
