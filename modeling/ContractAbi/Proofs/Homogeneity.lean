import ContractAbi.Proofs.Relocation
import ContractAbi.Proofs.TypeSoundness

/-!
# Arrays are tuples of equal fields

A static array and the tuple with as many fields, all of them of the element's descriptor, are laid out
alike, and the body of a dynamic array is the count in front of the same region.  Arrays and tuples go
separate ways in every part of the library: validation multiplies for the one and adds for the other,
encoding repeats a descriptor or goes along the fields, and decoding compares the elements of an array,
but not the fields of a tuple, with the room that is left before it reads any of them.

* `valid_tuple_iff_valid_fixedArray`, `headSize_tuple_of_kinds` and `value_tuple_of_kinds` compare the
  descriptors and what is written under them.
* `run_tuple_iff_run_fixedArray` compares what is read.  The comparison with the room never refuses
  anything that can be read, because the heads that have been read lie in the data (`room_of_region`).
* `encodeParams_singleton` and `run_region_singleton_congr` carry this to values that are alone in their
  region, and `fixedArray_as_tuple` puts everything together.
-/

namespace ContractAbi

/-! ## Descriptors -/

namespace AbiType

/-- A valid static array makes a valid dynamic one. -/
theorem valid_array_of_fixedArray (limit : Nat) (e : AbiType) (count : Nat)
    (h : Valid limit (.fixedArray e count)) : Valid limit (.array e) := by
  obtain ⟨below, rfl⟩ : ∃ below, limit = below + 1 :=
    Nat.exists_eq_add_of_le' (h.depth 1 e (.fixedArray (.here e)))
  have helement := ((valid_succ_iff below _).mp h).2.2.2
  exact (valid_succ_iff below _).mpr ⟨trivial, trivial, trivial, helement⟩

section Kinds

variable (e : AbiType) (count : Nat) (fs : List Param)
  (hkinds : fs.map Param.kind = List.replicate count e)
include hkinds

/-- Multiplication and addition accept the same sizes. -/
theorem sizeFits_tuple_iff : SizeFits (.tuple fs) ↔ SizeFits (.fixedArray e count) := by
  rw [SizeFits, SizeFits, hkinds, List.map_replicate, List.sum_replicate_nat, Nat.mul_comm]

variable (hcount : count ≠ 0)
include hcount

theorem mem_kinds : e ∈ fs.map Param.kind := by
  rw [hkinds]
  exact List.mem_replicate.mpr ⟨hcount, rfl⟩

theorem isDynamic_tuple_of_kinds : isDynamic (.tuple fs) = isDynamic (.fixedArray e count) := by
  rw [isDynamic, isDynamic, anyDynamic_eq_any, hkinds, List.any_replicate, if_neg hcount]

theorem valid_tuple_iff_valid_fixedArray (limit : Nat) :
    Valid limit (.tuple fs) ↔ Valid limit (.fixedArray e count) := by
  have hfields : fs ≠ [] := by
    rintro rfl
    exact hcount ((List.replicate_eq_nil_iff e).mp hkinds.symm)
  have hinner : (∀ s ∈ (AbiType.tuple fs).inner, Valid (limit - 1) s) ↔
      ∀ s ∈ (AbiType.fixedArray e count).inner, Valid (limit - 1) s := by
    rw [inner, inner, hkinds, List.reverse_replicate]
    simp [List.mem_replicate, hcount]
  cases limit with
  | zero =>
      -- Both are containers, and there is room for none.
      refine iff_of_false (fun h => ?_) fun h => ?_
      · have hroom := h.depth 1 e (.tuple (mem_kinds e count fs hkinds hcount) (.here e))
        contradiction
      · have hroom := h.depth 1 e (.fixedArray (.here e))
        contradiction
  | succ below =>
      rw [valid_succ_iff, valid_succ_iff, sizeFits_tuple_iff e count fs hkinds]
      exact and_congr Iff.rfl (and_congr (iff_of_true hfields hcount) (and_congr Iff.rfl hinner))

theorem headSize_tuple_of_kinds (hsized : Sized (.fixedArray e count))
    (hsized' : Sized (.tuple fs)) : headSize (.tuple fs) = headSize (.fixedArray e count) := by
  have hlayout := isDynamic_tuple_of_kinds e count fs hkinds hcount
  cases hdynamic : isDynamic (.fixedArray e count) with
  | true =>
      rw [headSize_of_isDynamic _ hdynamic, headSize_of_isDynamic _ (hlayout.trans hdynamic)]
  | false =>
      rw [headSize_fixedArray e count hsized hdynamic,
        headSize_tuple fs hsized' (hlayout.trans hdynamic), hkinds]

end Kinds
end AbiType

/-! ## What is written -/

namespace Encode

/-- The items are written into the same region. -/
theorem value_tuple_of_kinds (scaling : Scaling) (e : AbiType) (count : Nat) (fs : List Param)
    (hkinds : fs.map Param.kind = List.replicate count e) (carried : AbiType) (vs : List Value)
    (hlength : vs.length = count) :
    value scaling (.tuple fs) (.tuple vs) =
      value scaling (.fixedArray e count) (.fixedArray carried vs) := by
  have hfields : fs.length = vs.length := by
    rw [← List.length_map Param.kind, hkinds, List.length_replicate, hlength]
  have htuple : value scaling (.tuple fs) (.tuple vs) =
      region (fs.map Param.kind) (fieldParts scaling fs vs) := if_pos hfields
  have harray : value scaling (.fixedArray e count) (.fixedArray carried vs) =
      region (List.replicate vs.length e) (elementParts e.isDynamic (value scaling e) vs) :=
    if_pos hlength
  rw [htuple, harray, fieldParts_eq_valueParts, elementParts_eq_valueParts, hkinds, hlength]

/-- The body of a dynamic array is the count and the region of the elements. -/
theorem value_array_eq_map (scaling : Scaling) (e carried : AbiType) (vs : List Value)
    (hcarried : AbiType.compatible carried e = true) :
    value scaling (.array e) (.array carried vs) =
      (region (List.replicate vs.length e)
        (valueParts scaling (List.replicate vs.length e) vs)).map
          (Bytes.ofNat wordSize vs.length ++ ·) := by
  rw [value, if_pos hcarried, elementParts_eq_valueParts, Word.toBytes_ofNat]
  rfl

end Encode

/-! ## What is read -/

namespace Decode

variable (config : Config) (data : Input) (e : AbiType) (count : Nat)

/-- Elements that have been read fit between their region's start and the end of the data. -/
theorem room_of_region (hlegal : e.Legal) (hsized : e.Sized) (hcount : count ≠ 0)
    (position s t : Nat) (vs : List Value)
    (h : (region config data (List.replicate count e) position position).run s = .ok vs t) :
    min maxSize (count * e.headSize + position) ≤ data.size := by
  by_cases hdata : data.size < maxSize
  · have hread : ∀ u ∈ List.replicate count e, u.isDynamic = false → ∀ position (s s' : Nat) v,
        (value config data u position).run s = .ok v s' → position + u.headSize ≤ data.size := by
      intro u hu hstatic position s s' v hv
      obtain rfl := List.eq_of_mem_replicate hu
      exact le_size_of_static data hdata config u hlegal hsized hstatic position s s' v hv
    rcases le_size_of_heads data config _ hread position position s t vs h with hempty | hheads
    · exact absurd ((List.replicate_eq_nil_iff e).mp hempty) hcount
    · rw [List.map_replicate, List.sum_replicate_nat] at hheads
      omega
  · omega

/-- The fields of the tuple are read exactly where the elements of the array are. -/
theorem run_tuple_iff_run_fixedArray (hlegal : e.Legal) (hsized : e.Sized) (hcount : count ≠ 0)
    (fs : List Param) (hkinds : fs.map Param.kind = List.replicate count e) (position s t : Nat)
    (vs : List Value) :
    (value config data (.tuple fs) position).run s = .ok (.tuple vs) t ↔
      (value config data (.fixedArray e count) position).run s = .ok (.fixedArray e vs) t := by
  rw [run_tuple, run_fixedArray, hkinds]
  constructor
  · rintro ⟨vs', hvs, heq⟩
    cases heq
    exact ⟨vs, room_of_region config data e count hlegal hsized hcount position s t vs hvs, hvs,
      rfl⟩
  · rintro ⟨vs', -, hvs, heq⟩
    cases heq
    exact ⟨vs, hvs, rfl⟩

theorem run_region_singleton (t : AbiType) (v : Value) (start s s' : Nat) :
    (region config data [t] start start).run s = .ok [v] s' ↔
      ∃ next, (component data t (value config data t) start start).run s = .ok (v, next) s' := by
  rw [run_region_cons]
  simp only [run_region_nil]
  constructor
  · rintro ⟨v', next, x, rest, hcomponent, ⟨rfl, rfl⟩, heq⟩
    cases heq
    exact ⟨next, hcomponent⟩
  · rintro ⟨next, hcomponent⟩
    exact ⟨v, next, s', [], hcomponent, ⟨rfl, rfl⟩, rfl⟩

/-- Descriptors of one layout are read alike where they are alone, if they are read alike at all. -/
theorem run_region_singleton_congr (t u : AbiType) (hdynamic : t.isDynamic = u.isDynamic)
    (hsize : t.headSize = u.headSize) (v w : Value)
    (hread : ∀ position (s s' : Nat), (value config data t position).run s = .ok v s' ↔
      (value config data u position).run s = .ok w s') (start s s' : Nat) :
    (region config data [t] start start).run s = .ok [v] s' ↔
      (region config data [u] start start).run s = .ok [w] s' := by
  simp only [run_region_singleton, run_component, hdynamic, hsize, hread]

end Decode

/-- A value that is decoded on its own has been read. -/
theorem exists_run_of_decode_singleton (config : Config) (t : AbiType) (data : Bytes)
    (vs : List Value) (h : decode config [t] data = .ok vs) :
    ∃ v, vs = [v] ∧ ∃ position, ∃ s s' : Nat,
      (Decode.value config data.toArray t position).run s = .ok v s' := by
  obtain ⟨-, s, hrun⟩ := (decode_eq_ok_iff config [t] data vs).mp h
  have hitems := Decode.forall₂_of_region config data.toArray
    (fun u v => ∃ position, ∃ s s' : Nat,
      (Decode.value config data.toArray u position).run s = .ok v s') [t]
    (fun u _ position s s' v hv => ⟨position, s, s', hv⟩) 0 0 0 s vs hrun
  obtain ⟨v, rest, hv, hrest, rfl⟩ := List.forall₂_cons_left_iff.mp hitems
  obtain rfl := List.forall₂_nil_left_iff.mp hrest
  exact ⟨v, rfl, hv⟩

section Arrays

variable (config : Config) (e : AbiType) (count : Nat) (hcount : count ≠ 0) (fs : List Param)
  (hkinds : fs.map Param.kind = List.replicate count e)
include hcount hkinds

theorem validate_fixedArray_iff_validate_tuple :
    AbiType.validate config.maxDepth (.fixedArray e count) = .ok () ↔
      AbiType.validate config.maxDepth (.tuple fs) = .ok () := by
  rw [← AbiType.valid_iff_validate_eq_ok, ← AbiType.valid_iff_validate_eq_ok]
  exact (AbiType.valid_tuple_iff_valid_fixedArray e count fs hkinds hcount config.maxDepth).symm

/-- A static array is written as the tuple is, and refused as it is. -/
theorem encodeParams_fixedArray_eq_tuple
    (hvalid : AbiType.validate config.maxDepth (.fixedArray e count) = .ok ())
    (carried : AbiType) (vs : List Value) (hlength : vs.length = count) :
    encodeParams config [.fixedArray e count] [.fixedArray carried vs] =
      encodeParams config [.tuple fs] [.tuple vs] := by
  have hvalid' := (validate_fixedArray_iff_validate_tuple config e count hcount fs hkinds).mp hvalid
  have hdynamic := AbiType.isDynamic_tuple_of_kinds e count fs hkinds hcount
  have hsize := AbiType.headSize_tuple_of_kinds e count fs hkinds hcount
    (AbiType.legal_and_sized_of_validate _ _ hvalid).2
    (AbiType.legal_and_sized_of_validate _ _ hvalid').2
  have hvalue := Encode.value_tuple_of_kinds config.scaling e count fs hkinds carried vs hlength
  rw [encodeParams_singleton config _ hvalid, encodeParams_singleton config _ hvalid', hvalue,
    AbiType.front, AbiType.front, hdynamic, Encode.regionHeadSize_eq_ite,
    Encode.regionHeadSize_eq_ite, List.map_singleton, List.map_singleton, hsize]

/-- The same values are decoded. -/
theorem decode_fixedArray_iff_decode_tuple (data : Bytes) (vs : List Value) :
    decode config [.fixedArray e count] data = .ok [.fixedArray e vs] ↔
      decode config [.tuple fs] data = .ok [.tuple vs] := by
  have hvalidate := validate_fixedArray_iff_validate_tuple config e count hcount fs hkinds
  rw [decode_eq_ok_iff, decode_eq_ok_iff, AbiType.validateAll_singleton,
    AbiType.validateAll_singleton, ← hvalidate]
  refine and_congr_right fun hvalid => exists_congr fun s => ?_
  obtain ⟨hlegal, hsized⟩ := AbiType.legal_and_sized_of_validate _ _ hvalid
  refine (Decode.run_region_singleton_congr config data.toArray _ _
    (AbiType.isDynamic_tuple_of_kinds e count fs hkinds hcount)
    (AbiType.headSize_tuple_of_kinds e count fs hkinds hcount hsized
      (AbiType.legal_and_sized_of_validate _ _ (hvalidate.mp hvalid)).2) _ _ ?_ 0 0 s).symm
  exact fun position s s' => Decode.run_tuple_iff_run_fixedArray config data.toArray e count
    hlegal.2 hsized.1 hcount fs hkinds position s s' vs

/-- Neither is refused where the other is accepted. -/
theorem decode_fixedArray_accepts_iff (data : Bytes) :
    (∃ ws, decode config [.fixedArray e count] data = .ok ws) ↔
      ∃ ws, decode config [.tuple fs] data = .ok ws := by
  have hiff := decode_fixedArray_iff_decode_tuple config e count hcount fs hkinds data
  constructor
  · rintro ⟨ws, hws⟩
    obtain ⟨v, rfl, position, s, s', hv⟩ := exists_run_of_decode_singleton config _ data ws hws
    obtain ⟨vs, -, -, rfl⟩ := (Decode.run_fixedArray _ s s' config e count position v).mp hv
    exact ⟨_, (hiff vs).mp hws⟩
  · rintro ⟨ws, hws⟩
    obtain ⟨v, rfl, position, s, s', hv⟩ := exists_run_of_decode_singleton config _ data ws hws
    obtain ⟨vs, -, rfl⟩ := (Decode.run_tuple _ s s' config fs position v).mp hv
    exact ⟨_, (hiff vs).mpr hws⟩

end Arrays

/-- A dynamic array is written as its offset, the count and the region of its elements. -/
theorem encodeParams_array (config : Config) (e : AbiType)
    (hvalid : AbiType.validate config.maxDepth (.array e) = .ok ()) (carried : AbiType)
    (hcarried : AbiType.compatible carried e = true) (vs : List Value) :
    encodeParams config [.array e] [.array carried vs] =
      (encodeParams config (List.replicate vs.length e) vs).map fun region =>
        Bytes.ofNat wordSize wordSize ++ (Bytes.ofNat wordSize vs.length ++ region) := by
  have helement : AbiType.validate config.maxDepth e = .ok () :=
    AbiType.validate_of_occurs hvalid (.array (.here e))
  have hall := (AbiType.validateAll_eq_ok_iff config.maxDepth (List.replicate vs.length e)).mpr
    (List.forall_mem_replicate.mpr (.inr helement))
  rw [encodeParams_singleton config _ hvalid, Encode.value_array_eq_map config.scaling e _ vs hcarried,
    encodeParams_of_valid config _ vs (List.length_replicate ..) hall]
  cases Encode.region (List.replicate vs.length e)
      (Encode.valueParts config.scaling (List.replicate vs.length e) vs) with
  | error cause => rfl
  | ok region => rfl

/-- A static array is the tuple of as many equal fields.  Validation accepts both or neither; the same
values are written as the same bytes, or fail with the same error; and any data, canonical or not, is
decoded to the same values under both or refused under both, although only an array compares its
elements with the room that is left.  The elements of a dynamic array are written as the region that
they are on their own, behind the count. -/
theorem fixedArray_as_tuple (config : Config) (e : AbiType) (count : Nat) (hcount : count ≠ 0)
    (fs : List Param) (hkinds : fs.map Param.kind = List.replicate count e) :
    (AbiType.validate config.maxDepth (.fixedArray e count) = .ok () ↔
      AbiType.validate config.maxDepth (.tuple fs) = .ok ()) ∧
    (AbiType.validate config.maxDepth (.fixedArray e count) = .ok () →
      ∀ vs : List Value, vs.length = count →
        (∀ carried, encodeParams config [.fixedArray e count] [.fixedArray carried vs] =
          encodeParams config [.tuple fs] [.tuple vs]) ∧
        encodeParams config [.array e] [.array e vs] =
          (encodeParams config (List.replicate count e) vs).map fun region =>
            Bytes.ofNat wordSize wordSize ++ (Bytes.ofNat wordSize count ++ region)) ∧
    ∀ data,
      (∀ vs, decode config [.fixedArray e count] data = .ok [.fixedArray e vs] ↔
        decode config [.tuple fs] data = .ok [.tuple vs]) ∧
      ((∃ ws, decode config [.fixedArray e count] data = .ok ws) ↔
        ∃ ws, decode config [.tuple fs] data = .ok ws) := by
  refine ⟨validate_fixedArray_iff_validate_tuple config e count hcount fs hkinds, ?_, ?_⟩
  · rintro hvalid vs rfl
    have harray : AbiType.validate config.maxDepth (.array e) = .ok () := by
      rw [← AbiType.valid_iff_validate_eq_ok] at hvalid ⊢
      exact AbiType.valid_array_of_fixedArray config.maxDepth e _ hvalid
    exact ⟨fun carried => encodeParams_fixedArray_eq_tuple config e _ hcount fs hkinds hvalid carried
        vs rfl,
      encodeParams_array config e harray e (AbiType.compatible_refl e) vs⟩
  · intro data
    exact ⟨decode_fixedArray_iff_decode_tuple config e count hcount fs hkinds data,
      decode_fixedArray_accepts_iff config e count hcount fs hkinds data⟩

/-- Both offsets lead to the same content. -/
theorem fixedArray_as_tuple_aliased :
    [⟨some "first", .bytes⟩, .unnamed .bytes].map Param.kind = List.replicate 2 .bytes ∧
    encodeParams Config.standard [.fixedArray .bytes 2] [.fixedArray .bytes [.bytes [1], .bytes []]] =
      .ok ([32, 64, 128, 1, 1 <<< 248, 0].flatMap (Bytes.ofNat wordSize)) ∧
    encodeParams Config.standard [.array .bytes] [.array .bytes [.bytes [1], .bytes []]] =
      .ok ([32, 2, 64, 128, 1, 1 <<< 248, 0].flatMap (Bytes.ofNat wordSize)) ∧
    decode Config.standard [.fixedArray .bytes 2]
        ([32, 64, 64, 1, 1 <<< 248, 5].flatMap (Bytes.ofNat wordSize)) =
      .ok [.fixedArray .bytes [.bytes [1], .bytes [1]]] := by
  have hkinds : [⟨some "first", .bytes⟩, .unnamed .bytes].map Param.kind =
      List.replicate 2 AbiType.bytes := rfl
  obtain ⟨-, hencode, hdecode⟩ := fixedArray_as_tuple Config.standard .bytes 2 (by decide) _ hkinds
  obtain ⟨hfixed, harray⟩ := hencode (by decide +kernel) [.bytes [1], .bytes []] rfl
  refine ⟨hkinds, (hfixed .bytes).trans (by decide +kernel), harray.trans (by decide +kernel), ?_⟩
  exact ((hdecode _).1 _).mpr (by decide +kernel)

end ContractAbi
