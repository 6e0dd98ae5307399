import ContractAbi.Encode
import ContractAbi.Proofs.Legality

/-!
# When the encoder succeeds

For each constructor of the descriptors this module says exactly which values are written under it
and as which bytes.  Statements about encoded data are derived from these equivalences and never
unfold the encoder.

Every container is written as one region, from the `valueParts` of a list of descriptors: an array
repeats the descriptor of its elements, a tuple lists the descriptors of its fields.  Descriptors,
values and parts of a region are read off one list (`Written`, `exists_written`), so that what holds of
each position is stated for its member.
-/

namespace ContractAbi
namespace Encode

/-! ## Regions -/

variable (scaling : Scaling)

theorem valueParts_nil_eq_ok_iff (ps : List Part) :
    valueParts scaling [] [] = .ok ps ↔ ps = [] := by
  constructor
  · intro h
    exact (Except.ok.inj h).symm
  · intro h
    exact congrArg Except.ok h.symm

theorem valueParts_cons_eq_ok_iff (t : AbiType) (ts : List AbiType) (v : Value) (vs : List Value)
    (ps : List Part) :
    valueParts scaling (t :: ts) (v :: vs) = .ok ps ↔
      ∃ body rest, value scaling t v = .ok body ∧ valueParts scaling ts vs = .ok rest ∧
        ps = ⟨t.isDynamic, body⟩ :: rest := by
  refine (Except.bind_eq_ok_iff (value scaling t v) _ ps).trans ?_
  constructor
  · intro h
    obtain ⟨body, hbody, h⟩ := h
    obtain ⟨rest, hrest, heq⟩ := (Except.bind_eq_ok_iff _ _ _).mp h
    exact ⟨body, rest, hbody, hrest, (Except.ok.inj heq).symm⟩
  · intro h
    obtain ⟨body, rest, hbody, hrest, rfl⟩ := h
    exact ⟨body, hbody, (Except.bind_eq_ok_iff _ _ _).mpr ⟨rest, hrest, rfl⟩⟩

/-- A value with the descriptor under which it has been written and its encoding. -/
structure Written where
  kind : AbiType
  value : Value
  body : Bytes
  written : Encode.value scaling kind value = .ok body

/-- What it contributes to its region. -/
def Written.part {scaling : Scaling} (w : Written scaling) : Part :=
  ⟨w.kind.isDynamic, w.body⟩

/-- Descriptors, values and parts are the three sides of what has been written, position by position. -/
theorem exists_written (ts : List AbiType) (vs : List Value) (ps : List Part)
    (hlength : ts.length = vs.length) (h : valueParts scaling ts vs = .ok ps) :
    ∃ ws : List (Written scaling),
      ws.map Written.kind = ts ∧ ws.map Written.value = vs ∧ ws.map Written.part = ps := by
  induction ts generalizing vs ps with
  | nil =>
      obtain rfl := List.length_eq_zero_iff.mp hlength.symm
      obtain rfl := (valueParts_nil_eq_ok_iff scaling ps).mp h
      exact ⟨[], rfl, rfl, rfl⟩
  | cons t ts ih =>
      obtain ⟨v, vs, rfl⟩ := List.exists_cons_of_length_eq_add_one hlength.symm
      obtain ⟨body, rest, hbody, hrest, rfl⟩ :=
        (valueParts_cons_eq_ok_iff scaling t ts v vs ps).mp h
      obtain ⟨ws, rfl, rfl, rfl⟩ := ih vs rest (Nat.succ.inj hlength) hrest
      exact ⟨⟨t, v, body, hbody⟩ :: ws, rfl, rfl, rfl⟩

/-- The elements of an array are components that share a descriptor. -/
theorem elementParts_eq_valueParts (e : AbiType) (vs : List Value) :
    elementParts e.isDynamic (value scaling e) vs =
      valueParts scaling (List.replicate vs.length e) vs := by
  induction vs with
  | nil => rfl
  | cons v vs ih =>
      refine bind_congr fun body => ?_
      exact congrArg (· >>= fun ps => pure (⟨e.isDynamic, body⟩ :: ps)) ih

/-- The items of a tuple are components under the descriptors of its fields. -/
theorem fieldParts_eq_valueParts (fs : List Param) (vs : List Value) :
    fieldParts scaling fs vs = valueParts scaling (fs.map Param.kind) vs := by
  induction fs generalizing vs with
  | nil => rfl
  | cons f fs ih =>
      obtain ⟨name, t⟩ := f
      cases vs with
      | nil => rfl
      | cons v vs =>
          refine bind_congr fun body => ?_
          exact congrArg (· >>= fun ps => pure (⟨t.isDynamic, body⟩ :: ps)) (ih vs)

/-- What a region announces for its heads is the sum of what their descriptors announce. -/
theorem regionHeadSize_eq_ite (ts : List AbiType) :
    regionHeadSize ts =
      if maxBuffer < (ts.map AbiType.headSize).sum then .error .unaddressable
      else .ok (ts.map AbiType.headSize).sum := by
  have htotal : ts.foldl (fun total t => total + t.headSize) 0 = (ts.map AbiType.headSize).sum := by
    rw [List.sum_eq_foldl, List.foldl_map]
  rw [regionHeadSize, htotal]

/-- Heads that no buffer can hold are the only reason not to begin. -/
theorem regionHeadSize_eq_ok_iff (ts : List AbiType) (total : Nat) :
    regionHeadSize ts = .ok total ↔
      (ts.map AbiType.headSize).sum ≤ maxBuffer ∧ total = (ts.map AbiType.headSize).sum := by
  rw [regionHeadSize_eq_ite]
  split
  · rename_i hfull
    exact iff_of_false (fun h => nomatch h) fun h => absurd hfull (Nat.not_lt.mpr h.1)
  · rename_i hroom
    rw [Except.ok.injEq, eq_comm]
    exact (and_iff_right (Nat.le_of_not_lt hroom)).symm

/-- A region consists of the parts, behind as many heads as the descriptors announce. -/
theorem region_eq_ok_iff (ts : List AbiType) (parts : Except AbiError (List Part)) (out : Bytes) :
    region ts parts = .ok out ↔
      ∃ ps, parts = .ok ps ∧ (ts.map AbiType.headSize).sum ≤ maxBuffer ∧
        Part.assemble (ts.map AbiType.headSize).sum ps = out := by
  refine (Except.bind_eq_ok_iff (regionHeadSize ts) _ out).trans ?_
  simp only [regionHeadSize_eq_ok_iff]
  constructor
  · intro h
    obtain ⟨total, ⟨hroom, rfl⟩, h⟩ := h
    obtain ⟨ps, hps, hout⟩ := (Except.bind_eq_ok_iff _ _ _).mp h
    exact ⟨ps, hps, hroom, Except.ok.inj hout⟩
  · intro h
    obtain ⟨ps, hps, hroom, rfl⟩ := h
    exact ⟨_, ⟨hroom, rfl⟩, (Except.bind_eq_ok_iff _ _ _).mpr ⟨ps, hps, rfl⟩⟩

/-! ## Values

In each statement the one constructor that goes with the descriptor is looked at; all others are a
mismatch. -/

variable (v : Value) (out : Bytes)

theorem value_address :
    value scaling .address v = .ok out ↔
      ∃ a, v = .address a ∧ Word.toBytes a.toWord = out := by
  cases v with
  | address a =>
      refine (iff_of_eq (Except.ok.injEq _ _)).trans ?_
      simp
  | _ => exact iff_of_false (fun h => nomatch h) (by simp)

theorem value_uint (n : Nat) :
    value scaling (.uint n) v = .ok out ↔
      ∃ w, v = .uint n w ∧ Word.fits w n = true ∧ Word.toBytes w = out := by
  cases v with
  | uint m w =>
      refine (Except.ite_error_eq_ok_iff _ _ _ _).trans ?_
      constructor
      · intro h
        obtain ⟨⟨rfl, hfits⟩, hout⟩ := h
        exact ⟨w, rfl, hfits, Except.ok.inj hout⟩
      · intro h
        obtain ⟨w', heq, hfits, rfl⟩ := h
        cases heq
        exact ⟨⟨rfl, hfits⟩, rfl⟩
  | _ => exact iff_of_false (fun h => nomatch h) (by simp)

theorem value_int (n : Nat) :
    value scaling (.int n) v = .ok out ↔
      ∃ i, v = .int n i ∧ i.fits n = true ∧ Word.toBytes i.toWord = out := by
  cases v with
  | int m i =>
      refine (Except.ite_error_eq_ok_iff _ _ _ _).trans ?_
      constructor
      · intro h
        obtain ⟨⟨rfl, hfits⟩, hout⟩ := h
        exact ⟨i, rfl, hfits, Except.ok.inj hout⟩
      · intro h
        obtain ⟨i', heq, hfits, rfl⟩ := h
        cases heq
        exact ⟨⟨rfl, hfits⟩, rfl⟩
  | _ => exact iff_of_false (fun h => nomatch h) (by simp)

theorem value_bool :
    value scaling .bool v = .ok out ↔
      ∃ b, v = .bool b ∧ Word.toBytes (Word.ofNat b.toNat) = out := by
  cases v with
  | bool b =>
      refine (iff_of_eq (Except.ok.injEq _ _)).trans ?_
      simp
  | _ => exact iff_of_false (fun h => nomatch h) (by simp)

theorem value_bytes :
    value scaling .bytes v = .ok out ↔
      ∃ content, v = .bytes content ∧ lengthPrefixed content = out := by
  cases v with
  | bytes content =>
      refine (iff_of_eq (Except.ok.injEq _ _)).trans ?_
      simp
  | _ => exact iff_of_false (fun h => nomatch h) (by simp)

theorem value_string :
    value scaling .string v = .ok out ↔
      ∃ s, v = .string s ∧ lengthPrefixed (Text.Utf8.encode s) = out := by
  cases v with
  | string s =>
      refine (iff_of_eq (Except.ok.injEq _ _)).trans ?_
      simp
  | _ => exact iff_of_false (fun h => nomatch h) (by simp)

theorem value_fixedBytes (n : Nat) :
    value scaling (.fixedBytes n) v = .ok out ↔
      ∃ content, v = .fixedBytes content ∧ content.length = n ∧ inWord content = out := by
  cases v with
  | fixedBytes content =>
      refine (Except.ite_error_eq_ok_iff _ _ _ _).trans ?_
      simp
  | _ => exact iff_of_false (fun h => nomatch h) (by simp)

theorem value_fixed (m n : Nat) :
    value scaling (.fixed m n) v = .ok out ↔
      ∃ x raw, v = .fixed m n x ∧ x.toWire n scaling = .ok raw ∧ raw.fits m = true ∧
        Word.toBytes raw.toWord = out := by
  cases v with
  | fixed m' n' x =>
      refine (Except.ite_error_eq_ok_iff _ _ _ _).trans ?_
      constructor
      · intro h
        obtain ⟨⟨rfl, rfl⟩, h⟩ := h
        cases hraw : x.toWire n scaling with
        | error cause => simp [hraw] at h
        | ok raw =>
            simp only [hraw] at h
            obtain ⟨hfits, hout⟩ := (Except.ite_error_eq_ok_iff _ _ _ _).mp h
            exact ⟨x, raw, rfl, hraw, hfits, Except.ok.inj hout⟩
      · intro h
        obtain ⟨x', raw, heq, hraw, hfits, rfl⟩ := h
        cases heq
        refine ⟨⟨rfl, rfl⟩, ?_⟩
        simp only [hraw]
        exact (Except.ite_error_eq_ok_iff _ _ _ _).mpr ⟨hfits, rfl⟩
  | _ => exact iff_of_false (fun h => nomatch h) (by simp)

theorem value_array (e : AbiType) :
    value scaling (.array e) v = .ok out ↔
      ∃ carried vs body, v = .array carried vs ∧ AbiType.compatible carried e = true ∧
        region (List.replicate vs.length e)
          (valueParts scaling (List.replicate vs.length e) vs) = .ok body ∧
        Word.toBytes (Word.ofNat vs.length) ++ body = out := by
  cases v with
  | array carried vs =>
      refine (Except.ite_error_eq_ok_iff _ _ _ _).trans ?_
      rw [elementParts_eq_valueParts]
      constructor
      · intro h
        obtain ⟨hcompatible, h⟩ := h
        obtain ⟨body, hbody, hout⟩ := (Except.bind_eq_ok_iff _ _ _).mp h
        exact ⟨carried, vs, body, rfl, hcompatible, hbody, Except.ok.inj hout⟩
      · intro h
        obtain ⟨carried', vs', body, heq, hcompatible, hbody, rfl⟩ := h
        cases heq
        exact ⟨hcompatible, (Except.bind_eq_ok_iff _ _ _).mpr ⟨body, hbody, rfl⟩⟩
  | _ => exact iff_of_false (fun h => nomatch h) (by simp)

theorem value_fixedArray (e : AbiType) (n : Nat) :
    value scaling (.fixedArray e n) v = .ok out ↔
      ∃ carried vs, v = .fixedArray carried vs ∧ vs.length = n ∧
        region (List.replicate n e) (valueParts scaling (List.replicate n e) vs) = .ok out := by
  cases v with
  | fixedArray carried vs =>
      refine (Except.ite_error_eq_ok_iff _ _ _ _).trans ?_
      rw [elementParts_eq_valueParts]
      constructor
      · intro h
        obtain ⟨rfl, h⟩ := h
        exact ⟨carried, vs, rfl, rfl, h⟩
      · intro h
        obtain ⟨carried', vs', heq, rfl, h⟩ := h
        cases heq
        exact ⟨rfl, h⟩
  | _ => exact iff_of_false (fun h => nomatch h) (by simp)

theorem value_tuple (fs : List Param) :
    value scaling (.tuple fs) v = .ok out ↔
      ∃ vs, v = .tuple vs ∧ fs.length = vs.length ∧
        region (fs.map Param.kind) (valueParts scaling (fs.map Param.kind) vs) = .ok out := by
  cases v with
  | tuple vs =>
      refine (Except.ite_error_eq_ok_iff _ _ _ _).trans ?_
      rw [fieldParts_eq_valueParts]
      simp
  | _ => exact iff_of_false (fun h => nomatch h) (by simp)

end Encode

/-- As parameters, values are their own region. -/
theorem encodeParams_of_valid (config : Config) (ts : List AbiType) (vs : List Value)
    (hlength : ts.length = vs.length)
    (hvalid : AbiType.validateAll config.maxDepth ts = .ok ()) :
    encodeParams config ts vs = Encode.region ts (Encode.valueParts config.scaling ts vs) := by
  rw [encodeParams, if_neg (not_not_intro hlength), hvalid]
  rfl

/-- Encoding needs as many values as descriptors, descriptors that have an encoding, and a region
that can be written. -/
theorem encodeParams_eq_ok_iff (config : Config) (ts : List AbiType) (vs : List Value)
    (out : Bytes) :
    encodeParams config ts vs = .ok out ↔
      ts.length = vs.length ∧ AbiType.validateAll config.maxDepth ts = .ok () ∧
        Encode.region ts (Encode.valueParts config.scaling ts vs) = .ok out := by
  by_cases hlength : ts.length = vs.length
  · cases hvalid : AbiType.validateAll config.maxDepth ts with
    | error e =>
        rw [encodeParams, if_neg (not_not_intro hlength), hvalid]
        exact iff_of_false (fun h => nomatch h) (fun h => nomatch h.2.1)
    | ok u =>
        rw [encodeParams_of_valid config ts vs hlength hvalid]
        constructor
        · intro h
          exact ⟨hlength, rfl, h⟩
        · intro h
          exact h.2.2
  · rw [encodeParams, if_pos hlength]
    exact iff_of_false (fun h => nomatch h) (fun h => hlength h.1)

/-- Encoding as many values as there are descriptors fails in validation or in the region. -/
theorem encodeParams_eq_error (config : Config) (ts : List AbiType) (vs : List Value)
    (hlength : ts.length = vs.length) (e : AbiError) (h : encodeParams config ts vs = .error e) :
    (∃ cause, AbiType.validateAll config.maxDepth ts = .error cause ∧ e = .unsupportedType cause) ∨
      (AbiType.validateAll config.maxDepth ts = .ok () ∧
        Encode.region ts (Encode.valueParts config.scaling ts vs) = .error e) := by
  cases hvalid : AbiType.validateAll config.maxDepth ts with
  | error cause =>
      rw [encodeParams, if_neg (not_not_intro hlength), hvalid] at h
      cases h
      exact .inl ⟨cause, rfl, rfl⟩
  | ok u =>
      rw [encodeParams_of_valid config ts vs hlength hvalid] at h
      exact .inr ⟨rfl, h⟩

end ContractAbi
