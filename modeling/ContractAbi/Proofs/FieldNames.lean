import ContractAbi.Proofs.Reading
import ContractAbi.Proofs.UniqueReadability
import ContractAbi.Proofs.Writing

/-!
# Names of fields do not matter

Nothing but the equality of descriptors looks at the names of fields.  For each function on descriptors
this is one equation, that dropping all names first makes no difference; compatible descriptors are the
same without the names, and so the function does not tell them apart.

The decoder is the one function whose results have names in them, since an array carries the declared
descriptor of its elements.  What it reads without the names is what it reads with them, the names then
dropped (`Value.eraseNames`); what it charges and how it fails is the same.
-/

namespace ContractAbi
namespace Value

mutual

/-- The value with descriptors without names in all of its arrays. -/
def eraseNames : Value → Value
  | .array e vs => .array e.eraseNames (eraseItems vs)
  | .fixedArray e vs => .fixedArray e.eraseNames (eraseItems vs)
  | .tuple vs => .tuple (eraseItems vs)
  | v => v

/-- The items with descriptors without names in all of their arrays. -/
def eraseItems : List Value → List Value
  | [] => []
  | v :: vs => eraseNames v :: eraseItems vs

end

theorem eraseItems_eq_map (vs : List Value) : eraseItems vs = vs.map eraseNames := by
  induction vs with
  | nil => rfl
  | cons v vs ih => rw [eraseItems, ih, List.map_cons]

end Value

/-! ## Writing -/

namespace Encode

variable (scaling : Scaling)

theorem mismatch_eraseNames (t : AbiType) (v : Value) : mismatch t.eraseNames v = mismatch t v := by
  rw [mismatch, mismatch, AbiType.text_eraseNames]

/-- The heads of a region are as long without the names. -/
theorem region_eraseNames (ts : List AbiType) (parts : Except AbiError (List Part)) :
    region (ts.map AbiType.eraseNames) parts = region ts parts := by
  have hsizes : (ts.map AbiType.eraseNames).map AbiType.headSize = ts.map AbiType.headSize := by
    rw [List.map_map]
    exact List.map_congr_left fun t _ => AbiType.headSize_eraseNames t
  rw [region, region, regionHeadSize_eq_ite, regionHeadSize_eq_ite, hsizes]

theorem valueParts_eraseNames (ts : List AbiType)
    (ih : ∀ t ∈ ts, ∀ v, value scaling t.eraseNames v = value scaling t v) (vs : List Value) :
    valueParts scaling (ts.map AbiType.eraseNames) vs = valueParts scaling ts vs := by
  induction ts generalizing vs with
  | nil => rfl
  | cons t ts ihts =>
      cases vs with
      | nil => rfl
      | cons v vs =>
          have hrest := ihts (fun u hu => ih u (List.mem_cons_of_mem _ hu)) vs
          rw [List.map_cons, valueParts, valueParts, ih t (List.mem_cons_self ..), hrest,
            AbiType.isDynamic_eraseNames]

/-- A container is one region, and its items are written alike. -/
theorem region_valueParts_eraseNames (ts : List AbiType)
    (ih : ∀ t ∈ ts, ∀ v, value scaling t.eraseNames v = value scaling t v) (vs : List Value) :
    region (ts.map AbiType.eraseNames) (valueParts scaling (ts.map AbiType.eraseNames) vs) =
      region ts (valueParts scaling ts vs) := by
  rw [region_eraseNames, valueParts_eraseNames scaling ts ih]

/-- The bytes of a value, or the error, do not depend on the names. -/
theorem value_eraseNames (t : AbiType) (v : Value) :
    value scaling t.eraseNames v = value scaling t v := by
  induction t using AbiType.induction generalizing v with
  | array e ih =>
      cases v with
      | array carried vs =>
          have hregion := region_valueParts_eraseNames scaling (List.replicate vs.length e)
            (List.forall_mem_replicate.mpr (.inr ih)) vs
          rw [List.map_replicate] at hregion
          have hmismatch := mismatch_eraseNames (.array e) (.array carried vs)
          rw [AbiType.eraseNames] at hmismatch
          rw [AbiType.eraseNames, value, value, AbiType.compatible_eraseNames_right,
            elementParts_eq_valueParts, elementParts_eq_valueParts, hregion, hmismatch]
      | _ => exact congrArg Except.error (mismatch_eraseNames (.array e) _)
  | fixedArray e n ih =>
      cases v with
      | fixedArray carried vs =>
          have hregion := region_valueParts_eraseNames scaling (List.replicate vs.length e)
            (List.forall_mem_replicate.mpr (.inr ih)) vs
          rw [List.map_replicate] at hregion
          rw [AbiType.eraseNames, value, value, elementParts_eq_valueParts,
            elementParts_eq_valueParts, hregion]
      | _ => exact congrArg Except.error (mismatch_eraseNames (.fixedArray e n) _)
  | tuple fs ih =>
      cases v with
      | tuple vs =>
          have hkinds := AbiType.map_kind_eraseFields fs
          have hlength : (AbiType.eraseFields fs).length = fs.length := by
            rw [AbiType.eraseFields_eq_map, List.length_map, List.length_map]
          rw [AbiType.eraseNames, value, value, fieldParts_eq_valueParts, fieldParts_eq_valueParts,
            hkinds, hlength, region_valueParts_eraseNames scaling _ ih]
      | _ => exact congrArg Except.error (mismatch_eraseNames (.tuple fs) _)
  | _ => rfl

end Encode

theorem encodeParams_eraseNames (config : Config) (ts : List AbiType) (vs : List Value) :
    encodeParams config (ts.map AbiType.eraseNames) vs = encodeParams config ts vs := by
  rw [encodeParams, encodeParams, List.length_map, AbiType.validateAll_eraseNames,
    Encode.region_valueParts_eraseNames config.scaling ts
      fun t _ => Encode.value_eraseNames config.scaling t]

/-! ## Reading -/

namespace Decode

variable (config : Config) (data : Input)

/-- A function that leaves all results of a reader alone leaves the reader alone. -/
theorem map_eq_self (f : Value → Value) (m : Reader Nat Value)
    (h : ∀ s v t, m.run s = .ok v t → f v = v) : f <$> m = m := by
  funext s
  show (f <$> m).run s = m.run s
  rw [← bind_pure_comp, EStateM.run_bind]
  cases hrun : m.run s with
  | ok v t =>
      show EStateM.Result.ok (f v) t = _
      rw [h s v t hrun]
  | error e t => rfl

/-- There are no names in a leaf. -/
theorem eraseNames_of_run (t : AbiType) (hleaf : t.depth = 0) (position s x : Nat) (v : Value)
    (h : (value config data t position).run s = .ok v x) : v.eraseNames = v := by
  cases t with
  | address =>
      obtain ⟨w, -, -, rfl⟩ := (run_address data s x config position v).mp h
      rfl
  | uint n =>
      obtain ⟨w, -, -, rfl⟩ := (run_uint data s x config n position v).mp h
      rfl
  | int n =>
      obtain ⟨i, -, rfl⟩ := (run_int data s x config n position v).mp h
      rfl
  | bool =>
      obtain ⟨w, -, -, rfl⟩ := (run_bool data s x config position v).mp h
      rfl
  | bytes =>
      obtain ⟨content, -, rfl⟩ := (run_bytes data s x config position v).mp h
      rfl
  | fixedBytes n =>
      obtain ⟨w, -, -, -, rfl⟩ := (run_fixedBytes data s x config n position v).mp h
      rfl
  | string =>
      obtain ⟨content, text, -, -, rfl⟩ := (run_string data s x config position v).mp h
      rfl
  | fixed m n =>
      obtain ⟨raw, d, -, -, rfl⟩ := (run_fixed data s x config m n position v).mp h
      rfl
  | _ => simp [AbiType.depth] at hleaf

theorem component_eraseNames (t : AbiType) (read : Nat → Reader Nat Value) (start cursor : Nat) :
    component data t.eraseNames (fun position => Value.eraseNames <$> read position) start cursor =
      Prod.map Value.eraseNames id <$> component data t read start cursor := by
  unfold component
  rw [AbiType.isDynamic_eraseNames, AbiType.headSize_eraseNames]
  split
  · simp only [map_bind, bind_map_left, map_pure, Prod.map, id]
  · simp only [map_bind, bind_map_left, map_pure, Prod.map, id]

theorem region_eraseNames (ts : List AbiType)
    (ih : ∀ t ∈ ts, ∀ position, (value config data t.eraseNames position : Reader Nat Value) =
      Value.eraseNames <$> value config data t position) (start cursor : Nat) :
    (region config data (ts.map AbiType.eraseNames) start cursor : Reader Nat (List Value)) =
      List.map Value.eraseNames <$> region config data ts start cursor := by
  induction ts generalizing cursor with
  | nil => rfl
  | cons t ts ihts =>
      have hread : (value config data t.eraseNames : Nat → Reader Nat Value) =
          fun position => Value.eraseNames <$> value config data t position :=
        funext (ih t (List.mem_cons_self ..))
      have hrest := ihts fun u hu => ih u (List.mem_cons_of_mem _ hu)
      rw [List.map_cons, region, region, hread, component_eraseNames]
      simp only [hrest, map_bind, bind_map_left, map_pure, Prod.map, id, List.map_cons]

/-- A value is read alike, and only what its arrays carry is without the names. -/
theorem value_eraseNames (t : AbiType) (position : Nat) :
    (value config data t.eraseNames position : Reader Nat Value) =
      Value.eraseNames <$> value config data t position := by
  induction t using AbiType.induction generalizing position with
  | array e ih =>
      have hitems : ∀ count start, (region config data (List.replicate count e.eraseNames) start start :
            Reader Nat (List Value)) =
          List.map Value.eraseNames <$> region config data (List.replicate count e) start start := by
        intro count start
        rw [← List.map_replicate]
        exact region_eraseNames config data _ (List.forall_mem_replicate.mpr (.inr ih)) start start
      simp only [AbiType.eraseNames, value, elements_eq_region, AbiType.headSize_eraseNames, hitems,
        map_bind, bind_map_left, map_pure, Value.eraseNames, Value.eraseItems_eq_map]
  | fixedArray e n ih =>
      have hitems := region_eraseNames config data (List.replicate n e)
        (List.forall_mem_replicate.mpr (.inr ih)) position position
      rw [List.map_replicate] at hitems
      simp only [AbiType.eraseNames, value, elements_eq_region, AbiType.headSize_eraseNames, hitems,
        map_bind, bind_map_left, map_pure, Value.eraseNames, Value.eraseItems_eq_map]
  | tuple fs ih =>
      have hitems := region_eraseNames config data (fs.map Param.kind) ih position position
      rw [← AbiType.map_kind_eraseFields] at hitems
      simp only [AbiType.eraseNames, value, fields_eq_region, hitems, map_bind, bind_map_left,
        map_pure, Value.eraseNames, Value.eraseItems_eq_map]
  | _ => exact (map_eq_self _ _ fun s v x => eraseNames_of_run config data _ rfl position s x v).symm

end Decode

/-- Without the names the same data is decoded, to the same values but for the names in them, or
refused for the same reason. -/
theorem decode_eraseNames (config : Config) (ts : List AbiType) (data : Bytes) :
    decode config (ts.map AbiType.eraseNames) data =
      (decode config ts data).map (List.map Value.eraseNames) := by
  have hregion := Decode.region_eraseNames config data.toArray ts
    (fun t _ => Decode.value_eraseNames config data.toArray t) 0 0
  rw [decode, decode, AbiType.validateAll_eraseNames, hregion, ← bind_pure_comp, EStateM.run_bind]
  cases AbiType.validateAll config.maxDepth ts with
  | error cause => rfl
  | ok u =>
      cases (Decode.region config data.toArray ts 0 0).run (0 : Nat) with
      | ok vs t => rfl
      | error e t => rfl

/-- Compatible descriptors are the same for validation, for the encoder and in signatures.  The decoder
refuses the same data for the same reason under either of them, and the values that it returns differ in
the names of fields alone. -/
theorem indistinguishable_of_compatible (config : Config) (ts us : List AbiType)
    (h : List.Forall₂ (fun t u => AbiType.compatible t u = true) ts us) :
    AbiType.validateAll config.maxDepth ts = AbiType.validateAll config.maxDepth us ∧
    (∀ vs, encodeParams config ts vs = encodeParams config us vs) ∧
    (∀ name, signature name ts = signature name us) ∧
    ∀ data,
      (∃ e, decode config ts data = .error e ∧ decode config us data = .error e) ∨
      ∃ vs ws, decode config ts data = .ok vs ∧ decode config us data = .ok ws ∧
        vs.map Value.eraseNames = ws.map Value.eraseNames := by
  have herased := AbiType.map_eraseNames_of_compatible ts us h
  refine ⟨?_, fun vs => ?_, fun name => ?_, fun data => ?_⟩
  · rw [← AbiType.validateAll_eraseNames, herased, AbiType.validateAll_eraseNames]
  · rw [← encodeParams_eraseNames, herased, encodeParams_eraseNames]
  · rw [← signature_eraseNames, herased, signature_eraseNames]
  · have hdecode : (decode config ts data).map (List.map Value.eraseNames) =
        (decode config us data).map (List.map Value.eraseNames) := by
      rw [← decode_eraseNames, herased, decode_eraseNames]
    cases hts : decode config ts data with
    | error e =>
        cases hus : decode config us data with
        | error e' =>
            rw [hts, hus] at hdecode
            cases hdecode
            exact .inl ⟨e, rfl, rfl⟩
        | ok ws =>
            rw [hts, hus] at hdecode
            contradiction
    | ok vs =>
        cases hus : decode config us data with
        | error e' =>
            rw [hts, hus] at hdecode
            contradiction
        | ok ws =>
            rw [hts, hus] at hdecode
            exact .inr ⟨vs, ws, rfl, rfl, Except.ok.inj hdecode⟩

/-- An array of tuples with a named field: the name comes back with the values, and nowhere else. -/
theorem indistinguishable_of_compatible_named :
    let named := [AbiType.array (.tuple [⟨some "amount", .uint 8⟩])]
    let unnamed := [AbiType.array (.tuple [⟨none, .uint 8⟩])]
    let data := [32, 1, 5].flatMap (Bytes.ofNat wordSize)
    decode Config.standard named data =
        .ok [.array (.tuple [⟨some "amount", .uint 8⟩]) [.tuple [.uint 8 5]]] ∧
      decode Config.standard unnamed data =
        .ok [.array (.tuple [⟨none, .uint 8⟩]) [.tuple [.uint 8 5]]] ∧
      (∀ vs, encodeParams Config.standard named vs = encodeParams Config.standard unnamed vs) ∧
      signature "pay" named = signature "pay" unnamed := by
  intro named unnamed data
  have hcompatible : List.Forall₂ (fun t u => AbiType.compatible t u = true) named unnamed :=
    .cons (by decide) .nil
  obtain ⟨-, hencode, hsignature, -⟩ :=
    indistinguishable_of_compatible Config.standard named unnamed hcompatible
  exact ⟨by decide +kernel, by decide +kernel, hencode, hsignature "pay"⟩

end ContractAbi
