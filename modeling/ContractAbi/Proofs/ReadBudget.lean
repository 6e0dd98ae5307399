import ContractAbi.Proofs.Simulation
import ContractAbi.Proofs.TypeSoundness

/-!
# Decoding does not expand its input

Offsets may alias, so the same bytes may be read many times.  `Value.weight` is what reading a value
takes, with multiplicity; a run that succeeds charges exactly the weight of what it returns, and no
run ever charges more than the length of the data.

That holds at every point of a run.  Run on the meter that keeps all charges, the decoder leaves the
whole history of the run behind, also when it fails; `alike_region` says that this is a run of the
decoder proper, since no step looks at more of the meter than the sum.
-/

namespace ContractAbi

namespace Value

mutual

/-- The bytes that have to be read for a value: one word for a number or a length, and the content
of a byte sequence. -/
def weight : Value → Nat
  | .bytes content => wordSize + content.length
  | .string s => wordSize + (Text.Utf8.encode s).length
  | .array _ vs => wordSize + regionWeight vs
  | .fixedArray _ vs => regionWeight vs
  | .tuple vs => regionWeight vs
  | _ => wordSize

/-- The bytes that have to be read for the components of a region, the offset words of the dynamic
ones included. -/
def regionWeight : List Value → Nat
  | [] => 0
  | v :: vs => (if v.typeOf.isDynamic then wordSize else 0) + weight v + regionWeight vs

end

/-! ## Weights of well-typed values -/

theorem isDynamic_typeOf (t : AbiType) (v : Value) (h : WellTyped t v) :
    v.typeOf.isDynamic = t.isDynamic :=
  AbiType.isDynamic_of_compatible _ _ (compatible_of_wellTyped v t h)

/-- What is charged for a static component is what its descriptor announces. -/
theorem regionWeight_of_static (ts : List AbiType) (hstatic : ∀ t ∈ ts, t.isDynamic = false)
    (ih : ∀ t ∈ ts, ∀ v, WellTyped t v → v.weight = t.headSize) (vs : List Value)
    (h : List.Forall₂ WellTyped ts vs) : regionWeight vs = (ts.map AbiType.headSize).sum := by
  induction h with
  | nil => rfl
  | @cons t v ts vs hv _ ihvs =>
      have hdynamic := isDynamic_typeOf t v hv
      rw [hstatic t (List.mem_cons_self ..)] at hdynamic
      rw [regionWeight, hdynamic, ih t (List.mem_cons_self ..) v hv,
        ihvs (fun u hu => hstatic u (List.mem_cons_of_mem _ hu))
          (fun u hu => ih u (List.mem_cons_of_mem _ hu)), List.map_cons, List.sum_cons]
      simp

theorem weight_of_static (t : AbiType) (hsized : t.Sized) (hstatic : t.isDynamic = false)
    (v : Value) (h : WellTyped t v) : v.weight = t.headSize := by
  induction t using AbiType.induction generalizing v with
  | bytes => contradiction
  | string => contradiction
  | array e => contradiction
  | fixedArray e n ih =>
      obtain ⟨carried, vs, rfl, hlength, -, hitems⟩ := (wellTyped_fixedArray_iff v e n).mp h
      rw [AbiType.headSize_fixedArray e n hsized hstatic, weight]
      exact regionWeight_of_static (List.replicate n e)
        (List.forall_mem_replicate.mpr (.inr hstatic))
        (List.forall_mem_replicate.mpr (.inr (ih hsized.1 hstatic))) vs
        ((List.forall₂_replicate_iff _ _ _ _).mpr ⟨hlength, hitems⟩)
  | tuple fs ih =>
      obtain ⟨vs, rfl, hitems⟩ := (wellTyped_tuple_iff v fs).mp h
      have hany : AbiType.anyDynamic fs = false := hstatic
      rw [AbiType.headSize_tuple fs hsized hany, weight]
      have hfields := (AbiType.anyDynamic_eq_false_iff fs).mp hany
      exact regionWeight_of_static _ hfields
        (fun u hu => ih u hu ((AbiType.sizedFields_iff fs).mp hsized.1 u hu) (hfields u hu)) vs hitems
  | _ =>
      cases v <;> simp_all [WellTyped, Everywhere, typeOf, AbiType.compatible, weight,
        AbiType.headSize]

/-- No more is announced for the heads of a region than is charged for its components. -/
theorem sum_headSize_le_regionWeight (ts : List AbiType) (hsized : ∀ t ∈ ts, t.Sized)
    (vs : List Value) (h : List.Forall₂ WellTyped ts vs) :
    (ts.map AbiType.headSize).sum ≤ regionWeight vs := by
  induction h with
  | nil => exact Nat.zero_le _
  | @cons t v ts vs hv _ ih =>
      have hrest := ih fun u hu => hsized u (List.mem_cons_of_mem _ hu)
      have hdynamic := isDynamic_typeOf t v hv
      rw [List.map_cons, List.sum_cons, regionWeight, hdynamic]
      cases hkind : t.isDynamic with
      | true =>
          have hhead := AbiType.headSize_of_isDynamic t hkind
          simp only [if_true]
          omega
      | false =>
          have hhead := weight_of_static t (hsized t (List.mem_cons_self ..)) hkind v hv
          simp only [Bool.false_eq_true, if_false]
          omega

end Value

namespace Text.Utf8

/-- A text that has been read is written as the bytes that it was read from. -/
theorem encode_of_decode (bytes : Bytes) (s : String) (h : decode bytes = .ok s) :
    encode s = bytes := by
  unfold decode String.fromUTF8? at h
  split at h
  · rename_i hsome
    split at hsome
    · cases hsome
      cases h
      rfl
    · contradiction
  · contradiction

end Text.Utf8

namespace Decode

/-! ## What a successful run has charged -/

section Weight

variable (config : Config) (data : Input) (hdata : data.size < maxSize)
include hdata

theorem charged_of_word (position s t : Nat) (w : Word)
    (h : (word data position).run s = .ok w t) : t = s + wordSize := by
  obtain ⟨-, -, ht, hroom⟩ := (run_word data s t position w).mp h
  omega

theorem charged_of_offset (position s t distance : Nat)
    (h : (offset data position).run s = .ok distance t) : t = s + wordSize := by
  obtain ⟨w, hw, -⟩ := (run_offset data s t position distance).mp h
  exact charged_of_word data hdata position s t w hw

theorem charged_of_length (position s t count : Nat)
    (h : (length data position).run s = .ok count t) : t = s + wordSize := by
  obtain ⟨w, hw, -⟩ := (run_length data s t position count).mp h
  exact charged_of_word data hdata position s t w hw

theorem charged_of_content (position s t : Nat) (bytes : Bytes)
    (h : (content data position).run s = .ok bytes t) : t = s + (wordSize + bytes.length) := by
  obtain ⟨count, u, hcount, ⟨-, hroom⟩, hbytes, ht, hcharge⟩ :=
    (run_content data s t position bytes).mp h
  have hu := charged_of_length data hdata position s u count hcount
  have hlength : bytes.length = count := by
    rw [hbytes, bytesAt, List.length_take, List.length_drop, Array.length_toList]
    omega
  omega

theorem charged_of_signed (u : AbiType) (bits position s t : Nat) (i : Int256)
    (h : (signed config data u bits position).run s = .ok i t) : t = s + wordSize := by
  obtain ⟨w, hw, -⟩ := (run_signed data s t config u bits position i).mp h
  exact charged_of_word data hdata position s t w hw

/-- A region charges the sum over its components, and one word more for each dynamic one. -/
theorem charged_of_region (ts : List AbiType) (hlegal : ∀ u ∈ ts, u.Legal)
    (ih : ∀ u ∈ ts, ∀ position (s t : Nat) v,
      (value config data u position).run s = .ok v t → t = s + v.weight)
    (start cursor s t : Nat) (vs : List Value)
    (h : (region config data ts start cursor).run s = .ok vs t) :
    t = s + Value.regionWeight vs := by
  induction ts generalizing cursor s vs with
  | nil =>
      obtain ⟨rfl, rfl⟩ := (run_region_nil data s t config start cursor vs).mp h
      rfl
  | cons u us ihus =>
      obtain ⟨v, next, x, rest, hcomponent, hrest, rfl⟩ :=
        (run_region_cons data s t config u us start cursor vs).mp h
      have htail := ihus (fun w hw => hlegal w (List.mem_cons_of_mem _ hw))
        (fun w hw => ih w (List.mem_cons_of_mem _ hw)) next x rest hrest
      -- The weight asks the value whether it is dynamic, the reader asks the declaration.
      have hkind : ∀ position (s t : Nat), (value config data u position).run s = .ok v t →
          v.typeOf.isDynamic = u.isDynamic := by
        intro position s t hv
        have hinhabits := inhabits_of_value config data u (hlegal u (List.mem_cons_self ..)) _ _ _ _ hv
        exact AbiType.isDynamic_of_compatible _ _ (Value.compatible_typeOf _ u v hinhabits)
      rw [Value.regionWeight]
      rcases (run_component data s x u _ start cursor v next).mp hcomponent with
        ⟨hdynamic, distance, y, hoffset, -, hread, -⟩ | ⟨hstatic, hread, -⟩
      · have hword := charged_of_offset data hdata cursor s y distance hoffset
        have hv := ih u (List.mem_cons_self ..) _ _ _ _ hread
        rw [hkind _ _ _ hread, if_pos hdynamic]
        omega
      · have hv := ih u (List.mem_cons_self ..) _ _ _ _ hread
        rw [hkind _ _ _ hread, if_neg (by simp [hstatic])]
        omega

/-- Reading a value charges its weight. -/
theorem charged_of_value (u : AbiType) (hlegal : u.Legal) (position s t : Nat) (v : Value)
    (h : (value config data u position).run s = .ok v t) : t = s + v.weight := by
  induction u using AbiType.induction generalizing position s t v with
  | address =>
      obtain ⟨w, hw, -, rfl⟩ := (run_address data s t config position v).mp h
      exact charged_of_word data hdata position s t w hw
  | uint n =>
      obtain ⟨w, hw, -, rfl⟩ := (run_uint data s t config n position v).mp h
      exact charged_of_word data hdata position s t w hw
  | int n =>
      obtain ⟨i, hi, rfl⟩ := (run_int data s t config n position v).mp h
      exact charged_of_signed config data hdata _ n position s t i hi
  | bool =>
      obtain ⟨w, hw, -, rfl⟩ := (run_bool data s t config position v).mp h
      exact charged_of_word data hdata position s t w hw
  | bytes =>
      obtain ⟨bytes, hbytes, rfl⟩ := (run_bytes data s t config position v).mp h
      exact charged_of_content data hdata position s t bytes hbytes
  | fixedBytes n =>
      obtain ⟨w, hw, -, -, rfl⟩ := (run_fixedBytes data s t config n position v).mp h
      exact charged_of_word data hdata position s t w hw
  | string =>
      obtain ⟨bytes, x, hbytes, hx, rfl⟩ := (run_string data s t config position v).mp h
      rw [Value.weight, Text.Utf8.encode_of_decode bytes x hx]
      exact charged_of_content data hdata position s t bytes hbytes
  | fixed m n =>
      obtain ⟨raw, x, hraw, -, rfl⟩ := (run_fixed data s t config m n position v).mp h
      exact charged_of_signed config data hdata _ m position s t raw hraw
  | array e ih =>
      obtain ⟨count, x, vs, hcount, -, -, hvs, rfl⟩ := (run_array data s t config e position v).mp h
      have hlength := charged_of_length data hdata position s x count hcount
      have hitems := charged_of_region config data hdata (List.replicate count e)
        (List.forall_mem_replicate.mpr (.inr hlegal))
        (List.forall_mem_replicate.mpr (.inr (ih hlegal))) _ _ _ _ _ hvs
      rw [Value.weight]
      omega
  | fixedArray e n ih =>
      obtain ⟨vs, -, hvs, rfl⟩ := (run_fixedArray data s t config e n position v).mp h
      exact charged_of_region config data hdata _
        (List.forall_mem_replicate.mpr (.inr hlegal.2))
        (List.forall_mem_replicate.mpr (.inr (ih hlegal.2))) _ _ _ _ _ hvs
  | tuple fs ih =>
      obtain ⟨vs, hvs, rfl⟩ := (run_tuple data s t config fs position v).mp h
      have hfields := (AbiType.legalFields_iff fs).mp hlegal.2
      exact charged_of_region config data hdata _ hfields
        (fun u hu => ih u hu (hfields u hu)) _ _ _ _ _ hvs

end Weight

/-! ## Runs on different meters -/

section Meters

variable {ε σ τ α β : Type}

/-- What a run returns, or why it fails, together with a view of its last state. -/
def mapState (f : σ → τ) : EStateM.Result ε σ α → EStateM.Result ε τ α
  | .ok a s => .ok a (f s)
  | .error e s => .error e (f s)

/-- The last state of a run. -/
def lastState : EStateM.Result ε σ α → σ
  | .ok _ s => s
  | .error _ s => s

/-- Started in related states, two computations have the same outcome and end in related states,
whether they succeed or fail. -/
def Alike (R : σ → τ → Prop) (m : EStateM ε σ α) (n : EStateM ε τ α) : Prop :=
  ∀ s t, R s t →
    (∃ a s' t', m.run s = .ok a s' ∧ n.run t = .ok a t' ∧ R s' t') ∨
    (∃ e s' t', m.run s = .error e s' ∧ n.run t = .error e t' ∧ R s' t')

variable {R : σ → τ → Prop}

theorem alike_pure (a : α) : Alike R (pure a : EStateM ε σ α) (pure a) :=
  fun s t h => .inl ⟨a, s, t, rfl, rfl, h⟩

theorem alike_throw (e : ε) : Alike R (throw e : EStateM ε σ α) (throw e) :=
  fun s t h => .inr ⟨e, s, t, rfl, rfl, h⟩

theorem alike_bind {m : EStateM ε σ α} {n : EStateM ε τ α} {f : α → EStateM ε σ β}
    {g : α → EStateM ε τ β} (hm : Alike R m n) (hf : ∀ a, Alike R (f a) (g a)) :
    Alike R (m >>= f) (n >>= g) := by
  intro s t h
  rcases hm s t h with ⟨a, s', t', hms, hnt, h'⟩ | ⟨e, s', t', hms, hnt, h'⟩
  · rcases hf a s' t' h' with ⟨b, s'', t'', hfs, hgt, h''⟩ | ⟨e, s'', t'', hfs, hgt, h''⟩
    · refine .inl ⟨b, s'', t'', ?_, ?_, h''⟩
      · rw [EStateM.run_bind, hms]; exact hfs
      · rw [EStateM.run_bind, hnt]; exact hgt
    · refine .inr ⟨e, s'', t'', ?_, ?_, h''⟩
      · rw [EStateM.run_bind, hms]; exact hfs
      · rw [EStateM.run_bind, hnt]; exact hgt
  · refine .inr ⟨e, s', t', ?_, ?_, h'⟩
    · rw [EStateM.run_bind, hms]
    · rw [EStateM.run_bind, hnt]

theorem alike_ite {c : Prop} [Decidable c] {m m' : EStateM ε σ α} {n n' : EStateM ε τ α}
    (hm : Alike R m n) (hm' : Alike R m' n') :
    Alike R (if c then m else m') (if c then n else n') := by
  split
  · exact hm
  · exact hm'

end Meters

section Charges

variable {σ τ : Type} (R : σ → τ → Prop) (config : Config) (data : Input)

theorem alike_advance (position count : Nat) :
    Alike R (advance position count : Reader σ Nat) (advance position count) :=
  alike_ite (alike_throw _) (alike_pure _)

theorem alike_checkedAdvance (position count : Nat) :
    Alike R (checkedAdvance data position count : Reader σ Nat)
      (checkedAdvance data position count) :=
  alike_ite (alike_throw _) (alike_pure _)

theorem alike_slice (position count : Nat) :
    Alike R (slice data position count : Reader σ Bytes) (slice data position count) := by
  refine alike_bind (alike_checkedAdvance R data position count) fun stop => ?_
  exact alike_ite (alike_bind (alike_throw _) fun _ => alike_pure _) (alike_pure _)

theorem alike_checkRoom (start count stride : Nat) :
    Alike R (checkRoom data start count stride : Reader σ Unit)
      (checkRoom data start count stride) :=
  alike_ite (alike_throw _) (alike_pure _)

variable [Meter σ] [Meter τ] (hcharge : ∀ count, Alike R (charge data count) (charge data count))
include hcharge

theorem alike_word (position : Nat) :
    Alike R (word data position : Reader σ Word) (word data position) := by
  refine alike_bind (alike_slice R data position wordSize) fun bytes => ?_
  exact alike_bind (hcharge wordSize) fun _ => alike_pure _

theorem alike_offset (position : Nat) :
    Alike R (offset data position : Reader σ Nat) (offset data position) := by
  refine alike_bind (alike_word R data hcharge position) fun w => ?_
  refine alike_ite (alike_bind (alike_throw _) fun _ => ?_) ?_
  all_goals exact alike_ite (alike_bind (alike_throw _) fun _ => alike_pure _) (alike_pure _)

theorem alike_length (position : Nat) :
    Alike R (length data position : Reader σ Nat) (length data position) := by
  refine alike_bind (alike_word R data hcharge position) fun w => ?_
  exact alike_ite (alike_bind (alike_throw _) fun _ => alike_pure _) (alike_pure _)

theorem alike_content (position : Nat) :
    Alike R (content data position : Reader σ Bytes) (content data position) := by
  refine alike_bind (alike_length R data hcharge position) fun count => ?_
  refine alike_bind (alike_advance R position wordSize) fun start => ?_
  refine alike_bind (alike_slice R data start count) fun bytes => ?_
  exact alike_bind (hcharge count) fun _ => alike_pure _

theorem alike_signed (u : AbiType) (bits position : Nat) :
    Alike R (signed config data u bits position : Reader σ Int256)
      (signed config data u bits position) := by
  refine alike_bind (alike_word R data hcharge position) fun w => ?_
  exact alike_ite (alike_ite (alike_pure _) (alike_throw _)) (alike_pure _)

/-- The steps of containers are alike if charging is. -/
theorem simulation_alike :
    Simulation (fun {α} => Alike (ε := AbiError) (α := α) R) data data where
  pure a := alike_pure a
  bind := alike_bind
  advance := alike_advance R
  checkedAdvance := alike_checkedAdvance R data
  checkRoom := alike_checkRoom R data
  offset := alike_offset R data hcharge
  length := alike_length R data hcharge

/-- Reading a value looks at the meter through `charge` only. -/
theorem alike_value (u : AbiType) (position : Nat) :
    Alike R (value config data u position : Reader σ Value) (value config data u position) := by
  have hword := alike_word R data hcharge
  have hsigned := alike_signed R config data hcharge
  have hcontent := alike_content R data hcharge
  have hcontainers := simulation_alike R data hcharge
  induction u using AbiType.induction generalizing position with
  | address =>
      refine alike_bind (hword position) fun w => ?_
      exact alike_ite (alike_bind (alike_throw _) fun _ => alike_pure _) (alike_pure _)
  | uint n =>
      refine alike_bind (hword position) fun w => ?_
      refine alike_ite (alike_pure _) (alike_ite (alike_throw _) ?_)
      exact alike_bind (alike_ite (alike_throw _) (alike_pure _)) fun _ => alike_pure _
  | int n => exact alike_bind (hsigned (.int n) n position) fun _ => alike_pure _
  | bool =>
      refine alike_bind (hword position) fun w => ?_
      exact alike_ite (alike_bind (alike_throw _) fun _ => alike_pure _) (alike_pure _)
  | bytes => exact alike_bind (hcontent position) fun _ => alike_pure _
  | fixedBytes n =>
      refine alike_bind (hword position) fun w => ?_
      refine alike_ite (alike_bind (alike_throw _) fun _ => ?_) ?_
      all_goals exact alike_ite (alike_bind (alike_throw _) fun _ => alike_pure _) (alike_pure _)
  | string =>
      refine alike_bind (hcontent position) fun bytes => ?_
      cases Text.Utf8.decode bytes with
      | ok x => exact alike_pure _
      | error cause => exact alike_throw _
  | fixed m n =>
      refine alike_bind (hsigned (.fixed m n) m position) fun raw => ?_
      cases Decimal.ofWire raw n config.scaling with
      | ok x => exact alike_pure _
      | error cause => exact alike_throw _
  | array e ih => exact hcontainers.array config config e ih position
  | fixedArray e n ih => exact hcontainers.fixedArray config config e n ih position
  | tuple fs ih => exact hcontainers.tuple config config fs ih position

theorem alike_region (ts : List AbiType) (start cursor : Nat) :
    Alike R (region config data ts start cursor : Reader σ (List Value))
      (region config data ts start cursor) :=
  (simulation_alike R data hcharge).region config config ts
    (fun u _ position => alike_value R config data hcharge u position) start cursor

end Charges

/-! ## The history of a run -/

/-- All charges, the latest first. -/
instance : Meter (List Nat) :=
  ⟨fun charges => min maxSize charges.sum, fun charges count => count :: charges⟩

/-- A history and its sum, no more than the data has bytes. -/
def WithinBudget (data : Input) (history : List Nat) (total : Nat) : Prop :=
  total = history.sum ∧ total ≤ data.size

theorem alike_charge (data : Input) (hdata : data.size < maxSize) (count : Nat) :
    Alike (WithinBudget data) (charge data count) (charge data count) := by
  rintro history total ⟨rfl, hroom⟩
  rw [run_charge_eq_ite, run_charge_eq_ite]
  have hcharged : Meter.charged (Meter.charge history count) = min maxSize (history.sum + count) := by
    show min maxSize (count :: history).sum = _
    rw [List.sum_cons, Nat.add_comm]
  have htotal : Meter.charged (Meter.charge history.sum count) =
      min maxSize (history.sum + count) := rfl
  rw [hcharged, htotal]
  split
  · exact .inr ⟨_, history, history.sum, rfl, rfl, rfl, hroom⟩
  · rename_i hfits
    -- A sum that the data has room for is below `maxSize`, where nothing is cut off.
    refine .inl ⟨(), count :: history, min maxSize (history.sum + count), rfl, rfl, ?_, by omega⟩
    rw [List.sum_cons]
    omega

/-- All charges of decoding the data, the latest first, also of a run that fails. -/
def charges (config : Config) (ts : List AbiType) (data : Bytes) : List Nat :=
  lastState ((region config data.toArray ts 0 0).run ([] : List Nat))

/-- The run on the sum is the run on the history, seen through its sum, and the history stays within
the budget. -/
theorem run_eq_mapState_sum (config : Config) (ts : List AbiType) (data : Bytes)
    (hdata : data.length < maxSize) :
    (region config data.toArray ts 0 0).run 0 =
        mapState List.sum ((region config data.toArray ts 0 0).run []) ∧
      (charges config ts data).sum ≤ data.length := by
  have hstart : WithinBudget data.toArray [] 0 := ⟨rfl, Nat.zero_le _⟩
  have hsize : data.toArray.size < maxSize := by simpa using hdata
  rcases alike_region (WithinBudget data.toArray) config data.toArray
      (alike_charge data.toArray hsize) ts 0 0 [] 0 hstart with
    ⟨vs, history, total, hhistory, htotal, rfl, hroom⟩ |
      ⟨e, history, total, hhistory, htotal, rfl, hroom⟩
  · rw [charges, hhistory, htotal]
    exact ⟨rfl, by simpa [lastState] using hroom⟩
  · rw [charges, hhistory, htotal]
    exact ⟨rfl, by simpa [lastState] using hroom⟩

/-- A run that succeeds has charged the weight of what it returns. -/
theorem sum_charges_of_run (config : Config) (ts : List AbiType) (data : Bytes)
    (hdata : data.length < maxSize) (hlegal : ∀ t ∈ ts, t.Legal) (vs : List Value) (t : Nat)
    (h : (region config data.toArray ts 0 0).run 0 = .ok vs t) :
    (charges config ts data).sum = Value.regionWeight vs := by
  have hsize : data.toArray.size < maxSize := by simpa using hdata
  have hcharged := charged_of_region config data.toArray hsize ts hlegal
    (fun u hu => charged_of_value config data.toArray hsize u (hlegal u hu)) 0 0 0 t vs h
  rw [(run_eq_mapState_sum config ts data hdata).1] at h
  unfold charges
  cases hhistory : (region config data.toArray ts 0 0).run ([] : List Nat) with
  | ok ws history =>
      rw [hhistory] at h
      cases h
      simpa [lastState] using hcharged
  | error e history =>
      rw [hhistory] at h
      contradiction

end Decode

/-- Decoded values inhabit their descriptors and weigh no more than the data. -/
theorem inhabitants_of_decode (config : Config) (ts : List AbiType) (data : Bytes)
    (hdata : data.length < maxSize) (vs : List Value) (h : decode config ts data = .ok vs) :
    List.Forall₂ (Value.Inhabits config.scaling) ts vs ∧ Value.regionWeight vs ≤ data.length := by
  obtain ⟨hvalid, t, hrun⟩ := (decode_eq_ok_iff config ts data vs).mp h
  have hlegal := AbiType.legal_and_sized_of_validateAll config.maxDepth ts hvalid
  have hsum := Decode.sum_charges_of_run config ts data hdata (fun u hu => (hlegal u hu).1) vs t hrun
  have htotal := (Decode.run_eq_mapState_sum config ts data hdata).2
  constructor
  · exact Decode.forall₂_of_region config data.toArray _ ts
      (fun u hu => Decode.inhabits_of_value config data.toArray u (hlegal u hu).1) 0 0 0 t vs hrun
  · omega

/-- Decoding never reads more than there is.  What is charged at any point of a run, failed or not,
is at most the length of the data, and a run that succeeds has charged the weight of its values.

The length of any data that exists is at most `maxBuffer`, so that the counter cannot saturate before
it passes the length. -/
theorem regionWeight_le_length_of_decode (config : Config) (ts : List AbiType) (data : Bytes)
    (hdata : data.length < maxSize) :
    (Decode.region config data.toArray ts 0 0).run 0 =
        Decode.mapState List.sum ((Decode.region config data.toArray ts 0 0).run []) ∧
      (∀ past, past <:+ Decode.charges config ts data → past.sum ≤ data.length) ∧
      ∀ vs, decode config ts data = .ok vs →
        (Decode.charges config ts data).sum = Value.regionWeight vs ∧
          Value.regionWeight vs ≤ data.length := by
  obtain ⟨hrun, htotal⟩ := Decode.run_eq_mapState_sum config ts data hdata
  refine ⟨hrun, ?_, ?_⟩
  · -- The latest charge comes first, so that what was charged earlier is at the end.
    rintro past ⟨later, hpast⟩
    rw [← hpast, List.sum_append] at htotal
    omega
  · intro vs h
    obtain ⟨hvalid, t, hok⟩ := (decode_eq_ok_iff config ts data vs).mp h
    have hlegal := AbiType.legal_and_sized_of_validateAll config.maxDepth ts hvalid
    have hsum := Decode.sum_charges_of_run config ts data hdata (fun u hu => (hlegal u hu).1) vs t hok
    exact ⟨hsum, hsum ▸ htotal⟩

/-- Two offsets may point at the same byte sequence; it is charged twice. -/
theorem regionWeight_le_length_of_decode_aliased :
    decode Config.standard [.bytes, .bytes]
        ([64, 64, 1, 7 * 256 ^ 31, 0].flatMap (Bytes.ofNat wordSize)) =
      .ok [.bytes [7], .bytes [7]] ∧
    (Decode.charges Config.standard [.bytes, .bytes]
        ([64, 64, 1, 7 * 256 ^ 31, 0].flatMap (Bytes.ofNat wordSize))).sum = 130 ∧
    130 ≤ ([64, 64, 1, 7 * 256 ^ 31, 0].flatMap (Bytes.ofNat wordSize)).length := by
  have hdecode : decode Config.standard [.bytes, .bytes]
        ([64, 64, 1, 7 * 256 ^ 31, 0].flatMap (Bytes.ofNat wordSize)) =
      .ok [.bytes [7], .bytes [7]] := by
    decide +kernel
  exact ⟨hdecode,
    (regionWeight_le_length_of_decode _ _ _ (by decide +kernel)).2.2 _ hdecode⟩

end ContractAbi
