import ContractAbi.Proofs.ReadBudget
import ContractAbi.Proofs.RoundTrip

/-!
# Decoded values can be encoded again

Data may be laid out in many ways that decode to the same values; encoding these values gives the one
canonical layout, which decodes to them once more.  Every inhabitant of a descriptor whose weight fits
a buffer can be written, with one exception: under decimal scaling zero is refused from
`Decimal.overflowPlaces` places on, where the power of ten alone overflows.  `hasOverflowingZero`
finds the values that this concerns.

Both outcomes are followed through the encoder at once.  `OkUnless` says that a computation fails
exactly if it meets such a zero, and it is closed under bind, so that the error of the first zero is
known to be the only one.
-/

namespace ContractAbi

namespace Value

mutual

/-- Whether the value contains a zero that overflows on its way to the wire. -/
def hasOverflowingZero (scaling : Scaling) : Value → Bool
  | .fixed _ n v =>
      scaling == .decimal && decide (v = Decimal.zero) && decide (Decimal.overflowPlaces ≤ n)
  | .array _ vs => anyOverflowingZero scaling vs
  | .fixedArray _ vs => anyOverflowingZero scaling vs
  | .tuple vs => anyOverflowingZero scaling vs
  | _ => false

/-- Whether one of the values contains such a zero. -/
def anyOverflowingZero (scaling : Scaling) : List Value → Bool
  | [] => false
  | v :: vs => hasOverflowingZero scaling v || anyOverflowingZero scaling vs

end

variable (scaling : Scaling)

/-- Inhabitants carry the declared descriptors of elements. -/
theorem carries_of_inhabits (t : AbiType) (v : Value) (h : Inhabits scaling t v) :
    Carries t v := by
  induction t using AbiType.induction generalizing v with
  | array e ih =>
      cases v with
      | array carried vs => exact ⟨h.1, fun v hv => ih v (h.2 v hv)⟩
      | _ => exact h.elim
  | fixedArray e n ih =>
      cases v with
      | fixedArray carried vs => exact ⟨h.1, fun v hv => ih v (h.2.2 v hv)⟩
      | _ => exact h.elim
  | tuple fs ih =>
      cases v with
      | tuple vs =>
          exact (carriesFields_iff fs vs).mpr
            (List.forall₂_imp_of_mem ih ((inhabitAll_iff scaling fs vs).mp h))
      | _ => exact h.elim
  | _ => cases v <;> trivial

end Value

namespace Encode

/-- The error of a zero that overflows. -/
def zeroOverflow : AbiError :=
  .ofScale (.overflow Decimal.zero)

/-- The computation meets a zero that overflows and fails for that reason, or it gives a result with
the property. -/
def OkUnless {α : Type} (zero : Bool) (m : Except AbiError α) (P : α → Prop) : Prop :=
  if zero then m = .error zeroOverflow else ∃ a, m = .ok a ∧ P a

section Outcomes

variable {α β : Type} {P : α → Prop} {Q : β → Prop}

theorem okUnless_ok (a : α) (h : P a) : OkUnless false (.ok a) P :=
  ⟨a, rfl, h⟩

/-- The first zero ends the computation. -/
theorem okUnless_bind {b c : Bool} {m : Except AbiError α} {f : α → Except AbiError β}
    (hm : OkUnless b m P) (hf : ∀ a, P a → OkUnless c (f a) Q) : OkUnless (b || c) (m >>= f) Q := by
  cases b with
  | true =>
      have herror : m = .error zeroOverflow := hm
      rw [herror]
      rfl
  | false =>
      obtain ⟨a, rfl, ha⟩ := hm
      exact hf a ha

end Outcomes

variable (scaling : Scaling)

/-- The outcome of writing a value, with a bound on what is written. -/
def Writes (t : AbiType) (v : Value) : Prop :=
  OkUnless (v.hasOverflowingZero scaling) (value scaling t v)
    fun body => body.length ≤ 2 * v.weight

theorem okUnless_valueParts (ts : List AbiType)
    (ih : ∀ t ∈ ts, ∀ v, Value.Inhabits scaling t v → v.weight ≤ maxBuffer → Writes scaling t v)
    (vs : List Value) (h : List.Forall₂ (Value.Inhabits scaling) ts vs)
    (hroom : Value.regionWeight vs ≤ maxBuffer) :
    OkUnless (Value.anyOverflowingZero scaling vs) (valueParts scaling ts vs)
      fun ps => ∀ total, (Part.assemble total ps).length ≤ 2 * Value.regionWeight vs := by
  induction h with
  | nil => exact okUnless_ok _ fun total => Nat.zero_le _
  | @cons t v ts vs hv _ ihvs =>
      have hdynamic := Value.isDynamic_typeOf t v (Value.wellTyped_of_inhabits scaling t v hv)
      rw [Value.regionWeight] at hroom
      have hhere := ih t (List.mem_cons_self ..) v hv (by omega)
      have hthere := ihvs (fun u hu => ih u (List.mem_cons_of_mem _ hu)) (by omega)
      refine okUnless_bind hhere fun body hbody => ?_
      rw [← Bool.or_false (Value.anyOverflowingZero scaling vs)]
      refine okUnless_bind hthere fun ps hps => okUnless_ok _ fun total => ?_
      have hrest := hps 0
      rw [Part.length_assemble_cons total 0, Value.regionWeight, hdynamic]
      simp only
      split <;> omega

/-- The heads of a region take no more than what is charged for its components, so that there is room
for them. -/
theorem okUnless_region (ts : List AbiType) (hsized : ∀ t ∈ ts, t.Sized)
    (ih : ∀ t ∈ ts, ∀ v, Value.Inhabits scaling t v → v.weight ≤ maxBuffer → Writes scaling t v)
    (vs : List Value) (h : List.Forall₂ (Value.Inhabits scaling) ts vs)
    (hroom : Value.regionWeight vs ≤ maxBuffer) :
    OkUnless (Value.anyOverflowingZero scaling vs) (region ts (valueParts scaling ts vs))
      fun out => out.length ≤ 2 * Value.regionWeight vs := by
  have htyped := h.imp fun t v hv => Value.wellTyped_of_inhabits scaling t v hv
  have hheads := Value.sum_headSize_le_regionWeight ts hsized vs htyped
  have hfits : ¬ maxBuffer < (ts.map AbiType.headSize).sum := by
    omega
  have hsize : OkUnless false (regionHeadSize ts) fun _ => True := by
    rw [regionHeadSize_eq_ite, if_neg hfits]
    exact okUnless_ok _ trivial
  rw [← Bool.or_false (Value.anyOverflowingZero scaling vs)]
  refine okUnless_bind (b := false) hsize fun total _ => ?_
  exact okUnless_bind (okUnless_valueParts scaling ts ih vs h hroom)
    fun ps hps => okUnless_ok _ (hps total)

/-- One word is what every leaf of fixed size takes. -/
theorem writes_of_word (t : AbiType) (v : Value) (body : Bytes)
    (hzero : v.hasOverflowingZero scaling = false) (hweight : v.weight = wordSize)
    (h : value scaling t v = .ok body) (hlength : body.length = wordSize) : Writes scaling t v := by
  rw [Writes, hzero, h, hweight]
  exact okUnless_ok _ (by omega)

theorem writes_of_lengthPrefixed (t : AbiType) (v : Value) (content : Bytes)
    (hzero : v.hasOverflowingZero scaling = false) (hweight : v.weight = wordSize + content.length)
    (h : value scaling t v = .ok (lengthPrefixed content)) : Writes scaling t v := by
  rw [Writes, hzero, h, hweight]
  refine okUnless_ok _ ?_
  rw [lengthPrefixed, padded, List.length_append, List.length_append, Word.length_toBytes,
    List.length_replicate, paddedSize]
  unfold wordSize
  omega

/-- A decimal whose wire integer is in range is written, or it is a zero that overflows. -/
theorem writes_fixed (m n : Nat) (hn : n ≤ AbiType.maxFraction) (x : Decimal) (raw : Int256)
    (hfits : raw.fits m = true) (hraw : x.toRat * scaling.factor n = raw.toInt) :
    Writes scaling (.fixed m n) (.fixed m n x) := by
  cases hzero : Value.hasOverflowingZero scaling (.fixed m n x) with
  | true =>
      rw [Writes, hzero]
      simp only [Value.hasOverflowingZero, Bool.and_eq_true, beq_iff_eq, decide_eq_true_eq] at hzero
      obtain ⟨⟨rfl, rfl⟩, hplaces⟩ := hzero
      have hwire := Decimal.toWire_zero n hn hplaces
      show value .decimal (.fixed m n) (.fixed m n Decimal.zero) = .error zeroOverflow
      rw [value, if_pos ⟨rfl, rfl⟩]
      simp only [hwire]
      rfl
  | false =>
      have hplaces : scaling = .decimal → x = Decimal.zero → n < Decimal.overflowPlaces := by
        rintro rfl rfl
        simpa [Value.hasOverflowingZero] using hzero
      have hwire := Decimal.toWire_of_toRat x raw n scaling hn hraw hplaces
      have hwritten := (value_fixed scaling (.fixed m n x) _ m n).mpr
        ⟨x, raw, rfl, hwire, hfits, rfl⟩
      exact writes_of_word scaling _ _ _ hzero rfl hwritten (Word.length_toBytes _)

/-- Inhabitants whose weight fits a buffer are written unless they contain a zero that overflows. -/
theorem writes_of_inhabits (t : AbiType) (hlegal : t.Legal) (hsized : t.Sized) (v : Value)
    (h : Value.Inhabits scaling t v) (hroom : v.weight ≤ maxBuffer) : Writes scaling t v := by
  induction t using AbiType.induction generalizing v with
  | address =>
      cases v with
      | address a => exact writes_of_word scaling _ _ _ rfl rfl rfl (Word.length_toBytes _)
      | _ => exact h.elim
  | uint n =>
      cases v with
      | uint m w =>
          obtain ⟨rfl, hfits⟩ := h
          have hwritten := (value_uint scaling (.uint m w) _ m).mpr
            ⟨w, rfl, (Word.fits_iff w m).mpr hfits, rfl⟩
          exact writes_of_word scaling _ _ _ rfl rfl hwritten (Word.length_toBytes _)
      | _ => exact h.elim
  | int n =>
      cases v with
      | int m i =>
          obtain ⟨rfl, hfits⟩ := h
          have hwritten := (value_int scaling (.int m i) _ m).mpr ⟨i, rfl, hfits, rfl⟩
          exact writes_of_word scaling _ _ _ rfl rfl hwritten (Word.length_toBytes _)
      | _ => exact h.elim
  | bool =>
      cases v with
      | bool b => exact writes_of_word scaling _ _ _ rfl rfl rfl (Word.length_toBytes _)
      | _ => exact h.elim
  | bytes =>
      cases v with
      | bytes content => exact writes_of_lengthPrefixed scaling _ _ content rfl rfl rfl
      | _ => exact h.elim
  | fixedBytes n =>
      cases v with
      | fixedBytes content =>
          have hlength : content.length = n := h
          have hwritten := (value_fixedBytes scaling (.fixedBytes content) _ n).mpr
            ⟨content, rfl, hlength, rfl⟩
          exact writes_of_word scaling _ _ _ rfl rfl hwritten
            (length_inWord content (hlength ▸ hlegal.2))
      | _ => exact h.elim
  | string =>
      cases v with
      | string s => exact writes_of_lengthPrefixed scaling _ _ (Text.Utf8.encode s) rfl rfl rfl
      | _ => exact h.elim
  | fixed m n =>
      cases v with
      | fixed m' n' x =>
          obtain ⟨⟨rfl, rfl⟩, raw, hfits, hraw⟩ := h
          exact writes_fixed scaling m' n' hlegal.2 x raw hfits hraw
      | _ => exact h.elim
  | array e ih =>
      cases v with
      | array carried vs =>
          obtain ⟨rfl, hitems⟩ := h
          have hroomItems : Value.regionWeight vs ≤ maxBuffer := by
            rw [Value.weight] at hroom
            omega
          have hregion := okUnless_region scaling (List.replicate vs.length carried)
            (List.forall_mem_replicate.mpr (.inr hsized))
            (List.forall_mem_replicate.mpr (.inr (ih hlegal hsized))) vs
            ((List.forall₂_replicate_iff _ _ _ _).mpr ⟨rfl, hitems⟩) hroomItems
          have hwritten : value scaling (.array carried) (.array carried vs) =
              (region (List.replicate vs.length carried)
                (valueParts scaling (List.replicate vs.length carried) vs) >>=
                  fun body => .ok (Word.toBytes (Word.ofNat vs.length) ++ body)) := by
            rw [value, if_pos (AbiType.compatible_refl carried), elementParts_eq_valueParts]
            rfl
          -- Behind the region only the count is put in front, and that cannot fail.
          rw [Writes, Value.hasOverflowingZero, Value.weight, hwritten,
            ← Bool.or_false (Value.anyOverflowingZero scaling vs)]
          refine okUnless_bind hregion fun body hbody => okUnless_ok _ ?_
          rw [List.length_append, Word.length_toBytes]
          unfold wordSize
          omega
      | _ => exact h.elim
  | fixedArray e n ih =>
      cases v with
      | fixedArray carried vs =>
          obtain ⟨rfl, rfl, hitems⟩ := h
          rw [Value.weight] at hroom
          have hregion := okUnless_region scaling (List.replicate vs.length carried)
            (List.forall_mem_replicate.mpr (.inr hsized.1))
            (List.forall_mem_replicate.mpr (.inr (ih hlegal.2 hsized.1))) vs
            ((List.forall₂_replicate_iff _ _ _ _).mpr ⟨rfl, hitems⟩) hroom
          rw [Writes, Value.hasOverflowingZero, Value.weight, value, if_pos rfl,
            elementParts_eq_valueParts]
          exact hregion
      | _ => exact h.elim
  | tuple fs ih =>
      cases v with
      | tuple vs =>
          have hitems := (Value.inhabitAll_iff scaling fs vs).mp h
          have hlength : fs.length = vs.length := by
            rw [← hitems.length_eq, List.length_map]
          have hlegalfs := (AbiType.legalFields_iff fs).mp hlegal.2
          have hsizedfs := (AbiType.sizedFields_iff fs).mp hsized.1
          rw [Value.weight] at hroom
          have hregion := okUnless_region scaling (fs.map Param.kind) hsizedfs
            (fun u hu => ih u hu (hlegalfs u hu) (hsizedfs u hu)) vs hitems hroom
          rw [Writes, Value.hasOverflowingZero, Value.weight, value, if_pos hlength,
            fieldParts_eq_valueParts]
          exact hregion
      | _ => exact h.elim

end Encode

/-- Whatever has been decoded can be encoded, and the result decodes to the same values, unless a
zero overflows; then encoding fails for that reason and no other.

The length of any data that exists is at most `maxBuffer`. -/
theorem encodeParams_of_decode (config : Config) (ts : List AbiType) (data : Bytes)
    (hdata : data.length ≤ maxBuffer) (vs : List Value) (h : decode config ts data = .ok vs) :
    (Value.anyOverflowingZero config.scaling vs = false →
      ∃ canonical, encodeParams config ts vs = .ok canonical ∧
        decode config ts canonical = .ok vs) ∧
    (Value.anyOverflowingZero config.scaling vs = true →
      encodeParams config ts vs = .error (.typeMismatch (.scale (.overflow Decimal.zero)))) := by
  have hbuffer : maxBuffer = 2 ^ 63 - 1 := rfl
  have hsize : data.length < maxSize := by
    simp only [maxSize]
    omega
  obtain ⟨hvalid, -⟩ := (decode_eq_ok_iff config ts data vs).mp h
  have hlegal := AbiType.legal_and_sized_of_validateAll config.maxDepth ts hvalid
  obtain ⟨hinhabits, hweight⟩ := inhabitants_of_decode config ts data hsize vs h
  have hregion := Encode.okUnless_region config.scaling ts (fun t ht => (hlegal t ht).2)
    (fun t ht => Encode.writes_of_inhabits config.scaling t (hlegal t ht).1 (hlegal t ht).2) vs
    hinhabits (by omega)
  -- As many values as descriptors, and the descriptors have been accepted: the region is all there is.
  have hlength : ¬ ts.length ≠ vs.length := not_not_intro hinhabits.length_eq
  have hencode : encodeParams config ts vs =
      Encode.region ts (Encode.valueParts config.scaling ts vs) := by
    rw [encodeParams, if_neg hlength, hvalid]
    rfl
  rw [hencode]
  constructor
  · intro hzero
    rw [hzero] at hregion
    obtain ⟨canonical, hcanonical, hbound⟩ := hregion
    have hcarries : List.Forall₂ Value.Carries ts vs :=
      List.forall₂_imp_of_mem (fun t _ => Value.carries_of_inhabits config.scaling t) hinhabits
    have hback := decode_eq_zipWith_retag config ts vs canonical (by omega)
      (hencode.trans hcanonical) config.strictPadding
    rw [Value.zipWith_retag_of_carries ts vs (fun t _ => Value.retag_of_carries t) hcarries] at hback
    exact ⟨canonical, hcanonical, hback⟩
  · intro hzero
    rw [hzero] at hregion
    exact hregion

/-- A gap in front of the content is closed, and seventy-seven places are not too many for zero;
seventy-eight are. -/
theorem encodeParams_of_decode_gap :
    decode Config.standard [.fixed 256 77, .bytes]
        ([0, 96, 5, 1, 7 * 256 ^ 31].flatMap (Bytes.ofNat wordSize)) =
      .ok [.fixed 256 77 Decimal.zero, .bytes [7]] ∧
    (∃ canonical,
      encodeParams Config.standard [.fixed 256 77, .bytes]
          [.fixed 256 77 Decimal.zero, .bytes [7]] = .ok canonical ∧
        decode Config.standard [.fixed 256 77, .bytes] canonical =
          .ok [.fixed 256 77 Decimal.zero, .bytes [7]]) ∧
    decode Config.standard [.fixed 256 78] (Bytes.ofNat wordSize 0) =
      .ok [.fixed 256 78 Decimal.zero] ∧
    encodeParams Config.standard [.fixed 256 78] [.fixed 256 78 Decimal.zero] =
      .error (.typeMismatch (.scale (.overflow Decimal.zero))) := by
  have hgap : decode Config.standard [.fixed 256 77, .bytes]
        ([0, 96, 5, 1, 7 * 256 ^ 31].flatMap (Bytes.ofNat wordSize)) =
      .ok [.fixed 256 77 Decimal.zero, .bytes [7]] := by
    decide +kernel
  have hzero : decode Config.standard [.fixed 256 78] (Bytes.ofNat wordSize 0) =
      .ok [.fixed 256 78 Decimal.zero] := by
    decide +kernel
  exact ⟨hgap, (encodeParams_of_decode _ _ _ (by decide +kernel) _ hgap).1 (by decide +kernel),
    hzero, (encodeParams_of_decode _ _ _ (by decide +kernel) _ hzero).2 (by decide +kernel)⟩

/-- So not everything that is decoded can be encoded. -/
theorem exists_decode_without_encoding :
    ∃ (config : Config) (ts : List AbiType) (data : Bytes) (vs : List Value),
      decode config ts data = .ok vs ∧ ∀ out, encodeParams config ts vs ≠ .ok out := by
  refine ⟨Config.standard, [.fixed 256 78], Bytes.ofNat wordSize 0, [.fixed 256 78 Decimal.zero],
    by decide +kernel, ?_⟩
  have herror : encodeParams Config.standard [.fixed 256 78] [.fixed 256 78 Decimal.zero] =
      .error (.typeMismatch (.scale (.overflow Decimal.zero))) := by
    decide +kernel
  intro out
  rw [herror]
  exact fun h => nomatch h

end ContractAbi
