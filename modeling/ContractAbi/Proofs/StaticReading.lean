import ContractAbi.Proofs.Conformance
import ContractAbi.Proofs.Padding
import ContractAbi.Proofs.ReadBudget

/-!
# Static data

A static value without decimals can be read leniently wherever there is room for it, whatever stands
there: every word is projected to a value.  Strict reading accepts a word exactly if it is what the
projected value is encoded as, so that a strictly decoded list of static values determines the bytes
that it was decoded from.

`Projects` states all of this for one descriptor, in one induction; `projects_of_word` reduces it for
a leaf to an equation between words.  Decimals are left out because in binary not every wire integer
has a decimal form.
-/

namespace ContractAbi

/-! ## Words that are their own projection -/

theorem Word.toBytes_inj (v w : Word) : Word.toBytes v = Word.toBytes w ↔ v = w := by
  constructor
  · intro h
    rw [← Word.ofBytes_toBytes v, h, Word.ofBytes_toBytes]
  · rintro rfl
    rfl

theorem Word.ofNat_mod_eq_iff (w : Word) (n : Nat) :
    Word.ofNat (w.toNat % (1 <<< n)) = w ↔ Word.fits w n = true := by
  constructor
  · intro h
    have hfits := Word.fits_ofNat_mod w n
    rwa [h] at hfits
  · exact Decode.ofNat_mod_of_fits w n

/-- Only the words zero and one are words of truth values. -/
theorem Word.ofNat_toNat_bool_eq_iff (w : Word) :
    Word.ofNat (w != 0).toNat = w ↔ Word.fits w 1 = true := by
  rw [Word.fits_iff]
  change _ ↔ w.toNat < 2
  constructor
  · intro h
    rw [← h]
    cases (w != 0) <;> decide
  · intro h
    apply BitVec.eq_of_toNat_eq
    have hword : w.toNat = 0 ∨ w.toNat = 1 := by omega
    rcases hword with hzero | hone
    · obtain rfl : w = 0 := BitVec.eq_of_toNat_eq hzero
      rfl
    · obtain rfl : w = 1 := BitVec.eq_of_toNat_eq hone
      rfl

/-- A word is the front of it in a word exactly if there are zeros behind the front. -/
theorem Encode.inWord_take_eq_iff (w : Word) (n : Nat) (hn : n ≤ wordSize) :
    Encode.inWord ((Word.toBytes w).take n) = Word.toBytes w ↔
      ∀ b ∈ (Word.toBytes w).drop n, b = 0 := by
  have hlength : ((Word.toBytes w).take n).length = n := by
    rw [List.length_take, Word.length_toBytes]
    exact Nat.min_eq_left hn
  have hrest : wordSize - n = ((Word.toBytes w).drop n).length := by
    rw [List.length_drop, Word.length_toBytes]
    rfl
  rw [Encode.inWord, hlength, hrest]
  nth_rewrite 3 [← List.take_append_drop n (Word.toBytes w)]
  rw [List.append_cancel_left_eq, eq_comm, List.eq_replicate_iff]
  simp

namespace AbiType

mutual

/-- No leaf is a decimal. -/
def DecimalFree : AbiType → Prop
  | .fixed _ _ => False
  | .array e => DecimalFree e
  | .fixedArray e _ => DecimalFree e
  | .tuple fs => DecimalFreeFields fs
  | _ => True

/-- No field has a decimal among its leaves. -/
def DecimalFreeFields : List Param → Prop
  | [] => True
  | ⟨_, t⟩ :: fs => DecimalFree t ∧ DecimalFreeFields fs

end

theorem decimalFreeFields_iff (fs : List Param) :
    DecimalFreeFields fs ↔ ∀ t ∈ fs.map Param.kind, DecimalFree t := by
  induction fs with
  | nil => simp [DecimalFreeFields]
  | cons f fs ih =>
      obtain ⟨name, t⟩ := f
      simp [DecimalFreeFields, ih]

end AbiType

namespace Decode

variable (config : Config) (data : Input) (scaling : Scaling)

theorem bytesAt_add (position m n : Nat) :
    bytesAt data position (m + n) = bytesAt data position m ++ bytesAt data (position + m) n := by
  rw [bytesAt, bytesAt, bytesAt, List.take_add, List.drop_drop]

theorem length_bytesAt (position count : Nat) (hroom : position + count ≤ data.size) :
    (bytesAt data position count).length = count := by
  rw [bytesAt, List.length_take, List.length_drop, Array.length_toList]
  omega

/-- Where there is room for a value, one is read leniently; it is read strictly as well exactly if it
is encoded as the bytes that stand there. -/
def Projects (t : AbiType) : Prop :=
  ∀ position s, position + t.headSize ≤ data.size → s + t.headSize ≤ data.size →
    ∃ v, (value { config with strictPadding := false } data t position).run s =
        .ok v (s + t.headSize) ∧
      ((value { config with strictPadding := true } data t position).run s =
          .ok v (s + t.headSize) ↔
        Encode.value scaling t v = .ok (bytesAt data position t.headSize))

/-- A leaf projects words if the words that are clean are the ones that the projected value is
encoded as. -/
theorem projects_of_word (hdata : data.size ≤ maxSize) (t : AbiType) (hsize : t.headSize = wordSize)
    (clean : Word → Prop) (project : Word → Value) (body : Word → Bytes)
    (hrun : ∀ (strict : Bool) (position s s' : Nat) (v : Value),
      (value { config with strictPadding := strict } data t position).run s = .ok v s' ↔
        ∃ w, (word data position).run s = .ok w s' ∧ (strict = true → clean w) ∧ v = project w)
    (hencode : ∀ w, Encode.value scaling t (project w) = .ok (body w))
    (hbody : ∀ w, body w = Word.toBytes w ↔ clean w) : Projects config data scaling t := by
  intro position s hroom hbudget
  rw [hsize] at hroom hbudget ⊢
  obtain ⟨w, hword, hbytes⟩ : ∃ w, (word data position).run s = .ok w (s + wordSize) ∧
      Word.toBytes w = bytesAt data position wordSize :=
    ⟨_, (run_word data s _ position _).mpr ⟨⟨by omega, hroom⟩, rfl, by omega, hbudget⟩,
      Word.toBytes_ofBytes _ (length_bytesAt data position wordSize hroom)⟩
  refine ⟨project w, (hrun false position s _ _).mpr ⟨w, hword, by simp, rfl⟩, ?_⟩
  rw [hrun true, hencode, Except.ok.injEq, ← hbytes, hbody]
  constructor
  · rintro ⟨w', hw', hclean, -⟩
    -- The word at a position is the one that stands there.
    rw [hword] at hw'
    cases hw'
    exact hclean rfl
  · intro hclean
    exact ⟨w, hword, fun _ => hclean, rfl⟩

section Regions

variable (ts : List AbiType) (hlegal : ∀ t ∈ ts, t.Legal) (hsized : ∀ t ∈ ts, t.Sized)
  (hstatic : ∀ t ∈ ts, t.isDynamic = false) (ih : ∀ t ∈ ts, Projects config data scaling t)
include hlegal hsized hstatic ih

/-- Static components stand one behind the other, and each of them is projected for itself. -/
theorem exists_components_of_room (start cursor s : Nat)
    (hroom : cursor + (ts.map AbiType.headSize).sum ≤ data.size) (hdata : data.size ≤ maxSize)
    (hbudget : s + (ts.map AbiType.headSize).sum ≤ data.size) :
    ∃ vs, ts.length = vs.length ∧
      (region { config with strictPadding := false } data ts start cursor).run s =
        .ok vs (s + (ts.map AbiType.headSize).sum) ∧
      ((region { config with strictPadding := true } data ts start cursor).run s =
          .ok vs (s + (ts.map AbiType.headSize).sum) ↔
        ∃ ps, Encode.valueParts scaling ts vs = .ok ps ∧
          (ps.map Part.bytes).flatten =
            bytesAt data cursor (ts.map AbiType.headSize).sum) := by
  induction ts generalizing cursor s with
  | nil =>
      refine ⟨[], rfl, rfl, iff_of_true rfl ⟨[], rfl, ?_⟩⟩
      simp [bytesAt]
  | cons t ts ihts =>
      rw [List.map_cons, List.sum_cons] at hroom hbudget ⊢
      have hkind := hstatic t (List.mem_cons_self ..)
      obtain ⟨v, hlenient, hstrict⟩ :=
        ih t (List.mem_cons_self ..) cursor s (by omega) (by omega)
      obtain ⟨vs, hlength, hlenients, hstricts⟩ :=
        ihts (fun u hu => hlegal u (List.mem_cons_of_mem _ hu))
          (fun u hu => hsized u (List.mem_cons_of_mem _ hu))
          (fun u hu => hstatic u (List.mem_cons_of_mem _ hu))
          (fun u hu => ih u (List.mem_cons_of_mem _ hu))
          (cursor + t.headSize) (s + t.headSize) (by omega) (by omega)
      rw [Nat.add_assoc] at hlenients hstricts
      have hcons := fun strict : Bool => run_region_cons_of_static data s
        (s + (t.headSize + (ts.map AbiType.headSize).sum))
        { config with strictPadding := strict } t ts hkind start cursor (by omega) v vs
      refine ⟨v :: vs, by simpa using hlength, (hcons false).mpr ⟨_, hlenient, hlenients⟩, ?_⟩
      rw [hcons true]
      constructor
      · rintro ⟨x, hread, hrest⟩
        -- The first component has charged what it charges leniently.
        have hcharged := run_eq_ok_of_agrees
          (agrees_value config data t (hlegal t (List.mem_cons_self ..)) cursor) s x v hread
        rw [hlenient] at hcharged
        cases hcharged
        obtain ⟨ps, hps, hbytes⟩ := hstricts.mp hrest
        refine ⟨⟨t.isDynamic, _⟩ :: ps, (Encode.valueParts_cons_eq_ok_iff _ _ _ _ _ _).mpr
          ⟨_, ps, hstrict.mp hread, hps, rfl⟩, ?_⟩
        rw [List.map_cons, List.flatten_cons, hbytes, bytesAt_add]
      · rintro ⟨ps, hps, hbytes⟩
        obtain ⟨body, rest, hbody, hrest, rfl⟩ :=
          (Encode.valueParts_cons_eq_ok_iff _ _ _ _ _ _).mp hps
        have hfits := Encode.fits_of_value scaling t (hlegal t (List.mem_cons_self ..))
          (hsized t (List.mem_cons_self ..)) v body hbody
        have hsize : body.length = (bytesAt data cursor t.headSize).length := by
          rw [length_bytesAt data cursor t.headSize (by omega)]
          exact hfits.size hkind
        rw [List.map_cons, List.flatten_cons, bytesAt_add] at hbytes
        obtain ⟨hfirst, hothers⟩ := List.append_inj hbytes hsize
        have hread := hstrict.mpr (hbody.trans (congrArg Except.ok hfirst))
        exact ⟨_, hread, hstricts.mpr ⟨rest, hrest, hothers⟩⟩

/-- The same, with the encoding of the components as one region. -/
theorem exists_region_of_room (start cursor s : Nat)
    (hroom : cursor + (ts.map AbiType.headSize).sum ≤ data.size) (hdata : data.size ≤ maxBuffer)
    (hbudget : s + (ts.map AbiType.headSize).sum ≤ data.size) :
    ∃ vs, ts.length = vs.length ∧
      (region { config with strictPadding := false } data ts start cursor).run s =
        .ok vs (s + (ts.map AbiType.headSize).sum) ∧
      ((region { config with strictPadding := true } data ts start cursor).run s =
          .ok vs (s + (ts.map AbiType.headSize).sum) ↔
        Encode.region ts (Encode.valueParts scaling ts vs) =
          .ok (bytesAt data cursor (ts.map AbiType.headSize).sum)) := by
  have hsize : data.size ≤ maxSize := Nat.le_trans hdata (by decide)
  obtain ⟨vs, hlength, hlenient, hstrict⟩ := exists_components_of_room config data scaling ts hlegal
    hsized hstatic ih start cursor s hroom hsize hbudget
  refine ⟨vs, hlength, hlenient, ?_⟩
  have hassemble : ∀ ps, Encode.valueParts scaling ts vs = .ok ps →
      Part.assemble (ts.map AbiType.headSize).sum ps = (ps.map Part.bytes).flatten := by
    intro ps hps
    have hfits := Encode.forall₂_of_valueParts scaling Part.Fits ts
      (fun t ht v body => Encode.fits_of_value scaling t (hlegal t ht) (hsized t ht) v body) vs ps
      hlength hps
    exact Part.assemble_of_static ts ps hfits hstatic _
  rw [hstrict, Encode.region_eq_ok_iff]
  constructor
  · rintro ⟨ps, hps, hbytes⟩
    exact ⟨ps, hps, by omega, by rw [hassemble ps hps, hbytes]⟩
  · rintro ⟨ps, hps, -, hbytes⟩
    exact ⟨ps, hps, by rw [← hassemble ps hps, hbytes]⟩

end Regions

/-- What is read of a word as a signed number is the number in its low bits, if it is read at all. -/
theorem run_int_iff_word (strict : Bool) (n : Nat) (hwidth : AbiType.isIntegerWidth n = true)
    (position s s' : Nat) (v : Value) :
    (value { config with strictPadding := strict } data (.int n) position).run s = .ok v s' ↔
      ∃ w, (word data position).run s = .ok w s' ∧
        (strict = true → (Int256.ofWord w).fits n = true) ∧ v = .int n (Int256.ofLowBits w n) := by
  rw [run_int]
  simp only [run_signed]
  cases strict with
  | false => simp
  | true =>
      simp only [if_true, forall_const]
      constructor
      · rintro ⟨i, ⟨w, hw, hfits, rfl⟩, rfl⟩
        exact ⟨w, hw, hfits, by rw [Int256.ofLowBits_of_fits w n hwidth hfits]⟩
      · rintro ⟨w, hw, hfits, rfl⟩
        exact ⟨_, ⟨w, hw, hfits, rfl⟩, by rw [Int256.ofLowBits_of_fits w n hwidth hfits]⟩

/-- Every static descriptor without decimals projects what stands in the data. -/
theorem projects_of_static (hdata : data.size ≤ maxBuffer) (t : AbiType) (hlegal : t.Legal)
    (hsized : t.Sized) (hstatic : t.isDynamic = false) (hfree : t.DecimalFree) :
    Projects config data scaling t := by
  have hsize : data.size ≤ maxSize := Nat.le_trans hdata (by decide)
  induction t using AbiType.induction with
  | address =>
      refine projects_of_word config data scaling hsize _ rfl (fun w => Word.fits w 160 = true)
        (fun w => .address (Address.ofWord w)) (fun w => Word.toBytes (Address.ofWord w).toWord)
        (fun strict position s s' v => run_address data s s' _ position v) (fun w => rfl) fun w => ?_
      rw [Word.toBytes_inj, Address.toWord_ofWord_iff, Word.fits_iff, Nat.one_shiftLeft]
  | uint n =>
      refine projects_of_word config data scaling hsize _ rfl (fun w => Word.fits w n = true)
        (fun w => .uint n (Word.ofNat (w.toNat % (1 <<< n))))
        (fun w => Word.toBytes (Word.ofNat (w.toNat % (1 <<< n))))
        (fun strict position s s' v => run_uint data s s' _ n position v) (fun w => ?_) fun w => ?_
      · exact (Encode.value_uint scaling _ _ n).mpr ⟨_, rfl, Word.fits_ofNat_mod w n, rfl⟩
      · rw [Word.toBytes_inj, Word.ofNat_mod_eq_iff]
  | int n =>
      refine projects_of_word config data scaling hsize _ rfl
        (fun w => (Int256.ofWord w).fits n = true) (fun w => .int n (Int256.ofLowBits w n))
        (fun w => Word.toBytes (Int256.ofLowBits w n).toWord)
        (fun strict position s s' v => run_int_iff_word config data strict n hlegal position s s' v)
        (fun w => ?_) fun w => ?_
      · exact (Encode.value_int scaling _ _ n).mpr
          ⟨_, rfl, Int256.fits_ofLowBits w n hlegal, rfl⟩
      · rw [Word.toBytes_inj, Int256.toWord_ofLowBits_eq_iff w n hlegal]
  | bool =>
      refine projects_of_word config data scaling hsize _ rfl (fun w => Word.fits w 1 = true)
        (fun w => .bool (w != 0)) (fun w => Word.toBytes (Word.ofNat (w != 0).toNat))
        (fun strict position s s' v => run_bool data s s' _ position v) (fun w => rfl) fun w => ?_
      rw [Word.toBytes_inj, Word.ofNat_toNat_bool_eq_iff]
  | fixedBytes n =>
      have hn : n ≤ wordSize := hlegal.2
      refine projects_of_word config data scaling hsize _ rfl
        (fun w => ∀ b ∈ (Word.toBytes w).drop n, b = 0)
        (fun w => .fixedBytes ((Word.toBytes w).take n))
        (fun w => Encode.inWord ((Word.toBytes w).take n))
        (fun strict position s s' v => ?_) (fun w => ?_)
        fun w => Encode.inWord_take_eq_iff w n hn
      · rw [run_fixedBytes]
        simp only [hn, true_and]
      · refine (Encode.value_fixedBytes scaling _ _ n).mpr ⟨_, rfl, ?_, rfl⟩
        rw [List.length_take, Word.length_toBytes]
        exact Nat.min_eq_left hn
  | bytes => contradiction
  | string => contradiction
  | array e => contradiction
  | fixed m n => exact hfree.elim
  | fixedArray e n ih =>
      intro position s hroom hbudget
      have hsum : (AbiType.fixedArray e n).headSize =
          ((List.replicate n e).map AbiType.headSize).sum :=
        AbiType.headSize_fixedArray e n hsized hstatic
      rw [hsum] at hroom hbudget ⊢
      obtain ⟨vs, hlength, hlenient, hstrict⟩ := exists_region_of_room config data scaling
        (List.replicate n e) (List.forall_mem_replicate.mpr (.inr hlegal.2))
        (List.forall_mem_replicate.mpr (.inr hsized.1))
        (List.forall_mem_replicate.mpr (.inr hstatic))
        (List.forall_mem_replicate.mpr (.inr (ih hlegal.2 hsized.1 hstatic hfree)))
        position position s hroom hdata hbudget
      rw [List.length_replicate] at hlength
      have hcheck : min maxSize (n * e.headSize + position) ≤ data.size := by
        rw [List.map_replicate, List.sum_replicate_nat] at hroom
        omega
      refine ⟨.fixedArray e vs, (run_fixedArray data s _ _ e n position _).mpr
        ⟨vs, hcheck, hlenient, rfl⟩, ?_⟩
      rw [run_fixedArray, Encode.value_fixedArray]
      constructor
      · rintro ⟨vs', -, hrun, heq⟩
        cases heq
        exact ⟨e, vs, rfl, hlength.symm, hstrict.mp hrun⟩
      · rintro ⟨carried, vs', heq, -, hregion⟩
        cases heq
        exact ⟨vs, hcheck, hstrict.mpr hregion, rfl⟩
  | tuple fs ih =>
      intro position s hroom hbudget
      have hany : AbiType.anyDynamic fs = false := hstatic
      rw [AbiType.headSize_tuple fs hsized hany] at hroom hbudget ⊢
      have hlegalfs := (AbiType.legalFields_iff fs).mp hlegal.2
      have hsizedfs := (AbiType.sizedFields_iff fs).mp hsized.1
      have hfreefs := (AbiType.decimalFreeFields_iff fs).mp hfree
      have hstaticfs := (AbiType.anyDynamic_eq_false_iff fs).mp hany
      obtain ⟨vs, hlength, hlenient, hstrict⟩ := exists_region_of_room config data scaling
        (fs.map Param.kind) hlegalfs hsizedfs hstaticfs
        (fun u hu => ih u hu (hlegalfs u hu) (hsizedfs u hu) (hstaticfs u hu) (hfreefs u hu))
        position position s hroom hdata hbudget
      rw [List.length_map] at hlength
      refine ⟨.tuple vs, (run_tuple data s _ _ fs position _).mpr ⟨vs, hlenient, rfl⟩, ?_⟩
      rw [run_tuple, Encode.value_tuple]
      constructor
      · rintro ⟨vs', hrun, heq⟩
        cases heq
        exact ⟨vs, rfl, hlength, hstrict.mp hrun⟩
      · rintro ⟨vs', heq, -, hregion⟩
        cases heq
        exact ⟨vs, hstrict.mpr hregion, rfl⟩

end Decode

/-- Decimals apart, static data of the right length can always be decoded leniently.  Strictly it
decodes to the same values if it begins with their encoding, and otherwise some word is refused.
Shorter data cannot be decoded at all.

The encoder may have limits and a scaling of its own, as long as it accepts the descriptors.  The
length of any data that exists is at most `maxBuffer`. -/
theorem decode_static (config : Config) (ts : List AbiType) (data : Bytes)
    (hdata : data.length ≤ maxBuffer) (hvalid : AbiType.validateAll config.maxDepth ts = .ok ())
    (hstatic : ∀ t ∈ ts, t.isDynamic = false) (hfree : ∀ t ∈ ts, t.DecimalFree) :
    ((ts.map AbiType.headSize).sum ≤ data.length →
      ∃ vs, decode { config with strictPadding := false } ts data = .ok vs ∧
        ∀ encoder : Config, AbiType.validateAll encoder.maxDepth ts = .ok () →
          (encodeParams encoder ts vs = .ok (data.take (ts.map AbiType.headSize).sum) →
            decode { config with strictPadding := true } ts data = .ok vs) ∧
          (encodeParams encoder ts vs ≠ .ok (data.take (ts.map AbiType.headSize).sum) →
            ∃ cause, decode { config with strictPadding := true } ts data =
              .error (.typeMismatch cause))) ∧
    (data.length < (ts.map AbiType.headSize).sum →
      ∀ strict, ∃ e, decode { config with strictPadding := strict } ts data = .error e) := by
  have hlegal := AbiType.legal_and_sized_of_validateAll config.maxDepth ts hvalid
  have hbuffer : data.toArray.size ≤ maxBuffer := by simpa using hdata
  constructor
  · intro hroom
    have hregion := fun scaling => Decode.exists_region_of_room config data.toArray scaling ts
      (fun t ht => (hlegal t ht).1) (fun t ht => (hlegal t ht).2) hstatic
      (fun t ht => Decode.projects_of_static config data.toArray scaling hbuffer t (hlegal t ht).1
        (hlegal t ht).2 (hstatic t ht) (hfree t ht)) 0 0 0 (by simpa using hroom) hbuffer
      (by simpa using hroom)
    obtain ⟨vs, hlength, hlenient, -⟩ := hregion config.scaling
    refine ⟨vs, (decode_eq_ok_iff _ ts data vs).mpr ⟨hvalid, _, hlenient⟩, ?_⟩
    intro encoder haccepted
    have hencode : encodeParams encoder ts vs = .ok (data.take (ts.map AbiType.headSize).sum) ↔
        (Decode.region { config with strictPadding := true } data.toArray ts 0 0).run 0 =
          .ok vs (0 + (ts.map AbiType.headSize).sum) := by
      obtain ⟨ws, -, hlenient', hstrict⟩ := hregion encoder.scaling
      rw [hlenient] at hlenient'
      cases hlenient'
      rw [hstrict, encodeParams_eq_ok_iff, Decode.bytesAt, List.drop_zero]
      simp [hlength, haccepted]
    constructor
    · intro h
      exact (decode_eq_ok_iff _ ts data vs).mpr ⟨hvalid, _, hencode.mp h⟩
    · intro h
      rcases Decode.agrees_region config data.toArray ts (fun t ht => (hlegal t ht).1) 0 0 0 with
        hsame | ⟨cause, t, hrefused⟩
      · exact absurd (hencode.mpr (hsame.trans hlenient)) h
      · exact ⟨cause, decode_eq_error_of_run _ ts data _ t hvalid hrefused⟩
  · intro hshort strict
    cases hdecode : decode { config with strictPadding := strict } ts data with
    | error e => exact ⟨e, rfl⟩
    | ok vs =>
        have hsize : data.length < maxSize := Nat.lt_of_le_of_lt hdata (by decide)
        obtain ⟨hinhabits, hweight⟩ := inhabitants_of_decode _ ts data hsize vs hdecode
        have htyped := hinhabits.imp fun t v hv => Value.wellTyped_of_inhabits config.scaling t v hv
        -- What has been read weighs as much as the heads of all descriptors together.
        rw [Value.regionWeight_of_static ts hstatic
          (fun t ht => Value.weight_of_static t (hlegal t ht).2 (hstatic t ht)) vs htyped] at hweight
        omega

/-- Dirty bits above the second element are ignored leniently and refused strictly; without them,
and with more data behind, both readings agree. -/
theorem decode_static_dirty :
    (∃ cause, decode { Config.standard with strictPadding := true } [.fixedArray (.int 8) 2, .bool]
        ([2 ^ 256 - 3, 2 ^ 200 + 5, 1].flatMap (Bytes.ofNat wordSize)) =
      .error (.typeMismatch cause)) ∧
    decode { Config.standard with strictPadding := true } [.fixedArray (.int 8) 2, .bool]
        ([2 ^ 256 - 3, 5, 1, 7].flatMap (Bytes.ofNat wordSize)) =
      .ok [.fixedArray (.int 8)
        [.int 8 ⟨-3, by decide, by decide⟩, .int 8 ⟨5, by decide, by decide⟩], .bool true] ∧
    ∃ e, decode { Config.standard with strictPadding := false } [.fixedArray (.int 8) 2, .bool]
        ([2 ^ 256 - 3, 5].flatMap (Bytes.ofNat wordSize)) = .error e := by
  have hstatic : ∀ t ∈ [AbiType.fixedArray (.int 8) 2, .bool], t.isDynamic = false := by
    decide
  have hfree : ∀ t ∈ [AbiType.fixedArray (.int 8) 2, .bool], t.DecimalFree := by
    simp [AbiType.DecimalFree]
  have hvalid : AbiType.validateAll Config.standard.maxDepth [.fixedArray (.int 8) 2, .bool] =
      .ok () := by
    decide +kernel
  have hstandard := fun data hdata =>
    decode_static Config.standard [.fixedArray (.int 8) 2, .bool] data hdata hvalid hstatic hfree
  refine ⟨?_, ?_, (hstandard _ (by decide +kernel)).2 (by decide +kernel) false⟩
  · obtain ⟨vs, hlenient, hstrict⟩ := (hstandard
      ([2 ^ 256 - 3, 2 ^ 200 + 5, 1].flatMap (Bytes.ofNat wordSize)) (by decide +kernel)).1
      (by decide +kernel)
    obtain rfl : [.fixedArray (.int 8)
        [.int 8 ⟨-3, by decide, by decide⟩, .int 8 ⟨5, by decide, by decide⟩], .bool true] = vs :=
      Except.ok.inj (Eq.trans (by decide +kernel) hlenient)
    exact (hstrict Config.standard hvalid).2 (by decide +kernel)
  · obtain ⟨vs, hlenient, hstrict⟩ := (hstandard
      ([2 ^ 256 - 3, 5, 1, 7].flatMap (Bytes.ofNat wordSize)) (by decide +kernel)).1
      (by decide +kernel)
    obtain rfl : [.fixedArray (.int 8)
        [.int 8 ⟨-3, by decide, by decide⟩, .int 8 ⟨5, by decide, by decide⟩], .bool true] = vs :=
      Except.ok.inj (Eq.trans (by decide +kernel) hlenient)
    exact (hstrict Config.standard hvalid).1 (by decide +kernel)

end ContractAbi
