import ContractAbi.Proofs.Conformance
import ContractAbi.Proofs.Reading
import ContractAbi.Proofs.SignedWord

/-!
# What is written is read back

Decoding knows the descriptors of array elements from the declaration only, so what comes back is the
value as `retag` leaves it: every array carries the declared descriptor of its elements.

The induction runs along the descriptor, for an encoding that stands anywhere in the data.  Next to the
value it bounds what reading charges by the length of the encoding; that is why the budget suffices for
encoded data, whatever was charged before.
-/

namespace ContractAbi

namespace Value

mutual

/-- The value with the declared descriptor of the elements in every array. -/
def retag : AbiType → Value → Value
  | .array e, .array _ vs => .array e (vs.map (retag e))
  | .fixedArray e _, .fixedArray _ vs => .fixedArray e (vs.map (retag e))
  | .tuple fs, .tuple vs => .tuple (retagFields fs vs)
  | _, v => v

/-- The items of a tuple with declared descriptors. -/
def retagFields : List Param → List Value → List Value
  | ⟨_, t⟩ :: fs, v :: vs => retag t v :: retagFields fs vs
  | _, _ => []

end

mutual

/-- Whether every array in the value carries the declared descriptor of its elements. -/
def Carries : AbiType → Value → Prop
  | .array e, .array carried vs => carried = e ∧ ∀ v ∈ vs, Carries e v
  | .fixedArray e _, .fixedArray carried vs => carried = e ∧ ∀ v ∈ vs, Carries e v
  | .tuple fs, .tuple vs => CarriesFields fs vs
  | _, _ => True

/-- Whether this holds of all items of a tuple. -/
def CarriesFields : List Param → List Value → Prop
  | [], [] => True
  | ⟨_, t⟩ :: fs, v :: vs => Carries t v ∧ CarriesFields fs vs
  | _, _ => False

end

theorem retagFields_eq_zipWith (fs : List Param) (vs : List Value) :
    retagFields fs vs = List.zipWith retag (fs.map Param.kind) vs := by
  induction fs generalizing vs with
  | nil => simp [retagFields]
  | cons f fs ih =>
      obtain ⟨name, t⟩ := f
      cases vs with
      | nil => simp [retagFields]
      | cons v vs => simp [retagFields, ih]

theorem zipWith_replicate_retag (e : AbiType) (vs : List Value) :
    List.zipWith retag (List.replicate vs.length e) vs = vs.map (retag e) := by
  induction vs with
  | nil => rfl
  | cons v vs ih => rw [List.length_cons, List.replicate_succ, List.zipWith_cons_cons, ih,
      List.map_cons]

theorem carriesFields_iff (fs : List Param) (vs : List Value) :
    CarriesFields fs vs ↔ List.Forall₂ Carries (fs.map Param.kind) vs := by
  induction fs generalizing vs with
  | nil => cases vs <;> simp [CarriesFields]
  | cons f fs ih =>
      obtain ⟨name, t⟩ := f
      cases vs with
      | nil => simp [CarriesFields]
      | cons v vs => simp [CarriesFields, ih]

/-- If values that carry the declared descriptors are left alone, lists of them are too. -/
theorem zipWith_retag_of_carries (ts : List AbiType) (vs : List Value)
    (ih : ∀ t ∈ ts, ∀ v, Carries t v → retag t v = v) (h : List.Forall₂ Carries ts vs) :
    List.zipWith retag ts vs = vs := by
  induction h with
  | nil => rfl
  | cons hv _ ihvs =>
      rw [List.zipWith_cons_cons, ih _ (List.mem_cons_self ..) _ hv,
        ihvs fun t ht => ih t (List.mem_cons_of_mem _ ht)]

/-- A value that carries the declared descriptors is left as it is. -/
theorem retag_of_carries (t : AbiType) (v : Value) (h : Carries t v) : retag t v = v := by
  induction t using AbiType.induction generalizing v with
  | array e ih =>
      cases v with
      | array carried vs =>
          obtain ⟨rfl, hitems⟩ := h
          have hvs : vs.map (retag carried) = vs.map id :=
            List.map_congr_left fun v hv => ih v (hitems v hv)
          rw [retag, hvs, List.map_id]
      | _ => simp [retag]
  | fixedArray e n ih =>
      cases v with
      | fixedArray carried vs =>
          obtain ⟨rfl, hitems⟩ := h
          have hvs : vs.map (retag carried) = vs.map id :=
            List.map_congr_left fun v hv => ih v (hitems v hv)
          rw [retag, hvs, List.map_id]
      | _ => simp [retag]
  | tuple fs ih =>
      cases v with
      | tuple vs =>
          have hitems := (carriesFields_iff fs vs).mp h
          rw [retag, retagFields_eq_zipWith, zipWith_retag_of_carries _ vs ih hitems]
      | _ => simp [retag]
  | _ => simp [retag]

end Value

namespace Decode

/-- The number of a small enough word is the number that was written. -/
theorem toNat_ofNat_of_le (n : Nat) (hn : n ≤ maxSize) : (Word.ofNat n).toNat = n := by
  rw [Word.ofNat, BitVec.toNat_ofNat]
  apply Nat.mod_eq_of_lt
  exact Nat.lt_of_le_of_lt hn (by decide)

/-- The length word and the content are no more than what is written for a byte sequence. -/
theorem length_le_lengthPrefixed (content : Bytes) :
    wordSize + content.length ≤ (Encode.lengthPrefixed content).length := by
  rw [Encode.lengthPrefixed, Encode.padded, List.length_append, List.length_append,
    Word.length_toBytes]
  show 32 + content.length ≤ _
  omega

/-! ## Words and contents that stand in the data -/

section Leaves

variable (data : Input) (hdata : data.size ≤ maxSize) (position s : Nat)
include hdata

/-- A word that stands in the data is read, as long as the budget has room for it. -/
theorem run_word_of_standsAt (w : Word) (hw : StandsAt data.toList position (Word.toBytes w))
    (hbudget : s + wordSize ≤ data.size) :
    (word data position).run s = .ok w (s + wordSize) := by
  have hroom : position + (Word.toBytes w).length ≤ data.size := hw.length_le
  have htake := hw.take_drop
  rw [Word.length_toBytes] at hroom htake
  refine (run_word data s _ position w).mpr ⟨⟨?_, hroom⟩, ?_, ?_, hbudget⟩
  · simp only [wordSize]
    omega
  · rw [bytesAt, wordSize, htake, Word.ofBytes_toBytes]
  · omega

theorem run_offset_of_standsAt (n : Nat) (hn : n ≤ maxSize) (haligned : wordSize ∣ n)
    (hoffset : StandsAt data.toList position (Bytes.ofNat wordSize n))
    (hbudget : s + wordSize ≤ data.size) :
    (offset data position).run s = .ok n (s + wordSize) := by
  rw [← Word.toBytes_ofNat] at hoffset
  have hword := run_word_of_standsAt data hdata position s (Word.ofNat n) hoffset hbudget
  exact (run_offset data s _ position n).mpr
    ⟨_, hword, (toNat_ofNat_of_le n hn).symm, Nat.mod_eq_zero_of_dvd haligned, hn⟩

theorem run_length_of_standsAt (n : Nat) (hn : n ≤ data.size)
    (hlength : StandsAt data.toList position (Word.toBytes (Word.ofNat n)))
    (hbudget : s + wordSize ≤ data.size) :
    (length data position).run s = .ok n (s + wordSize) := by
  have hword := run_word_of_standsAt data hdata position s (Word.ofNat n) hlength hbudget
  exact (run_length data s _ position n).mpr
    ⟨_, hword, (toNat_ofNat_of_le n (Nat.le_trans hn hdata)).symm, hn⟩

/-- The padding behind a byte sequence is neither read nor charged. -/
theorem run_content_of_standsAt (bytes : Bytes)
    (hbytes : StandsAt data.toList position (Encode.lengthPrefixed bytes))
    (hbudget : s + (wordSize + bytes.length) ≤ data.size) :
    (content data position).run s = .ok bytes (s + (wordSize + bytes.length)) := by
  have hlength := hbytes.left
  have hcontent := hbytes.right.left
  rw [Word.length_toBytes] at hcontent
  have hroom : position + 32 + bytes.length ≤ data.size := hcontent.length_le
  have hword := run_length_of_standsAt data hdata position s bytes.length (by omega) hlength
    (by omega)
  refine (run_content data s _ position bytes).mpr ⟨_, _, hword, ⟨?_, hroom⟩, ?_, ?_, hbudget⟩
  · simp only [wordSize]
    omega
  · exact hcontent.take_drop.symm
  · omega

end Leaves

/-! ## Regions and values -/

variable (config : Config) (data : Input)

/-- Wherever the bytes stand in the data, reading them gives the value with the declared descriptors
and charges at most their number. -/
def ReadsBack (t : AbiType) (v : Value) (body : Bytes) : Prop :=
  ∀ position s, StandsAt data.toList position body → s + body.length ≤ data.size →
    ∃ s', (value config data t position).run s = .ok (v.retag t) s' ∧ s' ≤ s + body.length

/-- A value of one word is read back if it is read from that word. -/
theorem readsBack_of_word (hdata : data.size ≤ maxSize) (t : AbiType) (v : Value) (w : Word)
    (hread : ∀ position s s' : Nat, (word data position).run s = .ok w s' →
      (value config data t position).run s = .ok (v.retag t) s') :
    ReadsBack config data t v (Word.toBytes w) := by
  intro position s hbody hbudget
  rw [Word.length_toBytes] at hbudget ⊢
  have hword := run_word_of_standsAt data hdata position s w hbody hbudget
  exact ⟨s + 32, hread position s _ hword, Nat.le_refl _⟩

/-- A byte sequence is read back if it is read from its content. -/
theorem readsBack_of_content (hdata : data.size ≤ maxSize) (t : AbiType) (v : Value)
    (bytes : Bytes)
    (hread : ∀ position s s' : Nat, (content data position).run s = .ok bytes s' →
      (value config data t position).run s = .ok (v.retag t) s') :
    ReadsBack config data t v (Encode.lengthPrefixed bytes) := by
  intro position s hbody hbudget
  have hle := length_le_lengthPrefixed bytes
  have hcontent := run_content_of_standsAt data hdata position s bytes hbody (by omega)
  exact ⟨s + (wordSize + bytes.length), hread position s _ hcontent, by omega⟩

/-- The word of a signed number of the declared width gives the number in both modes. -/
theorem run_signed_of_word (u : AbiType) (bits position s s' : Nat) (i : Int256)
    (hwidth : AbiType.isIntegerWidth bits = true) (hfits : i.fits bits = true)
    (hword : (word data position).run s = .ok i.toWord s') :
    (signed config data u bits position).run s = .ok i s' := by
  refine (run_signed data s s' config u bits position i).mpr ⟨_, hword, ?_⟩
  by_cases hstrict : config.strictPadding = true
  · rw [if_pos hstrict, Int256.ofWord_toWord]
    exact ⟨hfits, rfl⟩
  · rw [if_neg hstrict, Int256.ofLowBits_toWord i bits hwidth hfits]

/-- The components of a tiled region are read back one after the other.  What is left to charge are
the remaining heads and the tails from `next` on. -/
theorem run_region_of_tiles (hdata : data.size ≤ maxSize) (start : Nat) (out : Bytes)
    (hout : StandsAt data.toList start out) (ts : List AbiType) (vs : List Value)
    (ps : List Part) (hlength : ts.length = vs.length)
    (hparts : Encode.valueParts config.scaling ts vs = .ok ps)
    (hfits : List.Forall₂ Part.Fits ts ps)
    (ih : ∀ t ∈ ts, ∀ v body, Encode.value config.scaling t v = .ok body →
      ReadsBack config data t v body)
    (cursor next s : Nat) (haligned : wordSize ∣ next)
    (htiles : Tiles out cursor next ts (ps.map Part.bytes))
    (hbudget : s + ((ts.map AbiType.headSize).sum + (out.length - next)) ≤ data.size) :
    ∃ s', (region config data ts start (start + cursor)).run s =
        .ok (List.zipWith (fun t v => v.retag t) ts vs) s' ∧
      s' ≤ s + ((ts.map AbiType.headSize).sum + (out.length - next)) := by
  have hregion : start + out.length ≤ data.size := hout.length_le
  induction ts generalizing vs ps cursor next s with
  | nil =>
      obtain rfl := List.length_eq_zero_iff.mp hlength.symm
      exact ⟨s, (run_region_nil data s s config start _ _).mpr ⟨rfl, rfl⟩, Nat.le_add_right _ _⟩
  | cons t ts ihts =>
      obtain ⟨v, vs, rfl⟩ := List.exists_cons_of_length_eq_add_one hlength.symm
      obtain ⟨body, rest, hbody, hrest, rfl⟩ :=
        (Encode.valueParts_cons_eq_ok_iff config.scaling t ts v vs ps).mp hparts
      obtain ⟨hfit, hfits⟩ := List.forall₂_cons.mp hfits
      have hreads := ih t (List.mem_cons_self ..) v body hbody
      have hrestReads := ihts vs rest (Nat.succ.inj hlength) hrest hfits
        (fun u hu => ih u (List.mem_cons_of_mem _ hu))
      rw [List.map_cons, List.sum_cons] at hbudget
      rw [List.map_cons, Tiles] at htiles
      have hwhole : wordSize ∣ body.length := hfit.whole
      by_cases hdynamic : t.isDynamic = true
      · rw [if_pos hdynamic] at htiles
        obtain ⟨hoffset, -, htail, htiles⟩ := htiles
        have hhead : t.headSize = wordSize := AbiType.headSize_of_isDynamic t hdynamic
        have htailRoom : next + body.length ≤ out.length := htail.length_le
        have hoffsetRoom := hoffset.length_le
        rw [Bytes.length_ofNat] at hoffsetRoom
        -- The offset is charged first, then the tail, then what is left.
        have hread := run_offset_of_standsAt data hdata (start + cursor) s next (by omega) haligned
          (hout.trans hoffset) (by omega)
        obtain ⟨x, hvalue, hx⟩ := hreads (start + next) (s + wordSize) (hout.trans htail) (by omega)
        obtain ⟨s', hregions, hs'⟩ := hrestReads (cursor + wordSize) (next + body.length) x
          (Nat.dvd_add haligned hwhole) htiles (by omega)
        rw [← Nat.add_assoc] at hregions
        have hcomponent := (run_component data s x t (value config data t) start (start + cursor)
          (v.retag t) (start + cursor + wordSize)).mpr
            (.inl ⟨hdynamic, next, _, hread, by omega, hvalue, by omega, rfl⟩)
        refine ⟨s', (run_region_cons data s s' config t ts start _ _).mpr
          ⟨_, _, x, _, hcomponent, hregions, rfl⟩, ?_⟩
        rw [List.map_cons, List.sum_cons]
        omega
      · rw [if_neg hdynamic] at htiles
        -- The component is its own head, and no tail is passed over.
        obtain ⟨hhead, hsize, htiles⟩ := htiles
        have hstatic : t.isDynamic = false := by simpa using hdynamic
        have hbodySize : body.length = t.headSize := hsize
        have hheadRoom : cursor + body.length ≤ out.length := hhead.length_le
        obtain ⟨x, hvalue, hx⟩ := hreads (start + cursor) s (hout.trans hhead) (by omega)
        obtain ⟨s', hregions, hs'⟩ := hrestReads (cursor + t.headSize) next x haligned htiles
          (by omega)
        rw [← Nat.add_assoc] at hregions
        have hcomponent := (run_component data s x t (value config data t) start (start + cursor)
          (v.retag t) (start + cursor + t.headSize)).mpr
            (.inr ⟨hstatic, hvalue, by omega, rfl⟩)
        refine ⟨s', (run_region_cons data s s' config t ts start _ _).mpr
          ⟨_, _, x, _, hcomponent, hregions, rfl⟩, ?_⟩
        rw [List.map_cons, List.sum_cons]
        omega

/-- A whole region is read back, and its heads do not pass its end. -/
theorem run_region_of_standsAt (hdata : data.size ≤ maxSize) (ts : List AbiType)
    (hlegal : ∀ t ∈ ts, t.Legal ∧ t.Sized)
    (ih : ∀ t ∈ ts, ∀ v body, Encode.value config.scaling t v = .ok body →
      ReadsBack config data t v body)
    (vs : List Value) (out : Bytes) (hlength : ts.length = vs.length)
    (h : Encode.region ts (Encode.valueParts config.scaling ts vs) = .ok out) (start s : Nat)
    (hout : StandsAt data.toList start out) (hbudget : s + out.length ≤ data.size) :
    (ts.map AbiType.headSize).sum ≤ out.length ∧
      ∃ s', (region config data ts start start).run s =
          .ok (List.zipWith (fun t v => v.retag t) ts vs) s' ∧ s' ≤ s + out.length := by
  obtain ⟨ps, hps, hfits, htiled, hheads⟩ :=
    Encode.tiled_of_region config.scaling ts hlegal vs out hlength h
  -- The first tail starts behind the heads, and an offset that is not whole words is refused.
  have haligned : wordSize ∣ (ts.map AbiType.headSize).sum := by
    apply List.dvd_sum
    intro size hsize
    obtain ⟨t, ht, rfl⟩ := List.mem_map.mp hsize
    exact AbiType.wordSize_dvd_headSize t (hlegal t ht).2
  obtain ⟨s', hrun, hs'⟩ := run_region_of_tiles config data hdata start out hout ts vs ps hlength
    hps hfits ih 0 _ s haligned htiled (by omega)
  exact ⟨hheads, s', hrun, by omega⟩

/-- The encoding of a value is read back wherever it stands, whether or not padding has to be clean. -/
theorem readsBack_of_value (hdata : data.size ≤ maxSize) (t : AbiType) (hlegal : t.Legal)
    (hsized : t.Sized) (v : Value) (body : Bytes)
    (h : Encode.value config.scaling t v = .ok body) : ReadsBack config data t v body := by
  induction t using AbiType.induction generalizing v body with
  | address =>
      obtain ⟨a, rfl, rfl⟩ := (Encode.value_address _ v body).mp h
      refine readsBack_of_word config data hdata _ _ _ fun position s s' hword => ?_
      have hlow := (Address.toWord_ofWord_iff a.toWord).mp (by rw [Address.ofWord_toWord])
      refine (run_address data s s' config position _).mpr ⟨_, hword, fun _ => ?_, ?_⟩
      · rw [Word.fits, decide_eq_true hlow, Bool.or_true]
      · simp [Value.retag]
  | uint n =>
      obtain ⟨w, rfl, hfits, rfl⟩ := (Encode.value_uint _ v body n).mp h
      refine readsBack_of_word config data hdata _ _ _ fun position s s' hword => ?_
      -- What the encoder accepts is clean, so that both modes read it.
      refine (run_uint data s s' config n position _).mpr ⟨w, hword, fun _ => hfits, ?_⟩
      rw [ofNat_mod_of_fits w n hfits]
      simp [Value.retag]
  | int n =>
      obtain ⟨i, rfl, hfits, rfl⟩ := (Encode.value_int _ v body n).mp h
      refine readsBack_of_word config data hdata _ _ _ fun position s s' hword => ?_
      have hi := run_signed_of_word config data (.int n) n position s s' i hlegal hfits hword
      exact (run_int data s s' config n position _).mpr ⟨i, hi, by simp [Value.retag]⟩
  | bool =>
      obtain ⟨b, rfl, rfl⟩ := (Encode.value_bool _ v body).mp h
      refine readsBack_of_word config data hdata _ _ _ fun position s s' hword => ?_
      refine (run_bool data s s' config position _).mpr ⟨_, hword, fun _ => ?_, ?_⟩
      · cases b <;> decide
      · cases b <;> simp [Value.retag, Word.ofNat]
  | fixedBytes n =>
      obtain ⟨content, rfl, rfl, rfl⟩ := (Encode.value_fixedBytes _ v body n).mp h
      have hbytes := Word.toBytes_ofBytes _ (Encode.length_inWord content hlegal.2)
      rw [← hbytes]
      refine readsBack_of_word config data hdata _ _ _ fun position s s' hword => ?_
      refine (run_fixedBytes data s s' config _ position _).mpr
        ⟨_, hword, hlegal.2, fun _ => ?_, ?_⟩
      · intro b hb
        rw [hbytes, Encode.inWord, List.drop_left] at hb
        exact List.eq_of_mem_replicate hb
      · rw [hbytes, Encode.inWord, List.take_left]
        simp [Value.retag]
  | fixed m n =>
      obtain ⟨x, raw, rfl, hraw, hfits, rfl⟩ := (Encode.value_fixed _ v body m n).mp h
      refine readsBack_of_word config data hdata _ _ _ fun position s s' hword => ?_
      have hi := run_signed_of_word config data (.fixed m n) m position s s' raw hlegal.1 hfits
        hword
      have hx := Decimal.ofWire_of_toRat x raw n config.scaling hlegal.2
        (Decimal.toRat_mul_factor_of_toWire x n config.scaling raw hraw)
      exact (run_fixed data s s' config m n position _).mpr ⟨raw, x, hi, hx, by simp [Value.retag]⟩
  | bytes =>
      obtain ⟨content, rfl, rfl⟩ := (Encode.value_bytes _ v body).mp h
      refine readsBack_of_content config data hdata _ _ _ fun position s s' hcontent => ?_
      exact (run_bytes data s s' config position _).mpr ⟨content, hcontent, by simp [Value.retag]⟩
  | string =>
      obtain ⟨x, rfl, rfl⟩ := (Encode.value_string _ v body).mp h
      refine readsBack_of_content config data hdata _ _ _ fun position s s' hcontent => ?_
      exact (run_string data s s' config position _).mpr
        ⟨_, x, hcontent, Text.Utf8.decode_encode x, by simp [Value.retag]⟩
  | array e ih =>
      obtain ⟨carried, vs, out, rfl, -, hregion, rfl⟩ := (Encode.value_array _ v body e).mp h
      intro position s hbody hbudget
      have hout := hbody.right
      rw [Word.length_toBytes] at hout
      rw [List.length_append, Word.length_toBytes] at hbudget ⊢
      have hroom : position + 32 + out.length ≤ data.size := hout.length_le
      obtain ⟨hheads, s', hrun, hs'⟩ := run_region_of_standsAt config data hdata
        (List.replicate vs.length e) (List.forall_mem_replicate.mpr (.inr ⟨hlegal, hsized⟩))
        (List.forall_mem_replicate.mpr (.inr (ih hlegal hsized))) vs out
        List.length_replicate hregion (position + 32) (s + 32) hout (by omega)
      rw [List.map_replicate, List.sum_replicate_nat] at hheads
      have hcount := Encode.count_le_length config.scaling e hlegal hsized vs out hregion
      have hlength := run_length_of_standsAt data hdata position s vs.length (by omega) hbody.left
        (by simp only [wordSize]; omega)
      refine ⟨s', (run_array data s s' config e position _).mpr
        ⟨vs.length, s + 32, _, hlength, ?_, ?_, hrun, ?_⟩, by omega⟩
      · simp only [wordSize]
        omega
      · simp only [wordSize]
        omega
      · rw [Value.retag, Value.zipWith_replicate_retag]
  | fixedArray e n ih =>
      obtain ⟨carried, vs, rfl, hlength, hregion⟩ := (Encode.value_fixedArray _ v body e n).mp h
      intro position s hbody hbudget
      obtain ⟨hheads, s', hrun, hs'⟩ := run_region_of_standsAt config data hdata _
        (List.forall_mem_replicate.mpr (.inr ⟨hlegal.2, hsized.1⟩))
        (List.forall_mem_replicate.mpr (.inr (ih hlegal.2 hsized.1))) vs body
        (by rw [List.length_replicate, hlength]) hregion position s hbody hbudget
      have hroom : position + body.length ≤ data.size := hbody.length_le
      rw [List.map_replicate, List.sum_replicate_nat] at hheads
      subst hlength
      refine ⟨s', (run_fixedArray data s s' config e _ position _).mpr ⟨_, by omega, hrun, ?_⟩, hs'⟩
      rw [Value.retag, Value.zipWith_replicate_retag]
  | tuple fs ih =>
      obtain ⟨vs, rfl, hlength, hregion⟩ := (Encode.value_tuple _ v body fs).mp h
      intro position s hbody hbudget
      have hlegalfs := (AbiType.legalFields_iff fs).mp hlegal.2
      have hsizedfs := (AbiType.sizedFields_iff fs).mp hsized.1
      obtain ⟨-, s', hrun, hs'⟩ := run_region_of_standsAt config data hdata (fs.map Param.kind)
        (fun u hu => ⟨hlegalfs u hu, hsizedfs u hu⟩)
        (fun u hu => ih u hu (hlegalfs u hu) (hsizedfs u hu)) vs body
        (by rw [List.length_map, hlength]) hregion position s hbody hbudget
      refine ⟨s', (run_tuple data s s' config fs position _).mpr ⟨_, hrun, ?_⟩, hs'⟩
      rw [Value.retag, Value.retagFields_eq_zipWith]

end Decode

/-- What has been encoded is decoded, whether or not padding has to be clean. -/
theorem decode_eq_zipWith_retag (config : Config) (ts : List AbiType) (vs : List Value)
    (data : Bytes) (hdata : data.length < 2 ^ 64) (h : encodeParams config ts vs = .ok data)
    (strict : Bool) :
    decode { config with strictPadding := strict } ts data =
      .ok (List.zipWith (fun t v => v.retag t) ts vs) := by
  obtain ⟨hlength, hvalid, hregion⟩ := (encodeParams_eq_ok_iff config ts vs data).mp h
  have hlegal := AbiType.legal_and_sized_of_validateAll config.maxDepth ts hvalid
  have hsize : data.toArray.size ≤ maxSize := by
    simp only [List.size_toArray, maxSize]
    omega
  obtain ⟨-, s', hrun, -⟩ := Decode.run_region_of_standsAt
    { config with strictPadding := strict } data.toArray hsize ts hlegal
    (fun t ht v body hbody => Decode.readsBack_of_value _ data.toArray hsize t (hlegal t ht).1
      (hlegal t ht).2 v body hbody)
    vs data hlength hregion 0 0 (by simpa using StandsAt.refl data) (by simp)
  exact (decode_eq_ok_iff _ ts data _).mpr ⟨hvalid, s', hrun⟩

/-- Encoding and then decoding gives the values back, with the declared descriptors of the elements
in every array; it makes no difference whether padding has to be clean.  Values that carry the
declared descriptors come back unchanged. -/
theorem decode_encodeParams (config : Config) (ts : List AbiType) (vs : List Value) (data : Bytes)
    (hdata : data.length < 2 ^ 64) (h : encodeParams config ts vs = .ok data) (strict : Bool) :
    decode { config with strictPadding := strict } ts data =
        .ok (List.zipWith (fun t v => v.retag t) ts vs) ∧
      (List.Forall₂ Value.Carries ts vs →
        decode { config with strictPadding := strict } ts data = .ok vs) := by
  have hdecode := decode_eq_zipWith_retag config ts vs data hdata h strict
  refine ⟨hdecode, ?_⟩
  intro hcarries
  rw [hdecode, Value.zipWith_retag_of_carries ts vs (fun t _ => Value.retag_of_carries t) hcarries]

/-- An array whose descriptor does not name the first field is read back under a declaration that
does. -/
theorem decode_encodeParams_named :
    encodeParams Config.standard
        [.array (.tuple [⟨some "amount", .int 16⟩, .unnamed .bytes])]
        [.array (.tuple [.unnamed (.int 16), .unnamed .bytes])
          [.tuple [.int 16 ⟨-3, by decide, by decide⟩, .bytes [1]]]] =
      .ok ([32, 1, 32, 2 ^ 256 - 3, 64, 1].flatMap (Bytes.ofNat wordSize) ++
        1 :: List.replicate 31 0) ∧
    decode { Config.standard with strictPadding := false }
        [.array (.tuple [⟨some "amount", .int 16⟩, .unnamed .bytes])]
        ([32, 1, 32, 2 ^ 256 - 3, 64, 1].flatMap (Bytes.ofNat wordSize) ++
          1 :: List.replicate 31 0) =
      .ok [.array (.tuple [⟨some "amount", .int 16⟩, .unnamed .bytes])
        [.tuple [.int 16 ⟨-3, by decide, by decide⟩, .bytes [1]]]] := by
  have hencode : encodeParams Config.standard
        [.array (.tuple [⟨some "amount", .int 16⟩, .unnamed .bytes])]
        [.array (.tuple [.unnamed (.int 16), .unnamed .bytes])
          [.tuple [.int 16 ⟨-3, by decide, by decide⟩, .bytes [1]]]] =
      .ok ([32, 1, 32, 2 ^ 256 - 3, 64, 1].flatMap (Bytes.ofNat wordSize) ++
        1 :: List.replicate 31 0) := by
    decide +kernel
  exact ⟨hencode, (decode_encodeParams _ _ _ _ (by decide +kernel) hencode false).1⟩

end ContractAbi
