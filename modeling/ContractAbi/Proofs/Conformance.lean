import Mathlib.Algebra.Field.Rat
import ContractAbi.Proofs.Compatibility
import ContractAbi.Proofs.HeadTail
import ContractAbi.Proofs.Scaling
import ContractAbi.Proofs.Writing

/-!
# Encoding follows the published definition

`Encodes` and `Components` say which bytes encode a value, by recursion on the descriptor and without
mention of the encoder: numbers are one word, byte sequences follow their length and end in zeros, and
every container is one sequence of components.  What a sequence looks like is a parameter, so that the
same relation can ask for `Sequence`, the definition, or for the layout that follows from it, of every
container at every depth.

The encoder never measures a head that it has written.  That its offsets are right all the same rests
on `fits_of_value`: the bytes of a static value have the length that its descriptor announces.
-/

namespace ContractAbi

/-- The content with zeros behind it, up to a whole number of words. -/
def RightPadded (content padded : Bytes) : Prop :=
  ∃ zeros < wordSize, wordSize ∣ content.length + zeros ∧
    content ++ List.replicate zeros 0 = padded

mutual

/-- The bytes encode the value under the descriptor, every container being laid out as `Layout`
says. -/
inductive Encodes (scaling : Scaling) (Layout : List AbiType → List Bytes → Bytes → Prop) :
    AbiType → Value → Bytes → Prop
  | address (a : Address) :
      Encodes scaling Layout .address (.address a) (List.replicate 12 0 ++ a.toBytes)
  | uint (n : Nat) (w : Word) :
      Encodes scaling Layout (.uint n) (.uint n w) (Bytes.ofNat wordSize w.toNat)
  | int (n : Nat) (i : Int256) :
      Encodes scaling Layout (.int n) (.int n i)
        (Bytes.ofNat wordSize (i.toInt % 2 ^ 256).toNat)
  | bool (b : Bool) :
      Encodes scaling Layout .bool (.bool b) (List.replicate 31 0 ++ [if b then 1 else 0])
  | fixedBytes (n : Nat) (content : Bytes) (hlength : content.length = n) :
      Encodes scaling Layout (.fixedBytes n) (.fixedBytes content)
        (content ++ List.replicate (wordSize - n) 0)
  | fixed (m n : Nat) (x : Decimal) (raw : Int) (hraw : x.toRat * scaling.factor n = raw) :
      Encodes scaling Layout (.fixed m n) (.fixed m n x)
        (Bytes.ofNat wordSize (raw % 2 ^ 256).toNat)
  | bytes (content padded : Bytes) (hpadded : RightPadded content padded) :
      Encodes scaling Layout .bytes (.bytes content)
        (Bytes.ofNat wordSize content.length ++ padded)
  | string (s : String) (padded : Bytes) (hpadded : RightPadded (Text.Utf8.encode s) padded) :
      Encodes scaling Layout .string (.string s)
        (Bytes.ofNat wordSize (Text.Utf8.encode s).length ++ padded)
  | array (e carried : AbiType) (vs : List Value) (bodies : List Bytes) (sequence : Bytes)
      (hbodies : Components scaling Layout (List.replicate vs.length e) vs bodies)
      (hlayout : Layout (List.replicate vs.length e) bodies sequence) :
      Encodes scaling Layout (.array e) (.array carried vs)
        (Bytes.ofNat wordSize vs.length ++ sequence)
  | fixedArray (e carried : AbiType) (n : Nat) (vs : List Value) (bodies : List Bytes)
      (sequence : Bytes) (hlength : vs.length = n)
      (hbodies : Components scaling Layout (List.replicate n e) vs bodies)
      (hlayout : Layout (List.replicate n e) bodies sequence) :
      Encodes scaling Layout (.fixedArray e n) (.fixedArray carried vs) sequence
  | tuple (fs : List Param) (vs : List Value) (bodies : List Bytes) (sequence : Bytes)
      (hbodies : Components scaling Layout (fs.map Param.kind) vs bodies)
      (hlayout : Layout (fs.map Param.kind) bodies sequence) :
      Encodes scaling Layout (.tuple fs) (.tuple vs) sequence

/-- The bytes of components, each under its own descriptor. -/
inductive Components (scaling : Scaling) (Layout : List AbiType → List Bytes → Bytes → Prop) :
    List AbiType → List Value → List Bytes → Prop
  | nil : Components scaling Layout [] [] []
  | cons (t : AbiType) (ts : List AbiType) (v : Value) (vs : List Value) (body : Bytes)
      (bodies : List Bytes) (hbody : Encodes scaling Layout t v body)
      (hbodies : Components scaling Layout ts vs bodies) :
      Components scaling Layout (t :: ts) (v :: vs) (body :: bodies)

end

/-! ## The definition determines the bytes -/

theorem rightPadded_unique {content padded padded' : Bytes} (h : RightPadded content padded)
    (h' : RightPadded content padded') : padded = padded' := by
  obtain ⟨zeros, hlt, hwhole, rfl⟩ := h
  obtain ⟨zeros', hlt', hwhole', rfl⟩ := h'
  unfold wordSize at hlt hwhole hlt' hwhole'
  have hzeros : zeros = zeros' := by omega
  rw [hzeros]

section Uniqueness

variable {scaling : Scaling}

theorem components_unique (ts : List AbiType)
    (ih : ∀ t ∈ ts, ∀ v out out', Encodes scaling Sequence t v out →
      Encodes scaling Sequence t v out' → out = out')
    (vs : List Value) (bodies bodies' : List Bytes) (h : Components scaling Sequence ts vs bodies)
    (h' : Components scaling Sequence ts vs bodies') : bodies = bodies' := by
  induction ts generalizing vs bodies bodies' with
  | nil =>
      cases h
      cases h'
      rfl
  | cons t ts ihts =>
      cases h with
      | cons _ _ v vs body bodies hbody hbodies =>
          cases h' with
          | cons _ _ _ _ body' bodies' hbody' hbodies' =>
              have hhere := ih t (List.mem_cons_self ..) v body body' hbody hbody'
              have hthere := ihts (fun u hu => ih u (List.mem_cons_of_mem _ hu)) vs bodies bodies'
                hbodies hbodies'
              rw [hhere, hthere]

theorem encodes_unique (t : AbiType) (v : Value) (out out' : Bytes)
    (h : Encodes scaling Sequence t v out) (h' : Encodes scaling Sequence t v out') :
    out = out' := by
  induction t using AbiType.induction generalizing v out out' with
  | fixed m n =>
      cases h with
      | fixed _ _ x raw hraw =>
          cases h' with
          | fixed _ _ _ raw' hraw' =>
              -- Both integers are the same product, and integers are faithful in `ℚ`.
              have heq : raw = raw' := by
                rw [hraw] at hraw'
                exact_mod_cast hraw'
              rw [heq]
  | bytes =>
      cases h with
      | bytes content padded hpadded =>
          cases h' with
          | bytes _ padded' hpadded' => rw [rightPadded_unique hpadded hpadded']
  | string =>
      cases h with
      | string s padded hpadded =>
          cases h' with
          | string _ padded' hpadded' => rw [rightPadded_unique hpadded hpadded']
  | array e ih =>
      cases h with
      | array _ carried vs bodies sequence hbodies hlayout =>
          cases h' with
          | array _ _ _ bodies' sequence' hbodies' hlayout' =>
              have hsame := components_unique _ (List.forall_mem_replicate.mpr (.inr ih)) vs bodies
                bodies' hbodies hbodies'
              subst hsame
              rw [sequence_unique hlayout hlayout']
  | fixedArray e n ih =>
      cases h with
      | fixedArray _ carried _ vs bodies _ _ hbodies hlayout =>
          cases h' with
          | fixedArray _ _ _ _ bodies' _ _ hbodies' hlayout' =>
              have hsame := components_unique _ (List.forall_mem_replicate.mpr (.inr ih)) vs bodies
                bodies' hbodies hbodies'
              subst hsame
              exact sequence_unique hlayout hlayout'
  | tuple fs ih =>
      cases h with
      | tuple _ vs bodies _ hbodies hlayout =>
          cases h' with
          | tuple _ _ bodies' _ hbodies' hlayout' =>
              have hsame := components_unique _ ih vs bodies bodies' hbodies hbodies'
              subst hsame
              exact sequence_unique hlayout hlayout'
  | _ =>
      cases h
      cases h'
      rfl

end Uniqueness

/-! ## Single words and byte sequences -/

/-- More digits than a number has are zeros in front of it. -/
theorem Bytes.ofNat_add (j k n : Nat) :
    Bytes.ofNat (j + k) n = Bytes.ofNat j (n / 256 ^ k) ++ Bytes.ofNat k n := by
  induction k generalizing n with
  | zero => simp [Bytes.ofNat]
  | succ k ih =>
      have hdiv : n / 256 / 256 ^ k = n / 256 ^ (k + 1) := by
        rw [Nat.div_div_eq_div_mul, Nat.pow_succ']
      rw [← Nat.add_assoc, Bytes.ofNat, ih, hdiv, List.append_assoc]
      rfl

theorem Bytes.ofNat_zero_right (k : Nat) : Bytes.ofNat k 0 = List.replicate k 0 := by
  induction k with
  | zero => rfl
  | succ k ih =>
      rw [Bytes.ofNat, Nat.zero_div, ih, List.replicate_succ']
      rfl

/-- The word of an address is the address behind twelve zeros. -/
theorem Address.toBytes_toWord (a : Address) :
    Word.toBytes a.toWord = List.replicate 12 0 ++ a.toBytes := by
  have hlt : a.bits.toNat < 256 ^ 20 := a.bits.isLt
  have hword : a.toWord.toNat = a.bits.toNat := by
    rw [Address.toWord, BitVec.toNat_setWidth]
    omega
  rw [Word.toBytes, hword, ← Bytes.ofNat_zero_right, ← Nat.div_eq_of_lt hlt]
  exact Bytes.ofNat_add 12 20 a.bits.toNat

theorem Int256.toBytes_toWord (i : Int256) :
    Word.toBytes i.toWord = Bytes.ofNat wordSize (i.toInt % 2 ^ 256).toNat := by
  rw [Word.toBytes, Int256.toWord, BitVec.toNat_ofInt]
  rfl

namespace Encode

theorem rightPadded_padded (content : Bytes) : RightPadded content (padded content) := by
  refine ⟨paddedSize content.length - content.length, ?_, ?_, rfl⟩
  · simp only [paddedSize, wordSize]
    omega
  · simp only [paddedSize, wordSize]
    omega

theorem wordSize_dvd_length_lengthPrefixed (content : Bytes) :
    wordSize ∣ (lengthPrefixed content).length := by
  simp only [lengthPrefixed, padded, List.length_append, Word.length_toBytes,
    List.length_replicate, paddedSize, wordSize]
  omega

theorem length_inWord (content : Bytes) (h : content.length ≤ wordSize) :
    (inWord content).length = wordSize := by
  rw [inWord, List.length_append, List.length_replicate]
  omega

/-! ## Sizes of what is written -/

variable (scaling : Scaling)

/-- What holds of every value that is written holds, position by position, of the parts. -/
theorem forall₂_of_valueParts (P : AbiType → Part → Prop) (ts : List AbiType)
    (ih : ∀ t ∈ ts, ∀ v body, value scaling t v = .ok body → P t ⟨t.isDynamic, body⟩)
    (vs : List Value) (ps : List Part) (hlength : ts.length = vs.length)
    (h : valueParts scaling ts vs = .ok ps) : List.Forall₂ P ts ps := by
  obtain ⟨ws, rfl, rfl, rfl⟩ := exists_written scaling ts vs ps hlength h
  rw [List.forall₂_map_left_iff, List.forall₂_map_right_iff, List.forall₂_same]
  exact fun w hw => ih w.kind (List.mem_map_of_mem hw) w.value w.body w.written

/-- One word is what every leaf of fixed size announces. -/
theorem fits_of_word (t : AbiType) (body : Bytes) (hlength : body.length = wordSize)
    (hsize : t.headSize = wordSize) : Part.Fits t ⟨t.isDynamic, body⟩ where
  tagged := rfl
  size _ := by rw [hsize]; exact hlength
  whole := ⟨1, by rw [Nat.mul_one]; exact hlength⟩

/-- The bytes of a value have the length that its descriptor announces, if it announces one, and are
whole words in any case. -/
theorem fits_of_value (t : AbiType) (hlegal : t.Legal) (hsized : t.Sized) (v : Value)
    (body : Bytes) (h : value scaling t v = .ok body) : Part.Fits t ⟨t.isDynamic, body⟩ := by
  induction t using AbiType.induction generalizing v body with
  | address =>
      obtain ⟨a, rfl, rfl⟩ := (value_address scaling v body).mp h
      exact fits_of_word _ _ (Word.length_toBytes _) rfl
  | uint n =>
      obtain ⟨w, rfl, -, rfl⟩ := (value_uint scaling v body n).mp h
      exact fits_of_word _ _ (Word.length_toBytes _) rfl
  | int n =>
      obtain ⟨i, rfl, -, rfl⟩ := (value_int scaling v body n).mp h
      exact fits_of_word _ _ (Word.length_toBytes _) rfl
  | bool =>
      obtain ⟨b, rfl, rfl⟩ := (value_bool scaling v body).mp h
      exact fits_of_word _ _ (Word.length_toBytes _) rfl
  | fixedBytes n =>
      obtain ⟨content, rfl, hlength, rfl⟩ := (value_fixedBytes scaling v body n).mp h
      exact fits_of_word _ _ (length_inWord content (hlength ▸ hlegal.2)) rfl
  | fixed m n =>
      obtain ⟨x, raw, rfl, -, -, rfl⟩ := (value_fixed scaling v body m n).mp h
      exact fits_of_word _ _ (Word.length_toBytes _) rfl
  | bytes =>
      obtain ⟨content, rfl, rfl⟩ := (value_bytes scaling v body).mp h
      exact ⟨rfl, fun hstatic => by contradiction, wordSize_dvd_length_lengthPrefixed content⟩
  | string =>
      obtain ⟨s, rfl, rfl⟩ := (value_string scaling v body).mp h
      exact ⟨rfl, fun hstatic => by contradiction, wordSize_dvd_length_lengthPrefixed _⟩
  | array e ih =>
      obtain ⟨carried, vs, sequence, rfl, -, hregion, rfl⟩ := (value_array scaling v body e).mp h
      obtain ⟨ps, hps, -, rfl⟩ := (region_eq_ok_iff _ _ sequence).mp hregion
      have hfits := forall₂_of_valueParts scaling Part.Fits _
        (List.forall_mem_replicate.mpr (.inr (ih hlegal hsized))) vs ps List.length_replicate hps
      -- No size is announced for the array, so that whole words are all there is to show.
      refine ⟨rfl, fun hstatic => by contradiction, ?_⟩
      rw [List.length_append, Word.length_toBytes]
      exact Nat.dvd_add (Nat.dvd_refl 32) (Part.wordSize_dvd_length_assemble _ ps hfits _)
  | fixedArray e n ih =>
      obtain ⟨carried, vs, rfl, hlength, hregion⟩ := (value_fixedArray scaling v body e n).mp h
      obtain ⟨ps, hps, -, rfl⟩ := (region_eq_ok_iff _ _ body).mp hregion
      have hfits := forall₂_of_valueParts scaling Part.Fits _
        (List.forall_mem_replicate.mpr (.inr (ih hlegal.2 hsized.1))) vs ps
        (by rw [List.length_replicate, hlength]) hps
      refine ⟨rfl, fun hstatic => ?_, Part.wordSize_dvd_length_assemble _ ps hfits _⟩
      rw [AbiType.headSize_fixedArray e n hsized hstatic]
      exact Part.length_assemble_of_static _ ps hfits
        (List.forall_mem_replicate.mpr (.inr hstatic)) _
  | tuple fs ih =>
      obtain ⟨vs, rfl, hlength, hregion⟩ := (value_tuple scaling v body fs).mp h
      obtain ⟨ps, hps, -, rfl⟩ := (region_eq_ok_iff _ _ body).mp hregion
      have hlegalfs := (AbiType.legalFields_iff fs).mp hlegal.2
      have hsizedfs := (AbiType.sizedFields_iff fs).mp hsized.1
      have hfits := forall₂_of_valueParts scaling Part.Fits (fs.map Param.kind)
        (fun u hu => ih u hu (hlegalfs u hu) (hsizedfs u hu)) vs ps
        (by rw [List.length_map, hlength]) hps
      refine ⟨rfl, fun hstatic => ?_, Part.wordSize_dvd_length_assemble _ ps hfits _⟩
      have hany : AbiType.anyDynamic fs = false := hstatic
      rw [AbiType.headSize_tuple fs hsized hany]
      exact Part.length_assemble_of_static _ ps hfits
        ((AbiType.anyDynamic_eq_false_iff fs).mp hany) _

/-- A region that is written is tiled by parts of the announced sizes, and its heads do not pass its
end. -/
theorem tiled_of_region (ts : List AbiType) (hlegal : ∀ t ∈ ts, t.Legal ∧ t.Sized)
    (vs : List Value) (out : Bytes) (hlength : ts.length = vs.length)
    (h : region ts (valueParts scaling ts vs) = .ok out) :
    ∃ ps, valueParts scaling ts vs = .ok ps ∧ List.Forall₂ Part.Fits ts ps ∧
      Tiled ts (ps.map Part.bytes) out ∧ (ts.map AbiType.headSize).sum ≤ out.length := by
  obtain ⟨ps, hps, -, rfl⟩ := (region_eq_ok_iff _ _ out).mp h
  have hfits := forall₂_of_valueParts scaling Part.Fits ts
    (fun t ht => fits_of_value scaling t (hlegal t ht).1 (hlegal t ht).2) vs ps hlength hps
  refine ⟨ps, hps, hfits, Part.tiled_assemble ts ps hfits, ?_⟩
  rw [Part.assemble, List.length_append, Part.length_heads_of_fits ts ps hfits]
  exact Nat.le_add_right _ _

/-- Every element takes at least one byte, so that there are no more elements than bytes. -/
theorem count_le_length (e : AbiType) (hlegal : e.Legal) (hsized : e.Sized) (vs : List Value)
    (out : Bytes) (h : region (List.replicate vs.length e)
      (valueParts scaling (List.replicate vs.length e) vs) = .ok out) : vs.length ≤ out.length := by
  obtain ⟨-, -, -, -, hheads⟩ := tiled_of_region scaling (List.replicate vs.length e)
    (List.forall_mem_replicate.mpr (.inr ⟨hlegal, hsized⟩)) vs out List.length_replicate h
  rw [List.map_replicate, List.sum_replicate_nat] at hheads
  refine Nat.le_trans (Nat.le_mul_of_pos_right _ ?_) hheads
  exact Nat.lt_of_lt_of_le (by decide) (AbiType.wordSize_le_headSize e hlegal hsized)

end Encode

/-- Values of fixed size take what their descriptors announce and nothing else. -/
theorem length_encodeParams_of_static (config : Config) (ts : List AbiType)
    (hstatic : ∀ t ∈ ts, t.isDynamic = false) (vs : List Value) (out : Bytes)
    (h : encodeParams config ts vs = .ok out) : out.length = (ts.map AbiType.headSize).sum := by
  obtain ⟨hlength, hvalid, hregion⟩ := (encodeParams_eq_ok_iff config ts vs out).mp h
  have hlegal := AbiType.legal_and_sized_of_validateAll config.maxDepth ts hvalid
  obtain ⟨ps, hps, -, rfl⟩ := (Encode.region_eq_ok_iff _ _ out).mp hregion
  have hfits := Encode.forall₂_of_valueParts config.scaling Part.Fits ts
    (fun t ht => Encode.fits_of_value config.scaling t (hlegal t ht).1 (hlegal t ht).2) vs ps
    hlength hps
  exact Part.length_assemble_of_static ts ps hfits hstatic _

/-! ## What is written -/

/-- What holds of every region that is written: it is a sequence as defined, and therefore tiled. -/
structure Conforms (ts : List AbiType) (bodies : List Bytes) (out : Bytes) : Prop where
  sequence : Sequence ts bodies out
  tiled : Tiled ts bodies out
  whole : wordSize ∣ out.length

/-- Regions assembled from parts of the announced sizes conform. -/
theorem conforms_assemble (ts : List AbiType) (ps : List Part) (h : List.Forall₂ Part.Fits ts ps) :
    Conforms ts (ps.map Part.bytes) (Part.assemble (ts.map AbiType.headSize).sum ps) where
  sequence := Part.sequence_assemble ts ps h
  tiled := Part.tiled_assemble ts ps h
  whole := Part.wordSize_dvd_length_assemble ts ps h _

namespace Encode

section Layout

variable (scaling : Scaling) (Layout : List AbiType → List Bytes → Bytes → Prop)

/-- What has been written makes components if each of its encodings follows the definition. -/
theorem components_of_written (ws : List (Written scaling))
    (h : ∀ w ∈ ws, Encodes scaling Layout w.kind w.value w.body) :
    Components scaling Layout (ws.map Written.kind) (ws.map Written.value) (ws.map Written.body) := by
  induction ws with
  | nil => exact .nil
  | cons w ws ih =>
      have hhere := h w (List.mem_cons_self ..)
      have hthere := ih fun u hu => h u (List.mem_cons_of_mem w hu)
      exact .cons _ _ _ _ _ _ hhere hthere

variable
  (hassemble : ∀ ts ps, List.Forall₂ Part.Fits ts ps →
    Layout ts (ps.map Part.bytes) (Part.assemble (ts.map AbiType.headSize).sum ps))
include hassemble

/-- The components of a region are encoded if all values are, and the region is laid out. -/
theorem components_of_region (ts : List AbiType) (hlegal : ∀ t ∈ ts, t.Legal ∧ t.Sized)
    (ih : ∀ t ∈ ts, ∀ v body, value scaling t v = .ok body → Encodes scaling Layout t v body)
    (vs : List Value) (out : Bytes) (hlength : ts.length = vs.length)
    (h : region ts (valueParts scaling ts vs) = .ok out) :
    ∃ bodies, Components scaling Layout ts vs bodies ∧ Layout ts bodies out := by
  obtain ⟨ps, hps, -, rfl⟩ := (region_eq_ok_iff _ _ out).mp h
  have hfits := forall₂_of_valueParts scaling Part.Fits ts
    (fun t ht => fits_of_value scaling t (hlegal t ht).1 (hlegal t ht).2) vs ps hlength hps
  have hbodies : Components scaling Layout ts vs (ps.map Part.bytes) := by
    -- The layout is one of the whole region; the components are encoded one by one.
    obtain ⟨ws, rfl, rfl, rfl⟩ := exists_written scaling ts vs ps hlength hps
    rw [List.map_map]
    exact components_of_written scaling Layout ws fun w hw =>
      ih w.kind (List.mem_map_of_mem hw) w.value w.body w.written
  exact ⟨ps.map Part.bytes, hbodies, hassemble ts ps hfits⟩

/-- What is written for a value encodes it, and every region in it is laid out. -/
theorem encodes_of_value (t : AbiType) (hlegal : t.Legal) (hsized : t.Sized) (v : Value)
    (body : Bytes) (h : value scaling t v = .ok body) : Encodes scaling Layout t v body := by
  induction t using AbiType.induction generalizing v body with
  | address =>
      obtain ⟨a, rfl, rfl⟩ := (value_address scaling v body).mp h
      rw [Address.toBytes_toWord]
      exact .address a
  | uint n =>
      obtain ⟨w, rfl, -, rfl⟩ := (value_uint scaling v body n).mp h
      exact .uint n w
  | int n =>
      obtain ⟨i, rfl, -, rfl⟩ := (value_int scaling v body n).mp h
      rw [Int256.toBytes_toWord]
      exact .int n i
  | bool =>
      obtain ⟨b, rfl, rfl⟩ := (value_bool scaling v body).mp h
      have hword : Word.toBytes (Word.ofNat b.toNat) =
          List.replicate 31 0 ++ [if b then 1 else 0] := by
        cases b <;> decide
      rw [hword]
      exact .bool b
  | fixedBytes n =>
      obtain ⟨content, rfl, hlength, rfl⟩ := (value_fixedBytes scaling v body n).mp h
      rw [inWord, hlength]
      exact .fixedBytes n content hlength
  | fixed m n =>
      obtain ⟨x, raw, rfl, hraw, -, rfl⟩ := (value_fixed scaling v body m n).mp h
      rw [Int256.toBytes_toWord]
      exact .fixed m n x raw.toInt (Decimal.toRat_mul_factor_of_toWire x n scaling raw hraw)
  | bytes =>
      obtain ⟨content, rfl, rfl⟩ := (value_bytes scaling v body).mp h
      rw [lengthPrefixed, Word.toBytes_ofNat]
      exact .bytes content _ (rightPadded_padded content)
  | string =>
      obtain ⟨s, rfl, rfl⟩ := (value_string scaling v body).mp h
      rw [lengthPrefixed, Word.toBytes_ofNat]
      exact .string s _ (rightPadded_padded _)
  | array e ih =>
      obtain ⟨carried, vs, sequence, rfl, -, hregion, rfl⟩ := (value_array scaling v body e).mp h
      obtain ⟨bodies, hbodies, hlayout⟩ := components_of_region scaling Layout hassemble
        (List.replicate vs.length e) (List.forall_mem_replicate.mpr (.inr ⟨hlegal, hsized⟩))
        (List.forall_mem_replicate.mpr (.inr (ih hlegal hsized))) vs sequence
        List.length_replicate hregion
      rw [Word.toBytes_ofNat]
      exact .array e carried vs bodies sequence hbodies hlayout
  | fixedArray e n ih =>
      obtain ⟨carried, vs, rfl, hlength, hregion⟩ := (value_fixedArray scaling v body e n).mp h
      obtain ⟨bodies, hbodies, hlayout⟩ := components_of_region scaling Layout hassemble _
        (List.forall_mem_replicate.mpr (.inr ⟨hlegal.2, hsized.1⟩))
        (List.forall_mem_replicate.mpr (.inr (ih hlegal.2 hsized.1))) vs body
        (by rw [List.length_replicate, hlength]) hregion
      exact .fixedArray e carried n vs bodies body hlength hbodies hlayout
  | tuple fs ih =>
      obtain ⟨vs, rfl, hlength, hregion⟩ := (value_tuple scaling v body fs).mp h
      have hlegalfs := (AbiType.legalFields_iff fs).mp hlegal.2
      have hsizedfs := (AbiType.sizedFields_iff fs).mp hsized.1
      obtain ⟨bodies, hbodies, hlayout⟩ := components_of_region scaling Layout hassemble _
        (fun u hu => ⟨hlegalfs u hu, hsizedfs u hu⟩)
        (fun u hu => ih u hu (hlegalfs u hu) (hsizedfs u hu)) vs body
        (by rw [List.length_map, hlength]) hregion
      exact .tuple fs vs bodies body hbodies hlayout

end Layout

end Encode

/-- Whatever is written follows the definition: its components are encoded, every region at every depth
is tiled by its components, and no other bytes are the sequence that the definition asks for. -/
theorem encodeParams_conforms (config : Config) (ts : List AbiType) (vs : List Value) (out : Bytes)
    (h : encodeParams config ts vs = .ok out) :
    (∃ bodies, Components config.scaling Conforms ts vs bodies ∧ Conforms ts bodies out) ∧
      ∀ out', (∃ bodies, Components config.scaling Sequence ts vs bodies ∧
        Sequence ts bodies out') ↔ out' = out := by
  obtain ⟨hlength, hvalid, hregion⟩ := (encodeParams_eq_ok_iff config ts vs out).mp h
  have hlegal := AbiType.legal_and_sized_of_validateAll config.maxDepth ts hvalid
  have hencodes : ∀ Layout : List AbiType → List Bytes → Bytes → Prop,
      (∀ ts ps, List.Forall₂ Part.Fits ts ps →
        Layout ts (ps.map Part.bytes) (Part.assemble (ts.map AbiType.headSize).sum ps)) →
      ∃ bodies, Components config.scaling Layout ts vs bodies ∧ Layout ts bodies out := by
    intro Layout hassemble
    exact Encode.components_of_region config.scaling Layout hassemble ts hlegal
      (fun t ht => Encode.encodes_of_value config.scaling Layout hassemble t (hlegal t ht).1
        (hlegal t ht).2) vs out hlength hregion
  -- The same bytes are laid out in both ways; the definition alone determines them.
  obtain ⟨bodies, hbodies, hsequence⟩ := hencodes Sequence Part.sequence_assemble
  refine ⟨hencodes Conforms conforms_assemble, fun out' => ?_⟩
  constructor
  · intro hdefinition
    obtain ⟨bodies', hbodies', hsequence'⟩ := hdefinition
    have hsame := components_unique ts (fun t _ => encodes_unique t) vs bodies' bodies hbodies'
      hbodies
    subst hsame
    exact sequence_unique hsequence' hsequence
  · intro hout
    subst hout
    exact ⟨bodies, hbodies, hsequence⟩

/-- A number in front of an array of one byte sequence.  The array begins 64 bytes into the outer
region and the sequence 32 bytes into the region of the array, behind the count. -/
theorem encodeParams_conforms_nested :
    encodeParams Config.standard [.uint 8, .array .bytes]
        [.uint 8 7, .array .bytes [.bytes [1, 2]]] =
      .ok ([7, 64, 1, 32, 2].flatMap (Bytes.ofNat wordSize) ++ 1 :: 2 :: List.replicate 30 0) ∧
    ∃ bodies, Components Config.standard.scaling Conforms [.uint 8, .array .bytes]
        [.uint 8 7, .array .bytes [.bytes [1, 2]]] bodies ∧
      Conforms [.uint 8, .array .bytes] bodies
        ([7, 64, 1, 32, 2].flatMap (Bytes.ofNat wordSize) ++ 1 :: 2 :: List.replicate 30 0) := by
  have hencode : encodeParams Config.standard [.uint 8, .array .bytes]
        [.uint 8 7, .array .bytes [.bytes [1, 2]]] =
      .ok ([7, 64, 1, 32, 2].flatMap (Bytes.ofNat wordSize) ++ 1 :: 2 :: List.replicate 30 0) := by
    decide +kernel
  exact ⟨hencode, (encodeParams_conforms _ _ _ _ hencode).1⟩

end ContractAbi
