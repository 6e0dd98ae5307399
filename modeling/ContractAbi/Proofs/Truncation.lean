import ContractAbi.Proofs.Extension
import ContractAbi.Proofs.RoundTrip

/-!
# Encoded data that has been cut short

A proper front of encoded data is decoded like the whole or it is truncated, because that is so for any
data (`decode_append_or_truncated`).  What is shown here is when the first can happen: only if nothing
but padding has been cut off, less than a word of it.

Reading does not follow the order of the bytes, so there is no last step to look at.  Instead `Reaches`
says of the encoding of a value that no reader returns from it unless the data goes on to its end,
padding aside.  That is an induction over the descriptor.  In a region the end of the last tail counts,
and if there are no tails the end of the heads; `reaches_end_of_tiles` follows both along the region.
-/

namespace ContractAbi
namespace Decode

/-- A cut at `cut` leaves what stands in front of `stop`, but for some zeros, less than a word. -/
structure Covered (whole : Bytes) (cut stop : Nat) : Prop where
  near : stop < cut + wordSize
  zeros : ∀ b ∈ (whole.take stop).drop cut, b = 0

theorem covered_of_le (whole : Bytes) (cut stop : Nat) (h : stop ≤ cut) : Covered whole cut stop where
  near := by
    unfold wordSize
    omega
  zeros := by
    rw [List.drop_eq_nil_of_le (by rw [List.length_take]; omega)]
    exact fun _ hb => nomatch hb

/-- Zeros behind content that has not been cut may be missing. -/
theorem covered_of_zeros (whole content : Bytes) (position cut zeros : Nat)
    (hwhole : StandsAt whole position (content ++ List.replicate zeros 0))
    (hcontent : position + content.length ≤ cut) (hzeros : zeros < wordSize) :
    Covered whole cut (position + (content ++ List.replicate zeros 0).length) := by
  obtain ⟨before, behind, rfl, rfl⟩ := hwhole
  refine ⟨?_, fun b hb => ?_⟩
  · rw [List.length_append, List.length_replicate]
    omega
  · rw [← List.length_append, List.take_left, ← List.append_assoc, List.drop_append,
      List.drop_eq_nil_of_le (by rw [List.length_append]; exact hcontent), List.nil_append] at hb
    exact List.eq_of_mem_replicate (List.mem_of_mem_drop hb)

/-! ## What is read from the front is what was written -/

section Front

variable {front whole : Input} (hfront : front.toList <+: whole.toList) (position s t : Nat)
include hfront

/-- A word that is read from the front is the one that stands in the whole. -/
theorem word_of_standsAt (w written : Word) (h : (word front position).run s = .ok w t)
    (hwritten : StandsAt whole.toList position (Word.toBytes written)) :
    w = written ∧ position + wordSize ≤ front.size := by
  obtain ⟨⟨-, hroom⟩, hw, -⟩ := (run_word front s t position w).mp h
  have htake := hwritten.take_drop
  rw [Word.length_toBytes] at htake
  have hbytes : bytesAt front position wordSize = Word.toBytes written := by
    rw [bytesAt, ← toList_extract_add, ← toList_extract_of_isPrefix hfront _ _ hroom,
      toList_extract_add]
    exact htake
  rw [hw, hbytes, Word.ofBytes_toBytes]
  exact ⟨rfl, hroom⟩

theorem offset_of_standsAt (distance n : Nat) (hn : n ≤ maxSize)
    (h : (offset front position).run s = .ok distance t)
    (hwritten : StandsAt whole.toList position (Bytes.ofNat wordSize n)) : distance = n := by
  obtain ⟨w, hw, rfl, -⟩ := (run_offset front s t position distance).mp h
  rw [← Word.toBytes_ofNat] at hwritten
  obtain ⟨rfl, -⟩ := word_of_standsAt hfront position s t w _ hw hwritten
  exact toNat_ofNat_of_le n hn

theorem length_of_standsAt (count n : Nat) (hn : n ≤ maxSize)
    (h : (length front position).run s = .ok count t)
    (hwritten : StandsAt whole.toList position (Word.toBytes (Word.ofNat n))) :
    count = n ∧ position + wordSize ≤ front.size := by
  obtain ⟨w, hw, rfl, -⟩ := (run_length front s t position count).mp h
  obtain ⟨rfl, hroom⟩ := word_of_standsAt hfront position s t w _ hw hwritten
  exact ⟨toNat_ofNat_of_le n hn, hroom⟩

end Front

/-! ## Leaves -/

variable (config : Config) (front whole : Input)

/-- Wherever the bytes stand in the whole, a value that can be read there from the front shows that the
front goes on to their end. -/
def Reaches (t : AbiType) (body : Bytes) : Prop :=
  ∀ position (s s' : Nat) v, StandsAt whole.toList position body →
    (value config front t position).run s = .ok v s' →
    Covered whole.toList front.size (position + body.length)

/-- A leaf of one word reaches its end if that word is read. -/
theorem reaches_of_word (t : AbiType) (hstatic : t.isDynamic = false) (hsize : t.headSize = wordSize)
    (body : Bytes) (hfits : Part.Fits t ⟨t.isDynamic, body⟩)
    (hread : ∀ position (s s' : Nat) v, (value config front t position).run s = .ok v s' →
      ∃ w, (word front position).run s = .ok w s') : Reaches config front whole t body := by
  intro position s s' v _ h
  obtain ⟨w, hw⟩ := hread position s s' v h
  have hroom := le_size_of_word front s s' position w hw
  have hlength : body.length = wordSize := (hfits.size hstatic).trans hsize
  rw [hlength]
  exact covered_of_le _ _ _ hroom

/-- A byte sequence is read up to its padding. -/
theorem reaches_of_content (hfront : front.toList <+: whole.toList) (hwhole : whole.size ≤ maxSize)
    (t : AbiType) (bytes : Bytes)
    (hread : ∀ position (s s' : Nat) v, (value config front t position).run s = .ok v s' →
      ∃ read, (content front position).run s = .ok read s') :
    Reaches config front whole t (Encode.lengthPrefixed bytes) := by
  intro position s s' v hbody h
  obtain ⟨read, hcontent⟩ := hread position s s' v h
  obtain ⟨count, u, hcount, ⟨-, hroom⟩, -⟩ := (run_content front s s' position read).mp hcontent
  have hpadded := hbody.right
  rw [Word.length_toBytes] at hpadded
  have hpaddedRoom : position + 32 + (Encode.padded bytes).length ≤ whole.size := hpadded.length_le
  rw [Encode.padded, List.length_append] at hpaddedRoom
  obtain ⟨rfl, -⟩ := length_of_standsAt hfront position s u count bytes.length (by omega) hcount
    hbody.left
  have hcovered := covered_of_zeros _ bytes _ front.size _ hpadded hroom (by
    simp only [paddedSize, wordSize]
    omega)
  rw [Encode.lengthPrefixed, List.length_append, Word.length_toBytes, ← Nat.add_assoc]
  exact hcovered

/-! ## Regions -/

/-- Once a tail has been read to its end, or all heads are static and have been read, the front goes on
to the end of the region.  `cursor` is the head and `next` the tail that comes now. -/
theorem reaches_end_of_tiles (hfront : front.toList <+: whole.toList)
    (hwhole : whole.size ≤ maxSize) (start : Nat) (out : Bytes)
    (hout : StandsAt whole.toList start out) (ts : List AbiType) (bodies : List Bytes)
    (hreach : List.Forall₂ (Reaches config front whole) ts bodies) (cursor next s s' : Nat)
    (vs : List Value) (htiles : Tiles out cursor next ts bodies)
    (h : (region config front ts start (start + cursor)).run s = .ok vs s')
    (hsofar : Covered whole.toList front.size (start + next) ∨
      next = cursor + (ts.map AbiType.headSize).sum ∧
        (ts = [] → Covered whole.toList front.size (start + cursor))) :
    Covered whole.toList front.size (start + out.length) := by
  have hregion : start + out.length ≤ whole.size := hout.length_le
  induction hreach generalizing cursor next s vs with
  | nil =>
      obtain rfl : next = out.length := htiles
      rcases hsofar with htail | ⟨hnext, hheads⟩
      · exact htail
      · rw [hnext]
        exact hheads rfl
  | @cons t body ts bodies hbody _ ih =>
      obtain ⟨v, cursor', x, rest, hcomponent, hrest, rfl⟩ :=
        (run_region_cons front s s' config t ts start _ vs).mp h
      rw [Tiles] at htiles
      rcases (run_component front s x t _ start _ v cursor').mp hcomponent with
        ⟨hdynamic, distance, y, hoffset, -, hread, -, rfl⟩ | ⟨hstatic, hread, -, rfl⟩
      · rw [if_pos hdynamic] at htiles
        obtain ⟨hword, -, htail, htiles⟩ := htiles
        have htailRoom := htail.length_le
        -- The offset is whole, so that it leads to the tail that was written.
        obtain rfl := offset_of_standsAt hfront _ s y distance next (by omega) hoffset
          (hout.trans hword)
        have hcovered := hbody _ _ _ _ (hout.trans htail) hread
        rw [Nat.add_assoc] at hrest hcovered
        exact ih _ _ _ _ htiles hrest (.inl hcovered)
      · rw [if_neg (by simp [hstatic])] at htiles
        obtain ⟨hhead, hsize, htiles⟩ := htiles
        have hcovered := hbody _ _ _ _ (hout.trans hhead) hread
        rw [Nat.add_assoc] at hrest hcovered
        rw [hsize] at hcovered
        refine ih _ _ _ _ htiles hrest ?_
        rcases hsofar with htail | ⟨hnext, -⟩
        · exact .inl htail
        · rw [List.map_cons, List.sum_cons, ← Nat.add_assoc] at hnext
          exact .inr ⟨hnext, fun _ => hcovered⟩

/-- The front goes on to the end of a region that can be read from it. -/
theorem reaches_end_of_region (hfront : front.toList <+: whole.toList) (hwhole : whole.size ≤ maxSize)
    (ts : List AbiType) (hlegal : ∀ t ∈ ts, t.Legal ∧ t.Sized)
    (ih : ∀ t ∈ ts, ∀ v body, Encode.value config.scaling t v = .ok body →
      Reaches config front whole t body)
    (vs : List Value) (out : Bytes) (hlength : ts.length = vs.length)
    (hregion : Encode.region ts (Encode.valueParts config.scaling ts vs) = .ok out)
    (start s s' : Nat) (ws : List Value) (hout : StandsAt whole.toList start out)
    (hempty : ts = [] → start ≤ front.size)
    (h : (region config front ts start start).run s = .ok ws s') :
    Covered whole.toList front.size (start + out.length) := by
  obtain ⟨ps, hps, -, htiled, -⟩ :=
    Encode.tiled_of_region config.scaling ts hlegal vs out hlength hregion
  have hreach := Encode.forall₂_of_valueParts config.scaling
    (fun t p => Reaches config front whole t p.bytes) ts ih vs ps hlength hps
  refine reaches_end_of_tiles config front whole hfront hwhole start out hout ts (ps.map Part.bytes)
    (List.forall₂_map_right_iff.mpr hreach) 0 _ s s' ws htiled h (.inr ⟨(Nat.zero_add _).symm, ?_⟩)
  exact fun hts => covered_of_le _ _ _ (hempty hts)

/-! ## Values -/

/-- The encoding of a value cannot be read unless it is there up to its padding. -/
theorem reaches_of_value (hfront : front.toList <+: whole.toList) (hwhole : whole.size ≤ maxSize)
    (t : AbiType) (hlegal : t.Legal) (hsized : t.Sized) (v : Value) (body : Bytes)
    (h : Encode.value config.scaling t v = .ok body) : Reaches config front whole t body := by
  have hword := fun (t : AbiType) (hlegal : t.Legal) (hsized : t.Sized) (hstatic : t.isDynamic = false)
      (hsize : t.headSize = wordSize) v body (h : Encode.value config.scaling t v = .ok body) =>
    reaches_of_word config front whole t hstatic hsize body
      (Encode.fits_of_value config.scaling t hlegal hsized v body h)
  induction t using AbiType.induction generalizing v body with
  | address =>
      refine hword _ hlegal hsized rfl rfl v body h fun position s s' v hv => ?_
      obtain ⟨w, hw, -⟩ := (run_address front s s' config position v).mp hv
      exact ⟨w, hw⟩
  | uint n =>
      refine hword _ hlegal hsized rfl rfl v body h fun position s s' v hv => ?_
      obtain ⟨w, hw, -⟩ := (run_uint front s s' config n position v).mp hv
      exact ⟨w, hw⟩
  | int n =>
      refine hword _ hlegal hsized rfl rfl v body h fun position s s' v hv => ?_
      obtain ⟨i, hi, -⟩ := (run_int front s s' config n position v).mp hv
      obtain ⟨w, hw, -⟩ := (run_signed front s s' config _ n position i).mp hi
      exact ⟨w, hw⟩
  | bool =>
      refine hword _ hlegal hsized rfl rfl v body h fun position s s' v hv => ?_
      obtain ⟨w, hw, -⟩ := (run_bool front s s' config position v).mp hv
      exact ⟨w, hw⟩
  | fixedBytes n =>
      refine hword _ hlegal hsized rfl rfl v body h fun position s s' v hv => ?_
      obtain ⟨w, hw, -⟩ := (run_fixedBytes front s s' config n position v).mp hv
      exact ⟨w, hw⟩
  | fixed m n =>
      refine hword _ hlegal hsized rfl rfl v body h fun position s s' v hv => ?_
      obtain ⟨raw, x, hraw, -⟩ := (run_fixed front s s' config m n position v).mp hv
      obtain ⟨w, hw, -⟩ := (run_signed front s s' config _ m position raw).mp hraw
      exact ⟨w, hw⟩
  | bytes =>
      obtain ⟨content, rfl, rfl⟩ := (Encode.value_bytes _ v body).mp h
      refine reaches_of_content config front whole hfront hwhole _ _ fun position s s' v hv => ?_
      obtain ⟨read, hread, -⟩ := (run_bytes front s s' config position v).mp hv
      exact ⟨read, hread⟩
  | string =>
      obtain ⟨x, rfl, rfl⟩ := (Encode.value_string _ v body).mp h
      refine reaches_of_content config front whole hfront hwhole _ _ fun position s s' v hv => ?_
      obtain ⟨read, x, hread, -⟩ := (run_string front s s' config position v).mp hv
      exact ⟨read, hread⟩
  | array e ih =>
      obtain ⟨carried, vs, out, rfl, -, hregion, rfl⟩ := (Encode.value_array _ v body e).mp h
      intro position s s' v hbody hv
      obtain ⟨count, x, ws, hcount, -, -, hws, rfl⟩ :=
        (run_array front s s' config e position v).mp hv
      have hout := hbody.right
      rw [Word.length_toBytes] at hout
      have hroom : position + 32 + out.length ≤ whole.size := hout.length_le
      have hvs := Encode.count_le_length config.scaling e hlegal hsized vs out hregion
      obtain ⟨rfl, hstart⟩ := length_of_standsAt hfront position s x count vs.length (by omega)
        hcount hbody.left
      rw [List.length_append, Word.length_toBytes, ← Nat.add_assoc]
      exact reaches_end_of_region config front whole hfront hwhole (List.replicate vs.length e)
        (List.forall_mem_replicate.mpr (.inr ⟨hlegal, hsized⟩))
        (List.forall_mem_replicate.mpr (.inr (ih hlegal hsized))) vs out List.length_replicate
        hregion (position + 32) x s' ws hout (fun _ => hstart) hws
  | fixedArray e n ih =>
      obtain ⟨carried, vs, rfl, hlength, hregion⟩ := (Encode.value_fixedArray _ v body e n).mp h
      intro position s s' v hbody hv
      obtain ⟨ws, -, hws, rfl⟩ := (run_fixedArray front s s' config e n position v).mp hv
      exact reaches_end_of_region config front whole hfront hwhole _
        (List.forall_mem_replicate.mpr (.inr ⟨hlegal.2, hsized.1⟩))
        (List.forall_mem_replicate.mpr (.inr (ih hlegal.2 hsized.1))) vs body
        (by rw [List.length_replicate, hlength]) hregion position s s' ws hbody
        (fun hempty => absurd ((List.replicate_eq_nil_iff e).mp hempty) hlegal.1) hws
  | tuple fs ih =>
      obtain ⟨vs, rfl, hlength, hregion⟩ := (Encode.value_tuple _ v body fs).mp h
      intro position s s' v hbody hv
      obtain ⟨ws, hws, rfl⟩ := (run_tuple front s s' config fs position v).mp hv
      have hlegalfs := (AbiType.legalFields_iff fs).mp hlegal.2
      have hsizedfs := (AbiType.sizedFields_iff fs).mp hsized.1
      exact reaches_end_of_region config front whole hfront hwhole (fs.map Param.kind)
        (fun u hu => ⟨hlegalfs u hu, hsizedfs u hu⟩)
        (fun u hu => ih u hu (hlegalfs u hu) (hsizedfs u hu)) vs body
        (by rw [List.length_map, hlength]) hregion position s s' ws hbody
        (fun hempty => absurd (List.map_eq_nil_iff.mp hempty) hlegal.1) hws

end Decode

/-- A front of encoded data is decoded to the same values as the whole or it is truncated, in both
padding modes.  The same values mean that only padding is missing, less than a word of zeros; where a
word or more is missing, the front is truncated. -/
theorem decode_front_of_encodeParams (config : Config) (ts : List AbiType) (vs : List Value)
    (front rest : Bytes) (hdata : (front ++ rest).length < 2 ^ 64)
    (h : encodeParams config ts vs = .ok (front ++ rest)) (strict : Bool) :
    (∃ ws, decode { config with strictPadding := strict } ts (front ++ rest) = .ok ws ∧
      ((∃ needed, decode { config with strictPadding := strict } ts front =
          .error (.truncatedInput needed front.length)) ∨
        decode { config with strictPadding := strict } ts front = .ok ws ∧
          rest = List.replicate rest.length 0 ∧ rest.length < wordSize)) ∧
    (wordSize ≤ rest.length → ∃ needed,
      decode { config with strictPadding := strict } ts front =
        .error (.truncatedInput needed front.length)) := by
  have hwhole := decode_eq_zipWith_retag config ts vs (front ++ rest) hdata h strict
  obtain ⟨hlength, hvalid, hregion⟩ := (encodeParams_eq_ok_iff config ts vs _).mp h
  have hlegal := AbiType.legal_and_sized_of_validateAll config.maxDepth ts hvalid
  rcases decode_append_or_truncated { config with strictPadding := strict } ts front rest with
    hsame | hshort
  · have hfront := hsame.symm.trans hwhole
    obtain ⟨-, s', hrun⟩ := (decode_eq_ok_iff _ ts front _).mp hfront
    have hsize : (front ++ rest).toArray.size ≤ maxSize := by
      simp only [List.size_toArray, maxSize]
      omega
    have hfrontOf : front.toArray.toList <+: (front ++ rest).toArray.toList := by simp
    obtain ⟨hnear, hzeros⟩ := Decode.reaches_end_of_region { config with strictPadding := strict }
      front.toArray (front ++ rest).toArray hfrontOf hsize ts hlegal
      (fun t ht v body hbody => Decode.reaches_of_value _ _ _ hfrontOf hsize t (hlegal t ht).1
        (hlegal t ht).2 v body hbody)
      vs (front ++ rest) hlength hregion 0 0 s' _ (by simpa using StandsAt.refl (front ++ rest))
      (fun _ => Nat.zero_le _) hrun
    have hmissing : rest.length < wordSize := by
      simp only [List.size_toArray, List.length_append] at hnear
      omega
    refine ⟨⟨_, hwhole, .inr ⟨hfront, ?_, hmissing⟩⟩, fun hword => by omega⟩
    rw [Nat.zero_add, List.take_length, List.size_toArray, List.drop_left] at hzeros
    exact List.eq_replicate_iff.mpr ⟨rfl, hzeros⟩
  · exact ⟨⟨_, hwhole, .inl hshort⟩, fun _ => hshort⟩

/-- Without the padding two bytes are still two bytes; without the bytes they are truncated. -/
theorem decode_front_of_encodeParams_padded :
    encodeParams Config.standard [.bytes] [.bytes [1, 2]] =
      .ok ([32, 2].flatMap (Bytes.ofNat wordSize) ++ [1, 2] ++ List.replicate 30 0) ∧
    decode { Config.standard with strictPadding := true } [.bytes]
        ([32, 2].flatMap (Bytes.ofNat wordSize) ++ [1, 2]) = .ok [.bytes [1, 2]] ∧
    ∃ needed, decode { Config.standard with strictPadding := true } [.bytes]
        ([32, 2].flatMap (Bytes.ofNat wordSize)) = .error (.truncatedInput needed 64) := by
  have hencode : encodeParams Config.standard [.bytes] [.bytes [1, 2]] =
      .ok ([32, 2].flatMap (Bytes.ofNat wordSize) ++ [1, 2] ++ List.replicate 30 0) := by
    decide +kernel
  refine ⟨hencode, ?_, ?_⟩
  · obtain ⟨⟨ws, hwhole, hcut⟩, -⟩ :=
      decode_front_of_encodeParams _ _ _ _ _ (by decide +kernel) hencode true
    obtain rfl : [.bytes [1, 2]] = ws := Except.ok.inj (Eq.trans (by decide +kernel) hwhole)
    rcases hcut with ⟨needed, hshort⟩ | ⟨hsame, -⟩
    · exact absurd (Eq.trans (by decide +kernel) hshort)
        (fun h : (.ok [.bytes [1, 2]] : Except AbiError (List Value)) = _ => nomatch h)
    · exact hsame
  · rw [List.append_assoc] at hencode
    exact (decode_front_of_encodeParams _ _ _ _ _ (by decide +kernel) hencode true).2
      (by decide +kernel)

end ContractAbi
