import ContractAbi.Proofs.Failures
import ContractAbi.Proofs.Validity

/-!
# Decoding never leaves the range of positions

A run ends in `unaddressable` where a step that is taken without a check would go wrong: a position
that passes `maxSize`, a mask of 256 bits, a stretch of a word longer than the word.  Offsets and
lengths of foreign data are as large as a word can hold, and they add up at every level.  Every run is
kept away from that, because a run on data that exists ends only with what data is refused for
(`decode_ne_unaddressable`), and what stands in front of every such step is listed with it
(`decode_addressable`).
-/

namespace ContractAbi

/-- Nothing is refused as `unaddressable`. -/
theorem refusals_ne_unaddressable : Refusals (· ≠ .unaddressable) where
  unsupported _ := nofun
  mismatch _ := nofun
  truncated _ _ := nofun
  malformed _ := nofun

/-- The outcome of decoding is never `unaddressable`. -/
theorem decode_ne_unaddressable (config : Config) (ts : List AbiType) (data : Bytes)
    (hsize : data.toArray.size ≤ maxSize) : decode config ts data ≠ .error .unaddressable := by
  intro h
  exact failsOnly_of_decode refusals_ne_unaddressable config ts data (.inr hsize) _ h rfl

/-- Decoding ends with values or with an error that has an answer, however large the offsets and lengths
in the data are.  No step that is taken without a check can go wrong: the position behind an offset or a
length that has been read is a size, a stretch of a word that a valid descriptor asks for lies within the
word, a mask is only formed for a width that a word has bits above, and sign extension leaves out no
more bytes than there are. -/
theorem decode_addressable (config : Config) (ts : List AbiType) (data : Bytes)
    (hdata : data.length < 2 ^ 63) :
    ((∃ vs, decode config ts data = .ok vs) ∨
      ∃ e, decode config ts data = .error e ∧ e ≠ .unaddressable) ∧
    (∀ position distance (s t : Nat),
      (Decode.offset data.toArray position).run s = .ok distance t →
        position + wordSize ≤ maxSize) ∧
    (∀ position count (s t : Nat),
      (Decode.length data.toArray position).run s = .ok count t → position + wordSize ≤ maxSize) ∧
    (AbiType.validateAll config.maxDepth ts = .ok () →
      ∀ t ∈ ts, ∀ k n, AbiType.Occurs t k (.fixedBytes n) → n ≤ wordSize) ∧
    (∀ w bits, ¬ Word.fits w bits = true → bits < 256) ∧
    ∀ bits, 0 < Int256.byteWidth bits ∧ Int256.byteWidth bits ≤ wordSize := by
  have hsize : data.toArray.size ≤ maxSize := by
    simp only [List.size_toArray, maxSize]
    omega
  refine ⟨?_, fun position distance s t h => ?_, fun position count s t h => ?_,
    fun hvalid t ht k n hn => ?_, Word.lt_of_not_fits, fun bits => ?_⟩
  · cases hdecode : decode config ts data with
    | ok vs => exact .inl ⟨vs, rfl⟩
    | error e =>
        refine .inr ⟨e, rfl, ?_⟩
        rintro rfl
        exact decode_ne_unaddressable config ts data hsize hdecode
  · exact Nat.le_trans (Decode.le_size_of_offset _ s t position distance h) hsize
  · exact Nat.le_trans (Decode.le_size_of_length _ s t position count h) hsize
  · have hvalidt := (AbiType.forall_valid_iff config.maxDepth ts).mpr hvalid t ht
    exact (hvalidt.leaves k _ hn).2
  · simp only [Int256.byteWidth, wordSize]
    omega

/-- The offset is the largest that can be named and followed by no word at all. -/
theorem decode_addressable_hostile :
    (Bytes.ofNat wordSize (2 ^ 64 - 32)).length < 2 ^ 63 ∧
    ∃ e, decode Config.standard [.bytes] (Bytes.ofNat wordSize (2 ^ 64 - 32)) = .error e ∧
      e ≠ .unaddressable := by
  have hdata : (Bytes.ofNat wordSize (2 ^ 64 - 32)).length < 2 ^ 63 := by decide
  have htruncated : decode Config.standard [.bytes] (Bytes.ofNat wordSize (2 ^ 64 - 32)) =
      .error (.truncatedInput maxSize 32) := by
    decide +kernel
  refine ⟨hdata, ?_⟩
  rcases (decode_addressable Config.standard [.bytes] _ hdata).1 with ⟨vs, h⟩ | herror
  · rw [htruncated] at h
    contradiction
  · exact herror

end ContractAbi
