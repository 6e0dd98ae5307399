import Mathlib.Algebra.Order.Ring.Abs
import Mathlib.Data.Int.ModEq
import ContractAbi.Proofs.SignMagnitude

/-!
# Sign extension

The low bytes of a word are taken for a number by setting all bytes in front of them to the sign bit
of the first that is kept.  This adds a multiple of the range of the low bytes, so that the word reads
as the number of fewer bits that they are (`toInt_extended`).

That number is the only one of its width which agrees with the word in the low bits
(`ofLowBits_unique`).
-/

/-- Numbers of the same width that agree in all their bits are the same. -/
theorem Int.eq_of_modEq_two_pow (i j : Int) (bits : Nat) (hbits : 0 < bits)
    (hi : -2 ^ (bits - 1) ≤ i ∧ i < 2 ^ (bits - 1)) (hj : -2 ^ (bits - 1) ≤ j ∧ j < 2 ^ (bits - 1))
    (h : i ≡ j [ZMOD 2 ^ bits]) : i = j := by
  have hdouble : (2 : Int) ^ bits = 2 * 2 ^ (bits - 1) := by
    rw [← pow_succ', Nat.sub_add_cancel hbits]
  have hdvd : (2 : Int) ^ bits ∣ j - i := h.dvd
  have hnear : |j - i| < 2 ^ bits := by
    rw [hdouble, abs_lt]
    omega
  have := Int.eq_zero_of_abs_lt_dvd hdvd hnear
  omega

namespace ContractAbi

namespace Bytes

theorem toNat_replicate_zero (n : Nat) : toNat (List.replicate n 0) = 0 := by
  induction n with
  | zero => rfl
  | succ n ih =>
      rw [List.replicate_succ', toNat_concat, ih]
      rfl

/-- Bytes of ones are one less than the next power of 256. -/
theorem toNat_replicate_ones (n : Nat) : toNat (List.replicate n 0xff) + 1 = 256 ^ n := by
  induction n with
  | zero => rfl
  | succ n ih =>
      have hones : (0xff : UInt8).toNat = 255 := rfl
      rw [List.replicate_succ', toNat_concat, hones, pow_succ, ← ih]
      omega

end Bytes

namespace SignMagnitude

section Extended

variable (w : Word) (width : Nat) (hpos : 0 < width) (hle : width ≤ wordSize)
include hle

/-- Behind the bytes that are filled in are as many as are kept. -/
theorem length_sub_front : (Word.toBytes w).length - (wordSize - width) = width := by
  rw [Word.length_toBytes]
  simp only [wordSize] at hle ⊢
  omega

/-- The bytes that are kept and the bytes in front of them make up a whole word. -/
theorem length_extended (fill : UInt8) :
    (List.replicate (wordSize - width) fill ++
      (Word.toBytes w).drop (wordSize - width)).length = 32 := by
  rw [List.length_append, List.length_replicate, List.length_drop, length_sub_front w width hle,
    Nat.sub_add_cancel hle]
  rfl

theorem toNat_kept :
    Bytes.toNat ((Word.toBytes w).drop (wordSize - width)) = w.toNat % 256 ^ width := by
  rw [Bytes.toNat_drop, Word.toNat_toBytes, length_sub_front w width hle]

include hpos

/-- The sign is set if what is kept is at least half of what the kept bytes can be. -/
theorem topBit_kept :
    topBit ((Word.toBytes w).getD (wordSize - width) 0) = true ↔
      256 ^ width ≤ 2 * (w.toNat % 256 ^ width) := by
  have hlength := length_sub_front w width hle
  have hsign := topBit_getD_iff (Word.toBytes w) (wordSize - width) (by omega)
  rwa [hlength, toNat_kept w width hle] at hsign

/-- A number without sign stays, and to one with sign is added what is missing to a whole word. -/
theorem toNat_extended :
    (extended w width).toNat =
      if 256 ^ width ≤ 2 * (w.toNat % 256 ^ width)
      then 2 ^ 256 - 256 ^ width + w.toNat % 256 ^ width
      else w.toNat % 256 ^ width := by
  have hsign := topBit_kept w width hpos hle
  rw [extended, Word.toNat_ofBytes _ (length_extended w width hle _), Bytes.toNat_append,
    toNat_kept w width hle, List.length_drop, length_sub_front w width hle]
  by_cases h : 256 ^ width ≤ 2 * (w.toNat % 256 ^ width)
  · have hones := Bytes.toNat_replicate_ones (wordSize - width)
    have hword : 256 ^ (wordSize - width) * 256 ^ width = 2 ^ 256 := by
      rw [← pow_add, Nat.sub_add_cancel hle]
      rfl
    rw [if_pos (hsign.mpr h), if_pos h, ← hword, ← hones, Nat.add_mul]
    omega
  · rw [if_neg (hsign.not.mpr h), if_neg h, Bytes.toNat_replicate_zero, Nat.zero_mul, Nat.zero_add]

/-- The extended word reads as the signed number of the low bytes. -/
theorem toInt_extended : (extended w width).toInt = (w.setWidth (8 * width)).toInt := by
  have hpow : 2 ^ (8 * width) = 256 ^ width := pow_mul 2 8 width
  have hword : 256 ^ width ≤ 2 ^ 256 := by
    calc 256 ^ width ≤ 256 ^ wordSize := Nat.pow_le_pow_right (by decide) hle
      _ = 2 ^ 256 := rfl
  have hlt : w.toNat % 256 ^ width < 256 ^ width := Nat.mod_lt _ (Nat.pow_pos (by decide))
  rw [BitVec.toInt_eq_toNat_cond, BitVec.toInt_eq_toNat_cond, BitVec.toNat_setWidth, hpow,
    toNat_extended w width hpos hle]
  generalize w.toNat % 256 ^ width = kept at hlt
  generalize 256 ^ width = range at hword hlt
  by_cases h : range ≤ 2 * kept
  · rw [if_pos h, if_neg (by omega), if_neg (by omega)]
    omega
  · rw [if_neg h, if_pos (by omega), if_pos (by omega)]

end Extended

/-- Filling bytes gives the pair of the number in the low bits. -/
theorem ofLowBits_eq (w : Word) (bits : Nat) :
    ofLowBits w bits = (Int256.ofLowBits w bits).stored := by
  have hpos : 0 < Int256.byteWidth bits := by
    simp only [Int256.byteWidth, wordSize]
    omega
  have hle : Int256.byteWidth bits ≤ wordSize := Nat.min_le_right _ _
  rw [ofLowBits, ofWord_eq]
  congr 1
  exact Int256.ext (toInt_extended w _ hpos hle)

end SignMagnitude

namespace Int256

theorem isIntegerWidth_bytes (k : Nat) (hpos : 1 ≤ k) (hle : k ≤ wordSize) :
    AbiType.isIntegerWidth (8 * k) = true := by
  rw [AbiType.isIntegerWidth_iff]
  simp only [wordSize] at hle
  omega

/-- The low bits agree with the word. -/
theorem ofLowBits_modEq (w : Word) (bits : Nat) (h : AbiType.isIntegerWidth bits = true) :
    (ofLowBits w bits).toInt ≡ w.toNat [ZMOD 2 ^ bits] := by
  have hpow : ((2 ^ bits : Nat) : Int) = 2 ^ bits := by norm_cast
  rw [toInt_ofLowBits w bits h, BitVec.toInt_setWidth, Int.ModEq, ← hpow, Int.bmod_emod]

end Int256

namespace SignMagnitude

open Int256 (isIntegerWidth_bytes fits_ofLowBits ofLowBits_of_fits ofLowBits_modEq)

/-- For every width of whole bytes, filling bytes with the sign gives the number of that width which
agrees with the word in its low bits.  There is only one such number, and it is the whole word exactly
when the whole word is a number of that width. -/
theorem ofLowBits_unique (w : Word) (k : Nat) (hpos : 1 ≤ k) (hle : k ≤ wordSize) :
    (∀ i : Int, i = (ofLowBits w (8 * k)).toInt ↔
      (-2 ^ (8 * k - 1) ≤ i ∧ i < 2 ^ (8 * k - 1)) ∧ i ≡ w.toNat [ZMOD 2 ^ (8 * k)]) ∧
    (ofLowBits w (8 * k) = ofWord w ↔ (ofWord w).fits (8 * k) = true) ∧
    ofLowBits w (8 * k) = (Int256.ofLowBits w (8 * k)).stored ∧
    ofWord w = (Int256.ofWord w).stored := by
  have hwidth := isIntegerWidth_bytes k hpos hle
  have hbounds := (Int256.fits_iff _ _ (by omega)).mp (fits_ofLowBits w (8 * k) hwidth)
  have hagrees := ofLowBits_modEq w (8 * k) hwidth
  rw [ofLowBits_eq, ofWord_eq, toInt_stored, fits_stored]
  refine ⟨fun i => ?_, ?_, rfl, rfl⟩
  · constructor
    · rintro rfl
      exact ⟨hbounds, hagrees⟩
    · rintro ⟨hi, hmod⟩
      exact Int.eq_of_modEq_two_pow i _ (8 * k) (by omega) hi hbounds (hmod.trans hagrees.symm)
  · constructor
    · intro h
      rw [← stored_injective _ _ h]
      exact fits_ofLowBits w (8 * k) hwidth
    · intro hfits
      rw [ofLowBits_of_fits w (8 * k) hwidth hfits]

/-- The low two bytes are the smallest number of sixteen bits, and the third is dropped. -/
theorem ofLowBits_unique_dirty :
    1 ≤ 2 ∧ 2 ≤ wordSize ∧ (ofLowBits 0x018000 (8 * 2)).toInt = -32768 ∧
    ofLowBits 0x018000 (8 * 2) ≠ ofWord 0x018000 := by
  obtain ⟨hunique, hwhole, -⟩ := ofLowBits_unique 0x018000 2 (by decide) (by decide)
  have hvalue := (hunique (-32768)).mpr ⟨by decide, by decide⟩
  exact ⟨by decide, by decide, hvalue.symm, hwhole.not.mpr (by decide +kernel)⟩

end SignMagnitude
end ContractAbi
