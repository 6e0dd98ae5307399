import ContractAbi.Proofs.Legality
import ContractAbi.Int256

/-!
# Signed numbers of fewer bits

`fits` bounds an integer by a power of two.  For the widths that exist, the low bits of a word are
always a number of that width, and the low bits of the word of such a number give the number back.
-/

namespace ContractAbi
namespace Int256

/-- The numbers of at least one bit lie in the usual range, whatever the width. -/
theorem fits_iff (v : Int256) (bits : Nat) (h : 0 < bits) :
    v.fits bits = true ↔ -2 ^ (bits - 1) ≤ v.toInt ∧ v.toInt < 2 ^ (bits - 1) := by
  have hlimit : (1 : Int) <<< (bits - 1) = 2 ^ (bits - 1) := by
    rw [Int.shiftLeft_eq, Int.one_mul]
  unfold fits
  rw [hlimit]
  split
  · rename_i hwide
    -- A width of 256 bits or more excludes no number at all.
    have hpow : (2 : Int) ^ 255 ≤ 2 ^ (bits - 1) := by
      have hn : 2 ^ 255 ≤ 2 ^ (bits - 1) := Nat.pow_le_pow_right (by decide) (by omega)
      exact_mod_cast hn
    have hlow := v.min_le
    have hhigh := v.lt_limit
    constructor
    · intro _
      omega
    · intro _
      rfl
  · rw [if_neg (by omega)]
    simp

/-- A legal width is a number of whole bytes that `byteWidth` does not change. -/
theorem byteWidth_of_isIntegerWidth (bits : Nat) (h : AbiType.isIntegerWidth bits = true) :
    8 * byteWidth bits = bits := by
  obtain ⟨hpos, hle, hbytes⟩ := (AbiType.isIntegerWidth_iff bits).mp h
  simp only [byteWidth, wordSize]
  omega

theorem toInt_ofLowBits (w : Word) (bits : Nat) (h : AbiType.isIntegerWidth bits = true) :
    (ofLowBits w bits).toInt = (w.setWidth bits).toInt := by
  show (w.setWidth (8 * byteWidth bits)).toInt = (w.setWidth bits).toInt
  rw [byteWidth_of_isIntegerWidth bits h]

/-- The low bits of any word are a number of that many bits. -/
theorem fits_ofLowBits (w : Word) (bits : Nat) (h : AbiType.isIntegerWidth bits = true) :
    (ofLowBits w bits).fits bits = true := by
  obtain ⟨hpos, -, -⟩ := (AbiType.isIntegerWidth_iff bits).mp h
  rw [fits_iff _ _ hpos, toInt_ofLowBits w bits h]
  exact ⟨BitVec.le_toInt _, BitVec.toInt_lt⟩

/-- Cutting the two's complement form of a number to fewer bits is its form of that many bits. -/
theorem setWidth_toWord (v : Int256) (bits : Nat) (h : bits ≤ 256) :
    v.toWord.setWidth bits = BitVec.ofInt bits v.toInt := by
  apply BitVec.eq_of_toInt_eq
  have hword : ((v.toWord.toNat : Nat) : Int) = v.toInt % ((2 ^ 256 : Nat) : Int) := by
    rw [toWord, BitVec.toNat_ofInt, Int.toNat_of_nonneg]
    exact Int.emod_nonneg _ (by decide)
  -- The remainder modulo `2 ^ 256` may be left out in front of one modulo a divisor.
  have hdvd : ((2 ^ bits : Nat) : Int) ∣ ((2 ^ 256 : Nat) : Int) :=
    Int.natCast_dvd_natCast.mpr (Nat.pow_dvd_pow 2 h)
  rw [BitVec.toInt_setWidth, BitVec.toInt_ofInt, hword, ← Int.emod_bmod,
    Int.emod_emod_of_dvd _ hdvd, Int.emod_bmod]

/-- A number of the given width is read back from the low bits of its word. -/
theorem ofLowBits_toWord (v : Int256) (bits : Nat) (h : AbiType.isIntegerWidth bits = true)
    (hfits : v.fits bits = true) : ofLowBits v.toWord bits = v := by
  obtain ⟨hpos, hle, -⟩ := (AbiType.isIntegerWidth_iff bits).mp h
  obtain ⟨hlow, hhigh⟩ := (fits_iff v bits hpos).mp hfits
  apply Int256.ext
  rw [toInt_ofLowBits _ bits h, setWidth_toWord v bits hle]
  exact BitVec.toInt_ofInt_eq_self hpos hlow hhigh

/-- Of a word that is the word of such a number, the low bits are the whole number. -/
theorem ofLowBits_of_fits (w : Word) (bits : Nat) (h : AbiType.isIntegerWidth bits = true)
    (hfits : (ofWord w).fits bits = true) : ofLowBits w bits = ofWord w := by
  have hback := ofLowBits_toWord (ofWord w) bits h hfits
  rwa [toWord_ofWord] at hback

theorem toWord_ofLowBits_eq_iff (w : Word) (bits : Nat)
    (h : AbiType.isIntegerWidth bits = true) :
    (ofLowBits w bits).toWord = w ↔ (ofWord w).fits bits = true := by
  constructor
  · intro heq
    rw [← heq, ofWord_toWord]
    exact fits_ofLowBits w bits h
  · intro hfits
    rw [ofLowBits_of_fits w bits h hfits, toWord_ofWord]

end Int256
end ContractAbi
