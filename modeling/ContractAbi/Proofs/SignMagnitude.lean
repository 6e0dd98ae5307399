import Mathlib.Data.List.Induction
import Mathlib.Data.Nat.Bitwise
import Mathlib.Tactic.Ring
import ContractAbi.Int256.SignMagnitude
import ContractAbi.Proofs.SignedWord

/-!
# The pairs that stand for numbers

A pair of a magnitude and a sign is `Canonical` if its magnitude is in range and its sign is not that
of a negative zero.  These are the pairs of the numbers, one for each number (`canonical_iff`), so that
a computation on pairs is right as soon as its result stands for the right integer and is no negative
zero (`eq_stored`).

That is how each operation on pairs is shown to be the operation on numbers.
-/

namespace ContractAbi

namespace Bytes

/-- Bytes in front of others count 256 times as much for each of the others. -/
theorem toNat_append (front back : Bytes) :
    toNat (front ++ back) = toNat front * 256 ^ back.length + toNat back := by
  induction back using List.reverseRecOn with
  | nil => simp
  | append_singleton back b ih =>
      rw [← List.append_assoc, toNat_concat, toNat_concat, ih, List.length_append,
        List.length_singleton]
      ring

/-- The last bytes are the number modulo a power of 256. -/
theorem toNat_drop (bytes : Bytes) (k : Nat) :
    toNat (bytes.drop k) = toNat bytes % 256 ^ (bytes.length - k) := by
  have hlt := toNat_lt (bytes.drop k)
  have hsplit := toNat_append (bytes.take k) (bytes.drop k)
  rw [List.take_append_drop, List.length_drop] at hsplit
  rw [List.length_drop] at hlt
  rw [hsplit, Nat.mul_add_mod_self_right]
  exact (Nat.mod_eq_of_lt hlt).symm

end Bytes

namespace SignMagnitude

theorem topBit_iff (b : UInt8) : topBit b = true ↔ 128 ≤ b.toNat := by
  have hmask : b &&& 0x80 = 0 ↔ b.toNat &&& 2 ^ 7 = 0 := by
    rw [← UInt8.toNat_inj, UInt8.toNat_and]
    rfl
  have hlt := b.toNat_lt
  rw [topBit, decide_eq_true_eq, ne_eq, hmask, Nat.and_two_pow, Nat.testBit_eq_decide_div_mod_eq]
  by_cases h : 128 ≤ b.toNat
  · simp [h]
    omega
  · simp [h]
    omega

/-- The top bit of the first byte is set if the bytes are at least half of what they can be. -/
theorem topBit_getD_iff (bytes : Bytes) (k : Nat) (hk : k < bytes.length) :
    topBit (bytes.getD k 0) = true ↔
      256 ^ (bytes.length - k) ≤ 2 * Bytes.toNat (bytes.drop k) := by
  have hlt := Bytes.toNat_lt (bytes.drop (k + 1))
  have hlength : bytes.length - k = bytes.length - (k + 1) + 1 := by omega
  have hfirst : bytes.drop k = [bytes[k]] ++ bytes.drop (k + 1) := List.drop_eq_getElem_cons hk
  have hbyte : Bytes.toNat [bytes[k]] = bytes[k].toNat := by simp [Bytes.toNat]
  rw [List.getD_eq_getElem _ _ hk, topBit_iff, hfirst, Bytes.toNat_append, hbyte, hlength, pow_succ]
  rw [List.length_drop] at hlt ⊢
  change _ < 256 ^ _ at hlt
  generalize 256 ^ (bytes.length - (k + 1)) = unit at hlt
  constructor
  · intro h
    have := Nat.mul_le_mul_right unit h
    omega
  · -- With a smaller first byte, not even the largest bytes behind it make up the other half.
    intro h
    by_contra hsmall
    have := Nat.mul_le_mul_right unit (show bytes[k].toNat + 1 ≤ 128 by omega)
    rw [Nat.add_mul] at this
    omega

/-! ## Canonical pairs -/

/-- The magnitude is in range, only a negative number reaches the end of the range, and zero is not
negative. -/
structure Canonical (r : SignMagnitude) : Prop where
  magnitude_le : r.magnitude.toNat ≤ 2 ^ 255
  not_limit : ¬ (r.magnitude.toNat = 2 ^ 255 ∧ r.negative = false)
  zero_positive : r.magnitude.toNat = 0 → r.negative = false

/-- A pair is canonical if it stands for an integer in range, and is no negative zero. -/
theorem canonical_iff_bounds (r : SignMagnitude) :
    r.Canonical ↔ (-2 ^ 255 ≤ r.toInt ∧ r.toInt < 2 ^ 255) ∧
      (r.magnitude.toNat = 0 → r.negative = false) := by
  obtain ⟨magnitude, negative⟩ := r
  constructor
  · rintro ⟨hle, hlimit, hzero⟩
    refine ⟨?_, hzero⟩
    cases negative with
    | false =>
        have hne : magnitude.toNat ≠ 2 ^ 255 := fun h => hlimit ⟨h, rfl⟩
        simp only [toInt, Bool.false_eq_true, if_false] at hle hne ⊢
        omega
    | true =>
        simp only [toInt, if_true] at hle ⊢
        omega
  · rintro ⟨⟨hlow, hhigh⟩, hzero⟩
    cases negative with
    | false =>
        simp only [toInt, Bool.false_eq_true, if_false] at hlow hhigh
        exact ⟨by simp only; omega, fun h => by simp only at h; omega, hzero⟩
    | true =>
        simp only [toInt, if_true] at hlow hhigh
        exact ⟨by simp only; omega, fun h => absurd h.2 (by simp), hzero⟩

theorem toNat_magnitude_stored (v : Int256) : v.stored.magnitude.toNat = v.toInt.natAbs := by
  have := v.min_le
  have := v.lt_limit
  show v.toInt.natAbs % 2 ^ 256 = v.toInt.natAbs
  omega

theorem toInt_stored (v : Int256) : v.stored.toInt = v.toInt := by
  rw [toInt, toNat_magnitude_stored, Int256.stored]
  by_cases h : v.toInt < 0
  · simp only [Int256.isNegative, h, decide_true, if_true]
    omega
  · simp only [Int256.isNegative, h, decide_false, Bool.false_eq_true, if_false]
    omega

theorem canonical_stored (v : Int256) : v.stored.Canonical := by
  have hlow := v.min_le
  have hhigh := v.lt_limit
  rw [canonical_iff_bounds, toInt_stored]
  refine ⟨⟨by omega, by omega⟩, fun hzero => ?_⟩
  -- A negative zero would stand for zero, which is not negative.
  have hnone : v.toInt = 0 := by
    rw [← toInt_stored, toInt, hzero]
    simp
  simp [Int256.stored, Int256.isNegative, hnone]

/-- A pair that is no negative zero is the pair of the number that it stands for. -/
theorem eq_stored (r : SignMagnitude) (v : Int256)
    (hzero : r.magnitude.toNat = 0 → r.negative = false) (h : r.toInt = v.toInt) :
    r = v.stored := by
  obtain ⟨magnitude, negative⟩ := r
  have hparts : v.toInt.natAbs = magnitude.toNat ∧ (v.toInt < 0 ↔ negative = true) := by
    rw [← h]
    cases negative with
    | false =>
        show (magnitude.toNat : Int).natAbs = _ ∧ ((magnitude.toNat : Int) < 0 ↔ _)
        simp
    | true =>
        have hpos : magnitude.toNat ≠ 0 := fun hnone => absurd (hzero hnone) (by simp)
        show (-(magnitude.toNat : Int)).natAbs = _ ∧ (-(magnitude.toNat : Int) < 0 ↔ _)
        exact ⟨by omega, by simp; omega⟩
  obtain ⟨hmagnitude, hsign⟩ := hparts
  rw [Int256.stored, Int256.magnitude, Int256.isNegative, hmagnitude]
  simp [hsign]

/-- The canonical pairs are the pairs of the numbers. -/
theorem canonical_iff (r : SignMagnitude) : r.Canonical ↔ ∃ v : Int256, r = v.stored := by
  constructor
  · intro hr
    obtain ⟨⟨hlow, hhigh⟩, hzero⟩ := (canonical_iff_bounds r).mp hr
    exact ⟨⟨r.toInt, by omega, by omega⟩, eq_stored r _ hzero rfl⟩
  · rintro ⟨v, rfl⟩
    exact canonical_stored v

theorem stored_injective (v w : Int256) (h : v.stored = w.stored) : v = w := by
  apply Int256.ext
  rw [← toInt_stored v, h, toInt_stored]

/-! ## Making pairs -/

theorem toNat_limit : limit.toNat = 2 ^ 255 := by
  decide +kernel

/-- Of a magnitude that is not zero, what is refused are the pairs that are not canonical. -/
theorem refused_iff_not_canonical (magnitude : Word) (negative : Bool) (h : magnitude ≠ 0) :
    ((negative && limit < magnitude) || (!negative && limit ≤ magnitude)) = true ↔
      ¬ Canonical ⟨magnitude, negative⟩ := by
  have hpos : magnitude.toNat ≠ 0 := fun hzero => h (BitVec.eq_of_toNat_eq hzero)
  rw [canonical_iff_bounds]
  cases negative with
  | false =>
      simp only [Bool.false_and, Bool.not_false, Bool.true_and, Bool.false_or, decide_eq_true_eq,
        BitVec.le_def, toNat_limit, toInt, Bool.false_eq_true, if_false]
      omega
  | true =>
      simp only [Bool.not_true, Bool.true_and, Bool.false_and, Bool.or_false, decide_eq_true_eq,
        BitVec.lt_def, toNat_limit, toInt, if_true]
      omega

/-- A magnitude with a sign is accepted if the integer is in range. -/
theorem ofParts?_eq (magnitude : Word) (negative : Bool) :
    ofParts? magnitude negative =
      (Int256.ofSignMagnitude? negative magnitude.toNat).map Int256.stored := by
  show _ = (Int256.ofInt? (toInt ⟨magnitude, negative⟩)).map Int256.stored
  rw [ofParts?]
  by_cases hzero : magnitude = 0
  · have hint : toInt ⟨magnitude, negative⟩ = Int256.zero.toInt := by
      subst hzero
      cases negative <;> rfl
    rw [if_pos hzero, (Int256.ofInt?_eq_some_iff _ Int256.zero).mpr hint.symm]
    rfl
  rw [if_neg hzero]
  by_cases hr : Canonical ⟨magnitude, negative⟩
  · rw [if_neg ((refused_iff_not_canonical magnitude negative hzero).not.mpr (not_not_intro hr))]
    obtain ⟨v, hv⟩ := (canonical_iff _).mp hr
    have hsome : Int256.ofInt? (toInt ⟨magnitude, negative⟩) = some v := by
      rw [Int256.ofInt?_eq_some_iff, hv, toInt_stored]
    rw [hsome, hv]
    rfl
  · rw [if_pos ((refused_iff_not_canonical magnitude negative hzero).mpr hr)]
    cases hsome : Int256.ofInt? (toInt ⟨magnitude, negative⟩) with
    | none => rfl
    | some v =>
        have hv := (Int256.ofInt?_eq_some_iff _ v).mp hsome
        have hlow := v.min_le
        have hhigh := v.lt_limit
        have hbounds : Canonical ⟨magnitude, negative⟩ := by
          rw [canonical_iff_bounds, ← hv]
          refine ⟨⟨by omega, by omega⟩, fun hnone => absurd (BitVec.eq_of_toNat_eq hnone) hzero⟩
        exact absurd hbounds hr

theorem ofInt128_eq (x : BitVec 128) : ofInt128 x = (Int256.ofInt128 x).stored :=
  rfl

/-! ## Words -/

theorem toNat_twosComplement (w : Word) :
    (twosComplement w).toNat = (2 ^ 256 - w.toNat) % 2 ^ 256 := by
  rw [← BitVec.toNat_neg, BitVec.neg_eq_not_add]
  rfl

/-- The first byte has the sign. -/
theorem topBit_toBytes (w : Word) :
    topBit ((Word.toBytes w).getD 0 0) = true ↔ 2 ^ 256 ≤ 2 * w.toNat := by
  have hhalf := topBit_getD_iff (Word.toBytes w) 0 (by rw [Word.length_toBytes]; decide)
  rwa [List.drop_zero, Word.toNat_toBytes, Word.length_toBytes, Nat.sub_zero] at hhalf

/-- Any word is read as the pair of a number. -/
theorem ofWord_eq (w : Word) : ofWord w = (Int256.ofWord w).stored := by
  have hlt := w.isLt
  have hvalue : (Int256.ofWord w).toInt =
      if 2 * w.toNat < 2 ^ 256 then (w.toNat : Int) else w.toNat - (2 ^ 256 : Nat) :=
    BitVec.toInt_eq_toNat_cond w
  rw [ofWord]
  by_cases hsign : 2 ^ 256 ≤ 2 * w.toNat
  · -- The word is not zero, so that adding one does not carry out of it.
    have hmagnitude : (twosComplement w).toNat = 2 ^ 256 - w.toNat := by
      rw [toNat_twosComplement]
      omega
    rw [if_pos ((topBit_toBytes w).mpr hsign)]
    apply eq_stored
    · intro hnone
      rw [hmagnitude] at hnone
      omega
    · rw [hvalue, if_neg (by omega)]
      simp only [toInt, if_true, hmagnitude]
      omega
  · rw [if_neg ((topBit_toBytes w).not.mpr hsign)]
    apply eq_stored
    · intro _
      rfl
    · rw [hvalue, if_pos (by omega)]
      rfl

/-- Whatever a pair stands for, its word is that integer modulo `2 ^ 256`. -/
theorem toWord_eq (r : SignMagnitude) : r.toWord = BitVec.ofInt 256 r.toInt := by
  obtain ⟨magnitude, negative⟩ := r
  cases negative with
  | false =>
      show magnitude = BitVec.ofInt 256 (magnitude.toNat : Int)
      rw [BitVec.ofInt_natCast, BitVec.ofNat_toNat, BitVec.setWidth_eq]
  | true =>
      show twosComplement magnitude = BitVec.ofInt 256 (-(magnitude.toNat : Int))
      rw [BitVec.ofInt_neg, BitVec.ofInt_natCast, BitVec.ofNat_toNat, BitVec.setWidth_eq,
        BitVec.neg_eq_not_add]
      rfl

/-- The word of a pair is the word of the number. -/
theorem toWord_stored (v : Int256) : v.stored.toWord = v.toWord := by
  rw [toWord_eq, toInt_stored, Int256.toWord]

/-- The bound of a width, as a word. -/
theorem toNat_bound (bits : Nat) (h : bits < 256) : ((1 : Word) <<< bits).toNat = 2 ^ bits := by
  have hlt : 2 ^ bits < 2 ^ 256 := Nat.pow_lt_pow_right (by decide) h
  rw [BitVec.toNat_shiftLeft, Nat.shiftLeft_eq]
  show 1 * 2 ^ bits % 2 ^ 256 = 2 ^ bits
  rw [Nat.one_mul, Nat.mod_eq_of_lt hlt]

theorem isZero_stored (v : Int256) : v.stored.isZero = v.isZero := by
  have hmagnitude := toNat_magnitude_stored v
  rw [Bool.eq_iff_iff, isZero, Int256.isZero, decide_eq_true_eq, beq_iff_eq, ← BitVec.toNat_inj,
    hmagnitude]
  exact Int.natAbs_eq_zero

/-- Comparing the magnitude with the bound of its sign is comparing the number with both bounds. -/
theorem fits_stored (v : Int256) (bits : Nat) : v.stored.fits bits = v.fits bits := by
  by_cases hwide : 256 ≤ bits
  · simp [fits, Int256.fits, hwide]
  by_cases hnone : bits = 0
  · simp [fits, Int256.fits, hnone, isZero_stored]
  have hbound := toNat_bound (bits - 1) (by omega)
  have hpow : ((2 ^ (bits - 1) : Nat) : Int) = 2 ^ (bits - 1) := by norm_cast
  have hmagnitude := toNat_magnitude_stored v
  rw [Bool.eq_iff_iff, Int256.fits_iff v bits (by omega), fits, if_neg hwide, if_neg hnone, ← hpow,
    ← hbound]
  generalize (1 : Word) <<< (bits - 1) = bound
  by_cases hsign : v.toInt < 0
  · have hnegative : v.stored.negative = true := decide_eq_true hsign
    simp only [hnegative, if_true, decide_eq_true_eq, BitVec.le_def]
    omega
  · have hpositive : v.stored.negative = false := decide_eq_false hsign
    simp only [hpositive, Bool.false_eq_true, if_false, decide_eq_true_eq, BitVec.lt_def]
    omega

/-! ## Numbers of 128 bits -/

theorem lt_bitLength_iff (w : Word) (k : Nat) : k < bitLength w ↔ 2 ^ k ≤ w.toNat := by
  unfold bitLength
  by_cases hzero : w = 0
  · subst hzero
    simp
  · have hpos : w.toNat ≠ 0 := fun hnone => hzero (BitVec.eq_of_toNat_eq hnone)
    rw [if_neg hzero, Nat.lt_succ_iff, Nat.le_log2 hpos]

/-- The smallest number of 128 bits is the only one whose magnitude needs 128 bits. -/
theorem toInt128?_eq (v : Int256) :
    v.stored.toInt128? =
      if -2 ^ 127 ≤ v.toInt ∧ v.toInt < 2 ^ 127 then some (BitVec.ofInt 128 v.toInt) else none := by
  have hmagnitude := toNat_magnitude_stored v
  have hbits := lt_bitLength_iff v.stored.magnitude 127
  rw [hmagnitude] at hbits
  rw [toInt128?]
  by_cases hlarge : 127 < bitLength v.stored.magnitude
  · have hmin : v.stored.magnitude = (1 : Word) <<< 127 ↔ v.toInt.natAbs = 2 ^ 127 := by
      rw [← BitVec.toNat_inj, hmagnitude, toNat_bound 127 (by decide)]
    have habs := hbits.mp hlarge
    rw [if_pos hlarge]
    by_cases hlow : v.toInt = -2 ^ 127
    · have hnegative : v.stored.negative = true := decide_eq_true (by omega)
      have hlimit := hmin.mpr (by omega)
      rw [if_pos (by simp [hnegative, hlimit]), if_pos (by omega), hlow]
      rfl
    · rw [if_neg ?_, if_neg (by omega)]
      rw [Bool.and_eq_true, decide_eq_true_eq, hmin]
      rintro ⟨hnegative, habs'⟩
      have hsign : v.toInt < 0 := of_decide_eq_true hnegative
      omega
  · have habs : v.toInt.natAbs < 2 ^ 127 := by omega
    have hcut : v.stored.magnitude.setWidth 128 = BitVec.ofInt 128 v.toInt.natAbs := by
      rw [BitVec.ofInt_natCast, ← hmagnitude, BitVec.ofNat_toNat]
    rw [if_neg hlarge, if_pos (by omega)]
    by_cases hsign : v.toInt < 0
    · have hnegative : v.stored.negative = true := decide_eq_true hsign
      have hint : v.toInt = -(v.toInt.natAbs : Int) := by omega
      simp only [hnegative, if_true, hcut]
      rw [← BitVec.ofInt_neg, ← hint]
    · have hpositive : v.stored.negative = false := decide_eq_false hsign
      have hint : v.toInt = (v.toInt.natAbs : Int) := by omega
      simp only [hpositive, Bool.false_eq_true, if_false, hcut]
      rw [← hint]

/-- A number of 128 bits is taken out of its pair as it is. -/
theorem toInt128?_stored (v : Int256) :
    v.stored.toInt128?.map BitVec.toInt = v.toInt128? := by
  rw [toInt128?_eq, Int256.toInt128?]
  by_cases hrange : -2 ^ 127 ≤ v.toInt ∧ v.toInt < 2 ^ 127
  · have hself : (BitVec.ofInt 128 v.toInt).toInt = v.toInt :=
      BitVec.toInt_ofInt_eq_self (by decide) hrange.1 hrange.2
    rw [if_pos hrange, if_pos (by omega), Option.map_some, hself]
  · rw [if_neg hrange, if_neg (by omega)]
    rfl

end SignMagnitude
end ContractAbi
