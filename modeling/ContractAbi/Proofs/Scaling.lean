import Mathlib.Algebra.Field.Rat
import Mathlib.Data.Nat.Prime.Int
import Mathlib.Tactic.FieldSimp
import Mathlib.Tactic.LinearCombination
import Mathlib.Tactic.NormNum
import Mathlib.Tactic.Ring
import ContractAbi.AbiType.Valid
import ContractAbi.Decimal

/-!
# Decimals as rational numbers

`Decimal.toRat` is the number that a decimal denotes and `Scaling.factor` the number that it is
multiplied by on its way to the wire.  Lowest terms make `toRat` injective.  With that, both
directions of the scaling are exact: `toWire` gives the product of the number and the factor, and
`ofWire` finds every decimal again whose product with the factor is the given integer.

`toWire` finds the product whenever there is one in range, but for zero with so many places that the
power of ten alone overflows.
-/

namespace ContractAbi

/-- What a number is multiplied by on its way to the wire. -/
def Scaling.factor : Scaling → Nat → ℚ
  | .decimal, n => 10 ^ n
  | .binary, n => 2 ^ n

theorem Scaling.factor_ne_zero (scaling : Scaling) (n : Nat) : scaling.factor n ≠ 0 := by
  cases scaling <;> simp [Scaling.factor]

/-- Stripping a factor divides by a power of it; the exponent is what was taken off the count. -/
theorem stripFactor_spec (d : Nat) (m : Int) (k : Nat) :
    ∃ i, i + (stripFactor d m k).2 = k ∧ m = (stripFactor d m k).1 * (d : Int) ^ i := by
  induction k generalizing m with
  | zero => exact ⟨0, rfl, by simp [stripFactor]⟩
  | succ k ih =>
      rw [stripFactor]
      split
      · rename_i h
        obtain ⟨i, hi, hm⟩ := ih (m / d)
        refine ⟨i + 1, by omega, ?_⟩
        calc m = m / d * d := (Int.ediv_mul_cancel (Int.dvd_of_emod_eq_zero h.2)).symm
          _ = (stripFactor d (m / d) k).1 * (d : Int) ^ i * d := by rw [← hm]
          _ = (stripFactor d (m / d) k).1 * (d : Int) ^ (i + 1) := by ring
      · exact ⟨0, by simp, by simp⟩

/-- A fraction over a power of ten in lowest terms has the fewest places of all fractions that are
equal to it. -/
theorem places_le_of_lowestTerms (a b : Int) (s t : Nat) (hb : t = 0 ∨ ¬ (10 : Int) ∣ b)
    (h : a * 10 ^ t = b * 10 ^ s) : t ≤ s := by
  by_contra hlt
  obtain ⟨k, rfl⟩ : ∃ k, t = s + (k + 1) := ⟨t - s - 1, by omega⟩
  -- A surplus power of ten on the left would make `b` end in a zero.
  have hsurplus : b = a * 10 ^ k * 10 := by
    have hpow : (10 : Int) ^ s ≠ 0 := pow_ne_zero _ (by norm_num)
    apply mul_right_cancel₀ hpow
    rw [← h]
    ring
  rcases hb with hzero | hndvd
  · omega
  · exact hndvd ⟨a * 10 ^ k, by rw [hsurplus]; ring⟩

/-- Fractions over powers of ten in lowest terms are equal only if they are the same. -/
theorem lowestTerms_unique (a b : Int) (s t : Nat) (ha : s = 0 ∨ ¬ (10 : Int) ∣ a)
    (hb : t = 0 ∨ ¬ (10 : Int) ∣ b) (h : a * 10 ^ t = b * 10 ^ s) : a = b ∧ s = t := by
  have hst : s = t := Nat.le_antisymm (places_le_of_lowestTerms b a t s ha h.symm)
    (places_le_of_lowestTerms a b s t hb h)
  subst hst
  exact ⟨mul_right_cancel₀ (pow_ne_zero _ (by norm_num)) h, rfl⟩

namespace Decimal

/-- The number that a decimal denotes. -/
def toRat (v : Decimal) : ℚ :=
  v.mantissa.toInt / 10 ^ v.scale

theorem toRat_eq_iff (v : Decimal) (a : Int) (s : Nat) :
    v.toRat = a / 10 ^ s ↔ v.mantissa.toInt * 10 ^ s = a * 10 ^ v.scale := by
  have hs : (10 : ℚ) ^ s ≠ 0 := pow_ne_zero _ (by norm_num)
  have hv : (10 : ℚ) ^ v.scale ≠ 0 := pow_ne_zero _ (by norm_num)
  rw [toRat, div_eq_div_iff hv hs]
  exact_mod_cast Iff.rfl

/-- Decimals that denote the same number are the same. -/
theorem toRat_injective (v w : Decimal) (h : v.toRat = w.toRat) : v = w := by
  have hcross := (toRat_eq_iff v w.mantissa.toInt w.scale).mp h
  obtain ⟨hm, hs⟩ := lowestTerms_unique _ _ _ _ v.lowest w.lowest hcross
  exact Decimal.ext (Int256.ext hm) hs

/-- Reducing to lowest terms does not change the number. -/
theorem toRat_ofScaled (m : Int256) (s : Nat) : (ofScaled m s).toRat = m.toInt / 10 ^ s := by
  rw [ofScaled]
  split
  · rename_i hzero
    simp [toRat, zero, Int256.zero, hzero]
  · obtain ⟨i, hi, hm⟩ := stripFactor_spec 10 m.toInt s
    rw [toRat_eq_iff]
    simp only
    calc (stripFactor 10 m.toInt s).1 * 10 ^ s
        = (stripFactor 10 m.toInt s).1 * ((10 : Nat) : Int) ^ i *
            10 ^ (stripFactor 10 m.toInt s).2 := by
          rw [mul_assoc, Nat.cast_ofNat, ← pow_add, hi]
      _ = m.toInt * 10 ^ (stripFactor 10 m.toInt s).2 := by rw [← hm]

/-! ## To the wire -/

theorem inRange_eq_ok_iff (v : Decimal) (i : Int) (raw : Int256) :
    inRange v i = .ok raw ↔ raw.toInt = i := by
  rw [inRange, ← Int256.ofInt?_eq_some_iff]
  cases Int256.ofInt? i <;> simp

theorem powWithin?_eq_some_iff (base exponent width p : Nat) :
    powWithin? base exponent width = some p ↔
      exponent < width ∧ base ^ exponent < 2 ^ width ∧ p = base ^ exponent := by
  have hwidth : 1 <<< width = 2 ^ width := Nat.one_shiftLeft width
  show (if width ≤ exponent then none
    else if base ^ exponent < 1 <<< width then some (base ^ exponent) else none) = some p ↔ _
  rw [hwidth]
  split
  · rename_i hwide
    simp [Nat.not_lt.mpr hwide]
  · rename_i hwide
    split
    · rename_i hfits
      simp [Nat.not_le.mp hwide, hfits, eq_comm]
    · rename_i hfits
      simp [hfits]

/-- The wire integer is the number times the factor. -/
theorem toRat_mul_factor_of_toWire (v : Decimal) (n : Nat) (scaling : Scaling) (raw : Int256)
    (h : v.toWire n scaling = .ok raw) : v.toRat * scaling.factor n = raw.toInt := by
  unfold toWire at h
  split at h
  · contradiction
  cases scaling with
  | decimal =>
      simp only at h
      split at h
      · contradiction
      rename_i hscale
      cases hpow : powWithin? 10 (n - v.scale) 256 with
      | none => simp [hpow] at h
      | some p =>
          simp only [hpow, inRange_eq_ok_iff] at h
          have hp := ((powWithin?_eq_some_iff _ _ _ _).mp hpow).2.2
          -- The descriptor has `k` digits more than the number needs.
          obtain ⟨k, rfl⟩ : ∃ k, n = v.scale + k := ⟨n - v.scale, by omega⟩
          have hv : (10 : ℚ) ^ v.scale ≠ 0 := pow_ne_zero _ (by norm_num)
          rw [Nat.add_sub_cancel_left] at hp
          rw [h, hp, toRat, Scaling.factor, pow_add]
          push_cast
          field_simp
  | binary =>
      simp only at h
      split at h
      · contradiction
      cases hpow : powWithin? 10 v.scale 512 with
      | none => simp [hpow] at h
      | some p =>
          simp only [hpow] at h
          split at h
          · contradiction
          rename_i hexact
          rw [not_not] at hexact
          rw [inRange_eq_ok_iff] at h
          have hp := ((powWithin?_eq_some_iff _ _ _ _).mp hpow).2.2
          subst hp
          have hv : (10 : ℚ) ^ v.scale ≠ 0 := pow_ne_zero _ (by norm_num)
          -- The division by the power of ten leaves nothing over.
          have hdiv : raw.toInt * ((10 ^ v.scale : Nat) : Int) = v.mantissa.toInt * 2 ^ n := by
            rw [h]
            exact (Int.ediv_mul_cancel (Int.dvd_of_emod_eq_zero hexact)).trans
              (Int.shiftLeft_eq _ _)
          have hrat : (raw.toInt : ℚ) * 10 ^ v.scale = v.mantissa.toInt * 2 ^ n := by
            exact_mod_cast hdiv
          rw [toRat, Scaling.factor, div_mul_eq_mul_div, div_eq_iff hv, hrat]

/-! ## Back from the wire -/

/-- What is read is the wire integer over the factor. -/
theorem toRat_of_ofWire (raw : Int256) (n : Nat) (scaling : Scaling) (v : Decimal)
    (h : ofWire raw n scaling = .ok v) : v.toRat * scaling.factor n = raw.toInt := by
  unfold ofWire at h
  split at h
  · contradiction
  cases scaling with
  | decimal =>
      cases h
      have hn : (10 : ℚ) ^ n ≠ 0 := pow_ne_zero _ (by norm_num)
      rw [toRat_ofScaled, Scaling.factor, div_mul_cancel₀ _ hn]
  | binary =>
      simp only at h
      cases hpow : powWithin? 5 (stripFactor 2 raw.toInt n).2 512 with
      | none => simp [hpow] at h
      | some p =>
          simp only [hpow] at h
          cases hmantissa : Int256.ofInt? ((stripFactor 2 raw.toInt n).1 * p) with
          | none => simp [hmantissa] at h
          | some mantissa =>
              simp only [hmantissa, Except.ok.injEq] at h
              subst h
              have hp := ((powWithin?_eq_some_iff _ _ _ _).mp hpow).2.2
              have hm := (Int256.ofInt?_eq_some_iff _ _).mp hmantissa
              obtain ⟨i, hi, hraw⟩ := stripFactor_spec 2 raw.toInt n
              rw [toRat_ofScaled, Scaling.factor, hm, hp]
              -- Of `2 ^ n`, `2 ^ i` has been cancelled; `5 ^ k` makes `10 ^ k` of what is left.
              generalize (stripFactor 2 raw.toInt n).2 = k at hi
              generalize (stripFactor 2 raw.toInt n).1 = r at hraw
              have hten : (10 : ℚ) ^ k = 2 ^ k * 5 ^ k := by rw [← mul_pow]; norm_num
              rw [hraw, ← hi, hten, pow_add]
              push_cast
              field_simp

/-- A power of five that stands for as many bits as a descriptor may have fits 512 bits. -/
theorem powWithin?_five (k : Nat) (h : k ≤ AbiType.maxFraction) :
    powWithin? 5 k 512 = some (5 ^ k) := by
  have hk : k < 512 := Nat.lt_of_le_of_lt h (by decide)
  have hpow : 5 ^ k < 2 ^ 512 :=
    calc 5 ^ k ≤ 5 ^ 80 := Nat.pow_le_pow_right (by norm_num) h
      _ < 2 ^ 512 := by decide +kernel
  exact (powWithin?_eq_some_iff _ _ _ _).mpr ⟨hk, hpow, rfl⟩

/-- The binary wire integer `r * 2 ^ i` of a decimal, over `2 ^ (i + k)`, has the decimal's own
mantissa as its numerator over `10 ^ k`, once no factor of two can be cancelled any more. -/
theorem mantissa_eq_of_reduced (v : Decimal) (r : Int) (k : Nat) (hr : k = 0 ∨ ¬ (2 : Int) ∣ r)
    (h : v.toRat = (r * 5 ^ k : Int) / 10 ^ k) : r * 5 ^ k = v.mantissa.toInt := by
  have hcross := (toRat_eq_iff v (r * 5 ^ k) k).mp h
  refine (lowestTerms_unique _ _ _ _ v.lowest ?_ hcross).1.symm
  rcases hr with rfl | hodd
  · exact .inl rfl
  · right
    -- A numerator that ends in a zero is even, and powers of five are not.
    intro hten
    have htwo : (2 : Int) ∣ r * 5 ^ k := dvd_trans (by norm_num) hten
    rcases Int.prime_two.dvd_or_dvd htwo with hdvd | hdvd
    · exact hodd hdvd
    · have := Int.prime_two.dvd_of_dvd_pow hdvd
      omega

/-- A descriptor never has more places or bits than can be named. -/
theorem not_maxFraction_lt (n : Nat) (hn : n ≤ AbiType.maxFraction) : ¬ maxFraction < n := by
  simp [AbiType.maxFraction] at hn
  simp [maxFraction]
  omega

/-- A wire integer is read as the decimal that it is the product of. -/
theorem ofWire_of_toRat (v : Decimal) (raw : Int256) (n : Nat) (scaling : Scaling)
    (hn : n ≤ AbiType.maxFraction) (h : v.toRat * scaling.factor n = raw.toInt) :
    ofWire raw n scaling = .ok v := by
  have hwidth := not_maxFraction_lt n hn
  -- It is enough that something is read, because what is read denotes the same number.
  have hread : ∃ w, ofWire raw n scaling = .ok w := by
    cases scaling with
    | decimal => exact ⟨_, by rw [ofWire, if_neg hwidth]⟩
    | binary =>
        obtain ⟨i, hi, hraw⟩ := stripFactor_spec 2 raw.toInt n
        have hfive : powWithin? 5 (stripFactor 2 raw.toInt n).2 512 = some _ :=
          powWithin?_five _ (by omega)
        -- The new mantissa is in range because it is the mantissa of `v`.
        have hrange : ∃ mantissa : Int256, mantissa.toInt =
            (stripFactor 2 raw.toInt n).1 * (5 ^ (stripFactor 2 raw.toInt n).2 : Nat) := by
          by_cases hzero : raw.toInt = 0
          · refine ⟨Int256.zero, ?_⟩
            have : (stripFactor 2 raw.toInt n).1 = 0 := by
              rw [hzero] at hraw ⊢
              simpa using hraw.symm
            simp [this, Int256.zero]
          · have hlowest := stripFactor_lowest 2 raw.toInt n hzero
            refine ⟨v.mantissa, ?_⟩
            push_cast
            refine (mantissa_eq_of_reduced v _ _ hlowest ?_).symm
            have htwo : (2 : ℚ) ^ n ≠ 0 := pow_ne_zero _ (by norm_num)
            rw [Scaling.factor, ← eq_div_iff htwo] at h
            rw [h]
            generalize (stripFactor 2 raw.toInt n).2 = k at hi
            generalize (stripFactor 2 raw.toInt n).1 = r at hraw
            have hten : (10 : ℚ) ^ k = 2 ^ k * 5 ^ k := by rw [← mul_pow]; norm_num
            rw [hraw, ← hi, hten, pow_add]
            push_cast
            field_simp
        obtain ⟨mantissa, hmantissa⟩ := hrange
        have hsome := (Int256.ofInt?_eq_some_iff _ _).mpr hmantissa
        refine ⟨ofScaled mantissa (stripFactor 2 raw.toInt n).2, ?_⟩
        rw [ofWire, if_neg hwidth]
        simp only [hfive, hsome]
  obtain ⟨w, hw⟩ := hread
  have hsame : w.toRat = v.toRat := by
    apply mul_right_cancel₀ (scaling.factor_ne_zero n)
    rw [toRat_of_ofWire raw n scaling w hw, h]
  rw [hw, toRat_injective w v hsame]

/-! ## Which decimals have a wire integer -/

theorem mantissa_mul_of_toRat (v : Decimal) (raw : Int256) (n : Nat) (scaling : Scaling)
    (h : v.toRat * scaling.factor n = raw.toInt) :
    (v.mantissa.toInt : ℚ) * scaling.factor n = raw.toInt * 10 ^ v.scale := by
  have hv : (10 : ℚ) ^ v.scale ≠ 0 := pow_ne_zero _ (by norm_num)
  rw [toRat, div_mul_eq_mul_div, div_eq_iff hv] at h
  exact h

/-- In lowest terms, a decimal with a wire integer has no more places than the fraction has. -/
theorem scale_le_of_toRat (v : Decimal) (raw : Int256) (n : Nat) (scaling : Scaling)
    (h : v.toRat * scaling.factor n = raw.toInt) : v.scale ≤ n := by
  -- Of ten, `b` goes into the factor, and `c` is left.
  obtain ⟨b, c, hb, hten, hfactor⟩ : ∃ b c : Int, b ≠ 0 ∧ 10 = c * b ∧
      scaling.factor n = (b ^ n : Int) := by
    cases scaling with
    | decimal => exact ⟨10, 1, by norm_num, by norm_num, by simp [Scaling.factor]⟩
    | binary => exact ⟨2, 5, by norm_num, by norm_num, by simp [Scaling.factor]⟩
  have hmul : v.mantissa.toInt * b ^ n = raw.toInt * 10 ^ v.scale := by
    have hrat := mantissa_mul_of_toRat v raw n scaling h
    rw [hfactor] at hrat
    exact_mod_cast hrat
  by_contra hlt
  obtain ⟨k, hk⟩ : ∃ k, v.scale = n + (k + 1) := ⟨v.scale - n - 1, by omega⟩
  -- A surplus place makes the mantissa end in a zero.
  have hmantissa : v.mantissa.toInt = 10 * (raw.toInt * 10 ^ k * c ^ n) := by
    apply mul_right_cancel₀ (pow_ne_zero n hb)
    calc v.mantissa.toInt * b ^ n = raw.toInt * 10 ^ (n + (k + 1)) := by rw [hmul, hk]
      _ = 10 * (raw.toInt * 10 ^ k) * 10 ^ n := by ring
      _ = 10 * (raw.toInt * 10 ^ k) * (c ^ n * b ^ n) := by rw [← mul_pow, ← hten]
      _ = 10 * (raw.toInt * 10 ^ k * c ^ n) * b ^ n := by ring
  rcases v.lowest with hzero | hndvd
  · omega
  · exact hndvd ⟨_, hmantissa⟩

/-- The smallest number of places whose power of ten does not fit 256 bits. -/
def overflowPlaces : Nat := 78

theorem powWithin?_ten (k : Nat) (h : k < overflowPlaces) :
    powWithin? 10 k 256 = some (10 ^ k) := by
  have hk : k < 256 := Nat.lt_trans h (by decide)
  have hpow : 10 ^ k < 2 ^ 256 :=
    calc 10 ^ k ≤ 10 ^ 77 := Nat.pow_le_pow_right (by norm_num) (Nat.le_of_lt_succ h)
      _ < 2 ^ 256 := by decide +kernel
  exact (powWithin?_eq_some_iff _ _ _ _).mpr ⟨hk, hpow, rfl⟩

/-- The power of ten is formed whatever it is multiplied by, so zero overflows where the power does. -/
theorem toWire_zero (n : Nat) (hn : n ≤ AbiType.maxFraction) (hplaces : overflowPlaces ≤ n) :
    zero.toWire n .decimal = .error (.overflow zero) := by
  have hpow : powWithin? 10 (n - zero.scale) 256 = none := by
    cases hsome : powWithin? 10 (n - zero.scale) 256 with
    | none => rfl
    | some p =>
        have hlt := ((powWithin?_eq_some_iff _ _ _ _).mp hsome).2.1
        have hge : 10 ^ overflowPlaces ≤ 10 ^ (n - zero.scale) :=
          Nat.pow_le_pow_right (by norm_num) hplaces
        have hbase : 2 ^ 256 < 10 ^ overflowPlaces := by decide +kernel
        omega
  rw [toWire, if_neg (not_maxFraction_lt n hn)]
  simp only [Nat.not_lt_zero, zero, if_false]
  rw [show powWithin? 10 (n - 0) 256 = none from hpow]

/-- A decimal whose product with the factor is in range is written as that product, unless it is a
zero for which the power of ten overflows. -/
theorem toWire_of_toRat (v : Decimal) (raw : Int256) (n : Nat) (scaling : Scaling)
    (hn : n ≤ AbiType.maxFraction) (h : v.toRat * scaling.factor n = raw.toInt)
    (hzero : scaling = .decimal → v = zero → n < overflowPlaces) :
    v.toWire n scaling = .ok raw := by
  have hscale := scale_le_of_toRat v raw n scaling h
  have hmul := mantissa_mul_of_toRat v raw n scaling h
  unfold toWire
  rw [if_neg (not_maxFraction_lt n hn)]
  cases scaling with
  | decimal =>
      obtain ⟨k, rfl⟩ : ∃ k, n = v.scale + k := ⟨n - v.scale, by omega⟩
      have hraw : raw.toInt = v.mantissa.toInt * (10 ^ k : Nat) := by
        have hpow : (10 : ℚ) ^ v.scale ≠ 0 := pow_ne_zero _ (by norm_num)
        have hrat : (raw.toInt : ℚ) = (v.mantissa.toInt * (10 ^ k : Nat) : Int) := by
          apply mul_right_cancel₀ hpow
          rw [← hmul, Scaling.factor, pow_add]
          push_cast
          ring
        exact_mod_cast hrat
      have hk : k < overflowPlaces := by
        by_cases hm : v.mantissa.toInt = 0
        · have hv : v = zero := by
            have hscale0 : v.scale = 0 := v.lowest.resolve_right (by simp [hm])
            exact Decimal.ext (Int256.ext hm) hscale0
          have := hzero rfl hv
          omega
        · -- A number that is not zero is no smaller than the power, which is then in range with it.
          by_contra hlarge
          have hpow : 10 ^ overflowPlaces ≤ 10 ^ k :=
            Nat.pow_le_pow_right (by norm_num) (Nat.le_of_not_lt hlarge)
          have hlimit : 1 <<< 255 < 10 ^ overflowPlaces := by decide +kernel
          have hmagnitude : 10 ^ k ≤ raw.toInt.natAbs := by
            rw [hraw, Int.natAbs_mul, Int.natAbs_natCast]
            exact Nat.le_mul_of_pos_left _ (Int.natAbs_pos.mpr hm)
          have hlow := raw.min_le
          have hhigh := raw.lt_limit
          omega
      simp only [Nat.not_lt.mpr hscale, if_false, Nat.add_sub_cancel_left, powWithin?_ten k hk]
      exact (inRange_eq_ok_iff _ _ _).mpr hraw
  | binary =>
      have hwide : ¬ 256 ≤ n := by
        simp [AbiType.maxFraction] at hn
        omega
      have hpow : powWithin? 10 v.scale 512 = some (10 ^ v.scale) := by
        have hplaces : v.scale ≤ 80 := Nat.le_trans hscale hn
        have hbound : 10 ^ v.scale < 2 ^ 512 :=
          calc 10 ^ v.scale ≤ 10 ^ 80 := Nat.pow_le_pow_right (by norm_num) hplaces
            _ < 2 ^ 512 := by decide +kernel
        exact (powWithin?_eq_some_iff _ _ _ _).mpr ⟨by omega, hbound, rfl⟩
      have hnum : v.mantissa.toInt <<< n = raw.toInt * ((10 ^ v.scale : Nat) : Int) := by
        rw [Int.shiftLeft_eq]
        rw [Scaling.factor] at hmul
        exact_mod_cast hmul
      have hne : ((10 ^ v.scale : Nat) : Int) ≠ 0 := by positivity
      simp only [if_neg hwide, hpow, hnum, Int.mul_emod_left, Int.mul_ediv_cancel _ hne]
      simpa using (inRange_eq_ok_iff _ _ _).mpr rfl

end Decimal
end ContractAbi
