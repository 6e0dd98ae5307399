import ContractAbi.Error
import ContractAbi.Proofs.Scaling

/-!
# Wire integers are exact

A decimal and its wire integer determine each other: scaling succeeds exactly if the product with the
factor is an integer of 256 bits, and reading succeeds exactly if the quotient is a decimal.  All powers
and products in between are formed in bounded arithmetic, and for the fractions that a descriptor may
have none of them overflows where the result would be in range, with one exception.  Under decimal
scaling the power of ten is formed before it is multiplied by the mantissa, and from `overflowPlaces`
places on it does not fit, so that zero is refused although zero times any power is zero.
-/

namespace ContractAbi
namespace Decimal

/-- Whether the product is zero and its power of ten overflows all the same. -/
def ZeroOverflows (v : Decimal) (n : Nat) (scaling : Scaling) : Prop :=
  scaling = .decimal ∧ v = zero ∧ overflowPlaces ≤ n

/-- A wire integer is given exactly if it is the product, but for the zeros that overflow. -/
theorem toWire_eq_ok_iff (v : Decimal) (n : Nat) (hn : n ≤ AbiType.maxFraction) (scaling : Scaling)
    (raw : Int256) :
    v.toWire n scaling = .ok raw ↔
      v.toRat * scaling.factor n = raw.toInt ∧ ¬ v.ZeroOverflows n scaling := by
  constructor
  · intro h
    refine ⟨toRat_mul_factor_of_toWire v n scaling raw h, ?_⟩
    rintro ⟨rfl, rfl, hplaces⟩
    rw [toWire_zero n hn hplaces] at h
    contradiction
  · rintro ⟨hproduct, hzero⟩
    apply toWire_of_toRat v raw n scaling hn hproduct
    intro hscaling hv
    by_contra hplaces
    exact hzero ⟨hscaling, hv, Nat.le_of_not_lt hplaces⟩

/-- What is read is the quotient, and every quotient that is a decimal is read. -/
theorem ofWire_eq_ok_iff (raw : Int256) (n : Nat) (hn : n ≤ AbiType.maxFraction) (scaling : Scaling)
    (v : Decimal) :
    ofWire raw n scaling = .ok v ↔ v.toRat = raw.toInt / scaling.factor n := by
  rw [eq_div_iff (scaling.factor_ne_zero n)]
  exact ⟨toRat_of_ofWire raw n scaling v, ofWire_of_toRat v raw n scaling hn⟩

/-- Reading fails only for binary fractions, and only because the quotient takes too many digits. -/
theorem ofWire_eq_error (raw : Int256) (n : Nat) (hn : n ≤ AbiType.maxFraction) (scaling : Scaling)
    (cause : ScaleError) (h : ofWire raw n scaling = .error cause) :
    scaling = .binary ∧ cause = .noDecimalForm raw n := by
  unfold ofWire at h
  rw [if_neg (not_maxFraction_lt n hn)] at h
  cases scaling with
  | decimal => contradiction
  | binary =>
      obtain ⟨i, hi, -⟩ := stripFactor_spec 2 raw.toInt n
      have hfive := powWithin?_five (stripFactor 2 raw.toInt n).2 (by omega)
      simp only [hfive] at h
      cases hmantissa : Int256.ofInt? ((stripFactor 2 raw.toInt n).1 *
          ((5 ^ (stripFactor 2 raw.toInt n).2 : Nat) : Int)) with
      | none =>
          rw [hmantissa] at h
          exact ⟨rfl, (Except.error.inj h).symm⟩
      | some mantissa =>
          rw [hmantissa] at h
          contradiction

/-- The wire integer of a decimal is its product with the factor.  If the product is no integer of 256
bits there is no wire integer; if it is one there is, unless it is a zero that overflows. -/
theorem toWire_exact (v : Decimal) (n : Nat) (hn : n ≤ AbiType.maxFraction) (scaling : Scaling) :
    (∀ k : Int, v.toRat * scaling.factor n = k → -2 ^ 255 ≤ k → k < 2 ^ 255 →
      ¬ v.ZeroOverflows n scaling → ∃ raw, v.toWire n scaling = .ok raw ∧ raw.toInt = k) ∧
    (v.ZeroOverflows n scaling → v.toWire n scaling = .error (.overflow v)) ∧
    ((∀ k : Int, v.toRat * scaling.factor n = k → ¬ (-2 ^ 255 ≤ k ∧ k < 2 ^ 255)) →
      ∃ cause, v.toWire n scaling = .error cause) := by
  refine ⟨fun k hproduct hlow hhigh hzero => ?_, ?_, fun hnone => ?_⟩
  · refine ⟨⟨k, hlow, hhigh⟩, ?_, rfl⟩
    exact (toWire_eq_ok_iff v n hn scaling _).mpr ⟨hproduct, hzero⟩
  · rintro ⟨rfl, rfl, hplaces⟩
    exact toWire_zero n hn hplaces
  · cases h : v.toWire n scaling with
    | error cause => exact ⟨cause, rfl⟩
    | ok raw =>
        have hproduct := ((toWire_eq_ok_iff v n hn scaling raw).mp h).1
        exact absurd ⟨raw.min_le, raw.lt_limit⟩ (hnone raw.toInt hproduct)

/-- The least mantissa with eighty decimal places and a number of one bit in the eightieth binary place
are written.  One tenth is not a binary fraction, and zero is refused with seventy-eight places. -/
theorem toWire_exact_extremes :
    (∃ raw, toWire ⟨⟨-2 ^ 255, by decide, by decide⟩, 80, .inr (by decide)⟩ 80 .decimal = .ok raw ∧
      raw.toInt = -2 ^ 255) ∧
    (∃ raw, toWire ⟨⟨5 ^ 80, by decide, by decide⟩, 80, .inr (by decide)⟩ 80 .binary = .ok raw ∧
      raw.toInt = 1) ∧
    (∃ cause, toWire ⟨⟨1, by decide, by decide⟩, 1, .inr (by decide)⟩ 80 .binary = .error cause) ∧
    zero.toWire 78 .decimal = .error (.overflow zero) := by
  refine ⟨?_, ?_, ?_, ?_⟩
  · refine (toWire_exact _ 80 (by decide) .decimal).1 (-2 ^ 255) ?_ (by decide) (by decide) ?_
    · norm_num [toRat, Scaling.factor]
    · simp [ZeroOverflows, zero]
  · refine (toWire_exact _ 80 (by decide) .binary).1 1 ?_ (by decide) (by decide) ?_
    · norm_num [toRat, Scaling.factor]
    · simp [ZeroOverflows]
  · refine (toWire_exact _ 80 (by decide) .binary).2.2 fun k hk => ?_
    -- Ten does not divide any power of two.
    have hten : (2 : ℚ) ^ 80 = k * 10 := by
      rw [← hk]
      norm_num [toRat, Scaling.factor]
    have hint : (2 : Int) ^ 80 = k * 10 := by exact_mod_cast hten
    omega
  · exact (toWire_exact zero 78 (by decide) .decimal).2.1 ⟨rfl, rfl, by decide⟩

/-- So not every number with a wire integer is written. -/
theorem exists_product_without_wire :
    ∃ (v : Decimal) (n : Nat) (raw : Int256), n ≤ AbiType.maxFraction ∧
      v.toRat * Scaling.decimal.factor n = raw.toInt ∧
      v.toWire n .decimal = .error (.overflow v) := by
  refine ⟨zero, 78, Int256.zero, by decide, ?_, toWire_zero 78 (by decide) (by decide)⟩
  simp [toRat, zero, Int256.zero]

/-- What is read is the quotient, if a decimal has that value, and nothing else is a reason to fail:
reading never fails under decimal scaling, and under binary scaling it does so with a mismatch.  Every
decimal that has been written is read back, equal in its parts and not in its value alone. -/
theorem ofWire_exact (raw : Int256) (n : Nat) (hn : n ≤ AbiType.maxFraction) (scaling : Scaling) :
    (∀ v : Decimal, v.toRat = raw.toInt / scaling.factor n →
      ofWire raw n scaling = .ok v ∧ v.scale ≤ n) ∧
    ((∀ v : Decimal, v.toRat ≠ raw.toInt / scaling.factor n) →
      (ofWire raw n scaling).mapError AbiError.ofScale =
        .error (.typeMismatch (.scale (.noDecimalForm raw n)))) ∧
    (scaling = .decimal → ∃ v, ofWire raw n scaling = .ok v ∧ v.toRat = raw.toInt / 10 ^ n) ∧
    ∀ v : Decimal, v.toWire n scaling = .ok raw → ofWire raw n scaling = .ok v := by
  refine ⟨fun v hv => ⟨(ofWire_eq_ok_iff raw n hn scaling v).mpr hv, ?_⟩, fun hnone => ?_, ?_,
    fun v hv => ?_⟩
  · rw [eq_div_iff (scaling.factor_ne_zero n)] at hv
    exact scale_le_of_toRat v raw n scaling hv
  · cases h : ofWire raw n scaling with
    | ok v => exact absurd ((ofWire_eq_ok_iff raw n hn scaling v).mp h) (hnone v)
    | error cause =>
        obtain ⟨-, rfl⟩ := ofWire_eq_error raw n hn scaling cause h
        rfl
  · rintro rfl
    cases h : ofWire raw n .decimal with
    | ok v => exact ⟨v, rfl, (ofWire_eq_ok_iff raw n hn .decimal v).mp h⟩
    | error cause => nomatch (ofWire_eq_error raw n hn .decimal cause h).1
  · exact ofWire_of_toRat v raw n scaling hn (toRat_mul_factor_of_toWire v n scaling raw hv)

/-- Three halves are read from a binary fraction and written as one.  The largest number of 255 bits, read
with one binary place, has a decimal form of one digit too many. -/
theorem ofWire_exact_halves :
    ofWire ⟨3 * 2 ^ 17, by decide, by decide⟩ 18 .binary =
      .ok ⟨⟨15, by decide, by decide⟩, 1, .inr (by decide)⟩ ∧
    toWire ⟨⟨15, by decide, by decide⟩, 1, .inr (by decide)⟩ 18 .binary =
      .ok ⟨3 * 2 ^ 17, by decide, by decide⟩ ∧
    (ofWire ⟨2 ^ 255 - 1, by decide, by decide⟩ 1 .binary).mapError AbiError.ofScale =
      .error (.typeMismatch (.scale (.noDecimalForm ⟨2 ^ 255 - 1, by decide, by decide⟩ 1))) := by
  have hwritten : toWire ⟨⟨15, by decide, by decide⟩, 1, .inr (by decide)⟩ 18 .binary =
      .ok ⟨3 * 2 ^ 17, by decide, by decide⟩ := by
    decide +kernel
  refine ⟨(ofWire_exact _ 18 (by decide) .binary).2.2.2 _ hwritten, hwritten, ?_⟩
  refine (ofWire_exact _ 1 (by decide) .binary).2.1 fun v hv => ?_
  have hread := ((ofWire_exact _ 1 (by decide) .binary).1 v hv).1
  have hfails : ofWire ⟨2 ^ 255 - 1, by decide, by decide⟩ 1 .binary =
      .error (.noDecimalForm ⟨2 ^ 255 - 1, by decide, by decide⟩ 1) := by
    decide +kernel
  rw [hfails] at hread
  contradiction

end Decimal
end ContractAbi
