import ContractAbi.Proofs.Scaling

/-!
# The form of a decimal

A decimal can be made of a mantissa and a scale, of a whole number, of a text and of a wire integer.
Each of them says which number is meant (`Decimal.Made`), and the decimal is the one form of that number:
of all fractions over powers of ten that are equal to it, it has the fewest places (`Decimal.FormOf`).
So decimals are equal as values exactly when they are equal as numbers, wherever they come from
(`Decimal.form_unique`).
-/

namespace ContractAbi

/-- Digits in front of others stand as many places higher as there are others. -/
theorem Text.numeralValue_append (front digits : List Char) :
    numeralValue (front ++ digits) =
      numeralValue front * 10 ^ digits.length + numeralValue digits := by
  rw [numeralValue, Nat.ofDigitChars_append, Nat.ofDigitChars_eq_ofDigitChars_zero, Nat.mul_comm]
  rfl

namespace Decimal

/-- The number that a text spells out: a sign, the whole part, and the places over a power of ten. -/
def spelled (s : String) : ℚ :=
  let (negative, unsigned) := Text.splitSign (Text.trim s.toList)
  let (whole, places) := splitPoint unsigned
  (if negative then -1 else 1) *
    (Text.numeralValue whole + Text.numeralValue places / 10 ^ places.length)

/-- All ways of making a decimal, with the number that is meant. -/
inductive Made : Decimal → ℚ → Prop
  | scaled (mantissa : Int256) (scale : Nat) :
      Made (ofScaled mantissa scale) (mantissa.toInt / 10 ^ scale)
  | whole (x : BitVec 128) : Made (ofInt128 x) x.toInt
  | text {s : String} {v : Decimal} (h : parse s = .ok v) : Made v (spelled s)
  | wire {raw : Int256} {n : Nat} {scaling : Scaling} {v : Decimal}
      (h : ofWire raw n scaling = .ok v) : Made v (raw.toInt / scaling.factor n)

/-- A mantissa and a scale that are the number `q` with the fewest places. -/
structure FormOf (v : Decimal) (q : ℚ) : Prop where
  denotes : (v.mantissa.toInt : ℚ) / 10 ^ v.scale = q
  lowest : v.scale = 0 ∨ ¬ (10 : Int) ∣ v.mantissa.toInt
  zero : q = 0 → v.mantissa = Int256.zero ∧ v.scale = 0
  fewest : ∀ places, v.scale ≤ places ↔ ∃ numerator : Int, q = numerator / 10 ^ places

/-! ## Fewest places -/

/-- A decimal can be written with exactly those numbers of places that are no less than its scale. -/
theorem scale_le_iff (v : Decimal) (places : Nat) :
    v.scale ≤ places ↔ ∃ numerator : Int, v.toRat = numerator / 10 ^ places := by
  constructor
  · intro hle
    obtain ⟨k, rfl⟩ := Nat.exists_eq_add_of_le hle
    refine ⟨v.mantissa.toInt * 10 ^ k, ?_⟩
    rw [toRat_eq_iff, pow_add]
    ring
  · rintro ⟨numerator, h⟩
    exact places_le_of_lowestTerms _ _ _ _ v.lowest ((toRat_eq_iff v numerator places).mp h).symm

theorem eq_zero_of_toRat (v : Decimal) (h : v.toRat = 0) : v = zero := by
  apply toRat_injective
  rw [h]
  simp [toRat, zero, Int256.zero]

/-- Every decimal is the form of the number that it denotes. -/
theorem formOf_toRat (v : Decimal) : v.FormOf v.toRat where
  denotes := rfl
  lowest := v.lowest
  zero h := by
    rw [eq_zero_of_toRat v h]
    exact ⟨rfl, rfl⟩
  fewest := scale_le_iff v

/-! ## The number that is meant -/

theorem toRat_ofInt128 (x : BitVec 128) : (ofInt128 x).toRat = x.toInt := by
  rw [ofInt128, toRat_ofScaled, pow_zero, div_one]
  rfl

/-- The digits of a text without the point are the number times a power of ten. -/
theorem toRat_of_parse (s : String) (v : Decimal) (h : parse s = .ok v) : v.toRat = spelled s := by
  unfold parse at h
  unfold spelled
  generalize Text.splitSign (Text.trim s.toList) = signed at h ⊢
  obtain ⟨negative, unsigned⟩ := signed
  simp only at h ⊢
  generalize splitPoint unsigned = parts at h ⊢
  obtain ⟨whole, places⟩ := parts
  simp only at h ⊢
  split at h
  · contradiction
  split at h
  · contradiction
  cases hmantissa : Int256.ofSignMagnitude? negative (Text.numeralValue (whole ++ places)) with
  | none => simp [hmantissa] at h
  | some mantissa =>
      simp only [hmantissa, Except.ok.injEq] at h
      have hvalue := (Int256.ofInt?_eq_some_iff _ _).mp hmantissa
      have hten : (10 : ℚ) ^ places.length ≠ 0 := pow_ne_zero _ (by norm_num)
      rw [← h, toRat_ofScaled, hvalue, Text.numeralValue_append]
      cases negative with
      | false =>
          simp only [Bool.false_eq_true, if_false]
          push_cast
          field_simp
      | true =>
          simp only [if_true]
          push_cast
          field_simp

theorem Made.toRat_eq {v : Decimal} {q : ℚ} (h : Made v q) : v.toRat = q := by
  cases h with
  | scaled mantissa scale => exact toRat_ofScaled mantissa scale
  | whole x => exact toRat_ofInt128 x
  | text h => exact toRat_of_parse _ v h
  | wire h => exact (eq_div_iff (Scaling.factor_ne_zero _ _)).mpr (toRat_of_ofWire _ _ _ v h)

theorem Made.formOf {v : Decimal} {q : ℚ} (h : Made v q) : v.FormOf q := by
  rw [← h.toRat_eq]
  exact formOf_toRat v

/-- Any mantissa with any scale is put into the one form of its number, and so is every decimal however
it is made.  Two decimals have the same mantissa and the same scale exactly when the same number is
meant. -/
theorem form_unique :
    (∀ (mantissa : Int256) (scale : Nat),
      (ofScaled mantissa scale).FormOf (mantissa.toInt / 10 ^ scale)) ∧
    (∀ v q, Made v q → v.FormOf q) ∧
    ∀ v w q r, Made v q → Made w r → ((v.mantissa = w.mantissa ∧ v.scale = w.scale) ↔ q = r) := by
  refine ⟨fun mantissa scale => (Made.scaled mantissa scale).formOf, fun v q h => h.formOf, ?_⟩
  intro v w q r hv hw
  constructor
  · rintro ⟨hmantissa, hscale⟩
    rw [← hv.toRat_eq, ← hw.toRat_eq, Decimal.ext hmantissa hscale]
  · intro h
    have hsame : v = w := toRat_injective v w (by rw [hv.toRat_eq, hw.toRat_eq, h])
    rw [hsame]
    exact ⟨rfl, rfl⟩

/-- One and a half from a text and from the wire in binary, and the smallest mantissa. -/
theorem form_unique_halves :
    (∃ v w, parse "+1.50 " = .ok v ∧ ofWire ⟨3 * 2 ^ 17, by decide, by decide⟩ 18 .binary = .ok w ∧
      v.mantissa = w.mantissa ∧ v.scale = w.scale) ∧
    (ofScaled ⟨-2 ^ 255, by decide, by decide⟩ 3).FormOf ((-2 ^ 255 : Int) / 10 ^ 3) := by
  obtain ⟨hscaled, -, heq⟩ := form_unique
  have hparse : parse "+1.50 " = .ok ⟨⟨15, by decide, by decide⟩, 1, .inr (by decide)⟩ := by
    decide +kernel
  have hwire : ofWire ⟨3 * 2 ^ 17, by decide, by decide⟩ 18 .binary =
      .ok ⟨⟨15, by decide, by decide⟩, 1, .inr (by decide)⟩ := by
    decide +kernel
  refine ⟨⟨_, _, hparse, hwire, ?_⟩, hscaled _ 3⟩
  refine (heq _ _ _ _ (.text hparse) (.wire hwire)).mpr ?_
  rw [← toRat_of_parse _ _ hparse]
  norm_num [toRat, Scaling.factor]

end Decimal
end ContractAbi
