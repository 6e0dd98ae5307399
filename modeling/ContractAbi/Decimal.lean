import ContractAbi.Int256

/-!
# Exact decimals

A `Decimal` is `mantissa * 10 ^ (-scale)` in lowest terms: the scale is zero or the mantissa does not
end in a zero.  Lowest terms make equality of values equality of numbers.

On the wire a decimal is an integer: its product with a power of ten or of two.  `toWire` gives that
integer if there is one in range, `ofWire` finds the decimal again.
-/

namespace ContractAbi

/-- How many times `m` can be divided by `d`, at most `k` times: the quotient and what is left of
`k`.  Zero is left alone. -/
def stripFactor (d : Nat) (m : Int) : Nat → Int × Nat
  | 0 => (m, 0)
  | k + 1 => if m ≠ 0 ∧ m % d = 0 then stripFactor d (m / d) k else (m, k + 1)

theorem stripFactor_lowest (d : Nat) (m : Int) (k : Nat) (hm : m ≠ 0) :
    (stripFactor d m k).2 = 0 ∨ ¬ (d : Int) ∣ (stripFactor d m k).1 := by
  induction k generalizing m with
  | zero => exact .inl rfl
  | succ k ih =>
      rw [stripFactor]
      split
      · rename_i h
        apply ih
        intro hzero
        have := Int.mul_ediv_cancel' (Int.dvd_of_emod_eq_zero h.2)
        simp [hzero] at this
        exact hm this.symm
      · rename_i h
        exact .inr (fun hd => h ⟨hm, Int.emod_eq_zero_of_dvd hd⟩)

theorem stripFactor_bounds (d : Nat) (m : Int) (k : Nat) (limit : Int)
    (hlow : -limit ≤ m) (hhigh : m < limit) :
    -limit ≤ (stripFactor d m k).1 ∧ (stripFactor d m k).1 < limit := by
  induction k generalizing m with
  | zero => exact ⟨hlow, hhigh⟩
  | succ k ih =>
      rw [stripFactor]
      split
      · rename_i h
        have habs : (m / (d : Int)).natAbs ≤ m.natAbs := by
          rw [Int.natAbs_ediv_of_dvd (Int.dvd_of_emod_eq_zero h.2)]
          exact Nat.div_le_self _ _
        have hback := Int.mul_ediv_cancel' (Int.dvd_of_emod_eq_zero h.2)
        have hsign : 0 ≤ m / (d : Int) → 0 ≤ m := by
          intro hq
          rw [← hback]
          exact Int.mul_nonneg (by omega) hq
        apply ih <;> omega
      · exact ⟨hlow, hhigh⟩

/-- A power of `base`, unless it needs more than `width` bits.  For `2 ≤ base` an exponent of
`width` or more is always too large, so no huge power is ever computed. -/
def powWithin? (base exponent width : Nat) : Option Nat :=
  if width ≤ exponent then none
  else if Nat.pow base exponent < 1 <<< width then some (Nat.pow base exponent) else none

/-- How a decimal becomes an integer on the wire. -/
inductive Scaling where
  /-- The fraction counts decimal places: the integer is the value times `10 ^ fraction`. -/
  | decimal
  /-- The fraction counts bits: the integer is the value times `2 ^ fraction`. -/
  | binary
deriving DecidableEq, Repr, Inhabited

/-- The number `mantissa * 10 ^ (-scale)` in lowest terms. -/
@[ext]
structure Decimal where
  mantissa : Int256
  scale : Nat
  lowest : scale = 0 ∨ ¬ (10 : Int) ∣ mantissa.toInt
deriving DecidableEq, Repr

namespace Decimal

/-- Zero. -/
def zero : Decimal := ⟨Int256.zero, 0, .inl rfl⟩

/-- The number `mantissa * 10 ^ (-scale)`. -/
def ofScaled (mantissa : Int256) (scale : Nat) : Decimal :=
  if h : mantissa.toInt = 0 then zero
  else
    have hb := stripFactor_bounds 10 mantissa.toInt scale (1 <<< 255 : Nat) mantissa.min_le
      mantissa.lt_limit
    { mantissa := ⟨(stripFactor 10 mantissa.toInt scale).1, hb.1, hb.2⟩
      scale := (stripFactor 10 mantissa.toInt scale).2
      lowest := stripFactor_lowest 10 mantissa.toInt scale h }

/-- A whole number. -/
def ofInt128 (x : BitVec 128) : Decimal :=
  ofScaled (Int256.ofInt128 x) 0

/-- The decimal digits without sign, with a point in front of the last `scale` digits if there are
any such digits; a digit always stands in front of the point. -/
def pointed (digits : List Char) (scale : Nat) : List Char :=
  if scale = 0 then digits
  else if scale < digits.length then
    digits.take (digits.length - scale) ++ '.' :: digits.drop (digits.length - scale)
  else '0' :: '.' :: (List.replicate (scale - digits.length) '0' ++ digits)

/-- The number in decimal. -/
def text (v : Decimal) : String :=
  String.ofList
    ((if v.mantissa.isNegative then ['-'] else []) ++
      pointed (Text.numeral v.mantissa.magnitude) v.scale)

/-- The largest number of fractional places or bits that can be named: a 32-bit number. -/
def maxFraction : Nat := 1 <<< 32 - 1

/-- Why a text is not a decimal. -/
inductive ParseError where
  | notADecimal (text : String)
  | tooManyPlaces (text : String)
  /-- The digits without the point are not an `Int256`. -/
  | mantissa (cause : Int256.ParseError)
deriving DecidableEq, Repr

namespace ParseError

/-- The text of the error. -/
def message : ParseError → String
  | notADecimal text => "invalid fixed-point literal: " ++ Text.quoted text
  | tooManyPlaces text => "too many decimal places: " ++ Text.quoted text
  | mantissa cause => cause.message

end ParseError

/-- What stands in front of the first point and behind it; all of it and nothing, if there is no
point. -/
def splitPoint (cs : List Char) : List Char × List Char :=
  (cs.takeWhile (· ≠ '.'), (cs.dropWhile (· ≠ '.')).drop 1)

/-- The number that a text denotes: blanks, an optional sign, digits with at most one point among
or around them, blanks. -/
def parse (s : String) : Except ParseError Decimal :=
  let (negative, unsigned) := Text.splitSign (Text.trim s.toList)
  let (whole, places) := splitPoint unsigned
  if (whole.isEmpty && places.isEmpty) || !Text.allDigits whole || !Text.allDigits places then
    .error (.notADecimal s)
  else if maxFraction < places.length then .error (.tooManyPlaces s)
  else
    let digits := whole ++ places
    match Int256.ofSignMagnitude? negative (Text.numeralValue digits) with
    | some mantissa => .ok (ofScaled mantissa places.length)
    | none =>
        let text := String.ofList ((if negative then ['-'] else []) ++ digits)
        .error (.mantissa (.outOfRange text))

/-- Why a decimal has no wire integer, or a wire integer no decimal. -/
inductive ScaleError where
  /-- No value can have that many fractional places or bits. -/
  | fractionTooWide (fraction : Nat)
  | tooManyPlaces (value : Decimal) (places : Nat)
  | notRepresentable (value : Decimal) (bits : Nat)
  | overflow (value : Decimal)
  | noDecimalForm (raw : Int256) (bits : Nat)
deriving DecidableEq, Repr

namespace ScaleError

/-- The text of the error. -/
def message : ScaleError → String
  | fractionTooWide fraction => "fractional width " ++ Text.ofNat fraction
  | tooManyPlaces value places =>
      value.text ++ " has more than " ++ Text.ofNat places ++ " decimal places"
  | notRepresentable value bits =>
      value.text ++ " is not exactly representable with " ++ Text.ofNat bits ++ " fractional bits"
  | overflow value => value.text ++ " overflows when scaled"
  | noDecimalForm raw bits =>
      "raw fixed value " ++ raw.text ++ " with " ++ Text.ofNat bits ++
        " fractional bits has no int256 decimal form"

end ScaleError

/-- The given wire integer of a value, if it is in range. -/
def inRange (value : Decimal) (i : Int) : Except ScaleError Int256 :=
  match Int256.ofInt? i with
  | some raw => .ok raw
  | none => .error (.overflow value)

/-- The wire integer of a decimal.  The power of ten between the scale and the fraction is formed in
256 bits and the denominator of a binary quotient in 512; a power that does not fit counts as an
overflow and as an inexact quotient, respectively. -/
def toWire (v : Decimal) (fraction : Nat) (scaling : Scaling) : Except ScaleError Int256 :=
  if maxFraction < fraction then .error (.fractionTooWide fraction)
  else
    match scaling with
    | .decimal =>
        if fraction < v.scale then .error (.tooManyPlaces v fraction)
        else
          match powWithin? 10 (fraction - v.scale) 256 with
          | none => .error (.overflow v)
          | some factor => inRange v (v.mantissa.toInt * factor)
    | .binary =>
        if 256 ≤ fraction then .error (.fractionTooWide fraction)
        else
          let numerator := v.mantissa.toInt <<< fraction
          match powWithin? 10 v.scale 512 with
          | none => .error (.notRepresentable v fraction)
          | some denominator =>
              if numerator % denominator ≠ 0 then .error (.notRepresentable v fraction)
              else inRange v (numerator / denominator)

/-- The decimal of a wire integer.  In binary the integer `m` over `2 ^ k` is `m * 5 ^ k` over
`10 ^ k`, after the factors of two that both sides share have been cancelled. -/
def ofWire (raw : Int256) (fraction : Nat) (scaling : Scaling) : Except ScaleError Decimal :=
  if maxFraction < fraction then .error (.fractionTooWide fraction)
  else
    match scaling with
    | .decimal => .ok (ofScaled raw fraction)
    | .binary =>
        let reduced := stripFactor 2 raw.toInt fraction
        match powWithin? 5 reduced.2 512 with
        | none => .error (.fractionTooWide fraction)
        | some factor =>
            match Int256.ofInt? (reduced.1 * factor) with
            | none => .error (.noDecimalForm raw fraction)
            | some mantissa => .ok (ofScaled mantissa reduced.2)

end Decimal
end ContractAbi
