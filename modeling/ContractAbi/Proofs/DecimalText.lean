import ContractAbi.Proofs.DecimalForm
import ContractAbi.Proofs.IntegerText

/-!
# Decimals as text

A text is a decimal if, without the blanks around it, it is at most one sign and then digits with at most
one point among them, in front of them or behind them.  The number is given by the places of the digits,
in front of the point (`Text.placeValue`) and behind it (`Decimal.fractionValue`).  What decides whether
it is read are the number of places and the integer of all the digits, which becomes the mantissa
before zeros at its end are dropped.

A decimal is written with a digit in front of the point, with zeros behind it if the mantissa has too few
digits, and with as many places as the scale says.  So it is read again from its text, if that number of
places can be named.
-/

namespace ContractAbi

open AbiType (Digits digits_iff digits_numeral)

namespace Text

theorem placeValue_append (front digits : List Char) :
    placeValue (front ++ digits) = placeValue front * 10 ^ digits.length + placeValue digits := by
  simp only [← numeralValue_eq_placeValue]
  exact numeralValue_append front digits

/-- Zeros in front do not count. -/
theorem placeValue_zeros_append (n : Nat) (digits : List Char) :
    placeValue (List.replicate n '0' ++ digits) = placeValue digits := by
  induction n with
  | zero => rfl
  | succ n ih =>
      rw [List.replicate_succ, List.cons_append, placeValue, ih, Nat.sub_self, Nat.zero_mul,
        Nat.zero_add]

end Text

namespace Decimal

open Text (Signed signValue placeValue placeValue_append)

/-! ## The point -/

/-- The number that digits behind a point stand for: the first of them counts tenths. -/
def fractionValue : List Char → ℚ
  | [] => 0
  | c :: cs => ((c.toNat - '0'.toNat : Nat) + fractionValue cs) / 10

theorem fractionValue_eq (places : List Char) :
    fractionValue places = placeValue places / 10 ^ places.length := by
  induction places with
  | nil => simp [fractionValue, placeValue]
  | cons c cs ih =>
      have hpow : (10 : ℚ) ^ cs.length ≠ 0 := pow_ne_zero _ (by norm_num)
      rw [fractionValue, ih, placeValue, List.length_cons, pow_succ]
      push_cast
      field_simp

/-- Moving the point behind the last digit multiplies by ten for every place. -/
theorem placeValue_add_fractionValue (whole places : List Char) :
    (placeValue whole + fractionValue places : ℚ) =
      placeValue (whole ++ places) / 10 ^ places.length := by
  have hpow : (10 : ℚ) ^ places.length ≠ 0 := pow_ne_zero _ (by norm_num)
  rw [fractionValue_eq, placeValue_append]
  push_cast
  field_simp

/-- The characters are those in front of a point, the point, and those behind it, or without a point all
of them are in front. -/
inductive Pointed : List Char → List Char → List Char → Prop
  | bare (whole : List Char) : Pointed whole whole []
  | point (whole places : List Char) : Pointed (whole ++ '.' :: places) whole places

theorem pointed_splitPoint (cs : List Char) : Pointed cs (splitPoint cs).1 (splitPoint cs).2 := by
  have hsplit : cs.takeWhile (· ≠ '.') ++ cs.dropWhile (· ≠ '.') = cs :=
    List.takeWhile_append_dropWhile
  unfold splitPoint
  cases hbehind : cs.dropWhile (· ≠ '.') with
  | nil =>
      rw [hbehind, List.append_nil] at hsplit
      rw [hsplit]
      exact .bare cs
  | cons c rest =>
      have hne : cs.dropWhile (· ≠ '.') ≠ [] := by
        rw [hbehind]
        exact List.cons_ne_nil _ _
      have hhead := List.head_dropWhile_not (fun c => decide (c ≠ '.')) hne
      simp only [hbehind, List.head_cons] at hhead
      obtain rfl : c = '.' := by simpa using hhead
      have hpoint := Pointed.point (cs.takeWhile (· ≠ '.')) rest
      rw [hbehind] at hsplit
      rwa [hsplit] at hpoint

/-- No digit is taken for the point. -/
theorem splitPoint_of_pointed (cs whole places : List Char) (h : Pointed cs whole places)
    (hwhole : ∀ c ∈ whole, c.isDigit = true) : splitPoint cs = (whole, places) := by
  have hword : ∀ c ∈ whole, decide (c ≠ '.') = true := by
    intro c hc
    have hdigit := hwhole c hc
    rw [decide_eq_true_eq]
    rintro rfl
    contradiction
  cases h with
  | bare =>
      have htake := takeWhile_append_of_stops hword (stops_nil _)
      have hdrop := dropWhile_append_of_stops hword (stops_nil _)
      rw [List.append_nil] at htake hdrop
      rw [splitPoint, htake, hdrop]
      rfl
  | point =>
      have hpoint : Stops (fun c => decide (c ≠ '.')) ('.' :: places) := (stops_cons _ _ _).mpr rfl
      rw [splitPoint, takeWhile_append_of_stops hword hpoint, dropWhile_append_of_stops hword hpoint]
      rfl

theorem mem_of_pointed (cs whole places : List Char) (h : Pointed cs whole places) :
    ∀ c ∈ cs, c = '.' ∨ c ∈ whole ++ places := by
  cases h with
  | bare =>
      rw [List.append_nil]
      exact fun c hc => .inr hc
  | point =>
      intro c hc
      rcases List.mem_append.mp hc with hfront | hbehind
      · exact .inr (List.mem_append_left _ hfront)
      · rcases List.mem_cons.mp hbehind with rfl | hplaces
        · exact .inl rfl
        · exact .inr (List.mem_append_right _ hplaces)

section Characters

variable {cs whole places : List Char} (h : Pointed cs whole places)
  (hdigits : ∀ c ∈ whole ++ places, c.isDigit = true)
include h hdigits

theorem ne_sign_of_pointed : ∀ c ∈ cs.head?, c ≠ '-' ∧ c ≠ '+' := by
  intro c hc
  rcases mem_of_pointed cs whole places h c (List.mem_of_mem_head? hc) with rfl | hmem
  · decide
  · exact Text.ne_sign_of_isDigit c (hdigits c hmem)

theorem isBlank_of_pointed : ∀ c ∈ cs, Text.isBlank c = false := by
  intro c hc
  rcases mem_of_pointed cs whole places h c hc with rfl | hmem
  · decide
  · apply AbiType.isBlank_of_isAlphanum
    rw [Char.isAlphanum, hdigits c hmem, Bool.or_true]

end Characters

/-! ## Reading -/

/-- There is a digit somewhere, and nothing else. -/
theorem digits_append_iff (whole places : List Char) :
    Digits (whole ++ places) ↔
      ((whole.isEmpty && places.isEmpty) || !Text.allDigits whole || !Text.allDigits places) =
        false := by
  rw [digits_iff, Text.allDigits, List.all_append]
  cases whole <;> simp [Text.allDigits]

/-- A text is read as the decimal of its digits and places, if the digits are a mantissa. -/
theorem parse_eq_ok_iff_scaled (s : String) (v : Decimal) :
    parse s = .ok v ↔ ∃ sign unsigned whole places mantissa,
      Signed (Text.trim s.toList) sign unsigned ∧ Pointed unsigned whole places ∧
      Digits (whole ++ places) ∧ places.length ≤ maxFraction ∧
      (mantissa : Int256).toInt = sign * placeValue (whole ++ places) ∧
      v = ofScaled mantissa places.length := by
  unfold parse
  generalize Text.trim s.toList = cs
  constructor
  · intro h
    have hsigned := Text.signed_splitSign cs
    generalize Text.splitSign cs = signed at h hsigned
    obtain ⟨negative, unsigned⟩ := signed
    dsimp only at h hsigned
    have hpointed := pointed_splitPoint unsigned
    generalize splitPoint unsigned = parts at h hpointed
    obtain ⟨whole, places⟩ := parts
    dsimp only at h hpointed
    split at h
    · contradiction
    rename_i hdigits
    split at h
    · contradiction
    rename_i hplaces
    cases hmantissa : Int256.ofSignMagnitude? negative (Text.numeralValue (whole ++ places)) with
    | none => simp [hmantissa] at h
    | some mantissa =>
        simp only [hmantissa, Except.ok.injEq] at h
        rw [Int256.ofSignMagnitude?_eq_some_iff, Text.numeralValue_eq_placeValue] at hmantissa
        exact ⟨signValue negative, unsigned, whole, places, mantissa, hsigned, hpointed,
          (digits_append_iff whole places).mpr (Bool.eq_false_iff.mpr hdigits),
          Nat.le_of_not_lt hplaces, hmantissa, h.symm⟩
  · rintro ⟨sign, unsigned, whole, places, mantissa, hsigned, hpointed, hdigits, hplaces, hmantissa,
      rfl⟩
    obtain ⟨negative, hsplit, rfl⟩ := Text.splitSign_of_signed cs sign unsigned hsigned
      (ne_sign_of_pointed hpointed hdigits.2)
    have hparts := splitPoint_of_pointed unsigned whole places hpointed
      fun c hc => hdigits.2 c (List.mem_append_left _ hc)
    rw [← Text.numeralValue_eq_placeValue, ← Int256.ofSignMagnitude?_eq_some_iff] at hmantissa
    simp only [hsplit, hparts, (digits_append_iff whole places).mp hdigits, hmantissa,
      Nat.not_lt.mpr hplaces]
    rfl

/-! ## Writing -/

/-- Digits are written as digits with a point, of which as many as asked for stand behind the point. -/
theorem exists_pointed (digits : List Char) (hdigits : Digits digits) (scale : Nat) :
    ∃ whole places, Pointed (pointed digits scale) whole places ∧ Digits (whole ++ places) ∧
      places.length = scale ∧ placeValue (whole ++ places) = placeValue digits := by
  unfold pointed
  by_cases hnone : scale = 0
  · refine ⟨digits, [], ?_, ?_, hnone.symm, ?_⟩
    · rw [if_pos hnone]
      exact .bare digits
    · rwa [List.append_nil]
    · rw [List.append_nil]
  by_cases hlong : scale < digits.length
  · refine ⟨digits.take (digits.length - scale), digits.drop (digits.length - scale), ?_, ?_, ?_, ?_⟩
    · rw [if_neg hnone, if_pos hlong]
      exact .point _ _
    · rwa [List.take_append_drop]
    · rw [List.length_drop]
      omega
    · rw [List.take_append_drop]
  · -- There are not enough digits: zeros are filled in, one of them in front of the point.
    have hzeros : ['0'] ++ (List.replicate (scale - digits.length) '0' ++ digits) =
        List.replicate (scale - digits.length + 1) '0' ++ digits := rfl
    refine ⟨['0'], List.replicate (scale - digits.length) '0' ++ digits, ?_, ?_, ?_, ?_⟩
    · rw [if_neg hnone, if_neg hlong]
      exact .point ['0'] _
    · rw [hzeros]
      refine ⟨fun h => hdigits.1 (List.append_eq_nil_iff.mp h).2, ?_⟩
      rw [List.forall_mem_append]
      refine ⟨fun c hc => ?_, hdigits.2⟩
      obtain rfl := List.eq_of_mem_replicate hc
      rfl
    · rw [List.length_append, List.length_replicate]
      omega
    · rw [hzeros, Text.placeValue_zeros_append]

theorem ofScaled_mantissa (v : Decimal) : ofScaled v.mantissa v.scale = v :=
  toRat_injective _ _ (toRat_ofScaled v.mantissa v.scale)

/-- A decimal is read from its own text. -/
theorem parse_text_self (v : Decimal) (h : v.scale ≤ maxFraction) : parse v.text = .ok v := by
  obtain ⟨whole, places, hpointed, hdigits, hlength, hvalue⟩ :=
    exists_pointed (Text.numeral v.mantissa.magnitude) (digits_numeral _) v.scale
  refine (parse_eq_ok_iff_scaled _ v).mpr ⟨signValue v.mantissa.isNegative, _, whole, places,
    v.mantissa, ?_, hpointed, hdigits, by omega, ?_, ?_⟩
  · rw [text, String.toList_ofList, Text.trim_signed _ _ (isBlank_of_pointed hpointed hdigits.2)]
    exact Text.signed_of_negative _ _
  · rw [hvalue, Text.placeValue_numeral]
    exact Int256.toInt_eq_sign_mul v.mantissa
  · rw [hlength, ofScaled_mantissa]

/-- Every decimal whose places can be counted is read from its own text.  What is read at all are, blanks
aside, a sign that may be missing and digits with a point that may be missing, of which there is at least
one; there must not be more places than can be counted, and all digits together, with the sign, must be
an integer in range.  The decimal is the number that they spell. -/
theorem parse_iff_spelled :
    (∀ v : Decimal, v.scale ≤ maxFraction → parse v.text = .ok v) ∧
    ∀ s v, parse s = .ok v ↔ ∃ sign unsigned whole places,
      Signed (Text.trim s.toList) sign unsigned ∧ Pointed unsigned whole places ∧
      (whole ++ places ≠ [] ∧ ∀ c ∈ whole ++ places, c.isDigit = true) ∧
      places.length ≤ maxFraction ∧
      (-2 ^ 255 ≤ sign * placeValue (whole ++ places) ∧
        sign * placeValue (whole ++ places) < 2 ^ 255) ∧
      v.toRat = sign * (placeValue whole + fractionValue places) := by
  refine ⟨parse_text_self, fun s v => ?_⟩
  rw [parse_eq_ok_iff_scaled]
  constructor
  · rintro ⟨sign, unsigned, whole, places, mantissa, hsigned, hpointed, hdigits, hplaces, hmantissa,
      rfl⟩
    have hlow := mantissa.min_le
    have hhigh := mantissa.lt_limit
    refine ⟨sign, unsigned, whole, places, hsigned, hpointed, hdigits, hplaces, ⟨by omega, by omega⟩,
      ?_⟩
    rw [toRat_ofScaled, hmantissa, placeValue_add_fractionValue]
    push_cast
    ring
  · rintro ⟨sign, unsigned, whole, places, hsigned, hpointed, hdigits, hplaces, ⟨hlow, hhigh⟩, hvalue⟩
    refine ⟨sign, unsigned, whole, places,
      ⟨sign * placeValue (whole ++ places), by omega, by omega⟩, hsigned, hpointed, hdigits, hplaces,
      rfl, ?_⟩
    apply toRat_injective
    rw [hvalue, toRat_ofScaled, placeValue_add_fractionValue]
    push_cast
    ring

/-- The smallest mantissa with three more places than it has digits. -/
theorem parse_iff_spelled_small :
    80 ≤ maxFraction ∧
    parse (text ⟨⟨-2 ^ 255, by decide, by decide⟩, 80, .inr (by decide)⟩) =
      .ok ⟨⟨-2 ^ 255, by decide, by decide⟩, 80, .inr (by decide)⟩ :=
  ⟨by decide, parse_iff_spelled.1 ⟨⟨-2 ^ 255, by decide, by decide⟩, 80, .inr (by decide)⟩ (by decide)⟩

/-- Both sides of the point may be empty, but not at once. -/
example : parse "+.50" = parse "0.5" ∧ parse "-7." = parse "-7" ∧
    parse "." = .error (.notADecimal ".") := by decide +kernel

end Decimal
end ContractAbi
