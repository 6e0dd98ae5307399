import ContractAbi.Proofs.SignMagnitude
import ContractAbi.Proofs.TypeParsing

/-!
# Integers in decimal

A text is an integer if, without the blanks around it, it is at most one sign and then digits, and if the
number is in range.  The number is given by the places of the digits (`Text.placeValue`) and not by the
way they are read, so any number of zeros may stand in front.  Every integer is read from its own text.

On pairs of a magnitude and a sign, digits are gathered in a word and given up as soon as they do not
fit; what is left for the sign to decide are the magnitudes between `2 ^ 255` and `2 ^ 256`.  Both
together refuse exactly what is out of range (`SignMagnitude.parse_eq`).
-/

/-- The digits that are gathered so far never count for more than all of them. -/
theorem Nat.le_ofDigitChars (digits : List Char) (n : Nat) : n ≤ Nat.ofDigitChars 10 digits n := by
  rw [Nat.ofDigitChars_eq_ofDigitChars_zero]
  have := Nat.le_mul_of_pos_left n (Nat.pow_pos (n := digits.length) (show 0 < 10 by decide))
  omega

namespace ContractAbi

open AbiType (Digits digits_iff digits_numeral)

namespace Text

/-! ## What digits and signs stand for -/

/-- The number that digits stand for: each counts a power of ten, by the number of digits behind it. -/
def placeValue : List Char → Nat
  | [] => 0
  | c :: cs => (c.toNat - '0'.toNat) * 10 ^ cs.length + placeValue cs

/-- Reading digits from left to right gives each of them its place. -/
theorem numeralValue_eq_placeValue (digits : List Char) :
    numeralValue digits = placeValue digits := by
  induction digits with
  | nil => simp [numeralValue, placeValue]
  | cons c cs ih =>
      rw [placeValue, ← ih, numeralValue, Nat.ofDigitChars_cons, Nat.ofDigitChars_eq_ofDigitChars_zero,
        Nat.mul_zero, Nat.zero_add, Nat.mul_comm, numeralValue]

theorem placeValue_numeral (n : Nat) : placeValue (numeral n) = n := by
  rw [← numeralValue_eq_placeValue, numeralValue_numeral]

/-- The characters are at most one sign and then the others; a minus sign counts for `-1`. -/
inductive Signed : List Char → Int → List Char → Prop
  | bare (cs : List Char) : Signed cs 1 cs
  | plus (cs : List Char) : Signed ('+' :: cs) 1 cs
  | minus (cs : List Char) : Signed ('-' :: cs) (-1) cs

/-- What a sign in front counts for. -/
def signValue (negative : Bool) : Int :=
  if negative then -1 else 1

theorem signed_splitSign (cs : List Char) :
    Signed cs (signValue (splitSign cs).1) (splitSign cs).2 := by
  unfold splitSign
  split
  · exact .minus _
  · exact .plus _
  · exact .bare _

/-- A sign is found if no second one stands behind it. -/
theorem splitSign_of_signed (cs : List Char) (sign : Int) (rest : List Char) (h : Signed cs sign rest)
    (hrest : ∀ c ∈ rest.head?, c ≠ '-' ∧ c ≠ '+') :
    ∃ negative, splitSign cs = (negative, rest) ∧ sign = signValue negative := by
  cases h with
  | plus => exact ⟨false, rfl, rfl⟩
  | minus => exact ⟨true, rfl, rfl⟩
  | bare =>
      refine ⟨false, ?_, rfl⟩
      unfold splitSign
      split
      · simp at hrest
      · simp at hrest
      · rfl

theorem ne_sign_of_isDigit (c : Char) (h : c.isDigit = true) : c ≠ '-' ∧ c ≠ '+' := by
  constructor <;> rintro rfl <;> contradiction

theorem head_of_digits (digits : List Char) (h : ∀ c ∈ digits, c.isDigit = true) :
    ∀ c ∈ digits.head?, c ≠ '-' ∧ c ≠ '+' :=
  fun c hc => ne_sign_of_isDigit c (h c (List.mem_of_mem_head? hc))

/-- A sign and characters that are no blanks have nothing around them to be trimmed. -/
theorem trim_signed (negative : Bool) (cs : List Char) (h : ∀ c ∈ cs, isBlank c = false) :
    trim ((if negative then ['-'] else []) ++ cs) = (if negative then ['-'] else []) ++ cs := by
  apply Text.trim_eq_self
  rw [List.forall_mem_append]
  refine ⟨fun c hc => ?_, h⟩
  cases negative with
  | false => simp at hc
  | true =>
      obtain rfl : c = '-' := by simpa using hc
      rfl

theorem signed_of_negative (negative : Bool) (cs : List Char) :
    Signed ((if negative then ['-'] else []) ++ cs) (signValue negative) cs := by
  cases negative with
  | false => exact .bare cs
  | true => exact .minus cs

end Text

/-! ## Numbers -/

namespace Int256

open Text (Signed signValue placeValue)

theorem ofSignMagnitude?_eq_some_iff (negative : Bool) (n : Nat) (v : Int256) :
    ofSignMagnitude? negative n = some v ↔ v.toInt = signValue negative * n := by
  rw [ofSignMagnitude?, ofInt?_eq_some_iff]
  cases negative with
  | false => simp [signValue]
  | true => simp [signValue]

theorem toInt_eq_sign_mul (v : Int256) : v.toInt = signValue v.isNegative * v.magnitude := by
  unfold isNegative magnitude
  by_cases h : v.toInt < 0
  · simp only [h, decide_true, signValue, if_true]
    omega
  · simp only [h, decide_false, signValue, Bool.false_eq_true, if_false]
    omega

/-- A text is read as a number if it is a sign and digits that stand for it. -/
theorem parse_eq_ok_iff (s : String) (v : Int256) :
    parse s = .ok v ↔ ∃ sign digits, Signed (Text.trim s.toList) sign digits ∧ Digits digits ∧
      v.toInt = sign * placeValue digits := by
  unfold parse
  generalize Text.trim s.toList = cs
  dsimp only
  constructor
  · intro h
    have hsigned := Text.signed_splitSign cs
    generalize Text.splitSign cs = signed at h hsigned
    obtain ⟨negative, digits⟩ := signed
    dsimp only at h hsigned
    split at h
    · contradiction
    rename_i hdigits
    cases hvalue : ofSignMagnitude? negative (Text.numeralValue digits) with
    | none => simp [hvalue] at h
    | some u =>
        simp only [hvalue, Except.ok.injEq] at h
        subst h
        rw [ofSignMagnitude?_eq_some_iff, Text.numeralValue_eq_placeValue] at hvalue
        exact ⟨signValue negative, digits, hsigned,
          (digits_iff digits).mpr (Bool.eq_false_iff.mpr hdigits), hvalue⟩
  · rintro ⟨sign, digits, hsigned, hdigits, hvalue⟩
    obtain ⟨negative, hsplit, rfl⟩ :=
      Text.splitSign_of_signed cs sign digits hsigned (Text.head_of_digits digits hdigits.2)
    rw [← Text.numeralValue_eq_placeValue, ← ofSignMagnitude?_eq_some_iff] at hvalue
    simp only [hsplit, (digits_iff digits).mp hdigits, hvalue]
    rfl

/-- A number is read from its own text. -/
theorem parse_text_self (v : Int256) : parse v.text = .ok v := by
  have hblank : ∀ c ∈ Text.numeral v.magnitude, Text.isBlank c = false :=
    fun c hc => AbiType.isBlank_of_isAlphanum c (Text.isAlphanum_of_mem_numeral _ c hc)
  refine (parse_eq_ok_iff _ v).mpr ⟨signValue v.isNegative, Text.numeral v.magnitude, ?_,
    digits_numeral _, ?_⟩
  · rw [text, String.toList_ofList, Text.trim_signed _ _ hblank]
    exact Text.signed_of_negative _ _
  · rw [Text.placeValue_numeral]
    exact toInt_eq_sign_mul v

end Int256

/-! ## Pairs -/

namespace SignMagnitude

theorem pushDigit?_eq (w : Word) (c : Char) :
    pushDigit? w c = if Nat.ofDigitChars 10 [c] w.toNat < 2 ^ 256
      then some (Word.ofNat (Nat.ofDigitChars 10 [c] w.toNat)) else none := by
  rw [pushDigit?, Nat.ofDigitChars_cons, Nat.ofDigitChars_nil]
  rfl

/-- Gathering digits behind a word fails if what they make of it does not fit a word. -/
theorem foldlM_pushDigit? (digits : List Char) (w : Word) :
    digits.foldlM pushDigit? w = if Nat.ofDigitChars 10 digits w.toNat < 2 ^ 256
      then some (Word.ofNat (Nat.ofDigitChars 10 digits w.toNat)) else none := by
  induction digits generalizing w with
  | nil =>
      rw [Nat.ofDigitChars_nil, if_pos w.isLt, Word.ofNat, BitVec.ofNat_toNat, BitVec.setWidth_eq]
      rfl
  | cons c cs ih =>
      rw [List.foldlM_cons, pushDigit?_eq, Nat.ofDigitChars_cons, Nat.ofDigitChars_cons,
        Nat.ofDigitChars_nil]
      generalize 10 * w.toNat + (c.toNat - '0'.toNat) = n
      by_cases hfits : n < 2 ^ 256
      · have hback : (Word.ofNat n).toNat = n := Nat.mod_eq_of_lt hfits
        rw [if_pos hfits]
        show cs.foldlM pushDigit? (Word.ofNat n) = _
        rw [ih, hback]
      · have hmore := Nat.le_ofDigitChars cs n
        rw [if_neg hfits, if_neg (by omega)]
        rfl

theorem ofDigits?_eq (digits : List Char) :
    ofDigits? digits = if Text.numeralValue digits < 2 ^ 256
      then some (Word.ofNat (Text.numeralValue digits)) else none :=
  foldlM_pushDigit? digits 0

/-- The two stages together accept a magnitude with a sign exactly if the integer is in range. -/
theorem ofDigits?_bind_eq (negative : Bool) (digits : List Char) :
    (ofDigits? digits).bind (ofParts? · negative) =
      (Int256.ofSignMagnitude? negative (Text.numeralValue digits)).map Int256.stored := by
  rw [ofDigits?_eq]
  generalize Text.numeralValue digits = n
  by_cases hfits : n < 2 ^ 256
  · have hback : (Word.ofNat n).toNat = n := Nat.mod_eq_of_lt hfits
    rw [if_pos hfits, Option.bind_some, ofParts?_eq, hback]
  · -- What does not fit a word is out of range with either sign.
    cases hrange : Int256.ofSignMagnitude? negative n with
    | none =>
        rw [if_neg hfits]
        rfl
    | some v =>
        rw [Int256.ofSignMagnitude?_eq_some_iff] at hrange
        have hlow := v.min_le
        have hhigh := v.lt_limit
        cases negative <;> simp [Text.signValue] at hrange <;> omega

/-- Reading a text gives the pair of the number that is read, or the same error. -/
theorem parse_eq (s : String) : parse s = (Int256.parse s).map Int256.stored := by
  unfold parse Int256.parse
  generalize Text.trim s.toList = cs
  dsimp only
  generalize Text.splitSign cs = signed
  obtain ⟨negative, digits⟩ := signed
  simp only [ofDigits?_bind_eq]
  split
  · rfl
  cases Int256.ofSignMagnitude? negative (Text.numeralValue digits) with
  | none => rfl
  | some v => rfl

theorem text_stored (v : Int256) : v.stored.text = v.text := by
  have hmagnitude : v.stored.magnitude.toNat = v.magnitude := toNat_magnitude_stored v
  rw [text, hmagnitude]
  rfl

end SignMagnitude

namespace Int256

open Text (Signed placeValue)

/-- The texts of a number are, blanks aside, a sign that may be missing and at least one digit, which
stand for that number; nothing out of range is read.  The text that a number is written as is one of
them.  Gathering the digits in a word, and deciding about the sign at the end, accepts the same texts. -/
theorem parse_iff_written :
    (∀ s v, parse s = .ok v ↔ ∃ sign digits, Signed (Text.trim s.toList) sign digits ∧
      (digits ≠ [] ∧ ∀ c ∈ digits, c.isDigit = true) ∧
      (-2 ^ 255 ≤ sign * placeValue digits ∧ sign * placeValue digits < 2 ^ 255) ∧
      v.toInt = sign * placeValue digits) ∧
    (∀ v : Int256, parse v.text = .ok v) ∧
    (∀ s, SignMagnitude.parse s = (parse s).map stored) ∧
    ∀ v : Int256, v.stored.text = v.text := by
  refine ⟨fun s v => ?_, parse_text_self, SignMagnitude.parse_eq, SignMagnitude.text_stored⟩
  rw [parse_eq_ok_iff]
  constructor
  · rintro ⟨sign, digits, hsigned, hdigits, hvalue⟩
    have hlow := v.min_le
    have hhigh := v.lt_limit
    exact ⟨sign, digits, hsigned, hdigits, ⟨by omega, by omega⟩, hvalue⟩
  · rintro ⟨sign, digits, hsigned, hdigits, -, hvalue⟩
    exact ⟨sign, digits, hsigned, hdigits, hvalue⟩

/-- A sign does not count for zero, nor do zeros in front. -/
example : parse " -00\n" = .ok zero := by decide +kernel

end Int256
end ContractAbi
