/-!
# Decimal numerals

A numeral is a sequence of ASCII digits; its value reads the digits from left to right, so leading
zeros change nothing.  Numbers are written with the fewest digits that have the value.
-/

namespace ContractAbi.Text

/-- The digits of a number. -/
def numeral (n : Nat) : List Char :=
  Nat.toDigits 10 n

/-- The value of a sequence of digits. -/
def numeralValue (digits : List Char) : Nat :=
  Nat.ofDigitChars 10 digits 0

/-- Whether all characters are digits. -/
def allDigits (cs : List Char) : Bool :=
  cs.all Char.isDigit

/-- A sign in front, if any: whether it is a minus sign, and what follows it. -/
def splitSign : List Char → Bool × List Char
  | '-' :: rest => (true, rest)
  | '+' :: rest => (false, rest)
  | cs => (false, cs)

/-- A number as text. -/
def ofNat (n : Nat) : String :=
  String.ofList (numeral n)

@[simp] theorem numeralValue_numeral (n : Nat) : numeralValue (numeral n) = n := by
  simp [numeralValue, numeral]

theorem allDigits_numeral (n : Nat) : allDigits (numeral n) = true := by
  simp only [allDigits, numeral, List.all_eq_true]
  intro c hc
  exact Nat.isDigit_of_mem_toDigits (by decide) (by decide) hc

theorem numeral_ne_nil (n : Nat) : numeral n ≠ [] := by
  simp [numeral]

end ContractAbi.Text
