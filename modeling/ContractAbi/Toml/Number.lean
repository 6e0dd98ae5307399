import ContractAbi.Toml.Strings
import ContractAbi.Text.Numeral

/-!
# Integers and floating-point numbers

Single underscores may stand between digits.  Integers are numbers of 64 bits with sign.  Of a
floating-point number only its form is read, since no setting takes one; a number that rounds to
positive infinity without being written so is refused.
-/

namespace ContractAbi.Toml

/-- Digits at the front of a text, without the underscores between them, and what follows. -/
def splitDigits (isDigit : Char → Bool) : List Char → List Char × List Char
  | '_' :: c :: cs =>
      if isDigit c then
        let (digits, rest) := splitDigits isDigit cs
        (c :: digits, rest)
      else ([], '_' :: c :: cs)
  | c :: cs =>
      if isDigit c then
        let (digits, rest) := splitDigits isDigit cs
        (c :: digits, rest)
      else ([], c :: cs)
  | [] => ([], [])

/-- One or more digits, with underscores between them. -/
def digits (isDigit : Char → Bool) : Scan (List Char) := fun cs =>
  match cs with
  | c :: rest =>
      if isDigit c then
        let (more, rest) := splitDigits isDigit rest
        some (c :: more, rest)
      else none
  | [] => none

/-- A sign, if there is one: whether it is a minus sign. -/
def sign : Scan Bool := fun cs => some (Text.splitSign cs)

/-- A sign and decimal digits that do not begin with a superfluous zero. -/
def wholeNumber : Scan (Bool × List Char) := do
  let negative ← sign
  if ← Scan.accept ['0'] then return (negative, ['0'])
  else do
    let ds ← digits Char.isDigit
    return (negative, ds)

/-- An integer, if it is a number of 64 bits with sign. -/
def integerInRange (i : Int) : Scan Int :=
  if -(1 <<< 63) ≤ i ∧ i < 1 <<< 63 then return i else failure

/-- Digits behind a marker of their base. -/
def markedInteger (marker : List Char) (isDigit : Char → Bool) (base : Nat) : Scan Int := do
  Scan.exactly marker
  let ds ← digits isDigit
  let value := ds.foldl (fun n c => base * n + (hexDigit? c).getD 0) 0
  integerInRange value

/-- A decimal integer. -/
def decimalInteger : Scan Int := do
  let (negative, ds) ← wholeNumber
  let magnitude : Int := Text.numeralValue ds
  integerInRange (if negative then -magnitude else magnitude)

/-- An integer in any base. -/
def integer : Scan Int :=
  markedInteger ['0', 'x'] (fun c => (hexDigit? c).isSome) 16 <|>
    markedInteger ['0', 'o'] (fun c => '0' ≤ c && c ≤ '7') 8 <|>
    markedInteger ['0', 'b'] (fun c => c == '0' || c == '1') 2 <|>
    decimalInteger

/-- The smallest number that rounds to infinity. -/
def floatLimit : Nat := 1 <<< 1024 - 1 <<< 970

/-- Whether `mantissa * 10 ^ exponent` rounds to infinity.  The number of digits decides unless it is
near the limit, so no huge power is ever computed. -/
def roundsToInfinity (mantissa : Nat) (exponent : Int) : Bool :=
  let size : Int := (Text.numeral mantissa).length + exponent
  if mantissa = 0 ∨ size < 300 then false
  else if 320 < size then true
  else floatLimit * Nat.pow 10 (-exponent).toNat ≤ mantissa * Nat.pow 10 exponent.toNat

/-- An exponent. -/
def exponentPart : Scan Int := do
  Scan.exactly ['e'] <|> Scan.exactly ['E']
  let negative ← sign
  let ds ← digits Char.isDigit
  let magnitude : Int := Text.numeralValue ds
  return if negative then -magnitude else magnitude

/-- The digits behind a point. -/
def fractionPart : Scan (List Char) := do
  Scan.exactly ['.']
  digits Char.isDigit

/-- A floating-point number that is written with digits. -/
def finiteFloat : Scan Unit := do
  let (negative, whole) ← wholeNumber
  let (places, exponent) ←
    (do return ([], ← exponentPart)) <|>
    (do
      let places ← fractionPart
      let exponent ← Scan.optional exponentPart
      return (places, exponent.getD 0))
  let mantissa := Text.numeralValue (whole ++ places)
  if !negative && roundsToInfinity mantissa (exponent - places.length) then failure

/-- Infinity or the absence of a number. -/
def specialFloat : Scan Unit := do
  let _ ← sign
  Scan.exactly "inf".toList <|> Scan.exactly "nan".toList

/-- A floating-point number. -/
def float : Scan Unit :=
  finiteFloat <|> specialFloat

end ContractAbi.Toml
