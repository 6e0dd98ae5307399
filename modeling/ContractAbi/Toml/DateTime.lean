import ContractAbi.Toml.Scan

/-!
# Dates and times

A date, a time, or both, the latter with or without an offset.  Only the form is read, since no
setting takes a date; days that their month does not have and hours that the day does not have are
refused.
-/

namespace ContractAbi.Toml

/-- A number of exactly that many digits, between two bounds. -/
def clockNumber (width low high : Nat) : Scan Nat := fun cs =>
  let digits := cs.take width
  let value := Nat.ofDigitChars 10 digits 0
  if digits.length = width ∧ digits.all Char.isDigit ∧ low ≤ value ∧ value ≤ high then
    some (value, cs.drop width)
  else none

/-- Whether a year has a leap day. -/
def isLeapYear (year : Nat) : Bool :=
  year % 4 == 0 && (year % 100 != 0 || year % 400 == 0)

/-- The number of days in a month. -/
def daysInMonth (year month : Nat) : Nat :=
  if month = 2 then (if isLeapYear year then 29 else 28)
  else if month = 4 ∨ month = 6 ∨ month = 9 ∨ month = 11 then 30
  else 31

/-- A year, a month and a day. -/
def date : Scan Unit := do
  let year ← clockNumber 4 0 9999
  Scan.exactly ['-']
  let month ← clockNumber 2 1 12
  Scan.exactly ['-']
  let _ ← clockNumber 2 1 (daysInMonth year month)

/-- Hours, minutes and seconds, with or without a fraction. -/
def time : Scan Unit := do
  let _ ← clockNumber 2 0 23
  Scan.exactly [':']
  let _ ← clockNumber 2 0 59
  Scan.exactly [':']
  let _ ← clockNumber 2 0 60
  if ← Scan.accept ['.'] then
    if (← Scan.takeWhile Char.isDigit).isEmpty then failure

/-- The distance from universal time. -/
def timeOffset : Scan Unit := do
  match ← Scan.next with
  | 'Z' => return ()
  | 'z' => return ()
  | c =>
      if c == '+' || c == '-' then do
        let _ ← clockNumber 2 0 23
        Scan.exactly [':']
        let _ ← clockNumber 2 0 59
      else failure

/-- What may follow a date. -/
def timeOfDate : Scan Unit := do
  Scan.exactly ['T'] <|> Scan.exactly ['t'] <|> Scan.exactly [' ']
  time
  let _ ← Scan.optional timeOffset

/-- A date, a time, or both. -/
def dateTime : Scan Unit :=
  (do
    date
    let _ ← Scan.optional timeOfDate) <|>
  time

end ContractAbi.Toml
