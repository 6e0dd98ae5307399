import ContractAbi.Toml.Scan

/-!
# Strings

A string stands between quotation marks, with escapes, or between apostrophes, without.  With the
mark tripled it may run over several lines; a line end directly behind the opening mark is dropped,
and one or two marks more than the three that close the string belong to its content.
-/

namespace ContractAbi.Toml

/-- The value of a digit in base sixteen. -/
def hexDigit? (c : Char) : Option Nat :=
  if '0' ≤ c ∧ c ≤ '9' then some (c.toNat - '0'.toNat)
  else if 'a' ≤ c ∧ c ≤ 'f' then some (c.toNat - 'a'.toNat + 10)
  else if 'A' ≤ c ∧ c ≤ 'F' then some (c.toNat - 'A'.toNat + 10)
  else none

/-- The value of digits in base sixteen, continuing the given one. -/
def hexValue? (value : Nat) : List Char → Option Nat
  | [] => some value
  | c :: cs => do
      let digit ← hexDigit? c
      hexValue? (16 * value + digit) cs

/-- The character whose code is written with the given number of digits. -/
def codePoint (digits : Nat) : Scan Char := fun cs =>
  if (cs.take digits).length < digits then none
  else
    match hexValue? 0 (cs.take digits) with
    | some code => if code.isValidChar then some (Char.ofNat code, cs.drop digits) else none
    | none => none

/-- What follows a backslash. -/
def escape : Scan Char := do
  match ← Scan.next with
  | 'b' => return '\x08'
  | 't' => return '\t'
  | 'n' => return '\n'
  | 'f' => return '\x0c'
  | 'r' => return '\r'
  | '"' => return '"'
  | '\\' => return '\\'
  | 'u' => codePoint 4
  | 'U' => codePoint 8
  | _ => failure

/-- The rest of a string on one line that ends with `mark`. -/
def lineBody (mark : Char) (escapes : Bool) : Nat → Scan (List Char)
  | 0 => failure
  | bound + 1 => do
      let c ← Scan.next
      if c == mark then return []
      else if escapes && c == '\\' then do
        let e ← escape
        let rest ← lineBody mark escapes bound
        return e :: rest
      else if isTextChar c then do
        let rest ← lineBody mark escapes bound
        return c :: rest
      else failure

/-- The characters from the first that is neither a blank nor a line end. -/
def dropBlankLines : List Char → List Char
  | ' ' :: cs => dropBlankLines cs
  | '\t' :: cs => dropBlankLines cs
  | '\n' :: cs => dropBlankLines cs
  | '\r' :: '\n' :: cs => dropBlankLines cs
  | cs => cs

/-- The end of a line behind a backslash, with everything blank after it. -/
def continuation : Scan Unit := do
  blanks
  newline
  modify dropBlankLines

/-- The rest of a string on several lines that ends with three times `mark`. -/
def linesBody (mark : Char) (escapes : Bool) : Nat → Scan (List Char)
  | 0 => failure
  | bound + 1 => do
      let marks := ((← get).takeWhile (· == mark)).take 5
      if 3 ≤ marks.length then do
        Scan.exactly marks
        return marks.drop 3
      else if !marks.isEmpty then do
        Scan.exactly marks
        let rest ← linesBody mark escapes bound
        return marks ++ rest
      else if (← Scan.optional newline).isSome then do
        let rest ← linesBody mark escapes bound
        return '\n' :: rest
      else do
        let c ← Scan.next
        if escapes && c == '\\' then do
          if (← Scan.optional continuation).isSome then linesBody mark escapes bound
          else do
            let e ← escape
            let rest ← linesBody mark escapes bound
            return e :: rest
        else if isTextChar c then do
          let rest ← linesBody mark escapes bound
          return c :: rest
        else failure

/-- A string on one line between the given marks. -/
def lineString (mark : Char) (escapes : Bool) : Scan String := do
  Scan.exactly [mark]
  let content ← Scan.bounded (lineBody mark escapes)
  return String.ofList content

/-- A string on several lines between the given marks. -/
def linesString (mark : Char) (escapes : Bool) : Scan String := do
  Scan.exactly [mark, mark, mark]
  let _ ← Scan.optional newline
  let content ← Scan.bounded (linesBody mark escapes)
  return String.ofList content

/-- A string of any form. -/
def string : Scan String :=
  linesString '"' true <|> lineString '"' true <|> linesString '\'' false <|> lineString '\'' false

end ContractAbi.Toml
