import ContractAbi.Text.Hidden

/-!
# Quoted texts

Messages show a text between quotation marks, with the characters that would be ambiguous or
invisible written as escapes.  A character on its own is shown between apostrophes.  The two forms
differ only in the mark that has to be escaped.
-/

namespace ContractAbi.Text

/-- The digits of a number in base sixteen, lower case. -/
def hexDigits (n : Nat) : String :=
  String.ofList (Nat.toDigits 16 n)

/-- One character inside a text that is closed by `mark`. -/
def escape (mark c : Char) : String :=
  if c == '\x00' then "\\0"
  else if c == '\t' then "\\t"
  else if c == '\r' then "\\r"
  else if c == '\n' then "\\n"
  else if c == '\\' then "\\\\"
  else if c == mark then "\\" ++ c.toString
  else if isHidden c then "\\u\x7b" ++ hexDigits c.toNat ++ "\x7d"
  else c.toString

/-- A text between quotation marks. -/
def quoted (s : String) : String :=
  "\"" ++ String.join (s.toList.map (escape '"')) ++ "\""

/-- A character between apostrophes. -/
def quotedChar (c : Char) : String :=
  "'" ++ escape '\'' c ++ "'"

end ContractAbi.Text
