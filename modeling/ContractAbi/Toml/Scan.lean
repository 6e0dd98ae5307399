/-!
# Reading characters in order

A `Scan` takes characters from the front of a text or fails.  Failing takes nothing, so `p <|> q`
tries `q` where `p` began.  A loop is bounded by the number of characters that are left, since each
of its turns takes at least one.
-/

namespace ContractAbi.Toml

/-- A reader of the front of a text. -/
abbrev Scan := StateT (List Char) Option

namespace Scan

/-- The next character, left in place. -/
def peek? : Scan (Option Char) := do
  return (← get).head?

/-- The next character. -/
def next : Scan Char := fun
  | c :: rest => some (c, rest)
  | [] => none

/-- The given characters. -/
def exactly (expected : List Char) : Scan Unit := fun cs =>
  if expected.isPrefixOf cs then some ((), cs.drop expected.length) else none

/-- Whether the given characters come next; if so they are taken. -/
def accept (expected : List Char) : Scan Bool :=
  (do exactly expected; return true) <|> return false

/-- The characters up to the first that is not of the given kind. -/
def takeWhile (p : Char → Bool) : Scan (List Char) := fun cs =>
  some (cs.takeWhile p, cs.dropWhile p)

/-- What is read, if it can be read. -/
def optional {α : Type} (s : Scan α) : Scan (Option α) :=
  (some <$> s) <|> return none

/-- A loop that takes at least one character in each turn. -/
def bounded {α : Type} (loop : Nat → Scan α) : Scan α := do
  loop ((← get).length + 1)

end Scan

/-! ## Blanks, line ends and comments -/

/-- The blanks within a line. -/
def isLineBlank (c : Char) : Bool :=
  c == ' ' || c == '\t'

/-- Characters that may stand in comments and strings: all but control characters, of which only
the tab may. -/
def isTextChar (c : Char) : Bool :=
  c == '\t' || (0x20 ≤ c.toNat && c.toNat != 0x7F)

/-- Blanks within a line. -/
def blanks : Scan Unit := do
  let _ ← Scan.takeWhile isLineBlank

/-- The end of a line, with or without a carriage return. -/
def newline : Scan Unit :=
  Scan.exactly ['\n'] <|> Scan.exactly ['\r', '\n']

/-- A comment, without the end of its line. -/
def comment : Scan Unit := do
  Scan.exactly ['#']
  let _ ← Scan.takeWhile isTextChar

/-- The end of a line or of the text. -/
def lineEnd : Scan Unit := do
  if (← Scan.peek?).isSome then newline

/-- What may follow on a line behind its content. -/
def lineRest : Scan Unit := do
  blanks
  if (← Scan.peek?) == some '#' then comment
  lineEnd

/-- Blanks, line ends and comments, each comment with the end of its line. -/
def spaceLoop : Nat → Scan Unit
  | 0 => failure
  | bound + 1 => do
      blanks
      match ← Scan.peek? with
      | some '#' => do
          comment
          newline
          spaceLoop bound
      | some '\n' => do
          newline
          spaceLoop bound
      | some '\r' => do
          newline
          spaceLoop bound
      | _ => return ()

/-- Everything between the parts of an array. -/
def space : Scan Unit :=
  Scan.bounded spaceLoop

end ContractAbi.Toml
