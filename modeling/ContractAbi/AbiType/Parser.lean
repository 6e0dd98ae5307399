import ContractAbi.AbiType.Valid
import ContractAbi.Text.Blank

/-!
# Reading type texts

A type text is a name or a parenthesised list of types, followed by array suffixes that apply from
left to right.  Blanks may stand before a type and before the comma or parenthesis after it, but not
before a suffix.  Reading stops at the first container past the depth limit, so the recursion is on
the number of containers that still fit, and a text with millions of suffixes is refused early.
-/

namespace ContractAbi
namespace AbiType

/-- The widths of integers. -/
def integerWidths : List Nat :=
  (List.range 32).map (fun i => 8 * (i + 1))

/-- The lengths of short byte sequences. -/
def byteLengths : List Nat :=
  (List.range 32).map (· + 1)

/-- Names that stand for the descriptor of another name. -/
def aliases : List (List Char × AbiType) :=
  [("uint".toList, .uint 256), ("int".toList, .int 256), ("byte".toList, .fixedBytes 1),
    ("fixed".toList, .fixed 128 18)]

/-- The descriptors that are known under their canonical text. -/
def basicTypes : List AbiType :=
  integerWidths.map .uint ++ integerWidths.map .int ++ byteLengths.map .fixedBytes ++
    [.address, .bool, .bytes, .string]

/-- All names with their descriptors. -/
def names : List (List Char × AbiType) :=
  basicTypes.map (fun t => (t.chars, t)) ++ aliases

/-- The descriptor that a name stands for. -/
def ofName? (name : List Char) : Option AbiType :=
  names.lookup name

/-- A sequence of digits as a size, if it has digits only and at least one of them. -/
def sizeOfDigits? (digits : List Char) : Option Nat :=
  if digits.isEmpty || !Text.allDigits digits then none
  else size? (Text.numeralValue digits)

/-- The descriptor of a name of the form `fixed<M>x<N>`. -/
def ofFixedName? (name : List Char) : Option AbiType :=
  if "fixed".toList.isPrefixOf name then
    let widths := name.drop 5
    match widths.dropWhile (· ≠ 'x') with
    | [] => none
    | _ :: fraction => do
        let m ← sizeOfDigits? (widths.takeWhile (· ≠ 'x'))
        let n ← sizeOfDigits? fraction
        return .fixed m n
  else none

/-- Why reading stopped, with the characters from there on. -/
inductive Stop where
  | tooDeep
  | unknownName (name : List Char)
  | fault (what : TypeTextFault) (rest : List Char)
deriving DecidableEq, Repr

/-- What was read, the number of containers around its innermost leaf, and the characters left. -/
abbrev Parsed (α : Type) := α × Nat × List Char

/-- The characters from the first that is not blank. -/
def skipBlanks (cs : List Char) : List Char :=
  cs.dropWhile Text.isAsciiBlank

/-- A name: ASCII letters and digits. -/
def parseName (cs : List Char) : Except Stop (AbiType × List Char) :=
  let name := cs.takeWhile Char.isAlphanum
  let rest := cs.dropWhile Char.isAlphanum
  if name.isEmpty then .error (.fault .expectedName cs)
  else
    match ofName? name with
    | some t => .ok (t, rest)
    | none =>
        match ofFixedName? name with
        | some t => .ok (t, rest)
        | none => .error (.unknownName name)

/-- Array suffixes behind a type with the given number of levels, if `room` more levels fit. -/
def parseSuffixes (room : Nat) (t : AbiType) (levels : Nat) (cs : List Char) :
    Except Stop (Parsed AbiType) :=
  match cs with
  | '[' :: inside =>
      match room with
      | 0 => .error .tooDeep
      | room + 1 =>
          let digits := inside.takeWhile Char.isDigit
          match inside.dropWhile Char.isDigit with
          | ']' :: rest =>
              if digits.isEmpty then parseSuffixes room (.array t) (levels + 1) rest
              else
                match size? (Text.numeralValue digits) with
                | some n => parseSuffixes room (.fixedArray t n) (levels + 1) rest
                | none => .error (.fault .lengthOutOfRange rest)
          | rest => .error (.fault .expectedBracket rest)
  | _ => .ok (t, levels, cs)

/-- Fields up to the closing parenthesis; the first argument bounds their number. -/
def parseFields (field : List Char → Except Stop (Parsed AbiType)) :
    Nat → List Char → Except Stop (Parsed (List Param))
  | 0, cs => .error (.fault .expectedSeparator cs)
  | bound + 1, cs => do
      let (kind, levels, rest) ← field cs
      match skipBlanks rest with
      | ',' :: rest => do
          let (fields, others, rest) ← parseFields field bound rest
          return (Param.unnamed kind :: fields, max levels others, rest)
      | ')' :: rest => return ([Param.unnamed kind], levels, rest)
      | rest => .error (.fault .expectedSeparator rest)

/-- What follows an opening parenthesis.  Every field takes a character, so the number of characters
bounds the number of fields. -/
def parseTuple (field : List Char → Except Stop (Parsed AbiType)) (cs : List Char) :
    Except Stop (Parsed (List Param)) :=
  match skipBlanks cs with
  | ')' :: rest => .ok ([], 0, rest)
  | inside => parseFields field (inside.length + 1) inside

/-- A type that may nest up to `room` containers. -/
def parseType (room : Nat) (cs : List Char) :
    Except Stop (Parsed AbiType) :=
  match skipBlanks cs with
  | '(' :: inside =>
      match room with
      | 0 => .error .tooDeep
      | below + 1 => do
          let (fields, levels, rest) ← parseTuple (parseType below) inside
          parseSuffixes (below - levels) (.tuple fields) (levels + 1) rest
  | start => do
      let (t, rest) ← parseName start
      parseSuffixes room t 0 rest

/-- The number of bytes that characters take as UTF-8. -/
def utf8Length (cs : List Char) : Nat :=
  (String.ofList cs).utf8ByteSize

/-- The error of a text whose reading stopped. -/
def Stop.toTypeError (limit : Nat) (source : List Char) : Stop → TypeError
  | .tooDeep => .tooDeep limit
  | .unknownName name => .unknownName (String.ofList name)
  | .fault what rest =>
      .malformed what (utf8Length source - utf8Length rest) (String.ofList source)

/-- The descriptor that a text with nothing around it denotes. -/
def parseSource (limit : Nat) (source : List Char) : Except TypeError AbiType :=
  match parseType limit source with
  | .error stop => .error (stop.toTypeError limit source)
  | .ok (t, _, rest) =>
      match skipBlanks rest with
      | [] => do
          validate limit t
          return t
      | rest => .error (Stop.toTypeError limit source (.fault .trailingInput rest))

/-- The descriptor that a text denotes, if it nests at most `limit` containers and has an
encoding. -/
def parse (limit : Nat) (s : String) : Except TypeError AbiType :=
  parseSource limit (Text.trim s.toList)

end AbiType
end ContractAbi
