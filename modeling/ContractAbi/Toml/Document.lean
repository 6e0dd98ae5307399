import ContractAbi.Toml.DateTime
import ContractAbi.Toml.Number
import ContractAbi.Toml.Table

/-!
# Documents

A document is a sequence of lines: headers, and keys with their values, which go into the table that
was opened last.  Values nest at most `maxNesting` arrays and tables in braces, and a dotted key has
at most that many parts; the recursion of `value` is on the nesting that is left.
-/

namespace ContractAbi.Toml

/-- How deep values nest and how many parts a key has at most. -/
def maxNesting : Nat := 79

/-- Characters of a key without quotation marks. -/
def isKeyChar (c : Char) : Bool :=
  c.isAlphanum || c == '-' || c == '_'

/-- One part of a key. -/
def keyPart : Scan String := do
  match ← Scan.peek? with
  | some '"' => lineString '"' true
  | some '\'' => lineString '\'' false
  | _ => do
      let name ← Scan.takeWhile isKeyChar
      if name.isEmpty then failure else return String.ofList name

/-- The parts of a key, of which there may be as many as the first argument says: all but the last,
and the last. -/
def keyParts : Nat → Scan (List String × String)
  | 0 => failure
  | room + 1 => do
      blanks
      let part ← keyPart
      blanks
      if ← Scan.accept ['.'] then do
        let (path, last) ← keyParts room
        return (part :: path, last)
      else return ([], part)

/-- A key. -/
def key : Scan (List String × String) :=
  keyParts maxNesting

/-- The items of an array and its closing bracket. -/
def arrayItems (item : Scan Node) : Nat → Scan (List Node)
  | 0 => failure
  | bound + 1 => do
      space
      if ← Scan.accept [']'] then return []
      else do
        let first ← item
        space
        if ← Scan.accept [','] then do
          let rest ← arrayItems item bound
          return first :: rest
        else do
          Scan.exactly [']']
          return [first]

/-- One or more entries of a table in braces and its closing brace, added to the given table. -/
def bracedEntries (item : Scan Node) : Nat → Table → Scan Table
  | 0, _ => failure
  | bound + 1, t => do
      let (path, last) ← key
      Scan.exactly ['=']
      blanks
      let node ← item
      blanks
      let t ← t.assign path last node
      if ← Scan.accept [','] then bracedEntries item bound t
      else do
        Scan.exactly ['}']
        return t

/-- What follows the opening brace of a table in braces. -/
def bracedTable (item : Scan Node) : Scan Table := do
  blanks
  if ← Scan.accept ['}'] then return Table.empty .braced
  else Scan.bounded (fun bound => bracedEntries item bound (Table.empty .braced))

/-- A value that is neither an array nor a table. -/
def scalar : Scan Node :=
  (Node.text <$> string) <|>
    (do dateTime; return .dateTime) <|>
    (do float; return .float) <|>
    (Node.integer <$> integer) <|>
    (do Scan.exactly "true".toList; return .boolean true) <|>
    (do Scan.exactly "false".toList; return .boolean false)

/-- A value that nests at most the given number of arrays and tables. -/
def value : Nat → Scan Node
  | 0 => scalar
  | room + 1 => do
      if ← Scan.accept ['['] then do
        let items ← Scan.bounded (arrayItems (value room))
        return .array items
      else if ← Scan.accept ['\x7b'] then do
        let content ← bracedTable (value room)
        return .table content
      else scalar

/-- A document as far as it has been read. -/
structure Draft where
  content : Table
  /-- The path to the table that was opened last. -/
  current : List String

namespace Draft

/-- The draft before the first line. -/
def start : Draft := ⟨Table.empty .header, []⟩

/-- A header, its line without the end. -/
def header (draft : Draft) : Scan Draft := do
  if ← Scan.accept ['[', '['] then do
    let (path, last) ← key
    Scan.exactly [']', ']']
    let content ← draft.content.openElement path last
    return ⟨content, path ++ [last]⟩
  else do
    Scan.exactly ['[']
    let (path, last) ← key
    Scan.exactly [']']
    let content ← draft.content.openTable path last
    return ⟨content, path ++ [last]⟩

/-- A key with its value, the line without the end. -/
def entry (draft : Draft) : Scan Draft := do
  let (path, last) ← key
  Scan.exactly ['=']
  blanks
  let node ← value maxNesting
  let content ← draft.content.changeOpen draft.current (Table.assign path last node)
  return { draft with content := content }

/-- The lines that are left. -/
def lines : Nat → Draft → Scan Draft
  | 0, _ => failure
  | bound + 1, draft => do
      blanks
      match ← Scan.peek? with
      | none => return draft
      | some '\n' => do
          newline
          lines bound draft
      | some '\r' => do
          newline
          lines bound draft
      | some '#' => do
          lineRest
          lines bound draft
      | some '[' => do
          let draft ← draft.header
          lineRest
          lines bound draft
      | some _ => do
          let draft ← draft.entry
          lineRest
          lines bound draft

end Draft

/-- The table that a document describes, if the document is well formed.  A byte order mark in front
is ignored. -/
def parse (s : String) : Option Table :=
  let cs := match s.toList with
    | '\uFEFF' :: rest => rest
    | cs => cs
  ((Scan.bounded (fun bound => Draft.lines bound Draft.start)).run cs).map (fun r => r.1.content)

end ContractAbi.Toml
