/-!
# Tables

A document is a table of named nodes.  Tables come about in four ways, which decide what may still
be added to them: a table with a header of its own may not get another one, nor may a table made by
dotted keys; a table that was only passed through on the way to another may.  Nothing is added to a
table written in braces.
-/

namespace ContractAbi.Toml

/-- How a table came about. -/
inductive Origin where
  /-- By a header of its own; the document itself counts as one. -/
  | header
  /-- As a step on the way to a table with a header. -/
  | implied
  /-- As a step on the way to a dotted key. -/
  | dotted
  /-- In braces. -/
  | braced
deriving DecidableEq, Repr

mutual

/-- What a key stands for.  Numbers with fractions and dates are told apart from everything else, but
their content is not kept. -/
inductive Node where
  | text (content : String)
  | integer (value : Int)
  | boolean (value : Bool)
  | float
  | dateTime
  | array (items : List Node)
  | table (content : Table)
  /-- The tables that share one header; there is at least one. -/
  | tables (contents : List Table)

/-- Named nodes. -/
structure Table where
  origin : Origin
  entries : List (String × Node)

end

namespace Table

/-- The table without entries. -/
def empty (origin : Origin) : Table := ⟨origin, []⟩

/-- The node of a key. -/
def get? (t : Table) (key : String) : Option Node :=
  t.entries.lookup key

/-- Entries with a node put in place of the one that the key had, or at the end. -/
def putEntry (key : String) (node : Node) : List (String × Node) → List (String × Node)
  | [] => [(key, node)]
  | (k, n) :: entries =>
      if k = key then (k, node) :: entries else (k, n) :: putEntry key node entries

/-- The table with the node of a key replaced. -/
def put (t : Table) (key : String) (node : Node) : Table :=
  ⟨t.origin, putEntry key node t.entries⟩

/-- The table with one more entry, if the key is new. -/
def insert? (t : Table) (key : String) (node : Node) : Option Table :=
  match t.get? key with
  | none => some (t.put key node)
  | some _ => none

/-- Change the table at the end of a path.  Steps that do not exist become tables of the given
origin, a step to several tables goes to the last of them, and a step to one table has to be
allowed. -/
def descend (allowed : Origin → Bool) (fresh : Origin) (change : Table → Option Table) :
    List String → Table → Option Table
  | [], t => change t
  | key :: path, t =>
      match t.get? key with
      | none => do
          let below ← descend allowed fresh change path (empty fresh)
          return t.put key (.table below)
      | some (.table below) =>
          if allowed below.origin then do
            let below ← descend allowed fresh change path below
            return t.put key (.table below)
          else none
      | some (.tables contents) => do
          let last ← contents.getLast?
          let below ← descend allowed fresh change path last
          return t.put key (.tables (contents.dropLast ++ [below]))
      | some _ => none

/-- The table with a node under a dotted key, given as the steps and the last part of the key.  The
steps may only make tables or pass through tables that have no header of their own, and the last of
them has to be a table made by dotted keys. -/
def assign (path : List String) (key : String) (node : Node) : Table → Option Table :=
  descend (fun origin => origin = .implied ∨ origin = .dotted) .dotted
    (fun t => if path.isEmpty ∨ t.origin = .dotted then t.insert? key node else none) path

/-- The table with a table opened by a header. -/
def openTable (path : List String) (key : String) : Table → Option Table :=
  descend (· ≠ .braced) .implied
    (fun t =>
      match t.get? key with
      | none => some (t.put key (.table (empty .header)))
      | some (.table ⟨.implied, entries⟩) => some (t.put key (.table ⟨.header, entries⟩))
      | some _ => none) path

/-- The table with one more table among those that share a header. -/
def openElement (path : List String) (key : String) : Table → Option Table :=
  descend (· ≠ .braced) .implied
    (fun t =>
      match t.get? key with
      | none => some (t.put key (.tables [empty .header]))
      | some (.tables contents) => some (t.put key (.tables (contents ++ [empty .header])))
      | some _ => none) path

/-- Change the table that was opened last, given by its path. -/
def changeOpen (path : List String) (change : Table → Option Table) : Table → Option Table :=
  descend (fun _ => true) .header change path

end Table
end ContractAbi.Toml
