import ContractAbi.Config
import ContractAbi.Error
import ContractAbi.Region

/-!
# Encoding values

Values are encoded against declared descriptors.  A value that does not go with its descriptor is an
error, found in the order in which values are written.  The heads of a region are sized from the
descriptors alone, before anything is written; a region whose heads pass `maxBuffer` cannot be
written at all.
-/

namespace ContractAbi
namespace Encode

/-- Bytes up to the next word boundary, filled with zeros. -/
def padded (content : Bytes) : Bytes :=
  content ++ List.replicate (paddedSize content.length - content.length) 0

/-- Bytes at the front of a word, filled with zeros. -/
def inWord (content : Bytes) : Bytes :=
  content ++ List.replicate (wordSize - content.length) 0

/-- The length of a byte sequence, then the sequence up to the next word boundary. -/
def lengthPrefixed (content : Bytes) : Bytes :=
  Word.toBytes (Word.ofNat content.length) ++ padded content

/-- The error of a value that does not go with its descriptor. -/
def mismatch (t : AbiType) (v : Value) : AbiError :=
  .typeMismatch (.value t.text v)

/-- What the heads of a region with the given descriptors take, unless no buffer is that long. -/
def regionHeadSize (ts : List AbiType) : Except AbiError Nat :=
  let total := ts.foldl (fun total t => total + t.headSize) 0
  if maxBuffer < total then .error .unaddressable else .ok total

/-- The region of the given parts, whose descriptors are given as well. -/
def region (ts : List AbiType) (parts : Except AbiError (List Part)) : Except AbiError Bytes := do
  let headSize ← regionHeadSize ts
  let ps ← parts
  return Part.assemble headSize ps

/-- The parts of values that share a descriptor. -/
def elementParts (dynamic : Bool) (encode : Value → Except AbiError Bytes) :
    List Value → Except AbiError (List Part)
  | [] => .ok []
  | v :: vs => do
      let body ← encode v
      let ps ← elementParts dynamic encode vs
      return ⟨dynamic, body⟩ :: ps

mutual

/-- The encoding of a value under a descriptor. -/
def value (scaling : Scaling) : AbiType → Value → Except AbiError Bytes
  | .address, .address a => .ok (Word.toBytes a.toWord)
  | .uint n, .uint m w =>
      if n = m ∧ Word.fits w n then .ok (Word.toBytes w) else .error (mismatch (.uint n) (.uint m w))
  | .int n, .int m v =>
      if n = m ∧ v.fits n then .ok (Word.toBytes v.toWord)
      else .error (mismatch (.int n) (.int m v))
  | .bool, .bool b => .ok (Word.toBytes (Word.ofNat b.toNat))
  | .fixedBytes n, .fixedBytes content =>
      if content.length = n then .ok (inWord content)
      else .error (mismatch (.fixedBytes n) (.fixedBytes content))
  | .bytes, .bytes content => .ok (lengthPrefixed content)
  | .string, .string s => .ok (lengthPrefixed (Text.Utf8.encode s))
  | .fixed m n, .fixed m' n' v =>
      if m = m' ∧ n = n' then
        match v.toWire n scaling with
        | .error cause => .error (.ofScale cause)
        | .ok raw =>
            if raw.fits m then .ok (Word.toBytes raw.toWord)
            else .error (.typeMismatch (.tooWide v (AbiType.fixed m n).text))
      else .error (mismatch (.fixed m n) (.fixed m' n' v))
  | .array e, .array carried vs =>
      if AbiType.compatible carried e then do
        let body ← region (List.replicate vs.length e)
          (elementParts e.isDynamic (value scaling e) vs)
        return Word.toBytes (Word.ofNat vs.length) ++ body
      else .error (mismatch (.array e) (.array carried vs))
  | .fixedArray e n, .fixedArray _ vs =>
      if vs.length = n then
        region (List.replicate vs.length e) (elementParts e.isDynamic (value scaling e) vs)
      else .error (.arityMismatch n vs.length)
  | .tuple fs, .tuple vs =>
      if fs.length = vs.length then region (fs.map Param.kind) (fieldParts scaling fs vs)
      else .error (.typeArityMismatch fs.length vs.length)
  | t, v => .error (mismatch t v)

/-- The parts of the items of a tuple. -/
def fieldParts (scaling : Scaling) : List Param → List Value → Except AbiError (List Part)
  | ⟨_, t⟩ :: fs, v :: vs => do
      let body ← value scaling t v
      let ps ← fieldParts scaling fs vs
      return ⟨t.isDynamic, body⟩ :: ps
  | _, _ => .ok []

end

/-- The parts of values, each under its own descriptor. -/
def valueParts (scaling : Scaling) : List AbiType → List Value → Except AbiError (List Part)
  | t :: ts, v :: vs => do
      let body ← value scaling t v
      let ps ← valueParts scaling ts vs
      return ⟨t.isDynamic, body⟩ :: ps
  | _, _ => .ok []

end Encode

/-- The encoding of values under declared descriptors. -/
def encodeParams (config : Config) (ts : List AbiType) (vs : List Value) :
    Except AbiError Bytes := do
  if ts.length ≠ vs.length then
    throw (.typeArityMismatch ts.length vs.length)
  (AbiType.validateAll config.maxDepth ts).mapError .unsupportedType
  Encode.region ts (Encode.valueParts config.scaling ts vs)

/-- The encoding of values under their own descriptors. -/
def encode (config : Config) (vs : List Value) : Except AbiError Bytes :=
  encodeParams config (vs.map Value.typeOf) vs

/-- Bytes with the standard encoding of values behind them: call data for a selector, a deployment
payload for bytecode. -/
def encodeBehind (front : Bytes) (vs : List Value) : Except AbiError Bytes := do
  let arguments ← encode Config.standard vs
  return front ++ arguments

end ContractAbi
