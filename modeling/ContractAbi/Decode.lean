import ContractAbi.Config
import ContractAbi.Error

/-!
# Decoding values

Offsets in foreign data may point anywhere, also twice at the same place.  Every word and every byte
of content that is read is charged against a budget, the length of the data, so that decoding never
does more work than the data has bytes.  The state of a `Reader` is a `Meter` of what has been charged
so far; it is kept when reading fails.  `decode` runs on the plain sum; a meter that keeps every single
charge shows the same run at each of its points.

Positions are checked in three ways.  Where a sum is computed with a check, a sum past `maxSize` is
truncated input.  Where it is computed without one (`advance`), such a sum is `unaddressable`, and so
are a mask that no word holds (`lowBits`) and a stretch of a word that goes past its end.  An element
count is compared with the room that is left before any element is read.
-/

namespace ContractAbi

/-- What keeps account of the bytes that are read. -/
class Meter (σ : Type) where
  /-- How many bytes have been charged so far. -/
  charged : σ → Nat
  /-- The account with one more charge. -/
  charge : σ → Nat → σ

/-- The sum of the charges, which stops at `maxSize`. -/
instance : Meter Nat := ⟨id, fun total count => min maxSize (total + count)⟩

/-- A computation that charges what it reads. -/
abbrev Reader (σ : Type) := EStateM AbiError σ

namespace Decode

variable {σ : Type} [Meter σ]

/-- Data that is read at positions. -/
abbrev Input := Array UInt8

/-- The error of data that would have to have the given length. -/
def truncated (data : Input) (needed : Nat) : AbiError :=
  .truncatedInput needed data.size

/-- Charge a number of bytes, unless more would be charged than there is data. -/
def charge (data : Input) (count : Nat) : Reader σ Unit := do
  let account := Meter.charge (← get) count
  let total := Meter.charged account
  if data.size < total then throw (truncated data total)
  set account

/-- A position moved on without a check. -/
def advance (position count : Nat) : Reader σ Nat :=
  if maxSize < position + count then throw .unaddressable else pure (position + count)

/-- A position moved on with a check. -/
def checkedAdvance (data : Input) (position count : Nat) : Reader σ Nat :=
  if maxSize < position + count then throw (truncated data maxSize)
  else pure (position + count)

/-- The `count` bytes at a position, not yet charged. -/
def slice (data : Input) (position count : Nat) : Reader σ Bytes := do
  let stop ← checkedAdvance data position count
  if data.size < stop then throw (truncated data stop)
  return (data.extract position stop).toList

/-- A slice of the data is a stretch of the list of its bytes. -/
theorem toList_extract_add (data : Input) (position count : Nat) :
    (data.extract position (position + count)).toList =
      (data.toList.drop position).take count := by
  simp [List.extract_eq_take_drop]

/-- The word at a position. -/
def word (data : Input) (position : Nat) : Reader σ Word := do
  let bytes ← slice data position wordSize
  charge data wordSize
  return Word.ofBytes bytes

/-- The offset at a position: a whole number of words that is a size. -/
def offset (data : Input) (position : Nat) : Reader σ Nat := do
  let w ← word data position
  if w.toNat % wordSize ≠ 0 then throw (.malformedOffset (.misaligned w position))
  if maxSize < w.toNat then throw (.malformedOffset (.tooLarge w position))
  return w.toNat

/-- The length at a position: at most the length of the data. -/
def length (data : Input) (position : Nat) : Reader σ Nat := do
  let w ← word data position
  if data.size < w.toNat then throw (truncated data (min maxSize w.toNat))
  return w.toNat

/-- The bytes behind the length at a position. -/
def content (data : Input) (position : Nat) : Reader σ Bytes := do
  let count ← length data position
  let start ← advance position wordSize
  let bytes ← slice data start count
  charge data count
  return bytes

/-- Refuse elements that cannot fit between a position and the end of the data. -/
def checkRoom (data : Input) (start count stride : Nat) : Reader σ Unit :=
  let needed := min maxSize (count * stride + start)
  if data.size < needed then throw (truncated data needed) else pure ()

/-- The error of a word that is not the word of a value. -/
def dirty (t : AbiType) (w : Word) : AbiError :=
  .typeMismatch (.dirtyWord t.text w)

/-- The low bits of a word.  The mask is formed without a check, and there is none of 256 bits. -/
def lowBits (w : Word) (bits : Nat) : Reader σ Word :=
  if 256 ≤ bits then throw .unaddressable else pure (Word.ofNat (w.toNat % (1 <<< bits)))

/-- The signed integer of `bits` bits at a position.  Strictly read, the word has to be the word of
such an integer; otherwise the bits above it are ignored. -/
def signed (config : Config) (data : Input) (t : AbiType) (bits position : Nat) :
    Reader σ Int256 := do
  let w ← word data position
  if config.strictPadding then
    if (Int256.ofWord w).fits bits then return Int256.ofWord w else throw (dirty t w)
  else return Int256.ofLowBits w bits

/-- One component of a region whose head is at `cursor`, and the position of the next head.  The
value is read by `read`, in place or behind an offset from the start of the region. -/
def component (data : Input) (t : AbiType) (read : Nat → Reader σ Value) (start cursor : Nat) :
    Reader σ (Value × Nat) := do
  if t.isDynamic then
    let distance ← offset data cursor
    let position ← checkedAdvance data start distance
    let v ← read position
    let next ← advance cursor wordSize
    return (v, next)
  else
    let v ← read cursor
    let next ← checkedAdvance data cursor t.headSize
    return (v, next)

/-- A number of components that are read alike, the first head being at `cursor`. -/
def elements (read : Nat → Reader σ (Value × Nat)) : Nat → Nat → Reader σ (List Value)
  | 0, _ => return []
  | count + 1, cursor => do
      let (v, next) ← read cursor
      let vs ← elements read count next
      return v :: vs

mutual

/-- The value of a descriptor whose encoding starts at a position. -/
def value (config : Config) (data : Input) : AbiType → Nat → Reader σ Value
  | .address, position => do
      let w ← word data position
      if config.strictPadding && !Word.fits w 160 then throw (dirty .address w)
      return .address (Address.ofWord w)
  | .uint n, position => do
      let w ← word data position
      if Word.fits w n then return .uint n w
      else if config.strictPadding then throw (dirty (.uint n) w)
      else do
        let low ← lowBits w n
        return .uint n low
  | .int n, position => do
      let v ← signed config data (.int n) n position
      return .int n v
  | .bool, position => do
      let w ← word data position
      if config.strictPadding && !Word.fits w 1 then throw (dirty .bool w)
      return .bool (w != 0)
  | .fixedBytes n, position => do
      let w ← word data position
      let bytes := Word.toBytes w
      if wordSize < n then throw .unaddressable
      if config.strictPadding && (bytes.drop n).any (· != 0) then throw (dirty (.fixedBytes n) w)
      return .fixedBytes (bytes.take n)
  | .fixed m n, position => do
      let raw ← signed config data (.fixed m n) m position
      match Decimal.ofWire raw n config.scaling with
      | .ok v => return .fixed m n v
      | .error cause => throw (.ofScale cause)
  | .bytes, position => do
      let bytes ← content data position
      return .bytes bytes
  | .string, position => do
      let bytes ← content data position
      match Text.Utf8.decode bytes with
      | .ok s => return .string s
      | .error cause => throw (.typeMismatch (.notUtf8 cause))
  | .array e, position => do
      let count ← length data position
      let start ← advance position wordSize
      checkRoom data start count e.headSize
      let vs ← elements (component data e (value config data e) start) count start
      return .array e vs
  | .fixedArray e n, position => do
      checkRoom data position n e.headSize
      let vs ← elements (component data e (value config data e) position) n position
      return .fixedArray e vs
  | .tuple fs, position => do
      let vs ← fields config data fs position position
      return .tuple vs

/-- The items of a tuple whose region begins at `start`, the first head being at `cursor`. -/
def fields (config : Config) (data : Input) : List Param → Nat → Nat → Reader σ (List Value)
  | [], _, _ => return []
  | ⟨_, t⟩ :: fs, start, cursor => do
      let (v, next) ← component data t (value config data t) start cursor
      let vs ← fields config data fs start next
      return v :: vs

end

/-- The values of a region that begins at `start`, the first head being at `cursor`. -/
def region (config : Config) (data : Input) : List AbiType → Nat → Nat → Reader σ (List Value)
  | [], _, _ => return []
  | t :: ts, start, cursor => do
      let (v, next) ← component data t (value config data t) start cursor
      let vs ← region config data ts start next
      return v :: vs

end Decode

/-- The values of the given descriptors at the front of the data.  What follows them is ignored. -/
def decode (config : Config) (ts : List AbiType) (data : Bytes) :
    Except AbiError (List Value) := do
  (AbiType.validateAll config.maxDepth ts).mapError .unsupportedType
  match (Decode.region config data.toArray ts 0 0).run (0 : Nat) with
  | .ok vs _ => .ok vs
  | .error e _ => .error e

end ContractAbi
