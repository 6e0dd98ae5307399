import ContractAbi.Int256

/-!
# Signed numbers as sign and magnitude

A signed 256-bit number can be kept as an unsigned magnitude and a sign.  There are more such pairs
than numbers: the magnitude may be out of range, and zero may carry a sign.  Only `ofParts?` checks
what it makes; the other operations compute on words, and that they stay within the pairs that stand
for numbers is a property of each of them.

`Int256.stored` is the pair of an `Int256`.
-/

namespace ContractAbi

/-- An unsigned magnitude and a sign. -/
structure SignMagnitude where
  magnitude : Word
  negative : Bool
deriving DecidableEq, Repr

namespace SignMagnitude

/-- Zero. -/
def zero : SignMagnitude := ⟨0, false⟩

/-- The magnitude of the smallest number, which no positive number has. -/
def limit : Word := (1 : Word) <<< 255

/-- The number with the given magnitude and sign, if it is in range; there is only one zero. -/
def ofParts? (magnitude : Word) (negative : Bool) : Option SignMagnitude :=
  if magnitude = 0 then some zero
  else if (negative && limit < magnitude) || (!negative && limit ≤ magnitude) then none
  else some ⟨magnitude, negative⟩

/-- A signed number of 128 bits. -/
def ofInt128 (x : BitVec 128) : SignMagnitude :=
  ⟨BitVec.ofNat 256 x.toInt.natAbs, x.toInt < 0⟩

/-- Whether the number is zero. -/
def isZero (v : SignMagnitude) : Bool := v.magnitude = 0

/-- Whether the number is a signed number of `bits` bits; only negative numbers may reach the bound. -/
def fits (v : SignMagnitude) (bits : Nat) : Bool :=
  if 256 ≤ bits then true
  else if bits = 0 then v.isZero
  else
    let bound := (1 : Word) <<< (bits - 1)
    if v.negative then v.magnitude ≤ bound else v.magnitude < bound

/-- All bits inverted and one added, without regard to the carry. -/
def twosComplement (w : Word) : Word := ~~~w + 1

/-- The two's complement word. -/
def toWord (v : SignMagnitude) : Word :=
  if v.negative then twosComplement v.magnitude else v.magnitude

/-- Whether the top bit of a byte is set. -/
def topBit (b : UInt8) : Bool := b &&& 0x80 ≠ 0

/-- The number whose two's complement word is given; the sign is the top bit of the first byte. -/
def ofWord (w : Word) : SignMagnitude :=
  if topBit ((Word.toBytes w).getD 0 0) then ⟨twosComplement w, true⟩ else ⟨w, false⟩

/-- The word with all bytes in front of the last `width` set to the sign of these. -/
def extended (w : Word) (width : Nat) : Word :=
  let front := wordSize - width
  let bytes := Word.toBytes w
  let fill : UInt8 := if topBit (bytes.getD front 0) then 0xff else 0
  Word.ofBytes (List.replicate front fill ++ bytes.drop front)

/-- The two's complement number in the low `bits` bits of a word, `bits` being cut to whole bytes. -/
def ofLowBits (w : Word) (bits : Nat) : SignMagnitude :=
  ofWord (extended w (Int256.byteWidth bits))

/-- The number of bits that a word needs. -/
def bitLength (w : Word) : Nat :=
  if w = 0 then 0 else w.toNat.log2 + 1

/-- The number, if it is a signed number of 128 bits. -/
def toInt128? (v : SignMagnitude) : Option (BitVec 128) :=
  if 127 < bitLength v.magnitude then
    if v.negative && v.magnitude = (1 : Word) <<< 127 then some (BitVec.intMin 128) else none
  else
    let magnitude := v.magnitude.setWidth 128
    some (if v.negative then -magnitude else magnitude)

/-- The number in decimal. -/
def text (v : SignMagnitude) : String :=
  String.ofList ((if v.negative then ['-'] else []) ++ Text.numeral v.magnitude.toNat)

/-- The word with one more decimal digit behind it, if that fits. -/
def pushDigit? (w : Word) (c : Char) : Option Word :=
  let n := 10 * w.toNat + (c.toNat - '0'.toNat)
  if n < 1 <<< 256 then some (Word.ofNat n) else none

/-- The word that digits stand for, given up at the first digit with which it does not fit. -/
def ofDigits? (digits : List Char) : Option Word :=
  digits.foldlM pushDigit? 0

/-- The number that a text denotes: blanks, an optional sign, digits, blanks.  Digits may be too many
for a word, and a word may be too large for its sign. -/
def parse (s : String) : Except Int256.ParseError SignMagnitude :=
  let cs := Text.trim s.toList
  let (negative, digits) := Text.splitSign cs
  if digits.isEmpty || !Text.allDigits digits then .error (.notAnInteger (String.ofList cs))
  else
    match (ofDigits? digits).bind (ofParts? · negative) with
    | some v => .ok v
    | none => .error (.outOfRange (String.ofList cs))

/-- The integer that the pair stands for. -/
def toInt (v : SignMagnitude) : Int :=
  if v.negative then -(v.magnitude.toNat : Int) else v.magnitude.toNat

end SignMagnitude

/-- The pair of a number. -/
def Int256.stored (v : Int256) : SignMagnitude :=
  ⟨BitVec.ofNat 256 v.magnitude, v.isNegative⟩

end ContractAbi
