import ContractAbi.Word
import ContractAbi.Text.Hex
import ContractAbi.Text.Utf8

/-!
# Account addresses

An address is 160 bits.  In a word it takes the low 20 bytes; the 12 bytes above it are padding that
`ofWord` ignores, so that `ofWord (toWord a) = a` while a word with dirty padding is not recovered.
-/

namespace ContractAbi

/-- An account address. -/
structure Address where
  bits : BitVec 160
deriving DecidableEq, Repr

/-- Why something is not an address. -/
inductive AddressError where
  | invalidHex (cause : Text.HexError)
  /-- The number of bytes is not 20. -/
  | invalidLength (length : Nat)
deriving DecidableEq, Repr

namespace AddressError

/-- The text of the error. -/
def message : AddressError → String
  | invalidHex cause => "invalid hex string: " ++ cause.message
  | invalidLength length => "invalid address length: expected 20 bytes, got " ++ toString length

end AddressError

namespace Address

/-- The number of bytes in an address. -/
def size : Nat := 20

/-- The big-endian form of an address. -/
def toBytes (a : Address) : Bytes :=
  Bytes.ofNat size a.bits.toNat

/-- The address with the given big-endian form. -/
def ofBytes (bytes : Bytes) : Except AddressError Address :=
  if bytes.length = size then .ok ⟨BitVec.ofNat 160 (Bytes.toNat bytes)⟩
  else .error (.invalidLength bytes.length)

/-- The bytes of a text without the marker `0x` at its start. -/
def unmarked : Bytes → Bytes
  | 0x30 :: 0x78 :: rest => rest
  | bytes => bytes

/-- The address written in hexadecimal digits, with or without the marker `0x`. -/
def ofHex (s : String) : Except AddressError Address :=
  match Text.Hex.decode (unmarked (Text.Utf8.encode s)) with
  | .ok bytes => ofBytes bytes
  | .error cause => .error (.invalidHex cause)

/-- The digits of an address behind the marker `0x`. -/
def toHex (a : Address) : String :=
  Text.Hex.encodeMarked a.toBytes

/-- The low 20 bytes of a word. -/
def ofWord (w : Word) : Address :=
  ⟨w.setWidth 160⟩

/-- The word with the address in its low 20 bytes and zeros above. -/
def toWord (a : Address) : Word :=
  a.bits.setWidth 256

/-- The address of no account. -/
def zero : Address := ⟨0⟩

/-- Whether this is the address of no account. -/
def isZero (a : Address) : Bool :=
  a == zero

/-- Addresses are ordered as numbers, which is the order of their bytes. -/
instance : Ord Address where
  compare a b := compare a.bits.toNat b.bits.toNat

@[simp] theorem ofWord_toWord (a : Address) : ofWord (toWord a) = a := by
  cases a
  simp [ofWord, toWord]

/-- A word is the word of an address exactly when its padding is clean. -/
theorem toWord_ofWord_iff (w : Word) : toWord (ofWord w) = w ↔ w.toNat < 1 <<< 160 := by
  constructor
  · intro h
    rw [← h]
    simp only [toWord, BitVec.toNat_setWidth]
    have := (ofWord w).bits.isLt
    omega
  · intro h
    apply BitVec.eq_of_toNat_eq
    simp only [toWord, ofWord, BitVec.toNat_setWidth]
    omega

end Address
end ContractAbi
