import ContractAbi.Bytes

/-!
# Words, sizes and positions

Every slot of an encoding is one word: 256 bits, written as 32 big-endian bytes.  A `Word` is the
bit vector itself; `ofBytes_toBytes` and `toBytes_ofBytes` say that the written form loses nothing.

Sizes and positions are natural numbers with two bounds of the machine kept visible: `maxSize`, the
largest size that can be named at all, and `maxBuffer`, the largest buffer that can exist.
-/

namespace ContractAbi

/-- The number of bytes in a word. -/
def wordSize : Nat := 32

/-- The largest size or position: sizes are 64-bit numbers. -/
def maxSize : Nat := 1 <<< 64 - 1

/-- The length of the longest byte buffer that can be allocated. -/
def maxBuffer : Nat := 1 <<< 63 - 1

/-- A length rounded up to a whole number of words. -/
def paddedSize (length : Nat) : Nat :=
  (length + 31) / wordSize * wordSize

/-- One slot of an encoding. -/
abbrev Word := BitVec 256

namespace Word

/-- The big-endian form of a word. -/
def toBytes (w : Word) : Bytes :=
  Bytes.ofNat wordSize w.toNat

/-- The word whose big-endian form is given, read modulo `2 ^ 256`. -/
def ofBytes (bytes : Bytes) : Word :=
  BitVec.ofNat 256 (Bytes.toNat bytes)

/-- The word of a number, read modulo `2 ^ 256`. -/
def ofNat (n : Nat) : Word :=
  BitVec.ofNat 256 n

/-- Whether the word is a number of `bits` bits. -/
def fits (w : Word) (bits : Nat) : Bool :=
  256 ≤ bits || w.toNat < 1 <<< bits

theorem fits_iff (w : Word) (bits : Nat) : fits w bits = true ↔ w.toNat < Nat.pow 2 bits := by
  rw [fits, Nat.one_shiftLeft, Bool.or_eq_true, decide_eq_true_eq, decide_eq_true_eq]
  constructor
  · rintro (hwide | hlt)
    · exact Nat.lt_of_lt_of_le w.isLt (Nat.pow_le_pow_right (by decide) hwide)
    · exact hlt
  · exact .inr

/-- Every word is a number of 256 bits. -/
theorem lt_of_not_fits (w : Word) (bits : Nat) (h : ¬ fits w bits = true) : bits < 256 := by
  rw [fits, Bool.or_eq_true, decide_eq_true_eq] at h
  exact Nat.lt_of_not_le fun hwide => h (.inl hwide)

/-- The low bits of a word are a number of that many bits. -/
theorem fits_ofNat_mod (w : Word) (bits : Nat) :
    fits (ofNat (w.toNat % (1 <<< bits))) bits = true := by
  rw [fits_iff, ofNat, BitVec.toNat_ofNat, Nat.one_shiftLeft]
  exact Nat.lt_of_le_of_lt (Nat.mod_le _ _) (Nat.mod_lt _ (Nat.two_pow_pos bits))

@[simp] theorem length_toBytes (w : Word) : (toBytes w).length = 32 := by
  simp [toBytes, wordSize]

theorem toNat_toBytes (w : Word) : Bytes.toNat (toBytes w) = w.toNat := by
  rw [toBytes, Bytes.toNat_ofNat]
  exact Nat.mod_eq_of_lt w.isLt

@[simp] theorem ofBytes_toBytes (w : Word) : ofBytes (toBytes w) = w := by
  rw [ofBytes, toNat_toBytes, BitVec.ofNat_toNat, BitVec.setWidth_eq]

theorem toNat_ofBytes (bytes : Bytes) (h : bytes.length = 32) :
    (ofBytes bytes).toNat = Bytes.toNat bytes := by
  have hlt := Bytes.toNat_lt bytes
  rw [h] at hlt
  simpa [ofBytes] using Nat.mod_eq_of_lt hlt

theorem toBytes_ofBytes (bytes : Bytes) (h : bytes.length = 32) :
    toBytes (ofBytes bytes) = bytes := by
  rw [toBytes, toNat_ofBytes bytes h]
  exact Bytes.ofNat_toNat 32 bytes h

end Word
end ContractAbi
