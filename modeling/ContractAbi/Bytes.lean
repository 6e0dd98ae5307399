/-!
# Byte sequences and big-endian numbers

Everything on the wire is a sequence of bytes.  A number below `256 ^ k` and a sequence of `k`
bytes, most significant first, are two forms of one thing: `toNat_ofNat` and `ofNat_toNat` say
that each form gives back the other.
-/

namespace ContractAbi

/-- A sequence of bytes. -/
abbrev Bytes := List UInt8

namespace Bytes

/-- The last `k` base-256 digits of a number, most significant first. -/
def ofNat : Nat → Nat → Bytes
  | 0, _ => []
  | k + 1, n => ofNat k (n / 256) ++ [n.toUInt8]

/-- The number whose base-256 digits, most significant first, are the given bytes. -/
def toNat (bytes : Bytes) : Nat :=
  bytes.foldl (fun n b => 256 * n + b.toNat) 0

@[simp] theorem length_ofNat (k n : Nat) : (ofNat k n).length = k := by
  induction k generalizing n with
  | zero => rfl
  | succ k ih => simp [ofNat, ih]

@[simp] theorem toNat_nil : toNat [] = 0 := rfl

@[simp] theorem toNat_concat (bytes : Bytes) (b : UInt8) :
    toNat (bytes ++ [b]) = 256 * toNat bytes + b.toNat := by
  simp [toNat]

/-- Keeping `k` digits of a number keeps its remainder modulo `256 ^ k`. -/
theorem toNat_ofNat (k n : Nat) : toNat (ofNat k n) = n % Nat.pow 256 k := by
  induction k generalizing n with
  | zero => simp [ofNat, Nat.mod_one]
  | succ k ih =>
      have hlast : n.toUInt8.toNat = n % 256 := by simp
      have hsplit := Nat.mod_mul (x := n) (a := 256) (b := Nat.pow 256 k)
      have hpow : Nat.pow 256 (k + 1) = 256 * Nat.pow 256 k := Nat.mul_comm _ _
      rw [ofNat, toNat_concat, ih, hlast, hpow]
      omega

/-- Every byte sequence is the digit sequence of its number. -/
theorem ofNat_toNat (k : Nat) (bytes : Bytes) (h : bytes.length = k) :
    ofNat k (toNat bytes) = bytes := by
  induction k generalizing bytes with
  | zero => simp_all [ofNat]
  | succ k ih =>
      obtain rfl | ⟨front, b, rfl⟩ := List.eq_nil_or_concat bytes
      · simp at h
      · have hb := b.toNat_lt
        have hdiv : (256 * toNat front + b.toNat) / 256 = toNat front := by omega
        have hfront : front.length = k := by simpa using h
        have hlast : (256 * toNat front + b.toNat).toUInt8 = b := by
          apply UInt8.toNat_inj.mp
          simp
        rw [List.concat_eq_append, toNat_concat, ofNat, hdiv, ih front hfront, hlast]

theorem toNat_lt (bytes : Bytes) : toNat bytes < Nat.pow 256 bytes.length := by
  rw [← ofNat_toNat bytes.length bytes rfl, toNat_ofNat, length_ofNat]
  exact Nat.mod_lt _ (Nat.pow_pos (by decide))

end Bytes
end ContractAbi
