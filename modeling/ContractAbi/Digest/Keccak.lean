import ContractAbi.Word

/-!
# Keccak-256

The sponge over the permutation of 25 lanes of 64 bits, with a rate of 136 bytes and the padding
that begins with the byte `0x01`.  Each step of a round is a definition of its own; lanes have
coordinates `x` and `y` modulo five.
-/

namespace ContractAbi.Keccak

/-- The state of the sponge: lane `(x, y)` stands at index `x + 5 * y`. -/
abbrev State := Vector UInt64 25

/-- The lane at the given coordinates modulo five. -/
def lane (a : State) (x y : Nat) : UInt64 :=
  have h : x % 5 + 5 * (y % 5) < 25 := by omega
  a[x % 5 + 5 * (y % 5)]

/-- The state whose lanes are given by their coordinates. -/
def ofLanes (f : Nat → Nat → UInt64) : State :=
  Vector.ofFn (fun i => f (i.val % 5) (i.val / 5))

/-- Rotation to the left; a rotation by zero changes nothing, as shifts go modulo 64. -/
def rotate (v : UInt64) (n : Nat) : UInt64 :=
  (v <<< n.toUInt64) ||| (v >>> (64 - n).toUInt64)

/-- Mix into every lane the parities of two neighbouring columns. -/
def theta (a : State) : State :=
  let parities : Vector UInt64 5 := Vector.ofFn (fun x =>
    lane a x.val 0 ^^^ lane a x.val 1 ^^^ lane a x.val 2 ^^^ lane a x.val 3 ^^^ lane a x.val 4)
  let parity (x : Nat) : UInt64 :=
    have h : x % 5 < 5 := by omega
    parities[x % 5]
  ofLanes (fun x y => lane a x y ^^^ (parity (x + 4) ^^^ rotate (parity (x + 1)) 1))

/-- By how much each lane is rotated. -/
def rotations : Vector Nat 25 :=
  #v[0, 1, 62, 28, 27, 36, 44, 6, 55, 20, 3, 10, 43, 25, 39, 41, 45, 15, 21, 8, 18, 2, 61, 56, 14]

/-- The rotation of the lane at the given coordinates modulo five. -/
def rotation (x y : Nat) : Nat :=
  have h : x % 5 + 5 * (y % 5) < 25 := by omega
  rotations[x % 5 + 5 * (y % 5)]

/-- Rotate every lane and move it: lane `(x, y)` goes to `(y, 2 * x + 3 * y)`, so the lane that
arrives at `(x, y)` comes from `(x + 3 * y, x)`. -/
def rhoPi (a : State) : State :=
  ofLanes (fun x y => rotate (lane a (x + 3 * y) x) (rotation (x + 3 * y) x))

/-- Combine every lane with the next two of its row. -/
def chi (a : State) : State :=
  ofLanes (fun x y => lane a x y ^^^ (~~~ (lane a (x + 1) y) &&& lane a (x + 2) y))

/-- Mix a constant into the first lane. -/
def iota (constant : UInt64) (a : State) : State :=
  a.set 0 (lane a 0 0 ^^^ constant)

/-- One round. -/
def round (a : State) (constant : UInt64) : State :=
  iota constant (chi (rhoPi (theta a)))

/-- The constants of the 24 rounds. -/
def roundConstants : List UInt64 := [
  0x0000000000000001, 0x0000000000008082, 0x800000000000808A, 0x8000000080008000,
  0x000000000000808B, 0x0000000080000001, 0x8000000080008081, 0x8000000000008009,
  0x000000000000008A, 0x0000000000000088, 0x0000000080008009, 0x000000008000000A,
  0x000000008000808B, 0x800000000000008B, 0x8000000000008089, 0x8000000000008003,
  0x8000000000008002, 0x8000000000000080, 0x000000000000800A, 0x800000008000000A,
  0x8000000080008081, 0x8000000000008080, 0x0000000080000001, 0x8000000080008008]

/-- The permutation. -/
def permute (a : State) : State :=
  roundConstants.foldl round a

/-- The number of bytes that are absorbed between two permutations. -/
def rate : Nat := 136

/-- What is appended to a message of the given length to fill its last block. -/
def padding (length : Nat) : Bytes :=
  match rate - length % rate with
  | 1 => [0x81]
  | n => 0x01 :: (List.replicate (n - 2) 0 ++ [0x80])

/-- The number with the given bytes, least significant first. -/
def littleEndian (bytes : Bytes) : UInt64 :=
  bytes.foldr (fun b n => n <<< 8 ||| b.toUInt64) 0

/-- Mix a block into the first lanes of the state. -/
def mixBlock (a : State) (block : Bytes) : State :=
  Vector.ofFn (fun i =>
    if 8 * i.val < rate then a[i] ^^^ littleEndian ((block.drop (8 * i.val)).take 8) else a[i])

/-- Absorb a number of blocks. -/
def absorb : Nat → State → Bytes → State
  | 0, a, _ => a
  | blocks + 1, a, bytes =>
      absorb blocks (permute (mixBlock a (bytes.take rate))) (bytes.drop rate)

/-- The eight bytes of a lane, least significant first. -/
def laneBytes (v : UInt64) : Bytes :=
  (List.range 8).map (fun i => (v >>> (8 * i).toUInt64).toUInt8)

/-- The Keccak-256 digest of a message. -/
def digest (message : Bytes) : Word :=
  let padded := message ++ padding message.length
  let final := absorb (padded.length / rate) (Vector.replicate 25 0) padded
  Word.ofBytes ((List.range 4).flatMap (fun x => laneBytes (lane final x 0)))

end ContractAbi.Keccak
