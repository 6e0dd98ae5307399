import ContractAbi.Word

/-!
# SM3

The hash of blocks of 64 bytes over eight registers of 32 bits.  A block is expanded into 68 words,
which drive 64 steps; the registers after the steps are combined with those before.
-/

namespace ContractAbi.Sm3

/-- The chaining registers. -/
structure Registers where
  a : UInt32
  b : UInt32
  c : UInt32
  d : UInt32
  e : UInt32
  f : UInt32
  g : UInt32
  h : UInt32
deriving DecidableEq, Repr

/-- The registers before the first block. -/
def initial : Registers :=
  ⟨0x7380166F, 0x4914B2B9, 0x172442D7, 0xDA8A0600, 0xA96F30BC, 0x163138AA, 0xE38DEE4D, 0xB0FB0E4E⟩

/-- Rotation to the left; a rotation by zero changes nothing, as shifts go modulo 32. -/
def rotate (v : UInt32) (n : Nat) : UInt32 :=
  (v <<< n.toUInt32) ||| (v >>> (32 - n).toUInt32)

/-- The permutation of register values. -/
def permuteRegister (v : UInt32) : UInt32 :=
  v ^^^ rotate v 9 ^^^ rotate v 17

/-- The permutation of message words. -/
def permuteWord (v : UInt32) : UInt32 :=
  v ^^^ rotate v 15 ^^^ rotate v 23

/-- The number with the given bytes, most significant first. -/
def bigEndian (bytes : Bytes) : UInt32 :=
  bytes.foldl (fun n b => n <<< 8 ||| b.toUInt32) 0

/-- The 16 words of a block. -/
def blockWords (block : Bytes) : Array UInt32 :=
  ((List.range 16).map (fun i => bigEndian ((block.drop (4 * i)).take 4))).toArray

/-- The words of a block with the word that follows them. -/
def extend (w : Array UInt32) : Array UInt32 :=
  let back (k : Nat) : UInt32 := w.getD (w.size - k) 0
  w.push (permuteWord (back 16 ^^^ back 9 ^^^ rotate (back 3) 15) ^^^ rotate (back 13) 7 ^^^ back 6)

/-- The 68 words that a block is expanded into. -/
def expand (block : Bytes) : Array UInt32 :=
  Nat.repeat extend 52 (blockWords block)

/-- The constant of a step. -/
def stepConstant (j : Nat) : UInt32 :=
  rotate (if j < 16 then 0x79CC4519 else 0x7A879D8A) (j % 32)

/-- How the first three registers are combined in a step. -/
def combineFirst (j : Nat) (x y z : UInt32) : UInt32 :=
  if j < 16 then x ^^^ y ^^^ z else (x &&& y) ||| (x &&& z) ||| (y &&& z)

/-- How the registers from the fifth to the seventh are combined in a step. -/
def combineSecond (j : Nat) (x y z : UInt32) : UInt32 :=
  if j < 16 then x ^^^ y ^^^ z else (x &&& y) ||| (~~~ x &&& z)

/-- One step. -/
def step (w : Array UInt32) (r : Registers) (j : Nat) : Registers :=
  let s := rotate (rotate r.a 12 + r.e + stepConstant j) 7
  let t := s ^^^ rotate r.a 12
  let first := combineFirst j r.a r.b r.c + r.d + t + (w.getD j 0 ^^^ w.getD (j + 4) 0)
  let second := combineSecond j r.e r.f r.g + r.h + s + w.getD j 0
  { a := first, b := r.a, c := rotate r.b 9, d := r.c
    e := permuteRegister second, f := r.e, g := rotate r.f 19, h := r.g }

/-- The registers after a block. -/
def compress (r : Registers) (block : Bytes) : Registers :=
  let w := expand block
  let s := (List.range 64).foldl (step w) r
  ⟨r.a ^^^ s.a, r.b ^^^ s.b, r.c ^^^ s.c, r.d ^^^ s.d, r.e ^^^ s.e, r.f ^^^ s.f, r.g ^^^ s.g,
    r.h ^^^ s.h⟩

/-- What is appended to a message of the given length: a set bit, zeros, and the number of bits. -/
def padding (length : Nat) : Bytes :=
  0x80 :: (List.replicate ((119 - length % 64) % 64) 0 ++ Bytes.ofNat 8 (8 * length))

/-- Go through a number of blocks. -/
def absorb : Nat → Registers → Bytes → Registers
  | 0, r, _ => r
  | blocks + 1, r, bytes => absorb blocks (compress r (bytes.take 64)) (bytes.drop 64)

/-- The SM3 digest of a message. -/
def digest (message : Bytes) : Word :=
  let padded := message ++ padding message.length
  let r := absorb (padded.length / 64) initial padded
  Word.ofBytes ([r.a, r.b, r.c, r.d, r.e, r.f, r.g, r.h].flatMap
    (fun v => Bytes.ofNat 4 v.toNat))

end ContractAbi.Sm3
