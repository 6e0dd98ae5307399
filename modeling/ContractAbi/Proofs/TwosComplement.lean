import ContractAbi.Proofs.IntegerText
import ContractAbi.Proofs.SignExtension

/-!
# Two's complement

Pairs of a magnitude and a sign come from five places: a checked magnitude, a number of 128 bits, a
word, the low bits of a word, and a text.  None of them lets a pair out that stands for no number
(`obtained_iff`), although only the first looks at what it makes.  On the pairs that do come out, words,
widths and numbers of 128 bits are what they are for the integer that the pair stands for
(`obtained_faithful`).
-/

namespace ContractAbi
namespace SignMagnitude

/-- All ways of making a pair. -/
inductive Obtained : SignMagnitude → Prop
  | parts {magnitude : Word} {negative : Bool} {r : SignMagnitude}
      (h : ofParts? magnitude negative = some r) : Obtained r
  | int128 (x : BitVec 128) : Obtained (ofInt128 x)
  | word (w : Word) : Obtained (ofWord w)
  | lowBits (w : Word) (bits : Nat) : Obtained (ofLowBits w bits)
  | text {s : String} {r : SignMagnitude} (h : parse s = .ok r) : Obtained r

/-- A pair is in range and has the word, the widths and the number of 128 bits of its integer. -/
structure Faithful (r : SignMagnitude) : Prop extends Canonical r where
  toBytes_toWord : Word.toBytes r.toWord = Bytes.ofNat wordSize (r.toInt % 2 ^ 256).toNat
  ofWord_toWord : ofWord r.toWord = r
  fits_iff : ∀ bits, 1 ≤ bits →
    (r.fits bits = true ↔ -2 ^ (bits - 1) ≤ r.toInt ∧ r.toInt < 2 ^ (bits - 1))
  isSome_toInt128? : r.toInt128?.isSome = true ↔ -2 ^ 127 ≤ r.toInt ∧ r.toInt < 2 ^ 127
  ofInt128_of_toInt128? : ∀ x, r.toInt128? = some x → x.toInt = r.toInt ∧ ofInt128 x = r

/-- Numbers can be kept as pairs: wherever a number is made its pair is made, and the pair answers as
the number does. -/
structure KeepsNumbers : Prop where
  made_of_parts : ∀ magnitude negative, ofParts? magnitude negative =
    (Int256.ofSignMagnitude? negative magnitude.toNat).map Int256.stored
  made_of_int128 : ∀ x, ofInt128 x = (Int256.ofInt128 x).stored
  made_of_word : ∀ w, ofWord w = (Int256.ofWord w).stored
  made_of_lowBits : ∀ w bits, ofLowBits w bits = (Int256.ofLowBits w bits).stored
  made_of_text : ∀ s, parse s = (Int256.parse s).map Int256.stored
  same_word : ∀ v : Int256, v.stored.toWord = v.toWord
  same_widths : ∀ (v : Int256) bits, v.stored.fits bits = v.fits bits
  same_int128 : ∀ v : Int256, v.stored.toInt128?.map BitVec.toInt = v.toInt128?

theorem keepsNumbers : KeepsNumbers where
  made_of_parts := ofParts?_eq
  made_of_int128 := ofInt128_eq
  made_of_word := ofWord_eq
  made_of_lowBits := ofLowBits_eq
  made_of_text := parse_eq
  same_word := toWord_stored
  same_widths := fits_stored
  same_int128 := toInt128?_stored

/-- What can be made are the pairs of the numbers. -/
theorem obtained_iff (r : SignMagnitude) : Obtained r ↔ ∃ v : Int256, r = v.stored := by
  constructor
  · intro h
    cases h with
    | parts h =>
        rw [ofParts?_eq, Option.map_eq_some_iff] at h
        obtain ⟨v, -, rfl⟩ := h
        exact ⟨v, rfl⟩
    | int128 x => exact ⟨_, ofInt128_eq x⟩
    | word w => exact ⟨_, ofWord_eq w⟩
    | lowBits w bits => exact ⟨_, ofLowBits_eq w bits⟩
    | @text s _ h =>
        rw [parse_eq] at h
        cases hparse : Int256.parse s with
        | error e => simp [hparse, Except.map] at h
        | ok v =>
            rw [hparse] at h
            exact ⟨v, (Except.ok.inj h).symm⟩
  · rintro ⟨v, rfl⟩
    have hword : v.stored = ofWord v.toWord := by
      rw [ofWord_eq, Int256.ofWord_toWord]
    rw [hword]
    exact .word _

theorem toBytes_toWord (r : SignMagnitude) :
    Word.toBytes r.toWord = Bytes.ofNat wordSize (r.toInt % 2 ^ 256).toNat := by
  rw [toWord_eq, Word.toBytes, BitVec.toNat_ofInt]
  rfl

theorem ofInt128_of_toInt128? (v : Int256) (x : BitVec 128) (h : v.stored.toInt128? = some x) :
    x.toInt = v.toInt ∧ ofInt128 x = v.stored := by
  have hvalue := toInt128?_stored v
  rw [h, Option.map_some, Int256.toInt128?] at hvalue
  split at hvalue
  · have hint : x.toInt = v.toInt := Option.some.inj hvalue
    have hnumber : Int256.ofInt128 x = v := Int256.ext hint
    exact ⟨hint, by rw [ofInt128_eq, hnumber]⟩
  · contradiction

theorem faithful_stored (v : Int256) : Faithful v.stored where
  toCanonical := canonical_stored v
  toBytes_toWord := toBytes_toWord v.stored
  ofWord_toWord := by rw [toWord_stored, ofWord_eq, Int256.ofWord_toWord]
  fits_iff bits hbits := by
    rw [fits_stored, toInt_stored]
    exact Int256.fits_iff v bits hbits
  isSome_toInt128? := by
    rw [toInt128?_eq, toInt_stored]
    split
    · rename_i hrange
      exact ⟨fun _ => hrange, fun _ => rfl⟩
    · rename_i hrange
      exact ⟨nofun, fun h => absurd h hrange⟩
  ofInt128_of_toInt128? x hx := by
    rw [toInt_stored]
    exact ofInt128_of_toInt128? v x hx

/-- However a pair is made, it is in range, zero is not negative, and its word, its widths and its number
of 128 bits are those of the integer that it stands for.  Every sequence of 32 bytes is the word of the
pair that is read from it.  All this is so of the numbers, because pairs keep them. -/
theorem obtained_faithful :
    (∀ r, Obtained r → Faithful r) ∧
    (∀ bytes : Bytes, bytes.length = wordSize →
      Word.toBytes (ofWord (Word.ofBytes bytes)).toWord = bytes) ∧
    KeepsNumbers := by
  refine ⟨fun r hr => ?_, fun bytes hlength => ?_, keepsNumbers⟩
  · obtain ⟨v, rfl⟩ := (obtained_iff r).mp hr
    exact faithful_stored v
  · rw [ofWord_eq, toWord_stored, Int256.toWord_ofWord]
    exact Word.toBytes_ofBytes bytes hlength

/-- The smallest number, whose magnitude no positive number has. -/
theorem obtained_faithful_min :
    Obtained ⟨limit, true⟩ ∧ Faithful ⟨limit, true⟩ ∧
    (0x80 :: List.replicate 31 0 : Bytes).length = wordSize ∧
    Word.toBytes (ofWord (Word.ofBytes (0x80 :: List.replicate 31 0))).toWord =
      0x80 :: List.replicate 31 0 := by
  obtain ⟨hfaithful, hbytes, -⟩ := obtained_faithful
  have hparts : ofParts? limit true = some ⟨limit, true⟩ := rfl
  have hmin : Obtained ⟨limit, true⟩ := .parts hparts
  exact ⟨hmin, hfaithful _ hmin, by decide, hbytes _ (by decide)⟩

end SignMagnitude
end ContractAbi
