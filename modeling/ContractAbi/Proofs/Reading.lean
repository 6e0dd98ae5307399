import ContractAbi.Decode
import ContractAbi.Proofs.Outcomes

/-!
# When a reader succeeds

For each step of the decoder this module says exactly when the step succeeds, what it returns and
what it has charged then.  All later statements about decoding are derived from these equivalences
and never unfold a reader.

Every container is read as one region: `run_array`, `run_fixedArray` and `run_tuple` state the three
of them in terms of `region`.
-/

namespace ContractAbi
namespace Decode

open EStateM (run_bind_eq_ok_iff run_pure_eq_ok_iff run_throw_ne_ok run_guard_eq_ok_iff
  run_guard_bind_eq_ok_iff)

/-! ## Words and contents -/

/-- The `count` bytes at a position, as far as the data goes. -/
def bytesAt (data : Input) (position count : Nat) : Bytes :=
  (data.toList.drop position).take count

/-- A charge is recorded, unless the account with it would pass the length of the data. -/
theorem run_charge_eq_ite {σ : Type} [Meter σ] (data : Input) (count : Nat) (account : σ) :
    (charge data count).run account =
      if data.size < Meter.charged (Meter.charge account count) then
        .error (truncated data (Meter.charged (Meter.charge account count))) account
      else .ok () (Meter.charge account count) := by
  simp only [charge, EStateM.run_bind, EStateM.run_get]
  split <;> rfl

variable (data : Input) (s t : Nat)

theorem run_charge (count : Nat) (u : Unit) :
    (charge data count).run s = .ok u t ↔ t = min maxSize (s + count) ∧ t ≤ data.size := by
  rw [run_charge_eq_ite]
  show (if data.size < min maxSize (s + count) then _ else EStateM.Result.ok () _) = _ ↔ _
  split
  · rename_i hfull
    constructor
    · intro h
      contradiction
    · intro h
      obtain ⟨rfl, hroom⟩ := h
      omega
  · rename_i hroom
    constructor
    · intro h
      cases h
      exact ⟨rfl, Nat.le_of_not_lt hroom⟩
    · intro h
      obtain ⟨rfl, -⟩ := h
      rfl

theorem run_advance (position count next : Nat) :
    (advance position count : Reader Nat Nat).run s = .ok next t ↔
      position + count ≤ maxSize ∧ next = position + count ∧ t = s := by
  rw [advance, run_guard_eq_ok_iff, run_pure_eq_ok_iff, Nat.not_lt]
  simp only [eq_comm]

theorem run_checkedAdvance (position count next : Nat) :
    (checkedAdvance data position count : Reader Nat Nat).run s = .ok next t ↔
      position + count ≤ maxSize ∧ next = position + count ∧ t = s := by
  rw [checkedAdvance, run_guard_eq_ok_iff, run_pure_eq_ok_iff, Nat.not_lt]
  simp only [eq_comm]

theorem run_slice (position count : Nat) (bytes : Bytes) :
    (slice data position count).run s = .ok bytes t ↔
      position + count ≤ maxSize ∧ position + count ≤ data.size ∧
        bytes = bytesAt data position count ∧ t = s := by
  unfold slice
  simp only [run_bind_eq_ok_iff, run_checkedAdvance, run_guard_bind_eq_ok_iff, run_pure_eq_ok_iff,
    Nat.not_lt]
  constructor
  · intro h
    obtain ⟨stop, u, ⟨hsize, rfl, rfl⟩, hroom, rfl, rfl⟩ := h
    exact ⟨hsize, hroom, toList_extract_add data position count, rfl⟩
  · intro h
    obtain ⟨hsize, hroom, rfl, rfl⟩ := h
    exact ⟨_, _, ⟨hsize, rfl, rfl⟩, hroom, toList_extract_add data position count, rfl⟩

theorem run_word (position : Nat) (w : Word) :
    (word data position).run s = .ok w t ↔
      (position + wordSize ≤ maxSize ∧ position + wordSize ≤ data.size) ∧
        w = Word.ofBytes (bytesAt data position wordSize) ∧
        t = min maxSize (s + wordSize) ∧ t ≤ data.size := by
  unfold word
  simp only [run_bind_eq_ok_iff, run_slice, run_charge, run_pure_eq_ok_iff]
  constructor
  · intro h
    obtain ⟨bytes, u, ⟨hsize, hroom, rfl, rfl⟩, -, v, ⟨rfl, hcharge⟩, rfl, rfl⟩ := h
    exact ⟨⟨hsize, hroom⟩, rfl, rfl, hcharge⟩
  · intro h
    obtain ⟨⟨hsize, hroom⟩, rfl, rfl, hcharge⟩ := h
    exact ⟨_, _, ⟨hsize, hroom, rfl, rfl⟩, (), _, ⟨rfl, hcharge⟩, rfl, rfl⟩

theorem run_offset (position distance : Nat) :
    (offset data position).run s = .ok distance t ↔
      ∃ w, (word data position).run s = .ok w t ∧ distance = w.toNat ∧
        distance % wordSize = 0 ∧ distance ≤ maxSize := by
  unfold offset
  simp only [run_bind_eq_ok_iff, run_guard_bind_eq_ok_iff, run_pure_eq_ok_iff, Nat.not_lt, ne_eq,
    Decidable.not_not]
  constructor
  · intro h
    obtain ⟨w, u, hw, haligned, hsize, rfl, rfl⟩ := h
    exact ⟨w, hw, rfl, haligned, hsize⟩
  · intro h
    obtain ⟨w, hw, rfl, haligned, hsize⟩ := h
    exact ⟨w, t, hw, haligned, hsize, rfl, rfl⟩

theorem run_length (position count : Nat) :
    (length data position).run s = .ok count t ↔
      ∃ w, (word data position).run s = .ok w t ∧ count = w.toNat ∧ count ≤ data.size := by
  unfold length
  simp only [run_bind_eq_ok_iff, run_guard_bind_eq_ok_iff, run_pure_eq_ok_iff, Nat.not_lt]
  constructor
  · intro h
    obtain ⟨w, u, hw, hsize, rfl, rfl⟩ := h
    exact ⟨w, hw, rfl, hsize⟩
  · intro h
    obtain ⟨w, hw, rfl, hsize⟩ := h
    exact ⟨w, t, hw, hsize, rfl, rfl⟩

/-- A word has been read, so the data goes on behind it. -/
theorem le_size_of_word (position : Nat) (w : Word) (h : (word data position).run s = .ok w t) :
    position + wordSize ≤ data.size :=
  ((run_word data s t position w).mp h).1.2

theorem le_size_of_offset (position distance : Nat)
    (h : (offset data position).run s = .ok distance t) : position + wordSize ≤ data.size := by
  obtain ⟨w, hw, -⟩ := (run_offset data s t position distance).mp h
  exact le_size_of_word data s t position w hw

theorem le_size_of_length (position count : Nat)
    (h : (length data position).run s = .ok count t) : position + wordSize ≤ data.size := by
  obtain ⟨w, hw, -⟩ := (run_length data s t position count).mp h
  exact le_size_of_word data s t position w hw

theorem run_content (position : Nat) (bytes : Bytes) :
    (content data position).run s = .ok bytes t ↔
      ∃ count u, (length data position).run s = .ok count u ∧
        (position + wordSize + count ≤ maxSize ∧ position + wordSize + count ≤ data.size) ∧
        bytes = bytesAt data (position + wordSize) count ∧
        t = min maxSize (u + count) ∧ t ≤ data.size := by
  unfold content
  simp only [run_bind_eq_ok_iff, run_advance, run_slice, run_charge, run_pure_eq_ok_iff]
  constructor
  · intro h
    obtain ⟨count, u, hcount, start, v, ⟨-, rfl, rfl⟩, b, x, ⟨hsize, hroom, rfl, rfl⟩, -, y,
      ⟨rfl, hcharge⟩, rfl, rfl⟩ := h
    exact ⟨count, _, hcount, ⟨hsize, hroom⟩, rfl, rfl, hcharge⟩
  · intro h
    obtain ⟨count, u, hcount, ⟨hsize, hroom⟩, rfl, rfl, hcharge⟩ := h
    exact ⟨count, u, hcount, _, _, ⟨by omega, rfl, rfl⟩, _, _, ⟨hsize, hroom, rfl, rfl⟩, (), _,
      ⟨rfl, hcharge⟩, rfl, rfl⟩

theorem run_checkRoom (start count stride : Nat) (u : Unit) :
    (checkRoom data start count stride : Reader Nat Unit).run s = .ok u t ↔
      min maxSize (count * stride + start) ≤ data.size ∧ t = s := by
  rw [checkRoom, run_guard_eq_ok_iff, run_pure_eq_ok_iff, Nat.not_lt]
  simp only [eq_comm, true_and]

/-! ## Values of one word -/

variable (config : Config)

theorem run_address (position : Nat) (v : Value) :
    (value config data .address position).run s = .ok v t ↔
      ∃ w, (word data position).run s = .ok w t ∧
        (config.strictPadding = true → Word.fits w 160 = true) ∧
        v = .address (Address.ofWord w) := by
  refine (run_bind_eq_ok_iff (word data position) _ s t v).trans ?_
  simp only [run_guard_bind_eq_ok_iff, run_pure_eq_ok_iff]
  constructor
  · intro h
    obtain ⟨w, u, hw, hclean, rfl, rfl⟩ := h
    exact ⟨w, hw, by simpa using hclean, rfl⟩
  · intro h
    obtain ⟨w, hw, hclean, rfl⟩ := h
    exact ⟨w, t, hw, by simpa using hclean, rfl, rfl⟩

/-- A number that fits is its own remainder. -/
theorem ofNat_mod_of_fits (w : Word) (n : Nat) (h : Word.fits w n = true) :
    Word.ofNat (w.toNat % (1 <<< n)) = w := by
  have hlt : w.toNat < 2 ^ n := (Word.fits_iff w n).mp h
  rw [Nat.one_shiftLeft, Nat.mod_eq_of_lt hlt, Word.ofNat, BitVec.ofNat_toNat, BitVec.setWidth_eq]

theorem run_lowBits (w : Word) (bits : Nat) (low : Word) :
    (lowBits w bits : Reader Nat Word).run s = .ok low t ↔
      bits < 256 ∧ low = Word.ofNat (w.toNat % (1 <<< bits)) ∧ t = s := by
  rw [lowBits, run_guard_eq_ok_iff, run_pure_eq_ok_iff, Nat.not_le]
  simp only [eq_comm]

theorem run_uint (n position : Nat) (v : Value) :
    (value config data (.uint n) position).run s = .ok v t ↔
      ∃ w, (word data position).run s = .ok w t ∧
        (config.strictPadding = true → Word.fits w n = true) ∧
        v = .uint n (Word.ofNat (w.toNat % (1 <<< n))) := by
  refine (run_bind_eq_ok_iff (word data position) _ s t v).trans ?_
  constructor
  · intro h
    obtain ⟨w, u, hw, h⟩ := h
    by_cases hfits : Word.fits w n = true
    · rw [if_pos hfits, run_pure_eq_ok_iff] at h
      obtain ⟨rfl, rfl⟩ := h
      exact ⟨w, hw, fun _ => hfits, by rw [ofNat_mod_of_fits w n hfits]⟩
    · simp only [if_neg hfits, run_guard_eq_ok_iff, run_bind_eq_ok_iff, run_lowBits,
        run_pure_eq_ok_iff] at h
      obtain ⟨hlenient, low, x, ⟨-, rfl, rfl⟩, rfl, rfl⟩ := h
      exact ⟨w, hw, fun hstrict => absurd hstrict hlenient, rfl⟩
  · intro h
    obtain ⟨w, hw, hclean, rfl⟩ := h
    refine ⟨w, t, hw, ?_⟩
    -- A word that fits is returned as it is, which is what masking would make of it.
    by_cases hfits : Word.fits w n = true
    · rw [if_pos hfits, run_pure_eq_ok_iff, ofNat_mod_of_fits w n hfits]
      exact ⟨rfl, rfl⟩
    · simp only [if_neg hfits, run_guard_eq_ok_iff, run_bind_eq_ok_iff, run_lowBits,
        run_pure_eq_ok_iff]
      exact ⟨fun hstrict => hfits (hclean hstrict), _, _, ⟨w.lt_of_not_fits n hfits, rfl, rfl⟩, rfl,
        rfl⟩

theorem run_signed (u : AbiType) (bits position : Nat) (i : Int256) :
    (signed config data u bits position).run s = .ok i t ↔
      ∃ w, (word data position).run s = .ok w t ∧
        if config.strictPadding = true then (Int256.ofWord w).fits bits = true ∧ i = Int256.ofWord w
        else i = Int256.ofLowBits w bits := by
  simp only [signed, run_bind_eq_ok_iff]
  constructor
  · intro h
    obtain ⟨w, x, hw, h⟩ := h
    by_cases hstrict : config.strictPadding = true
    · rw [if_pos hstrict] at h
      by_cases hfits : (Int256.ofWord w).fits bits = true
      · rw [if_pos hfits, run_pure_eq_ok_iff] at h
        obtain ⟨rfl, rfl⟩ := h
        exact ⟨w, hw, by rw [if_pos hstrict]; exact ⟨hfits, rfl⟩⟩
      · rw [if_neg hfits] at h
        exact absurd h (run_throw_ne_ok _ _ _ _)
    · rw [if_neg hstrict, run_pure_eq_ok_iff] at h
      obtain ⟨rfl, rfl⟩ := h
      exact ⟨w, hw, by rw [if_neg hstrict]⟩
  · intro h
    obtain ⟨w, hw, h⟩ := h
    refine ⟨w, t, hw, ?_⟩
    by_cases hstrict : config.strictPadding = true
    · rw [if_pos hstrict] at h
      rw [if_pos hstrict, if_pos h.1, run_pure_eq_ok_iff]
      exact ⟨h.2.symm, rfl⟩
    · rw [if_neg hstrict] at h
      rw [if_neg hstrict, run_pure_eq_ok_iff]
      exact ⟨h.symm, rfl⟩

theorem run_int (n position : Nat) (v : Value) :
    (value config data (.int n) position).run s = .ok v t ↔
      ∃ i, (signed config data (.int n) n position).run s = .ok i t ∧ v = .int n i := by
  refine (run_bind_eq_ok_iff (signed config data (.int n) n position) _ s t v).trans ?_
  simp only [run_pure_eq_ok_iff]
  constructor
  · intro h
    obtain ⟨i, u, hi, rfl, rfl⟩ := h
    exact ⟨i, hi, rfl⟩
  · intro h
    obtain ⟨i, hi, rfl⟩ := h
    exact ⟨i, t, hi, rfl, rfl⟩

theorem run_bool (position : Nat) (v : Value) :
    (value config data .bool position).run s = .ok v t ↔
      ∃ w, (word data position).run s = .ok w t ∧
        (config.strictPadding = true → Word.fits w 1 = true) ∧ v = .bool (w != 0) := by
  refine (run_bind_eq_ok_iff (word data position) _ s t v).trans ?_
  simp only [run_guard_bind_eq_ok_iff, run_pure_eq_ok_iff]
  constructor
  · intro h
    obtain ⟨w, u, hw, hclean, rfl, rfl⟩ := h
    exact ⟨w, hw, by simpa using hclean, rfl⟩
  · intro h
    obtain ⟨w, hw, hclean, rfl⟩ := h
    exact ⟨w, t, hw, by simpa using hclean, rfl, rfl⟩

theorem run_fixedBytes (n position : Nat) (v : Value) :
    (value config data (.fixedBytes n) position).run s = .ok v t ↔
      ∃ w, (word data position).run s = .ok w t ∧ n ≤ wordSize ∧
        (config.strictPadding = true → ∀ b ∈ (Word.toBytes w).drop n, b = 0) ∧
        v = .fixedBytes ((Word.toBytes w).take n) := by
  refine (run_bind_eq_ok_iff (word data position) _ s t v).trans ?_
  simp only [run_guard_bind_eq_ok_iff, run_pure_eq_ok_iff, Nat.not_lt]
  constructor
  · intro h
    obtain ⟨w, u, hw, hsize, hclean, rfl, rfl⟩ := h
    exact ⟨w, hw, hsize, by simpa using hclean, rfl⟩
  · intro h
    obtain ⟨w, hw, hsize, hclean, rfl⟩ := h
    exact ⟨w, t, hw, hsize, by simpa using hclean, rfl, rfl⟩

theorem run_fixed (m n position : Nat) (v : Value) :
    (value config data (.fixed m n) position).run s = .ok v t ↔
      ∃ raw x, (signed config data (.fixed m n) m position).run s = .ok raw t ∧
        Decimal.ofWire raw n config.scaling = .ok x ∧ v = .fixed m n x := by
  refine (run_bind_eq_ok_iff (signed config data (.fixed m n) m position) _ s t v).trans ?_
  constructor
  · intro h
    obtain ⟨raw, u, hraw, h⟩ := h
    cases hx : Decimal.ofWire raw n config.scaling with
    | error cause =>
        rw [hx] at h
        exact absurd h (run_throw_ne_ok _ _ _ _)
    | ok x =>
        rw [hx, run_pure_eq_ok_iff] at h
        obtain ⟨rfl, rfl⟩ := h
        exact ⟨raw, x, hraw, hx, rfl⟩
  · intro h
    obtain ⟨raw, x, hraw, hx, rfl⟩ := h
    exact ⟨raw, t, hraw, by rw [hx, run_pure_eq_ok_iff]; exact ⟨rfl, rfl⟩⟩

/-! ## Byte sequences -/

theorem run_bytes (position : Nat) (v : Value) :
    (value config data .bytes position).run s = .ok v t ↔
      ∃ bytes, (content data position).run s = .ok bytes t ∧ v = .bytes bytes := by
  refine (run_bind_eq_ok_iff (content data position) _ s t v).trans ?_
  simp only [run_pure_eq_ok_iff]
  constructor
  · intro h
    obtain ⟨bytes, u, hbytes, rfl, rfl⟩ := h
    exact ⟨bytes, hbytes, rfl⟩
  · intro h
    obtain ⟨bytes, hbytes, rfl⟩ := h
    exact ⟨bytes, t, hbytes, rfl, rfl⟩

theorem run_string (position : Nat) (v : Value) :
    (value config data .string position).run s = .ok v t ↔
      ∃ bytes x, (content data position).run s = .ok bytes t ∧
        Text.Utf8.decode bytes = .ok x ∧ v = .string x := by
  refine (run_bind_eq_ok_iff (content data position) _ s t v).trans ?_
  constructor
  · intro h
    obtain ⟨bytes, u, hbytes, h⟩ := h
    cases hx : Text.Utf8.decode bytes with
    | error cause =>
        rw [hx] at h
        exact absurd h (run_throw_ne_ok _ _ _ _)
    | ok x =>
        rw [hx, run_pure_eq_ok_iff] at h
        obtain ⟨rfl, rfl⟩ := h
        exact ⟨bytes, x, hbytes, hx, rfl⟩
  · intro h
    obtain ⟨bytes, x, hbytes, hx, rfl⟩ := h
    exact ⟨bytes, t, hbytes, by rw [hx, run_pure_eq_ok_iff]; exact ⟨rfl, rfl⟩⟩

/-! ## Regions -/

/-- A component is dynamic and stands behind its offset, or static and stands in place. -/
theorem run_component (u : AbiType) (read : Nat → Reader Nat Value) (start cursor : Nat) (v : Value)
    (next : Nat) :
    (component data u read start cursor).run s = .ok (v, next) t ↔
      (u.isDynamic = true ∧ ∃ distance x, (offset data cursor).run s = .ok distance x ∧
        start + distance ≤ maxSize ∧ (read (start + distance)).run x = .ok v t ∧
        cursor + wordSize ≤ maxSize ∧ next = cursor + wordSize) ∨
      (u.isDynamic = false ∧ (read cursor).run s = .ok v t ∧
        cursor + u.headSize ≤ maxSize ∧ next = cursor + u.headSize) := by
  unfold component
  -- Each of the two layouts rules out the other side of the disjunction.
  by_cases hdynamic : u.isDynamic = true
  · rw [if_pos hdynamic]
    simp only [run_bind_eq_ok_iff, run_checkedAdvance, run_advance, run_pure_eq_ok_iff]
    constructor
    · intro h
      obtain ⟨distance, x, hoffset, position, y, ⟨hsize, rfl, rfl⟩, v', z, hread, next', w,
        ⟨hcursor, rfl, rfl⟩, heq, rfl⟩ := h
      cases heq
      exact .inl ⟨hdynamic, distance, _, hoffset, hsize, hread, hcursor, rfl⟩
    · intro h
      rcases h with ⟨-, distance, x, hoffset, hsize, hread, hcursor, rfl⟩ | ⟨hstatic, -⟩
      · exact ⟨distance, x, hoffset, _, _, ⟨hsize, rfl, rfl⟩, v, t, hread, _, _,
          ⟨hcursor, rfl, rfl⟩, rfl, rfl⟩
      · rw [hdynamic] at hstatic
        contradiction
  · rw [if_neg hdynamic]
    simp only [run_bind_eq_ok_iff, run_checkedAdvance, run_pure_eq_ok_iff]
    constructor
    · intro h
      obtain ⟨v', x, hread, next', y, ⟨hcursor, rfl, rfl⟩, heq, rfl⟩ := h
      cases heq
      exact .inr ⟨by simpa using hdynamic, hread, hcursor, rfl⟩
    · intro h
      rcases h with ⟨htrue, -⟩ | ⟨-, hread, hcursor, rfl⟩
      · contradiction
      · exact ⟨v, t, hread, _, _, ⟨hcursor, rfl, rfl⟩, rfl, rfl⟩

/-- Elements are a region whose descriptors are all the same. -/
theorem elements_eq_region {σ : Type} [Meter σ] (e : AbiType) (start count cursor : Nat) :
    elements (component data e (value config data e : Nat → Reader σ Value) start) count cursor =
      region config data (List.replicate count e) start cursor := by
  induction count generalizing cursor with
  | zero => rfl
  | succ count ih =>
      refine bind_congr fun p => ?_
      exact congrArg (· >>= fun vs => pure (p.1 :: vs)) (ih p.2)

/-- The fields of a tuple are a region of their descriptors. -/
theorem fields_eq_region {σ : Type} [Meter σ] (fs : List Param) (start cursor : Nat) :
    (fields config data fs start cursor : Reader σ (List Value)) =
      region config data (fs.map Param.kind) start cursor := by
  induction fs generalizing cursor with
  | nil => rfl
  | cons f fs ih =>
      obtain ⟨name, u⟩ := f
      refine bind_congr fun p => ?_
      exact congrArg (· >>= fun vs => pure (p.1 :: vs)) (ih p.2)

theorem run_region_nil (start cursor : Nat) (vs : List Value) :
    (region config data [] start cursor).run s = .ok vs t ↔ vs = [] ∧ t = s := by
  refine (run_pure_eq_ok_iff [] vs s t).trans ?_
  rw [eq_comm, eq_comm (a := s)]

theorem run_region_cons (u : AbiType) (us : List AbiType) (start cursor : Nat) (vs : List Value) :
    (region config data (u :: us) start cursor).run s = .ok vs t ↔
      ∃ v next x rest,
        (component data u (value config data u) start cursor).run s = .ok (v, next) x ∧
        (region config data us start next).run x = .ok rest t ∧ vs = v :: rest := by
  refine (run_bind_eq_ok_iff (component data u (value config data u) start cursor) _ s t vs).trans ?_
  simp only [run_bind_eq_ok_iff, run_pure_eq_ok_iff]
  constructor
  · intro h
    obtain ⟨⟨v, next⟩, x, hcomponent, rest, y, hrest, rfl, rfl⟩ := h
    exact ⟨v, next, x, rest, hcomponent, hrest, rfl⟩
  · intro h
    obtain ⟨v, next, x, rest, hcomponent, hrest, rfl⟩ := h
    exact ⟨⟨v, next⟩, x, hcomponent, rest, t, hrest, rfl, rfl⟩

/-- A static component stands in place, and the next head is behind it. -/
theorem run_region_cons_of_static (u : AbiType) (us : List AbiType) (hstatic : u.isDynamic = false)
    (start cursor : Nat) (hsize : cursor + u.headSize ≤ maxSize) (v : Value) (vs : List Value) :
    (region config data (u :: us) start cursor).run s = .ok (v :: vs) t ↔
      ∃ x, (value config data u cursor).run s = .ok v x ∧
        (region config data us start (cursor + u.headSize)).run x = .ok vs t := by
  rw [run_region_cons]
  simp only [run_component, hstatic, Bool.false_eq_true, false_and, false_or, true_and]
  constructor
  · rintro ⟨v', next, x, rest, ⟨hread, -, rfl⟩, hrest, heq⟩
    cases heq
    exact ⟨x, hread, hrest⟩
  · rintro ⟨x, hread, hrest⟩
    exact ⟨v, _, x, vs, ⟨hread, hsize, rfl⟩, hrest, rfl⟩

theorem run_array (e : AbiType) (position : Nat) (v : Value) :
    (value config data (.array e) position).run s = .ok v t ↔
      ∃ count u vs, (length data position).run s = .ok count u ∧
        position + wordSize ≤ maxSize ∧
        min maxSize (count * e.headSize + (position + wordSize)) ≤ data.size ∧
        (region config data (List.replicate count e) (position + wordSize)
          (position + wordSize)).run u = .ok vs t ∧ v = .array e vs := by
  refine (run_bind_eq_ok_iff (length data position) _ s t v).trans ?_
  simp only [elements_eq_region, run_bind_eq_ok_iff, run_advance, run_checkRoom,
    run_pure_eq_ok_iff]
  constructor
  · intro h
    obtain ⟨count, u, hcount, start, x, ⟨hstart, rfl, rfl⟩, -, y, ⟨hroom, rfl⟩, vs, z, hvs, rfl,
      rfl⟩ := h
    exact ⟨count, _, vs, hcount, hstart, hroom, hvs, rfl⟩
  · intro h
    obtain ⟨count, u, vs, hcount, hstart, hroom, hvs, rfl⟩ := h
    exact ⟨count, u, hcount, _, _, ⟨hstart, rfl, rfl⟩, (), _, ⟨hroom, rfl⟩, vs, t, hvs, rfl, rfl⟩

theorem run_fixedArray (e : AbiType) (count position : Nat) (v : Value) :
    (value config data (.fixedArray e count) position).run s = .ok v t ↔
      ∃ vs, min maxSize (count * e.headSize + position) ≤ data.size ∧
        (region config data (List.replicate count e) position position).run s = .ok vs t ∧
        v = .fixedArray e vs := by
  refine (run_bind_eq_ok_iff (checkRoom data position count e.headSize) _ s t v).trans ?_
  simp only [elements_eq_region, run_bind_eq_ok_iff, run_checkRoom, run_pure_eq_ok_iff]
  constructor
  · intro h
    obtain ⟨-, u, ⟨hroom, rfl⟩, vs, x, hvs, rfl, rfl⟩ := h
    exact ⟨vs, hroom, hvs, rfl⟩
  · intro h
    obtain ⟨vs, hroom, hvs, rfl⟩ := h
    exact ⟨(), s, ⟨hroom, rfl⟩, vs, t, hvs, rfl, rfl⟩

theorem run_tuple (fs : List Param) (position : Nat) (v : Value) :
    (value config data (.tuple fs) position).run s = .ok v t ↔
      ∃ vs, (region config data (fs.map Param.kind) position position).run s = .ok vs t ∧
        v = .tuple vs := by
  refine (run_bind_eq_ok_iff (fields config data fs position position) _ s t v).trans ?_
  simp only [fields_eq_region, run_pure_eq_ok_iff]
  constructor
  · intro h
    obtain ⟨vs, u, hvs, rfl, rfl⟩ := h
    exact ⟨vs, hvs, rfl⟩
  · intro h
    obtain ⟨vs, hvs, rfl⟩ := h
    exact ⟨vs, t, hvs, rfl, rfl⟩

end Decode

/-- Decoding is validation and then one region at the front of the data. -/
theorem decode_eq_ok_iff (config : Config) (ts : List AbiType) (data : Bytes) (vs : List Value) :
    decode config ts data = .ok vs ↔
      AbiType.validateAll config.maxDepth ts = .ok () ∧
        ∃ t, (Decode.region config data.toArray ts 0 0).run 0 = .ok vs t := by
  unfold decode
  cases hvalid : AbiType.validateAll config.maxDepth ts with
  | error e => exact iff_of_false (fun h => nomatch h) (fun h => nomatch h.1)
  | ok u =>
      cases hrun : (Decode.region config data.toArray ts 0 0).run (0 : Nat) with
      | ok ws t =>
          show (.ok ws : Except AbiError (List Value)) = .ok vs ↔ _
          constructor
          · intro h
            obtain rfl := Except.ok.inj h
            exact ⟨rfl, t, rfl⟩
          · intro h
            obtain ⟨-, t', heq⟩ := h
            cases heq
            rfl
      | error e t =>
          refine iff_of_false (fun h => nomatch h) ?_
          intro h
          obtain ⟨-, t', heq⟩ := h
          cases heq

/-- An error of the region is the error of decoding. -/
theorem decode_eq_error_of_run (config : Config) (ts : List AbiType) (data : Bytes) (e : AbiError)
    (t : Nat) (hvalid : AbiType.validateAll config.maxDepth ts = .ok ())
    (h : (Decode.region config data.toArray ts 0 0).run 0 = .error e t) :
    decode config ts data = .error e := by
  unfold decode
  rw [hvalid, h]
  rfl

end ContractAbi
