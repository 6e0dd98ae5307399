import ContractAbi.Proofs.Legality
import ContractAbi.Proofs.Reading

/-!
# How decoding can fail

`FailsOnly P` says of a computation that every error it can end with has the property `P`.  Sequencing
keeps it, and what a step has returned is known in the steps behind it.

Descriptors are refused in one way and data in three (`Refusals`).  What else there is, `unaddressable`, is
the error of a step that is taken without a check and goes wrong, and no step does so in data that is no
longer than a size.

* A position is moved on without a check only after the word at it has been read, so that the sum is
  no more than the length of the data (`le_size_of_offset`, `le_size_of_length`).
* A stretch of a word is as long as a leaf says, and validation has looked at every leaf.  A mask is only
  formed for a word that does not fit its leaf, so that the leaf is narrower than a word.

`failsOnly_of_decode` is the statement about a whole run: either `P` is granted for `unaddressable` too, or
the data is that short.
-/

namespace ContractAbi

/-- The errors with which data or descriptors are refused have the property. -/
structure Refusals (P : AbiError → Prop) : Prop where
  unsupported (cause : TypeError) : P (.unsupportedType cause)
  mismatch (cause : Mismatch) : P (.typeMismatch cause)
  truncated (needed available : Nat) : P (.truncatedInput needed available)
  malformed (cause : OffsetFault) : P (.malformedOffset cause)

/-- A decimal is refused as a descriptor or as a value. -/
theorem Refusals.scale {P : AbiError → Prop} (h : Refusals P) (cause : Decimal.ScaleError) :
    P (.ofScale cause) := by
  cases cause with
  | fractionTooWide fraction => exact h.unsupported _
  | _ => exact h.mismatch _

namespace Decode

/-! ## Sequencing -/

section Outcomes

variable {σ α β : Type} {P : AbiError → Prop}

/-- Every error that a run of the computation ends with has the property. -/
def FailsOnly (P : AbiError → Prop) (m : EStateM AbiError σ α) : Prop :=
  ∀ s e t, m.run s = .error e t → P e

theorem failsOnly_pure (a : α) : FailsOnly P (pure a : EStateM AbiError σ α) :=
  fun _ _ _ => nofun

theorem failsOnly_throw {e : AbiError} (he : P e) :
    FailsOnly P (throw e : EStateM AbiError σ α) := by
  intro s e' t h
  cases h
  exact he

/-- The second computation is looked at for what the first one returns. -/
theorem failsOnly_bind {m : EStateM AbiError σ α} {f : α → EStateM AbiError σ β}
    (hm : FailsOnly P m) (hf : ∀ s a t, m.run s = .ok a t → FailsOnly P (f a)) :
    FailsOnly P (m >>= f) := by
  intro s e t
  rw [EStateM.run_bind]
  cases hrun : m.run s with
  | ok a u => exact hf s a u hrun u e t
  | error e' u =>
      intro h
      cases h
      exact hm s _ _ hrun

theorem failsOnly_ite {c : Prop} [Decidable c] {m n : EStateM AbiError σ α}
    (hm : c → FailsOnly P m) (hn : ¬ c → FailsOnly P n) : FailsOnly P (if c then m else n) := by
  split
  · exact hm ‹_›
  · exact hn ‹_›

theorem failsOnly_guard {c : Prop} [Decidable c] {e : AbiError} (he : P e)
    {m : EStateM AbiError σ α} (hm : FailsOnly P m) : FailsOnly P (if c then throw e else m) :=
  failsOnly_ite (fun _ => failsOnly_throw he) fun _ => hm

/-- The same for a guard in front of further steps. -/
theorem failsOnly_guard_bind {c : Prop} [Decidable c] {e : AbiError} (he : P e)
    {f : α → EStateM AbiError σ β} {m : EStateM AbiError σ β} (hm : FailsOnly P m) :
    FailsOnly P (if c then throw e >>= f else m) :=
  failsOnly_ite (fun _ => failsOnly_bind (failsOnly_throw he) fun s a t h =>
    absurd h (EStateM.run_throw_ne_ok e a s t)) fun _ => hm

/-- An unchecked step goes wrong only past the last size. -/
theorem failsOnly_advance (position count : Nat)
    (hroom : P .unaddressable ∨ position + count ≤ maxSize) :
    FailsOnly P (advance position count : Reader Nat Nat) := by
  refine failsOnly_ite (fun hwide => ?_) fun _ => failsOnly_pure _
  rcases hroom with hnamed | hroom
  · exact failsOnly_throw hnamed
  · exact absurd hroom (Nat.not_le.mpr hwide)

theorem failsOnly_lowBits (w : Word) (bits : Nat) (hbits : bits < 256) :
    FailsOnly P (lowBits w bits : Reader Nat Word) :=
  failsOnly_ite (fun h => absurd hbits (Nat.not_lt.mpr h)) fun _ => failsOnly_pure _

end Outcomes

/-! ## The steps of the decoder -/

variable {P : AbiError → Prop} (refusals : Refusals P) (data : Input)
include refusals

theorem failsOnly_charge (count : Nat) : FailsOnly P (charge data count : Reader Nat Unit) := by
  intro s e t
  rw [run_charge_eq_ite]
  split
  · intro h
    cases h
    exact refusals.truncated _ _
  · exact nofun

theorem failsOnly_checkedAdvance (position count : Nat) :
    FailsOnly P (checkedAdvance data position count : Reader Nat Nat) :=
  failsOnly_guard (refusals.truncated _ _) (failsOnly_pure _)

theorem failsOnly_checkRoom (start count stride : Nat) :
    FailsOnly P (checkRoom data start count stride : Reader Nat Unit) :=
  failsOnly_guard (refusals.truncated _ _) (failsOnly_pure _)

theorem failsOnly_slice (position count : Nat) :
    FailsOnly P (slice data position count : Reader Nat Bytes) := by
  refine failsOnly_bind (failsOnly_checkedAdvance refusals data position count) fun _ _ _ _ => ?_
  exact failsOnly_guard_bind (refusals.truncated _ _) (failsOnly_pure _)

theorem failsOnly_word (position : Nat) : FailsOnly P (word data position : Reader Nat Word) := by
  refine failsOnly_bind (failsOnly_slice refusals data position wordSize) fun _ _ _ _ => ?_
  exact failsOnly_bind (failsOnly_charge refusals data wordSize) fun _ _ _ _ => failsOnly_pure _

theorem failsOnly_offset (position : Nat) :
    FailsOnly P (offset data position : Reader Nat Nat) := by
  refine failsOnly_bind (failsOnly_word refusals data position) fun _ w _ _ => ?_
  refine failsOnly_guard_bind (refusals.malformed _) ?_
  exact failsOnly_guard_bind (refusals.malformed _) (failsOnly_pure _)

theorem failsOnly_length (position : Nat) :
    FailsOnly P (length data position : Reader Nat Nat) := by
  refine failsOnly_bind (failsOnly_word refusals data position) fun _ _ _ _ => ?_
  exact failsOnly_guard_bind (refusals.truncated _ _) (failsOnly_pure _)

/-! ## Values and regions -/

variable (config : Config)

theorem failsOnly_signed (t : AbiType) (bits position : Nat) :
    FailsOnly P (signed config data t bits position : Reader Nat Int256) := by
  refine failsOnly_bind (failsOnly_word refusals data position) fun _ w _ _ => ?_
  refine failsOnly_ite (fun _ => ?_) fun _ => failsOnly_pure _
  exact failsOnly_ite (fun _ => failsOnly_pure _) fun _ => failsOnly_throw (refusals.mismatch _)

variable (hdata : P .unaddressable ∨ data.size ≤ maxSize)
include hdata

theorem failsOnly_content (position : Nat) :
    FailsOnly P (content data position : Reader Nat Bytes) := by
  refine failsOnly_bind (failsOnly_length refusals data position) fun s count t hcount => ?_
  have hroom := hdata.imp_right (Nat.le_trans (le_size_of_length data s t position count hcount))
  refine failsOnly_bind (failsOnly_advance position wordSize hroom) fun _ start _ _ => ?_
  refine failsOnly_bind (failsOnly_slice refusals data start count) fun _ _ _ _ => ?_
  exact failsOnly_bind (failsOnly_charge refusals data count) fun _ _ _ _ => failsOnly_pure _

/-- The next head lies behind the offset that has been read, or the step to it is checked. -/
theorem failsOnly_component (t : AbiType) (read : Nat → Reader Nat Value)
    (hread : ∀ position, FailsOnly P (read position)) (start cursor : Nat) :
    FailsOnly P (component data t read start cursor) := by
  refine failsOnly_ite (fun _ => ?_) fun _ => ?_
  · refine failsOnly_bind (failsOnly_offset refusals data cursor) fun s distance x hoffset => ?_
    have hroom := hdata.imp_right
      (Nat.le_trans (le_size_of_offset data s x cursor distance hoffset))
    refine failsOnly_bind (failsOnly_checkedAdvance refusals data start distance) ?_
    refine fun _ position _ _ => failsOnly_bind (hread position) fun _ _ _ _ => ?_
    exact failsOnly_bind (failsOnly_advance cursor wordSize hroom) fun _ _ _ _ => failsOnly_pure _
  · refine failsOnly_bind (hread cursor) fun _ _ _ _ => ?_
    refine failsOnly_bind (failsOnly_checkedAdvance refusals data cursor t.headSize) ?_
    exact fun _ _ _ _ => failsOnly_pure _

theorem failsOnly_region (ts : List AbiType)
    (hread : ∀ t ∈ ts, ∀ position, FailsOnly P (value config data t position : Reader Nat Value))
    (start cursor : Nat) :
    FailsOnly P (region config data ts start cursor : Reader Nat (List Value)) := by
  induction ts generalizing cursor with
  | nil => exact failsOnly_pure _
  | cons t ts ih =>
      refine failsOnly_bind (failsOnly_component refusals data hdata t _
        (hread t (List.mem_cons_self ..)) start cursor) fun _ next _ _ => ?_
      refine failsOnly_bind (ih (fun u hu => hread u (List.mem_cons_of_mem _ hu)) next.2) ?_
      exact fun _ _ _ _ => failsOnly_pure _

/-- Reading a legal value, at any position. -/
theorem failsOnly_value (t : AbiType) (hlegal : t.Legal) (position : Nat) :
    FailsOnly P (value config data t position : Reader Nat Value) := by
  have hword := failsOnly_word refusals data
  have hsigned := failsOnly_signed refusals data config
  have hcontent := failsOnly_content refusals data hdata
  have hmismatch := refusals.mismatch
  induction t using AbiType.induction generalizing position with
  | address =>
      refine failsOnly_bind (hword position) fun _ w _ _ => ?_
      exact failsOnly_guard_bind (hmismatch _) (failsOnly_pure _)
  | uint n =>
      refine failsOnly_bind (hword position) fun _ w _ _ => ?_
      refine failsOnly_ite (fun _ => failsOnly_pure _) fun hfits => ?_
      refine failsOnly_guard (hmismatch _) ?_
      -- A word that does not fit shows that the width is less than that of a word.
      refine failsOnly_bind (failsOnly_lowBits w n (w.lt_of_not_fits n hfits)) ?_
      exact fun _ _ _ _ => failsOnly_pure _
  | int n => exact failsOnly_bind (hsigned _ n position) fun _ _ _ _ => failsOnly_pure _
  | bool =>
      refine failsOnly_bind (hword position) fun _ w _ _ => ?_
      exact failsOnly_guard_bind (hmismatch _) (failsOnly_pure _)
  | fixedBytes n =>
      refine failsOnly_bind (hword position) fun _ w _ _ => ?_
      refine failsOnly_ite (fun hwide => absurd hlegal.2 (Nat.not_le.mpr hwide)) fun _ => ?_
      exact failsOnly_guard_bind (hmismatch _) (failsOnly_pure _)
  | fixed m n =>
      refine failsOnly_bind (hsigned _ m position) fun _ raw _ _ => ?_
      cases Decimal.ofWire raw n config.scaling with
      | ok v => exact failsOnly_pure _
      | error cause => exact failsOnly_throw (refusals.scale cause)
  | bytes => exact failsOnly_bind (hcontent position) fun _ _ _ _ => failsOnly_pure _
  | string =>
      refine failsOnly_bind (hcontent position) fun _ bytes _ _ => ?_
      cases Text.Utf8.decode bytes with
      | ok s => exact failsOnly_pure _
      | error cause => exact failsOnly_throw (hmismatch _)
  | array e ih =>
      simp only [value, elements_eq_region]
      refine failsOnly_bind (failsOnly_length refusals data position) fun s count x hcount => ?_
      have hroom := hdata.imp_right
        (Nat.le_trans (le_size_of_length data s x position count hcount))
      refine failsOnly_bind (failsOnly_advance position wordSize hroom) fun _ start _ _ => ?_
      refine failsOnly_bind (failsOnly_checkRoom refusals data start count e.headSize) ?_
      have hitems := failsOnly_region refusals data config hdata (List.replicate count e)
        (List.forall_mem_replicate.mpr (.inr (ih hlegal))) start start
      exact fun _ _ _ _ => failsOnly_bind hitems fun _ _ _ _ => failsOnly_pure _
  | fixedArray e n ih =>
      simp only [value, elements_eq_region]
      refine failsOnly_bind (failsOnly_checkRoom refusals data position n e.headSize) ?_
      have hitems := failsOnly_region refusals data config hdata (List.replicate n e)
        (List.forall_mem_replicate.mpr (.inr (ih hlegal.2))) position position
      exact fun _ _ _ _ => failsOnly_bind hitems fun _ _ _ _ => failsOnly_pure _
  | tuple fs ih =>
      simp only [value, fields_eq_region]
      have hfields := (AbiType.legalFields_iff fs).mp hlegal.2
      have hitems := failsOnly_region refusals data config hdata (fs.map Param.kind)
        (fun u hu => ih u hu (hfields u hu)) position position
      exact failsOnly_bind hitems fun _ _ _ _ => failsOnly_pure _

end Decode

/-- Decoding fails only with a refusal, or it fails with `unaddressable` on data that is longer than a
size. -/
theorem failsOnly_of_decode {P : AbiError → Prop} (refusals : Refusals P) (config : Config)
    (ts : List AbiType) (data : Bytes) (hdata : P .unaddressable ∨ data.toArray.size ≤ maxSize)
    (e : AbiError) (h : decode config ts data = .error e) : P e := by
  cases hvalid : AbiType.validateAll config.maxDepth ts with
  | error cause =>
      rw [decode, hvalid] at h
      cases h
      exact refusals.unsupported cause
  | ok u =>
      have hlegal := AbiType.legal_and_sized_of_validateAll config.maxDepth ts hvalid
      have hregion := Decode.failsOnly_region refusals data.toArray config hdata ts
        (fun t ht => Decode.failsOnly_value refusals data.toArray config hdata t (hlegal t ht).1)
        0 0
      cases hrun : (Decode.region config data.toArray ts 0 0).run 0 with
      | ok vs s =>
          rw [(decode_eq_ok_iff config ts data vs).mpr ⟨hvalid, s, hrun⟩] at h
          contradiction
      | error cause s =>
          rw [decode_eq_error_of_run config ts data cause s hvalid hrun] at h
          cases h
          exact hregion 0 _ s hrun

end ContractAbi
