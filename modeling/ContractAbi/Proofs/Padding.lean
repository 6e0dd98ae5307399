import ContractAbi.Proofs.SignedWord
import ContractAbi.Proofs.Simulation

/-!
# Clean padding

Reading strictly differs from reading leniently in one way: some words are refused.  Up to the first
such word both runs go through the same states, so that every other outcome, success or error, is
common to both (`agrees_value`, `agrees_region`).

A word that is not refused is read alike.  For signed numbers this is where legal widths are needed:
the low bits of a word that fits are the whole number.
-/

namespace ContractAbi
namespace Decode

section Refusal

variable {σ α β : Type}

/-- The second computation does what the first does, or it refuses a word. -/
def Agrees (m n : EStateM AbiError σ α) : Prop :=
  ∀ s, n.run s = m.run s ∨ ∃ cause t, n.run s = .error (.typeMismatch cause) t

theorem agrees_refl (m : EStateM AbiError σ α) : Agrees m m :=
  fun _ => .inl rfl

theorem agrees_refusal (m : EStateM AbiError σ α) (cause : Mismatch) :
    Agrees m (throw (.typeMismatch cause)) :=
  fun s => .inr ⟨cause, s, rfl⟩

theorem agrees_bind {m n : EStateM AbiError σ α} {f g : α → EStateM AbiError σ β}
    (hm : Agrees m n) (hf : ∀ a, Agrees (f a) (g a)) : Agrees (m >>= f) (n >>= g) := by
  intro s
  rw [EStateM.run_bind, EStateM.run_bind]
  rcases hm s with hsame | ⟨cause, t, hrefused⟩
  · rw [hsame]
    cases m.run s with
    | ok a t => exact hf a t
    | error e t => exact .inl rfl
  · rw [hrefused]
    exact .inr ⟨cause, t, rfl⟩

/-- What is accepted strictly is read leniently, and the charges are the same. -/
theorem run_eq_ok_of_agrees {m n : EStateM AbiError σ α} (h : Agrees m n) (s t : σ) (a : α)
    (hn : n.run s = .ok a t) : m.run s = .ok a t := by
  rcases h s with hsame | ⟨cause, u, hrefused⟩
  · rw [← hsame, hn]
  · rw [hn] at hrefused
    contradiction

/-- A word is refused under a condition that is not looked at leniently. -/
theorem agrees_guard (strict dirty : Bool) (cause : Mismatch) (m : EStateM AbiError σ α) :
    Agrees m (do
      if strict && dirty then throw (.typeMismatch cause)
      m) := by
  by_cases h : (strict && dirty) = true
  · rw [if_pos h]
    exact fun s => .inr ⟨cause, s, rfl⟩
  · rw [if_neg h]
    exact agrees_refl m

end Refusal

variable (config : Config) (data : Input) {σ : Type} [Meter σ]

theorem agrees_signed (u : AbiType) (bits position : Nat)
    (hwidth : AbiType.isIntegerWidth bits = true) :
    Agrees (signed { config with strictPadding := false } data u bits position : Reader σ Int256)
      (signed { config with strictPadding := true } data u bits position) := by
  refine agrees_bind (agrees_refl _) fun w => ?_
  show Agrees (pure (Int256.ofLowBits w bits))
    (if (Int256.ofWord w).fits bits then pure (Int256.ofWord w) else throw (dirty u w))
  by_cases hfits : (Int256.ofWord w).fits bits = true
  · rw [if_pos hfits, Int256.ofLowBits_of_fits w bits hwidth hfits]
    exact agrees_refl _
  · rw [if_neg hfits]
    exact agrees_refusal _ _

/-- Both readings take the same steps through a container. -/
theorem simulation_agrees : Simulation (fun {_} => Agrees (σ := σ)) data data where
  pure _ := agrees_refl _
  bind := agrees_bind
  advance _ _ := agrees_refl _
  checkedAdvance _ _ := agrees_refl _
  checkRoom _ _ _ := agrees_refl _
  offset _ := agrees_refl _
  length _ := agrees_refl _

/-- Read strictly, a value of a legal descriptor is what it is leniently, or a word is refused. -/
theorem agrees_value (u : AbiType) (hlegal : u.Legal) (position : Nat) :
    Agrees (value { config with strictPadding := false } data u position : Reader σ Value)
      (value { config with strictPadding := true } data u position) := by
  have hcontainers := simulation_agrees (σ := σ) data
  induction u using AbiType.induction generalizing position with
  | address => exact agrees_bind (agrees_refl _) fun w => agrees_guard true _ _ _
  | uint n =>
      refine agrees_bind (agrees_refl _) fun w => ?_
      by_cases hfits : Word.fits w n = true
      · rw [if_pos hfits, if_pos hfits]
        exact agrees_refl _
      · rw [if_neg hfits, if_neg hfits]
        exact agrees_refusal _ _
  | int n =>
      exact agrees_bind (agrees_signed config data (.int n) n position hlegal)
        fun i => agrees_refl _
  | bool => exact agrees_bind (agrees_refl _) fun w => agrees_guard true _ _ _
  | bytes => exact agrees_refl _
  | fixedBytes n =>
      refine agrees_bind (agrees_refl _) fun w => ?_
      by_cases hsize : wordSize < n
      · simp only [if_pos hsize]
        exact agrees_refl _
      · simp only [if_neg hsize]
        exact agrees_guard true _ _ _
  | string => exact agrees_refl _
  | fixed m n =>
      exact agrees_bind (agrees_signed config data (.fixed m n) m position hlegal.1)
        fun raw => agrees_refl _
  | array e ih => exact hcontainers.array _ _ e (ih hlegal) position
  | fixedArray e n ih => exact hcontainers.fixedArray _ _ e n (ih hlegal.2) position
  | tuple fs ih =>
      have hlegalfs := (AbiType.legalFields_iff fs).mp hlegal.2
      exact hcontainers.tuple _ _ fs (fun u hu => ih u hu (hlegalfs u hu)) position

theorem agrees_region (ts : List AbiType) (hlegal : ∀ t ∈ ts, t.Legal) (start cursor : Nat) :
    Agrees (region { config with strictPadding := false } data ts start cursor :
        Reader σ (List Value))
      (region { config with strictPadding := true } data ts start cursor) :=
  (simulation_agrees data).region _ _ ts
    (fun u hu position => agrees_value config data u (hlegal u hu) position) start cursor

end Decode

/-- Decoding strictly ends as decoding leniently does, with the same values or the same error, or it
ends with a word that is refused.  So what is accepted strictly is read as the same values leniently. -/
theorem decode_strictPadding (config : Config) (ts : List AbiType) (data : Bytes) :
    (decode { config with strictPadding := true } ts data =
        decode { config with strictPadding := false } ts data ∨
      ∃ cause, decode { config with strictPadding := true } ts data =
        .error (.typeMismatch cause)) ∧
    ∀ vs, decode { config with strictPadding := true } ts data = .ok vs →
      decode { config with strictPadding := false } ts data = .ok vs := by
  have hends : decode { config with strictPadding := true } ts data =
        decode { config with strictPadding := false } ts data ∨
      ∃ cause, decode { config with strictPadding := true } ts data =
        .error (.typeMismatch cause) := by
    cases hvalid : AbiType.validateAll config.maxDepth ts with
    | error e =>
        -- Descriptors are looked at first, and alike in both modes.
        left
        unfold decode
        rw [hvalid]
        rfl
    | ok u =>
        have hlegal := AbiType.legal_and_sized_of_validateAll config.maxDepth ts hvalid
        rcases Decode.agrees_region config data.toArray ts (fun t ht => (hlegal t ht).1) 0 0 0 with
          hsame | ⟨cause, t, hrefused⟩
        · left
          unfold decode
          rw [hsame]
        · right
          exact ⟨cause, decode_eq_error_of_run _ ts data _ t hvalid hrefused⟩
  refine ⟨hends, ?_⟩
  intro vs hstrict
  rcases hends with hsame | ⟨cause, hrefused⟩
  · exact hsame ▸ hstrict
  · rw [hstrict] at hrefused
    contradiction

end ContractAbi
