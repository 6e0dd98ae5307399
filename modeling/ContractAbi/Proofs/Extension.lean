import Mathlib.Control.Monad.Basic
import ContractAbi.Proofs.Simulation

/-!
# More data behind the data

The length of the data is looked at in four places: where a stretch of bytes ends, where a length word
is read, where elements need room, and in the budget.  In each of them more data can only turn
truncated input into something else.  So a run that ends in any other way, with values or with another
error, is repeated step by step on longer data with the same front.

* `Persists` relates a reader of the shorter data to one of the longer data: the second does what the
  first does, unless the first runs out of the data.
* `persists_value` and `persists_region` hold of hostile data as well.  Nothing is assumed about the
  descriptors or about where offsets point.
-/

namespace ContractAbi
namespace Decode

/-! ## Outcomes that do not come from the end of the data -/

section Outcomes

variable {σ α β : Type} (data : Input)

/-- The second computation does what the first does, unless the first runs out of the data. -/
def Persists (m n : EStateM AbiError σ α) : Prop :=
  ∀ s, n.run s = m.run s ∨ ∃ needed t, m.run s = .error (truncated data needed) t

variable {data}

theorem persists_refl (m : EStateM AbiError σ α) : Persists data m m :=
  fun _ => .inl rfl

theorem persists_truncated (needed : Nat) (n : EStateM AbiError σ α) :
    Persists data (throw (truncated data needed)) n :=
  fun s => .inr ⟨needed, s, rfl⟩

theorem persists_bind {m n : EStateM AbiError σ α} {f g : α → EStateM AbiError σ β}
    (hm : Persists data m n) (hf : ∀ a, Persists data (f a) (g a)) :
    Persists data (m >>= f) (n >>= g) := by
  intro s
  rw [EStateM.run_bind, EStateM.run_bind]
  rcases hm s with hsame | ⟨needed, t, hshort⟩
  · rw [hsame]
    cases m.run s with
    | ok a t => exact hf a t
    | error e t => exact .inl rfl
  · rw [hshort]
    exact .inr ⟨needed, t, rfl⟩

/-- A guard against the end of the data may only let more pass on the longer data. -/
theorem persists_guard {short short' : Prop} [Decidable short] [Decidable short']
    (hguard : short' → short) (needed : Nat) (e : AbiError) {m n : EStateM AbiError σ α}
    (h : ¬ short → Persists data m n) :
    Persists data (if short then throw (truncated data needed) else m)
      (if short' then throw e else n) := by
  by_cases hshort : short
  · rw [if_pos hshort]
    exact persists_truncated needed _
  · rw [if_neg hshort, if_neg fun hshort' => hshort (hguard hshort')]
    exact h hshort

end Outcomes

/-! ## The steps of the decoder -/

variable {σ : Type} {data data' : Input}

theorem persists_checkedAdvance (position count : Nat) :
    Persists data (checkedAdvance data position count : Reader σ Nat)
      (checkedAdvance data' position count) :=
  persists_guard id _ _ fun _ => persists_refl _

variable (hfront : data.toList <+: data'.toList)
include hfront

theorem size_le_of_isPrefix : data.size ≤ data'.size := by
  simpa using hfront.length_le

/-- What stands in the shorter data stands in the longer data, too. -/
theorem toList_extract_of_isPrefix (position stop : Nat) (hroom : stop ≤ data.size) :
    (data'.extract position stop).toList = (data.extract position stop).toList := by
  obtain ⟨behind, hbehind⟩ := hfront
  rw [Array.toList_extract, Array.toList_extract, List.extract_eq_take_drop,
    List.extract_eq_take_drop, ← List.drop_take, ← List.drop_take, ← hbehind,
    List.take_append_of_le_length hroom]

theorem persists_slice (position count : Nat) :
    Persists data (slice data position count : Reader σ Bytes) (slice data' position count) := by
  refine persists_bind (persists_checkedAdvance position count) fun stop => ?_
  have hsize := size_le_of_isPrefix hfront
  refine persists_guard (fun h => Nat.lt_of_le_of_lt hsize h) _ _ fun hroom => ?_
  rw [toList_extract_of_isPrefix hfront position stop (Nat.le_of_not_lt hroom)]
  exact persists_refl _

theorem persists_checkRoom (start count stride : Nat) :
    Persists data (checkRoom data start count stride : Reader σ Unit)
      (checkRoom data' start count stride) := by
  have hsize := size_le_of_isPrefix hfront
  exact persists_guard (fun h => Nat.lt_of_le_of_lt hsize h) _ _ fun _ => persists_refl _

variable [Meter σ]

/-- The budget is the length of the data, so that longer data has room for every charge that the
shorter data has room for. -/
theorem persists_charge (count : Nat) :
    Persists data (charge data count : Reader σ Unit) (charge data' count) := by
  have hsize := size_le_of_isPrefix hfront
  intro s
  rw [run_charge_eq_ite, run_charge_eq_ite]
  by_cases hfull : data.size < Meter.charged (Meter.charge s count)
  · rw [if_pos hfull]
    exact .inr ⟨_, s, rfl⟩
  · rw [if_neg hfull, if_neg (by omega)]
    exact .inl rfl

theorem persists_word (position : Nat) :
    Persists data (word data position : Reader σ Word) (word data' position) := by
  refine persists_bind (persists_slice hfront position wordSize) fun bytes => ?_
  exact persists_bind (persists_charge hfront wordSize) fun _ => persists_refl _

theorem persists_offset (position : Nat) :
    Persists data (offset data position : Reader σ Nat) (offset data' position) :=
  persists_bind (persists_word hfront position) fun _ => persists_refl _

theorem persists_length (position : Nat) :
    Persists data (length data position : Reader σ Nat) (length data' position) := by
  refine persists_bind (persists_word hfront position) fun w => ?_
  have hsize := size_le_of_isPrefix hfront
  exact persists_guard (fun h => Nat.lt_of_le_of_lt hsize h) _ _ fun _ => persists_refl _

theorem persists_content (position : Nat) :
    Persists data (content data position : Reader σ Bytes) (content data' position) := by
  refine persists_bind (persists_length hfront position) fun count => ?_
  refine persists_bind (persists_refl _) fun start => ?_
  refine persists_bind (persists_slice hfront start count) fun bytes => ?_
  exact persists_bind (persists_charge hfront count) fun _ => persists_refl _

theorem simulation_persists : Simulation (fun {_} => Persists (σ := σ) data) data data' where
  pure _ := persists_refl _
  bind := persists_bind
  advance _ _ := persists_refl _
  checkedAdvance := persists_checkedAdvance
  checkRoom := persists_checkRoom hfront
  offset := persists_offset hfront
  length := persists_length hfront

/-! ## Values and regions -/

variable (config : Config)

theorem persists_signed (u : AbiType) (bits position : Nat) :
    Persists data (signed config data u bits position : Reader σ Int256)
      (signed config data' u bits position) :=
  persists_bind (persists_word hfront position) fun _ => persists_refl _

theorem persists_value (u : AbiType) (position : Nat) :
    Persists data (value config data u position : Reader σ Value)
      (value config data' u position) := by
  have hword := persists_word (σ := σ) hfront
  have hcontent := persists_content (σ := σ) hfront
  have hsigned := persists_signed (σ := σ) hfront config
  have hcontainers := simulation_persists (σ := σ) hfront
  -- Once its word or content has been read, a leaf does not look at the data any more.
  induction u using AbiType.induction generalizing position with
  | address => exact persists_bind (hword position) fun _ => persists_refl _
  | uint n => exact persists_bind (hword position) fun _ => persists_refl _
  | int n => exact persists_bind (hsigned (.int n) n position) fun _ => persists_refl _
  | bool => exact persists_bind (hword position) fun _ => persists_refl _
  | bytes => exact persists_bind (hcontent position) fun _ => persists_refl _
  | fixedBytes n => exact persists_bind (hword position) fun _ => persists_refl _
  | string => exact persists_bind (hcontent position) fun _ => persists_refl _
  | fixed m n => exact persists_bind (hsigned (.fixed m n) m position) fun _ => persists_refl _
  | array e ih => exact hcontainers.array config config e ih position
  | fixedArray e n ih => exact hcontainers.fixedArray config config e n ih position
  | tuple fs ih => exact hcontainers.tuple config config fs ih position

theorem persists_region (ts : List AbiType) (start cursor : Nat) :
    Persists data (region config data ts start cursor : Reader σ (List Value))
      (region config data' ts start cursor) :=
  (simulation_persists hfront).region config config ts
    (fun u _ position => persists_value hfront config u position) start cursor

end Decode

/-- Decoding longer data ends as decoding its front does, unless the front is too short. -/
theorem decode_append_or_truncated (config : Config) (ts : List AbiType) (data extra : Bytes) :
    decode config ts (data ++ extra) = decode config ts data ∨
      ∃ needed, decode config ts data = .error (.truncatedInput needed data.length) := by
  have hfront : data.toArray.toList <+: (data ++ extra).toArray.toList := by simp
  cases hvalid : AbiType.validateAll config.maxDepth ts with
  | error e =>
      -- Descriptors are looked at before the data is.
      refine .inl ?_
      unfold decode
      rw [hvalid]
      rfl
  | ok u =>
      rcases Decode.persists_region hfront config ts 0 0 (0 : Nat) with hsame | ⟨needed, t, hshort⟩
      · refine .inl ?_
        unfold decode
        rw [hsame]
      · exact .inr ⟨needed, decode_eq_error_of_run config ts data _ t hvalid hshort⟩

/-- More bytes behind the data cure nothing but truncation.  Whatever else decoding ends with, values
or an error, it ends with on the longer data as well. -/
theorem decode_append_of_not_truncated (config : Config) (ts : List AbiType) (data extra : Bytes)
    (h : ∀ needed available,
      decode config ts data ≠ .error (.truncatedInput needed available)) :
    decode config ts (data ++ extra) = decode config ts data := by
  rcases decode_append_or_truncated config ts data extra with hsame | ⟨needed, hshort⟩
  · exact hsame
  · exact absurd hshort (h needed _)

/-- An offset that is no multiple of 32 stays one when more follows, and two offsets that point at the
same byte sequence still do. -/
theorem decode_append_of_not_truncated_hostile :
    decode Config.standard [.bytes] (Bytes.ofNat wordSize 33 ++ [1, 2, 3]) =
      .error (.malformedOffset (.misaligned 33 0)) ∧
    decode Config.standard [.bytes, .bytes]
        ([64, 64, 1, 7 <<< 248, 0].flatMap (Bytes.ofNat wordSize) ++ [9]) =
      .ok [.bytes [7], .bytes [7]] := by
  have hmisaligned : decode Config.standard [.bytes] (Bytes.ofNat wordSize 33) =
      .error (.malformedOffset (.misaligned 33 0)) := by
    decide +kernel
  have haliased : decode Config.standard [.bytes, .bytes]
        ([64, 64, 1, 7 <<< 248, 0].flatMap (Bytes.ofNat wordSize)) =
      .ok [.bytes [7], .bytes [7]] := by
    decide +kernel
  constructor
  · rw [← hmisaligned]
    exact decode_append_of_not_truncated _ _ _ _ (by rw [hmisaligned]; exact fun _ _ h => nomatch h)
  · rw [← haliased]
    exact decode_append_of_not_truncated _ _ _ _ (by rw [haliased]; exact fun _ _ h => nomatch h)

end ContractAbi
