import ContractAbi.Function
import ContractAbi.Proofs.RoundTrip

/-!
# Calls of functions

A call is a selector with encoded arguments behind it, and the two have nothing to do with each other.
The hash function decides about the selector alone, the arguments are those of `encodeParams`, and the
selector alone decides which functions take the call for theirs.  What holds of encoded arguments
(`decode_encodeParams`) therefore holds of calls.

Two functions whose signatures have digests with the same first four bytes take each other's calls;
nothing is said about them here.
-/

namespace ContractAbi
namespace FunctionDecl

variable (f : FunctionDecl) (config : Config) (hash : Hasher) (args : List Value)

@[simp] theorem length_selector : (f.selector hash).length = selectorSize := by
  rw [selector, ContractAbi.selector, List.length_take, Word.length_toBytes]
  decide

/-! ## Writing a call -/

theorem encodeCall_eq_ok_iff (data : Bytes) :
    f.encodeCall config hash args = .ok data ↔
      ∃ encoded, encodeParams config f.inputTypes args = .ok encoded ∧
        f.selector hash ++ encoded = data := by
  refine (Except.bind_eq_ok_iff _ _ data).trans ?_
  simp only [pure, Except.pure, Except.ok.injEq]

/-- The arguments alone decide whether a call can be written, and what is wrong with it if not. -/
theorem encodeCall_eq_error_iff (error : AbiError) :
    f.encodeCall config hash args = .error error ↔
      encodeParams config f.inputTypes args = .error error := by
  rw [encodeCall]
  cases encodeParams config f.inputTypes args with
  | error cause => exact Iff.rfl
  | ok encoded => exact iff_of_false nofun nofun

/-- Under another hash function a call has another selector and the same arguments. -/
theorem encodeCall_of_encodeCall (data : Bytes) (h : f.encodeCall config hash args = .ok data)
    (other : Hasher) :
    f.encodeCall config other args = .ok (f.selector other ++ data.drop selectorSize) := by
  obtain ⟨encoded, hencoded, rfl⟩ := (f.encodeCall_eq_ok_iff config hash args data).mp h
  rw [← f.length_selector hash, List.drop_left]
  exact (f.encodeCall_eq_ok_iff config other args _).mpr ⟨encoded, hencoded, rfl⟩

/-! ## Reading a call -/

/-- What stands behind four bytes is read exactly if those are the selector. -/
theorem decodeInput_append (front : Bytes) (hfront : front.length = selectorSize) (encoded : Bytes) :
    f.decodeInput config hash (front ++ encoded) =
      if front = f.selector hash then decode config f.inputTypes encoded
      else .error (.typeMismatch (.selector front f.signature (f.selector hash))) := by
  have hroom : ¬ (front ++ encoded).length < selectorSize := by
    rw [List.length_append, hfront]
    omega
  rw [decodeInput, if_neg hroom, ← hfront, List.take_left, List.drop_left]
  exact ite_not ..

end FunctionDecl

/-- A call is read back by its own function, with the declared descriptors of the elements in every
array, and is refused by every function with another selector, whatever its limits and conventions.
Under another hash function the call has another selector and is otherwise the same; a call that cannot
be written cannot be written under any hash function, always for the same reason. -/
theorem decodeInput_encodeCall (f : FunctionDecl) (config : Config) (hash : Hasher)
    (args : List Value) :
    (∀ data, f.encodeCall config hash args = .ok data →
      (data.length < 2 ^ 64 →
        f.decodeInput config hash data =
            .ok (List.zipWith (fun t v => v.retag t) f.inputTypes args) ∧
          (List.Forall₂ Value.Carries f.inputTypes args →
            f.decodeInput config hash data = .ok args)) ∧
      (∀ (g : FunctionDecl) (config' : Config), g.selector hash ≠ f.selector hash →
        g.decodeInput config' hash data =
          .error (.typeMismatch (.selector (f.selector hash) g.signature (g.selector hash)))) ∧
      ∀ other, ∃ data', f.encodeCall config other args = .ok data' ∧ data'.length = data.length ∧
        data'.drop selectorSize = data.drop selectorSize) ∧
    ∀ error, f.encodeCall config hash args = .error error →
      ∀ other, f.encodeCall config other args = .error error := by
  refine ⟨fun data h => ⟨fun hlength => ?_, fun g config' hselector => ?_, fun other => ?_⟩,
    fun error h other => ?_⟩
  · obtain ⟨encoded, hencoded, rfl⟩ := (f.encodeCall_eq_ok_iff config hash args data).mp h
    rw [f.decodeInput_append config hash _ (f.length_selector hash), if_pos rfl]
    rw [List.length_append] at hlength
    have hdecode := decode_eq_zipWith_retag config f.inputTypes args encoded (by omega) hencoded
      config.strictPadding
    refine ⟨hdecode, fun hcarries => ?_⟩
    rw [← Value.zipWith_retag_of_carries f.inputTypes args (fun t _ => Value.retag_of_carries t)
      hcarries]
    exact hdecode
  · obtain ⟨encoded, -, rfl⟩ := (f.encodeCall_eq_ok_iff config hash args data).mp h
    rw [g.decodeInput_append config' hash _ (f.length_selector hash), if_neg hselector.symm]
  · have hcall := f.encodeCall_of_encodeCall config hash args data h other
    obtain ⟨encoded, -, rfl⟩ := (f.encodeCall_eq_ok_iff config hash args data).mp h
    refine ⟨_, hcall, ?_, ?_⟩
    · simp
    · rw [← f.length_selector other, List.drop_left]
  · rw [f.encodeCall_eq_error_iff] at h ⊢
    exact h

/-- The hash function that keeps the front of a message, so that selectors can be told by eye. -/
def frontHasher : Hasher := fun message =>
  Word.ofBytes (Encode.inWord (message.take selectorSize))

/-- A call of `set` is read by `set` and refused by `get`.  Under a constant hash function a flag in
place of the array is refused all the same. -/
theorem decodeInput_encodeCall_set :
    FunctionDecl.encodeCall ⟨"set", [.unnamed (.array (.uint 8))], []⟩ Config.standard frontHasher
        [.array (.uint 8) [.uint 8 7]] =
      .ok ([115, 101, 116, 40] ++ [32, 1, 7].flatMap (Bytes.ofNat wordSize)) ∧
    FunctionDecl.decodeInput ⟨"set", [.unnamed (.array (.uint 8))], []⟩ Config.standard frontHasher
        ([115, 101, 116, 40] ++ [32, 1, 7].flatMap (Bytes.ofNat wordSize)) =
      .ok [.array (.uint 8) [.uint 8 7]] ∧
    FunctionDecl.decodeInput ⟨"get", [], []⟩ Config.standard frontHasher
        ([115, 101, 116, 40] ++ [32, 1, 7].flatMap (Bytes.ofNat wordSize)) =
      .error (.typeMismatch (.selector [115, 101, 116, 40] "get()" [103, 101, 116, 40])) ∧
    FunctionDecl.encodeCall ⟨"set", [.unnamed (.array (.uint 8))], []⟩ Config.standard (fun _ => 0)
        [.bool true] =
      .error (.typeMismatch (.value "uint8[]" (.bool true))) := by
  have hencode : FunctionDecl.encodeCall ⟨"set", [.unnamed (.array (.uint 8))], []⟩ Config.standard
        frontHasher [.array (.uint 8) [.uint 8 7]] =
      .ok ([115, 101, 116, 40] ++ [32, 1, 7].flatMap (Bytes.ofNat wordSize)) := by
    decide +kernel
  obtain ⟨hown, hothers, -⟩ := (decodeInput_encodeCall _ _ _ _).1 _ hencode
  refine ⟨hencode, ?_, ?_, ?_⟩
  · have hcarries : Value.Carries (.array (.uint 8)) (.array (.uint 8) [.uint 8 7]) :=
      ⟨rfl, fun _ _ => by simp [Value.Carries]⟩
    exact (hown (by decide +kernel)).2 (.cons hcarries .nil)
  · exact (hothers ⟨"get", [], []⟩ Config.standard (by decide +kernel)).trans (by decide +kernel)
  · exact (decodeInput_encodeCall _ _ frontHasher _).2 _ (by decide +kernel) _

end ContractAbi
