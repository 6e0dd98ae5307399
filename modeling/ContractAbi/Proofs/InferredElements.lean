import ContractAbi.Proofs.Building

/-!
# Stated and inferred descriptors of elements

The descriptor of the elements of an array is stated or taken from the first of them.  For items of
which there is a first, both ways come to the same: the same arrays are built, the same lengths are
refused, and of items with different descriptors the same one is blamed, the first that is not compatible
with the first of all (`inferred_eq_stated`).

They do not word it alike.  Where the descriptor is inferred, the first item is not compared with itself
and not counted either, so that the index in the error is one less than the position of the item
(`arrayFrom_blames_another_index`).
-/

namespace ContractAbi

/-- The error as it is worded where the first element is not counted. -/
def AbiError.behindFirst : AbiError → AbiError
  | .typeMismatch (.element (index + 1) actual expected) =>
      .typeMismatch (.element index actual expected)
  | e => e

namespace Value

/-! ## Which element is blamed -/

/-- The first element that is not compatible is blamed, by its place among all elements. -/
theorem checkElements_append_cons (element : AbiType) (index : Nat) (front : List Value) (w : Value)
    (rest : List Value) (hfront : ∀ u ∈ front, AbiType.compatible u.typeOf element = true)
    (hw : ¬ AbiType.compatible w.typeOf element = true) :
    checkElements element index (front ++ w :: rest) =
      .error (.typeMismatch (.element (index + front.length) w.typeOf.text element.text)) := by
  induction front generalizing index with
  | nil => rw [List.nil_append, checkElements, if_neg hw, List.length_nil, Nat.add_zero]
  | cons u front ih =>
      obtain ⟨hu, hrest⟩ := List.forall_mem_cons.mp hfront
      rw [List.cons_append, checkElements, if_pos hu, ih (index + 1) hrest, List.length_cons,
        Nat.add_right_comm, Nat.add_assoc]

/-- Counting from one less changes the index and nothing else. -/
theorem checkElements_behindFirst (element : AbiType) (index : Nat) (vs : List Value) :
    (checkElements element (index + 1) vs).mapError AbiError.behindFirst =
      checkElements element index vs := by
  induction vs generalizing index with
  | nil => rfl
  | cons v vs ih =>
      rw [checkElements, checkElements]
      split
      · exact ih (index + 1)
      · rfl

/-- The first element is compatible with itself. -/
theorem checkElements_cons_typeOf (v : Value) (vs : List Value) :
    checkElements v.typeOf 0 (v :: vs) = checkElements v.typeOf 1 vs := by
  rw [checkElements, if_pos (AbiType.compatible_refl v.typeOf)]

/-! ## Both ways of building an array -/

theorem arrayFrom_eq_mapError (v : Value) (vs : List Value) :
    arrayFrom (v :: vs) = (arrayOf v.typeOf (v :: vs)).mapError AbiError.behindFirst := by
  rw [arrayFrom, arrayOf, inferElement, checkElements_cons_typeOf,
    ← checkElements_behindFirst v.typeOf 0 vs]
  cases checkElements v.typeOf 1 vs with
  | error cause => rfl
  | ok u => rfl

/-- The error of a length names no element. -/
theorem behindFirst_of_checkLength_eq_error {length limit : Nat} {stated : Option Nat}
    {cause : AbiError} (h : checkLength length stated limit = .error cause) :
    cause.behindFirst = cause := by
  cases stated with
  | none =>
      rw [checkLength] at h
      split at h
      · cases h
        rfl
      · cases h
  | some expected =>
      rw [checkLength] at h
      split at h
      · cases h
      · cases h
        rfl

theorem fixedArrayFrom_eq_mapError (v : Value) (vs : List Value) (stated : Option Nat) :
    fixedArrayFrom (v :: vs) stated =
      (fixedArrayOf v.typeOf (v :: vs) stated).mapError AbiError.behindFirst := by
  rw [fixedArrayFrom, fixedArrayWithin, fixedArrayOf, inferElement, checkElements_cons_typeOf,
    ← checkElements_behindFirst v.typeOf 0 vs]
  -- The length is checked before any element is looked at.
  cases hlength : checkLength (v :: vs).length stated Config.standard.maxStaticLength with
  | error cause => exact congrArg Except.error (behindFirst_of_checkLength_eq_error hlength).symm
  | ok u =>
      cases checkElements v.typeOf 1 vs with
      | error cause => rfl
      | ok u => rfl

end Value

/-- Leaving the descriptor to the first item is stating that of the first item: the same items make the
same array, and all others are refused for the same reason, which is the length, or the first item that is
not compatible with the first of all.  The index in the error is the position of that item if the
descriptor was stated, and one less if it was inferred. -/
theorem inferred_eq_stated (v : Value) (vs : List Value) (stated : Option Nat) :
    Value.arrayFrom (v :: vs) =
      (Value.arrayOf v.typeOf (v :: vs)).mapError AbiError.behindFirst ∧
    Value.fixedArrayFrom (v :: vs) stated =
      (Value.fixedArrayOf v.typeOf (v :: vs) stated).mapError AbiError.behindFirst ∧
    ∀ front w rest, v :: vs = front ++ w :: rest →
      (∀ u ∈ front, AbiType.compatible u.typeOf v.typeOf = true) →
      ¬ AbiType.compatible w.typeOf v.typeOf = true →
      (Value.arrayOf v.typeOf (v :: vs) =
          .error (.typeMismatch (.element front.length w.typeOf.text v.typeOf.text)) ∧
        Value.arrayFrom (v :: vs) =
          .error (.typeMismatch (.element (front.length - 1) w.typeOf.text v.typeOf.text))) ∧
      (Value.checkLength (v :: vs).length stated Config.standard.maxStaticLength = .ok () →
        Value.fixedArrayOf v.typeOf (v :: vs) stated =
            .error (.typeMismatch (.element front.length w.typeOf.text v.typeOf.text)) ∧
          Value.fixedArrayFrom (v :: vs) stated =
            .error (.typeMismatch (.element (front.length - 1) w.typeOf.text v.typeOf.text))) := by
  refine ⟨Value.arrayFrom_eq_mapError v vs, Value.fixedArrayFrom_eq_mapError v vs stated, ?_⟩
  intro front w rest hsplit hfront hw
  -- The first item is compatible with itself, so that it is not the one that is blamed.
  obtain ⟨count, hcount⟩ : ∃ count, front.length = count + 1 := by
    cases front with
    | nil =>
        cases hsplit
        exact absurd (AbiType.compatible_refl _) hw
    | cons u front => exact ⟨front.length, rfl⟩
  have hcheck := Value.checkElements_append_cons v.typeOf 0 front w rest hfront hw
  rw [← hsplit, Nat.zero_add] at hcheck
  have harray : Value.arrayOf v.typeOf (v :: vs) =
      .error (.typeMismatch (.element front.length w.typeOf.text v.typeOf.text)) := by
    rw [Value.arrayOf, hcheck]
    rfl
  refine ⟨⟨harray, ?_⟩, fun hlength => ?_⟩
  · rw [Value.arrayFrom_eq_mapError, harray, hcount]
    rfl
  · have hfixed : Value.fixedArrayOf v.typeOf (v :: vs) stated =
        .error (.typeMismatch (.element front.length w.typeOf.text v.typeOf.text)) := by
      rw [Value.fixedArrayOf, hlength, hcheck]
      rfl
    refine ⟨hfixed, ?_⟩
    rw [Value.fixedArrayFrom_eq_mapError, hfixed, hcount]
    rfl

/-- The last of three items is blamed. -/
theorem inferred_eq_stated_mixed :
    Value.arrayOf (.uint 8) [.uint 8 1, .uint 8 2, .bool true] =
      .error (.typeMismatch (.element 2 "bool" "uint8")) ∧
    Value.fixedArrayFrom [.uint 8 1, .uint 8 2, .bool true] (some 3) =
      .error (.typeMismatch (.element 1 "bool" "uint8")) ∧
    Value.fixedArrayFrom [.uint 8 1, .uint 8 2] (some 3) = .error (.arityMismatch 3 2) := by
  obtain ⟨-, -, hmixed⟩ := inferred_eq_stated (.uint 8 1) [.uint 8 2, .bool true] (some 3)
  obtain ⟨⟨harray, -⟩, hfixed⟩ := hmixed [.uint 8 1, .uint 8 2] (.bool true) [] rfl
    (by decide +kernel) (by decide +kernel)
  obtain ⟨-, hlength, -⟩ := inferred_eq_stated (.uint 8 1) [.uint 8 2] (some 3)
  exact ⟨harray.trans (by decide +kernel), (hfixed rfl).2.trans (by decide +kernel),
    hlength.trans (by decide +kernel)⟩

/-- So the two errors of a mixed list are not the same, and one of them names an item that is
compatible with the first. -/
theorem arrayFrom_blames_another_index :
    Value.arrayFrom [.uint 256 1, .bool true] =
      .error (.typeMismatch (.element 0 "bool" "uint256")) ∧
    Value.arrayOf (Value.uint 256 1).typeOf [.uint 256 1, .bool true] =
      .error (.typeMismatch (.element 1 "bool" "uint256")) := by
  decide +kernel

end ContractAbi
