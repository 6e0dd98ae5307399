import Mathlib.Data.List.Forall2
import ContractAbi.AbiType

/-!
# Compatible descriptors

Compatible descriptors differ in field names only, and no property of the layout looks at those.
Dropping the names altogether leaves one descriptor of each class of compatible ones.
-/

namespace ContractAbi
namespace AbiType

/-- Compatibility of fields is compatibility position by position. -/
theorem compatibleFields_iff (fs gs : List Param) :
    compatibleFields fs gs = true ↔
      List.Forall₂ (fun a b => compatible a b = true) (fs.map Param.kind) (gs.map Param.kind) := by
  induction fs generalizing gs with
  | nil => cases gs <;> simp [compatibleFields]
  | cons f fs ih =>
      cases gs with
      | nil => simp [compatibleFields]
      | cons g gs =>
          obtain ⟨m, a⟩ := f
          obtain ⟨n, b⟩ := g
          simp [compatibleFields, ih]

theorem compatible_refl (t : AbiType) : compatible t t = true := by
  induction t using AbiType.induction with
  | array e ih => simpa [compatible] using ih
  | fixedArray e n ih => simpa [compatible] using ih
  | tuple fs ih =>
      rw [compatible, compatibleFields_iff, List.forall₂_same]
      exact ih
  | _ => simp [compatible]

theorem anyDynamic_eq_any (fs : List Param) :
    anyDynamic fs = (fs.map Param.kind).any isDynamic := by
  induction fs with
  | nil => rfl
  | cons f fs ih =>
      obtain ⟨name, t⟩ := f
      simp [anyDynamic, ih]

/-- A tuple is static if all of its fields are. -/
theorem anyDynamic_eq_false_iff (fs : List Param) :
    anyDynamic fs = false ↔ ∀ t ∈ fs.map Param.kind, t.isDynamic = false := by
  rw [anyDynamic_eq_any, List.any_eq_false]
  simp

/-- Compatible descriptors are dynamic together. -/
theorem isDynamic_of_compatible (a b : AbiType) (h : compatible a b = true) :
    isDynamic a = isDynamic b := by
  induction a using AbiType.induction generalizing b with
  | fixedArray e n ih =>
      cases b with
      | fixedArray d m =>
          simp only [compatible, Bool.and_eq_true] at h
          exact ih d h.2
      | _ => simp [compatible] at h
  | tuple fs ih =>
      cases b with
      | tuple gs =>
          rw [compatible, compatibleFields_iff] at h
          rw [isDynamic, isDynamic, anyDynamic_eq_any, anyDynamic_eq_any]
          -- Names are out of sight now; what is left is two lists that are paired by `h`.
          generalize fs.map Param.kind = as at h ih
          generalize gs.map Param.kind = bs at h
          induction h with
          | nil => rfl
          | cons hab _ ihrest =>
              rw [List.any_cons, List.any_cons, ih _ (List.mem_cons_self ..) _ hab,
                ihrest fun a ha => ih a (List.mem_cons_of_mem _ ha)]
      | _ => simp [compatible] at h
  | _ => cases b <;> simp_all [compatible, isDynamic]

/-! ## Descriptors without names -/

theorem eraseFields_cons (f : Param) (fs : List Param) :
    eraseFields (f :: fs) = Param.unnamed (eraseNames f.kind) :: eraseFields fs := by
  cases f
  rfl

theorem eraseFields_eq_map (fs : List Param) :
    eraseFields fs = (fs.map Param.kind).map fun t => Param.unnamed (eraseNames t) := by
  induction fs with
  | nil => rfl
  | cons f fs ih => rw [eraseFields_cons, ih, List.map_cons, List.map_cons]

theorem map_kind_eraseFields (fs : List Param) :
    (eraseFields fs).map Param.kind = (fs.map Param.kind).map eraseNames := by
  rw [eraseFields_eq_map, List.map_map]
  rfl

theorem eraseNames_eraseNames (t : AbiType) : eraseNames (eraseNames t) = eraseNames t := by
  induction t using AbiType.induction with
  | array e ih => rw [eraseNames, eraseNames, ih]
  | fixedArray e n ih => rw [eraseNames, eraseNames, ih]
  | tuple fs ih =>
      rw [eraseNames, eraseNames, eraseFields_eq_map, eraseFields_eq_map, List.map_map,
        List.map_map]
      congr 1
      exact List.map_congr_left fun t ht => congrArg Param.unnamed (ih t ht)
  | _ => rfl

/-- Descriptors are compatible exactly if dropping all names makes them the same. -/
theorem compatible_iff_eraseNames (a b : AbiType) :
    compatible a b = true ↔ eraseNames a = eraseNames b := by
  induction a using AbiType.induction generalizing b with
  | array e ih => cases b <;> simp [compatible, eraseNames, ih]
  | fixedArray e n ih => cases b <;> simp [compatible, eraseNames, ih, and_comm]
  | tuple fs ih =>
      cases b with
      | tuple gs =>
          rw [compatible, compatibleFields_iff, eraseNames, eraseNames, tuple.injEq,
            eraseFields_eq_map, eraseFields_eq_map]
          generalize fs.map Param.kind = as at ih
          generalize gs.map Param.kind = bs
          induction as generalizing bs with
          | nil => cases bs <;> simp
          | cons a as ihas =>
              cases bs with
              | nil => simp
              | cons b bs =>
                  have ha := ih a (List.mem_cons_self ..) b
                  have has := ihas (fun t ht => ih t (List.mem_cons_of_mem _ ht)) bs
                  rw [List.forall₂_cons, ha, has, List.map_cons, List.map_cons, List.cons.injEq]
                  simp [Param.unnamed]
      | _ => simp [compatible, eraseNames]
  | _ => cases b <;> simp [compatible, eraseNames]

theorem compatible_eraseNames (t : AbiType) : compatible (eraseNames t) t = true :=
  (compatible_iff_eraseNames _ _).mpr (eraseNames_eraseNames t)

theorem compatible_eraseNames_right (a b : AbiType) : compatible a (eraseNames b) = compatible a b := by
  rw [Bool.eq_iff_iff, compatible_iff_eraseNames, compatible_iff_eraseNames, eraseNames_eraseNames]

/-- Lists of compatible descriptors are the same without the names. -/
theorem map_eraseNames_of_compatible (ts us : List AbiType)
    (h : List.Forall₂ (fun t u => compatible t u = true) ts us) :
    ts.map eraseNames = us.map eraseNames := by
  induction h with
  | nil => rfl
  | cons htu _ ih =>
      rw [List.map_cons, List.map_cons, ih, (compatible_iff_eraseNames _ _).mp htu]

/-- Compatibility is sameness of what is left without the names. -/
theorem compatible_equivalence : Equivalence fun a b : AbiType => compatible a b = true where
  refl := compatible_refl
  symm {a b} hab := by
    rw [compatible_iff_eraseNames] at hab ⊢
    exact hab.symm
  trans {a b c} hab hbc := by
    rw [compatible_iff_eraseNames] at hab hbc ⊢
    exact hab.trans hbc

end AbiType
end ContractAbi
