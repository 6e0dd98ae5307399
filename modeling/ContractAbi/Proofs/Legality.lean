import Mathlib.Algebra.BigOperators.Ring.List
import Mathlib.Algebra.Ring.Nat
import ContractAbi.AbiType.Valid
import ContractAbi.Proofs.Compatibility
import ContractAbi.Proofs.Outcomes

/-!
# What validation establishes

`validate` runs two passes.  The first looks at every descriptor that `Occurs` in the given one, from a
list of pending descriptors, and accepts if each of them passes its own check; then the leaves and
containers are `Legal`.  The second accepts exactly the descriptors whose sizes, computed in unbounded
arithmetic, stay within `maxSize` at every level (`Sized`).  On a `Sized` descriptor `headSize` never
cuts a size off, and on a descriptor that is also `Legal` it is a positive number of whole words.
-/

namespace ContractAbi
namespace AbiType

/-! ## Legal leaves and containers -/

mutual

/-- The widths of all leaves exist and no container is empty. -/
def Legal : AbiType → Prop
  | .uint n => isIntegerWidth n = true
  | .int n => isIntegerWidth n = true
  | .fixedBytes n => 1 ≤ n ∧ n ≤ 32
  | .fixed m n => isIntegerWidth m = true ∧ n ≤ maxFraction
  | .array e => Legal e
  | .fixedArray e n => n ≠ 0 ∧ Legal e
  | .tuple fs => fs ≠ [] ∧ LegalFields fs
  | _ => True

/-- Every field is legal. -/
def LegalFields : List Param → Prop
  | [] => True
  | ⟨_, t⟩ :: fs => Legal t ∧ LegalFields fs

end

theorem legalFields_iff (fs : List Param) :
    LegalFields fs ↔ ∀ t ∈ fs.map Param.kind, Legal t := by
  induction fs with
  | nil => simp [LegalFields]
  | cons f fs ih =>
      obtain ⟨name, t⟩ := f
      simp [LegalFields, ih]

/-- An integer width is a whole number of bytes, at least one and at most a word. -/
theorem isIntegerWidth_iff (n : Nat) :
    isIntegerWidth n = true ↔ 0 < n ∧ n ≤ 256 ∧ n % 8 = 0 := by
  simp [isIntegerWidth, and_assoc]

theorem accept_eq_ok_iff (t : AbiType) (condition : Bool) :
    accept t condition = .ok () ↔ condition = true := by
  cases condition <;> simp [accept]

theorem enter_eq_ok_iff (limit level : Nat) : enter limit level = .ok () ↔ level + 1 ≤ limit := by
  unfold enter
  split
  · rename_i hdeep
    simp
    omega
  · rename_i hfits
    simp
    omega

/-! ## Pending descriptors -/

/-- A descriptor occurs in another one inside the given number of its containers. -/
inductive Occurs : AbiType → Nat → AbiType → Prop
  | here (t : AbiType) : Occurs t 0 t
  | array {e u : AbiType} {k : Nat} (h : Occurs e k u) : Occurs (.array e) (k + 1) u
  | fixedArray {e u : AbiType} {k n : Nat} (h : Occurs e k u) : Occurs (.fixedArray e n) (k + 1) u
  | tuple {fs : List Param} {t u : AbiType} {k : Nat} (ht : t ∈ fs.map Param.kind)
      (h : Occurs t k u) : Occurs (.tuple fs) (k + 1) u

theorem Occurs.of_inner {t s u : AbiType} {k : Nat} (hs : s ∈ t.inner) (h : Occurs s k u) :
    Occurs t (k + 1) u := by
  cases t with
  | array e =>
      obtain rfl := List.mem_singleton.mp hs
      exact .array h
  | fixedArray e n =>
      obtain rfl := List.mem_singleton.mp hs
      exact .fixedArray h
  | tuple fs => exact .tuple (List.mem_reverse.mp hs) h
  | _ => cases hs

/-- What occurs in a descriptor is the descriptor itself or occurs in something directly inside it. -/
theorem forall_occurs_iff (t : AbiType) (P : Nat → AbiType → Prop) :
    (∀ k u, Occurs t k u → P k u) ↔
      P 0 t ∧ ∀ s ∈ t.inner, ∀ k u, Occurs s k u → P (k + 1) u := by
  constructor
  · intro h
    exact ⟨h 0 t (.here t), fun s hs k u hu => h (k + 1) u (.of_inner hs hu)⟩
  · rintro ⟨hhere, hinner⟩ k u hu
    cases hu with
    | here => exact hhere
    | array hu => exact hinner _ (List.mem_singleton_self _) _ _ hu
    | fixedArray hu => exact hinner _ (List.mem_singleton_self _) _ _ hu
    | tuple ht hu => exact hinner _ (List.mem_reverse.mpr ht) _ _ hu

/-- Everything that occurs in a descriptor, which lies inside `level` containers itself, passes its own
check. -/
def Passes (limit level : Nat) (t : AbiType) : Prop :=
  ∀ k u, Occurs t k u → checkNode limit (level + k) u = .ok ()

theorem passes_iff (limit level : Nat) (t : AbiType) :
    Passes limit level t ↔
      checkNode limit level t = .ok () ∧ ∀ s ∈ t.inner, Passes limit (level + 1) s := by
  rw [Passes, forall_occurs_iff t fun k u => checkNode limit (level + k) u = .ok ()]
  simp only [Passes, Nat.add_zero, Nat.add_assoc, Nat.add_comm 1]

/-- The pending descriptors are accepted if everything in each of them passes. -/
theorem checkPending_eq_ok_iff (limit : Nat) (pending : List (Nat × AbiType)) :
    checkPending limit pending = .ok () ↔ ∀ p ∈ pending, Passes limit p.1 p.2 := by
  induction pending using checkPending.induct with
  | case1 => simp [checkPending]
  | case2 depth t pending ih =>
      rw [checkPending, Except.check_bind_eq_ok_iff, ih, List.forall_mem_append, List.forall_mem_map,
        List.forall_mem_cons, passes_iff, and_assoc]

/-- The error of the pending descriptors is the error of something that occurs in one of them. -/
theorem exists_of_checkPending_eq_error (limit : Nat) (pending : List (Nat × AbiType))
    (cause : TypeError) (h : checkPending limit pending = .error cause) :
    ∃ p ∈ pending, ∃ k u, Occurs p.2 k u ∧ checkNode limit (p.1 + k) u = .error cause := by
  induction pending using checkPending.induct with
  | case1 => simp [checkPending] at h
  | case2 depth t pending ih =>
      rw [checkPending] at h
      cases hnode : checkNode limit depth t with
      | error first =>
          rw [hnode] at h
          cases h
          exact ⟨(depth, t), List.mem_cons_self .., 0, t, .here t, hnode⟩
      | ok u =>
          rw [hnode] at h
          obtain ⟨p, hp, k, u, hu, hcause⟩ := ih h
          rcases List.mem_append.mp hp with hinner | hpending
          · obtain ⟨s, hs, rfl⟩ := List.mem_map.mp hinner
            refine ⟨(depth, t), List.mem_cons_self .., k + 1, u, .of_inner hs hu, ?_⟩
            rw [← hcause, Nat.add_assoc, Nat.add_comm 1]
          · exact ⟨p, List.mem_cons_of_mem _ hpending, k, u, hu, hcause⟩

/-- The first pass accepts legal descriptors only. -/
theorem legal_of_passes (limit level : Nat) (t : AbiType) (h : Passes limit level t) : Legal t := by
  -- Every container is one level deeper, and legality does not depend on the level.
  induction t using AbiType.induction generalizing level with
  | array e ih =>
      obtain ⟨-, hinner⟩ := (passes_iff limit level _).mp h
      exact ih (level + 1) (hinner e (List.mem_singleton_self e))
  | fixedArray e n ih =>
      obtain ⟨hhere, hinner⟩ := (passes_iff limit level _).mp h
      refine ⟨fun hn => ?_, ih (level + 1) (hinner e (List.mem_singleton_self e))⟩
      simp [checkNode, hn] at hhere
  | tuple fs ih =>
      obtain ⟨hhere, hinner⟩ := (passes_iff limit level _).mp h
      refine ⟨fun hfs => ?_, (legalFields_iff fs).mpr fun t ht => ?_⟩
      · simp [hfs, checkNode] at hhere
      · exact ih t ht (level + 1) (hinner t (List.mem_reverse.mpr ht))
  | uint n => simpa [checkNode, accept_eq_ok_iff, Legal] using ((passes_iff limit level _).mp h).1
  | int n => simpa [checkNode, accept_eq_ok_iff, Legal] using ((passes_iff limit level _).mp h).1
  | fixedBytes n =>
      simpa [checkNode, accept_eq_ok_iff, Legal] using ((passes_iff limit level _).mp h).1
  | fixed m n =>
      simpa [checkNode, accept_eq_ok_iff, Legal] using ((passes_iff limit level _).mp h).1
  | _ => trivial

theorem fieldsDepth_cons (f : Param) (fs : List Param) :
    fieldsDepth (f :: fs) = max (depth f.kind) (fieldsDepth fs) := by
  cases f
  rfl

theorem fieldsDepth_le (fs : List Param) (bound : Nat)
    (h : ∀ t ∈ fs.map Param.kind, depth t ≤ bound) : fieldsDepth fs ≤ bound := by
  induction fs with
  | nil => exact Nat.zero_le _
  | cons f fs ih =>
      rw [fieldsDepth_cons]
      exact Nat.max_le.mpr ⟨h f.kind (List.mem_cons_self ..),
        ih fun u hu => h u (List.mem_cons_of_mem _ hu)⟩

/-- The first pass accepts a descriptor only where all of its containers fit. -/
theorem depth_le_of_passes (limit level : Nat) (t : AbiType) (hlevel : level ≤ limit)
    (h : Passes limit level t) : level + depth t ≤ limit := by
  induction t using AbiType.induction generalizing level with
  | array e ih =>
      obtain ⟨hhere, hinner⟩ := (passes_iff limit level _).mp h
      rw [checkNode, enter_eq_ok_iff] at hhere
      have hdeep := ih (level + 1) hhere (hinner e (List.mem_singleton_self e))
      rw [depth]
      omega
  | fixedArray e n ih =>
      obtain ⟨hhere, hinner⟩ := (passes_iff limit level _).mp h
      rw [checkNode] at hhere
      split at hhere
      · contradiction
      · rw [enter_eq_ok_iff] at hhere
        have hdeep := ih (level + 1) hhere (hinner e (List.mem_singleton_self e))
        rw [depth]
        omega
  | tuple fs ih =>
      obtain ⟨hhere, hinner⟩ := (passes_iff limit level _).mp h
      cases fs with
      | nil => simp [checkNode] at hhere
      | cons f fs =>
          rw [checkNode, enter_eq_ok_iff] at hhere
          have hdeep : fieldsDepth (f :: fs) ≤ limit - (level + 1) := by
            apply fieldsDepth_le
            intro t ht
            have := ih t ht (level + 1) hhere (hinner t (List.mem_reverse.mpr ht))
            omega
          rw [depth]
          omega
  | _ => exact hlevel

/-! ## Sizes in unbounded arithmetic -/

mutual

/-- What a value takes in the head of its region, in unbounded arithmetic. -/
def exactSize : AbiType → Nat
  | .fixedArray e n => if isDynamic e then wordSize else exactSize e * n
  | .tuple fs => if anyDynamic fs then wordSize else fieldsExactSize fs
  | _ => wordSize

/-- The sum over the fields of a tuple. -/
def fieldsExactSize : List Param → Nat
  | [] => 0
  | ⟨_, t⟩ :: fs => exactSize t + fieldsExactSize fs

end

mutual

/-- No static array and no tuple inside the descriptor takes more than `maxSize` bytes. -/
def Sized : AbiType → Prop
  | .array e => Sized e
  | .fixedArray e n => Sized e ∧ exactSize e * n ≤ maxSize
  | .tuple fs => SizedFields fs ∧ fieldsExactSize fs ≤ maxSize
  | _ => True

/-- Every field is sized. -/
def SizedFields : List Param → Prop
  | [] => True
  | ⟨_, t⟩ :: fs => Sized t ∧ SizedFields fs

end

theorem sizedFields_iff (fs : List Param) :
    SizedFields fs ↔ ∀ t ∈ fs.map Param.kind, Sized t := by
  induction fs with
  | nil => simp [SizedFields]
  | cons f fs ih =>
      obtain ⟨name, t⟩ := f
      simp [SizedFields, ih]

theorem fieldsExactSize_eq_sum (fs : List Param) :
    fieldsExactSize fs = ((fs.map Param.kind).map exactSize).sum := by
  induction fs with
  | nil => rfl
  | cons f fs ih =>
      obtain ⟨name, t⟩ := f
      simp [fieldsExactSize, ih]

theorem size?_eq_some_iff (n k : Nat) : size? n = some k ↔ k = n ∧ n ≤ maxSize := by
  unfold size?
  split
  · rename_i hn
    simp [hn, eq_comm]
  · rename_i hn
    simp [hn]

/-- The sum over the fields is exact if every single size is. -/
theorem exactFieldsSize?_eq_some (fs : List Param) (k : Nat)
    (ih : ∀ t ∈ fs.map Param.kind, ∀ k, exactHeadSize? t = some k → k = exactSize t ∧ Sized t)
    (h : exactFieldsSize? fs = some k) :
    k = fieldsExactSize fs ∧ SizedFields fs ∧ fieldsExactSize fs ≤ maxSize := by
  induction fs generalizing k with
  | nil =>
      cases h
      exact ⟨rfl, trivial, Nat.zero_le _⟩
  | cons f fs ihfs =>
      obtain ⟨name, t⟩ := f
      simp only [exactFieldsSize?, Option.bind_eq_bind, Option.bind_eq_some_iff,
        size?_eq_some_iff] at h
      obtain ⟨one, hone, rest, hrest, rfl, hfits⟩ := h
      obtain ⟨rfl, hsized⟩ := ih t (List.mem_cons_self ..) one hone
      obtain ⟨rfl, hrestSized, -⟩ :=
        ihfs rest (fun u hu => ih u (List.mem_cons_of_mem _ hu)) hrest
      exact ⟨rfl, ⟨hsized, hrestSized⟩, hfits⟩

/-- The second pass computes `exactSize` and accepts sized descriptors only. -/
theorem exactHeadSize?_eq_some (t : AbiType) (k : Nat) (h : exactHeadSize? t = some k) :
    k = exactSize t ∧ Sized t := by
  induction t using AbiType.induction generalizing k with
  | array e ih =>
      simp only [exactHeadSize?, Option.bind_eq_bind, Option.bind_eq_some_iff] at h
      obtain ⟨inner, hinner, hk⟩ := h
      cases hk
      exact ⟨rfl, (ih inner hinner).2⟩
  | fixedArray e n ih =>
      simp only [exactHeadSize?, Option.bind_eq_bind, Option.bind_eq_some_iff,
        size?_eq_some_iff] at h
      obtain ⟨one, hone, all, ⟨rfl, hfits⟩, hk⟩ := h
      obtain ⟨rfl, hsized⟩ := ih one hone
      cases hk
      exact ⟨rfl, hsized, hfits⟩
  | tuple fs ih =>
      simp only [exactHeadSize?, Option.bind_eq_bind, Option.bind_eq_some_iff] at h
      obtain ⟨all, hall, hk⟩ := h
      obtain ⟨rfl, hsized, hfits⟩ := exactFieldsSize?_eq_some fs all ih hall
      cases hk
      exact ⟨rfl, hsized, hfits⟩
  | _ =>
      cases h
      exact ⟨rfl, trivial⟩

/-- No partial sum passes the sum over all fields. -/
theorem exactFieldsSize?_of_sized (fs : List Param)
    (ih : ∀ t ∈ fs.map Param.kind, exactHeadSize? t = some (exactSize t))
    (hfits : fieldsExactSize fs ≤ maxSize) :
    exactFieldsSize? fs = some (fieldsExactSize fs) := by
  induction fs with
  | nil => rfl
  | cons f fs ihfs =>
      obtain ⟨name, t⟩ := f
      rw [fieldsExactSize] at hfits
      have hrest := ihfs (fun u hu => ih u (List.mem_cons_of_mem _ hu)) (by omega)
      rw [exactFieldsSize?, ih t (List.mem_cons_self ..), hrest]
      exact (size?_eq_some_iff _ _).mpr ⟨rfl, hfits⟩

/-- The second pass accepts every sized descriptor. -/
theorem exactHeadSize?_of_sized (t : AbiType) (h : Sized t) :
    exactHeadSize? t = some (exactSize t) := by
  induction t using AbiType.induction with
  | array e ih =>
      rw [exactHeadSize?, ih h]
      rfl
  | fixedArray e n ih =>
      obtain ⟨hsized, hfits⟩ := h
      rw [exactHeadSize?, ih hsized, exactSize, Option.bind_eq_bind, Option.bind_some,
        (size?_eq_some_iff _ _).mpr ⟨rfl, hfits⟩]
      rfl
  | tuple fs ih =>
      obtain ⟨hsized, hfits⟩ := h
      have hparts : ∀ t ∈ fs.map Param.kind, exactHeadSize? t = some (exactSize t) :=
        fun t ht => ih t ht ((sizedFields_iff fs).mp hsized t ht)
      rw [exactHeadSize?, exactSize, exactFieldsSize?_of_sized fs hparts hfits]
      rfl
  | _ => rfl

/-- What validation establishes about a descriptor. -/
theorem legal_and_sized_of_validate (limit : Nat) (t : AbiType)
    (h : validate limit t = .ok ()) : Legal t ∧ Sized t := by
  rw [validate, Except.check_bind_eq_ok_iff, checkPending_eq_ok_iff] at h
  obtain ⟨hpasses, hsize⟩ := h
  refine ⟨legal_of_passes limit 0 t (hpasses _ (List.mem_singleton_self _)), ?_⟩
  cases hexact : exactHeadSize? t with
  | none => simp [hexact] at hsize
  | some k => exact (exactHeadSize?_eq_some t k hexact).2

theorem validateAll_eq_ok_iff (limit : Nat) (ts : List AbiType) :
    validateAll limit ts = .ok () ↔ ∀ t ∈ ts, validate limit t = .ok () := by
  induction ts with
  | nil => simp [validateAll]
  | cons t ts ih => rw [validateAll, Except.check_bind_eq_ok_iff, ih, List.forall_mem_cons]

theorem validateAll_singleton (limit : Nat) (t : AbiType) :
    validateAll limit [t] = .ok () ↔ validate limit t = .ok () := by
  rw [validateAll_eq_ok_iff, List.forall_mem_singleton]

/-- A list of descriptors is refused for one of them. -/
theorem exists_of_validateAll_eq_error (limit : Nat) (ts : List AbiType) (cause : TypeError)
    (h : validateAll limit ts = .error cause) : ∃ t ∈ ts, validate limit t = .error cause := by
  induction ts with
  | nil => contradiction
  | cons t ts ih =>
      rw [validateAll] at h
      cases ht : validate limit t with
      | error first =>
          rw [ht] at h
          cases h
          exact ⟨t, List.mem_cons_self .., ht⟩
      | ok u =>
          rw [ht] at h
          obtain ⟨u, hu, hcause⟩ := ih h
          exact ⟨u, List.mem_cons_of_mem t hu, hcause⟩

theorem legal_and_sized_of_validateAll (limit : Nat) (ts : List AbiType)
    (h : validateAll limit ts = .ok ()) : ∀ t ∈ ts, Legal t ∧ Sized t := by
  intro t ht
  have hvalid := (validateAll_eq_ok_iff limit ts).mp h t ht
  exact legal_and_sized_of_validate limit t hvalid

theorem depth_le_of_validate (limit : Nat) (t : AbiType) (h : validate limit t = .ok ()) :
    depth t ≤ limit := by
  rw [validate, Except.check_bind_eq_ok_iff, checkPending_eq_ok_iff] at h
  have hlevel := depth_le_of_passes limit 0 t (Nat.zero_le _) (h.1 _ (List.mem_singleton_self _))
  omega

/-! ## Names of fields

Neither pass looks at them. -/

theorem checkNode_eraseNames (limit level : Nat) (t : AbiType) :
    checkNode limit level (eraseNames t) = checkNode limit level t := by
  cases t with
  | tuple fs =>
      cases fs with
      | nil => rfl
      | cons f fs => rw [eraseNames, eraseFields_cons, checkNode, checkNode]
  | _ => rfl

theorem inner_eraseNames (t : AbiType) : (eraseNames t).inner = t.inner.map eraseNames := by
  cases t with
  | tuple fs => rw [eraseNames, inner, inner, map_kind_eraseFields, List.map_reverse]
  | _ => rfl

theorem checkPending_eraseNames (limit : Nat) (pending : List (Nat × AbiType)) :
    checkPending limit (pending.map (Prod.map id eraseNames)) = checkPending limit pending := by
  induction pending using checkPending.induct with
  | case1 => rfl
  | case2 depth t pending ih =>
      rw [List.map_append, List.map_map] at ih
      rw [List.map_cons, Prod.map, checkPending, checkPending, checkNode_eraseNames,
        inner_eraseNames, List.map_map, ← ih]
      rfl

theorem legal_eraseNames (t : AbiType) (h : Legal t) : Legal (eraseNames t) := by
  induction t using AbiType.induction with
  | array e ih => exact ih h
  | fixedArray e n ih => exact ⟨h.1, ih h.2⟩
  | tuple fs ih =>
      cases fs with
      | nil => exact h
      | cons f fs =>
          have hfields := (legalFields_iff _).mp h.2
          rw [eraseNames]
          refine ⟨by rw [eraseFields_cons]; exact List.cons_ne_nil _ _, (legalFields_iff _).mpr ?_⟩
          rw [map_kind_eraseFields]
          exact List.forall_mem_map.mpr fun t ht => ih t ht (hfields t ht)
  | _ => exact h

theorem fieldsDepth_eraseFields (fs : List Param)
    (ih : ∀ t ∈ fs.map Param.kind, depth (eraseNames t) = depth t) :
    fieldsDepth (eraseFields fs) = fieldsDepth fs := by
  induction fs with
  | nil => rfl
  | cons f fs ihfs =>
      obtain ⟨name, t⟩ := f
      rw [eraseFields, fieldsDepth, fieldsDepth, ih t (List.mem_cons_self ..),
        ihfs fun u hu => ih u (List.mem_cons_of_mem _ hu)]

theorem depth_eraseNames (t : AbiType) : depth (eraseNames t) = depth t := by
  induction t using AbiType.induction with
  | array e ih => rw [eraseNames, depth, depth, ih]
  | fixedArray e n ih => rw [eraseNames, depth, depth, ih]
  | tuple fs ih => rw [eraseNames, depth, depth, fieldsDepth_eraseFields fs ih]
  | _ => rfl

theorem isDynamic_eraseNames (t : AbiType) : isDynamic (eraseNames t) = isDynamic t :=
  isDynamic_of_compatible _ _ (compatible_eraseNames t)

theorem exactFieldsSize?_eraseFields (fs : List Param)
    (ih : ∀ t ∈ fs.map Param.kind, exactHeadSize? (eraseNames t) = exactHeadSize? t) :
    exactFieldsSize? (eraseFields fs) = exactFieldsSize? fs := by
  induction fs with
  | nil => rfl
  | cons f fs ihfs =>
      obtain ⟨name, t⟩ := f
      rw [eraseFields, exactFieldsSize?, exactFieldsSize?, ih t (List.mem_cons_self ..),
        ihfs fun u hu => ih u (List.mem_cons_of_mem _ hu)]

theorem exactHeadSize?_eraseNames (t : AbiType) :
    exactHeadSize? (eraseNames t) = exactHeadSize? t := by
  induction t using AbiType.induction with
  | array e ih => rw [eraseNames, exactHeadSize?, exactHeadSize?, ih]
  | fixedArray e n ih =>
      rw [eraseNames, exactHeadSize?, exactHeadSize?, ih, isDynamic_eraseNames]
  | tuple fs ih =>
      have hdynamic : anyDynamic (eraseFields fs) = anyDynamic fs :=
        isDynamic_eraseNames (.tuple fs)
      rw [eraseNames, exactHeadSize?, exactHeadSize?, exactFieldsSize?_eraseFields fs ih, hdynamic]
  | _ => rfl

theorem validate_eraseNames (limit : Nat) (t : AbiType) :
    validate limit (eraseNames t) = validate limit t := by
  rw [validate, validate, ← checkPending_eraseNames limit [(0, t)], exactHeadSize?_eraseNames]
  rfl

theorem validateAll_eraseNames (limit : Nat) (ts : List AbiType) :
    validateAll limit (ts.map eraseNames) = validateAll limit ts := by
  induction ts with
  | nil => rfl
  | cons t ts ih => rw [List.map_cons, validateAll, validateAll, validate_eraseNames, ih]

theorem fieldsHeadSize_eraseFields (fs : List Param)
    (ih : ∀ t ∈ fs.map Param.kind, headSize (eraseNames t) = headSize t) :
    fieldsHeadSize (eraseFields fs) = fieldsHeadSize fs := by
  induction fs with
  | nil => rfl
  | cons f fs ihfs =>
      obtain ⟨name, t⟩ := f
      rw [eraseFields, fieldsHeadSize, fieldsHeadSize, ih t (List.mem_cons_self ..),
        ihfs fun u hu => ih u (List.mem_cons_of_mem _ hu)]

/-- Sizes that are cut off are cut off alike. -/
theorem headSize_eraseNames (t : AbiType) : headSize (eraseNames t) = headSize t := by
  induction t using AbiType.induction with
  | fixedArray e n ih => rw [eraseNames, headSize, headSize, ih, isDynamic_eraseNames]
  | tuple fs ih =>
      have hdynamic : anyDynamic (eraseFields fs) = anyDynamic fs :=
        isDynamic_eraseNames (.tuple fs)
      rw [eraseNames, headSize, headSize, fieldsHeadSize_eraseFields fs ih, hdynamic]
  | _ => rfl

/-! ## Head sizes of valid descriptors -/

/-- The parts of a sized tuple never pass the size of the whole, so nothing is cut off. -/
theorem fieldsHeadSize_eq (fs : List Param)
    (ih : ∀ t ∈ fs.map Param.kind, headSize t = exactSize t)
    (hfits : fieldsExactSize fs ≤ maxSize) : fieldsHeadSize fs = fieldsExactSize fs := by
  induction fs with
  | nil => rfl
  | cons f fs ihfs =>
      obtain ⟨name, t⟩ := f
      simp only [fieldsExactSize] at hfits
      have ht : headSize t = exactSize t := ih t (List.mem_cons_self ..)
      have hrest : fieldsHeadSize fs = fieldsExactSize fs :=
        ihfs (fun u hu => ih u (List.mem_cons_of_mem _ hu)) (by omega)
      -- The addition is cut off at `maxSize`, which `hfits` says is not passed.
      rw [fieldsHeadSize, fieldsExactSize, ht, hrest]
      omega

/-- The head size of a sized descriptor is exact. -/
theorem headSize_eq_exactSize (t : AbiType) (h : Sized t) : headSize t = exactSize t := by
  induction t using AbiType.induction with
  | fixedArray e n ih =>
      obtain ⟨hsized, hfits⟩ := h
      rw [headSize, exactSize, ih hsized]
      split
      · rfl
      · omega
  | tuple fs ih =>
      obtain ⟨hsized, hfits⟩ := h
      have hparts : ∀ t ∈ fs.map Param.kind, headSize t = exactSize t := by
        intro t ht
        exact ih t ht ((sizedFields_iff fs).mp hsized t ht)
      rw [headSize, exactSize, fieldsHeadSize_eq fs hparts hfits]
  | _ => rfl

theorem map_headSize_eq_map_exactSize (ts : List AbiType) (h : ∀ t ∈ ts, Sized t) :
    ts.map headSize = ts.map exactSize :=
  List.map_congr_left fun t ht => headSize_eq_exactSize t (h t ht)

/-- Heads are whole words. -/
theorem wordSize_dvd_exactSize (t : AbiType) : wordSize ∣ exactSize t := by
  induction t using AbiType.induction with
  | fixedArray e n ih =>
      rw [exactSize]
      split
      · exact Nat.dvd_refl _
      · exact Nat.dvd_trans ih (Nat.dvd_mul_right _ _)
  | tuple fs ih =>
      rw [exactSize]
      split
      · exact Nat.dvd_refl _
      · -- The fields of a static tuple stand in its head one after the other.
        rw [fieldsExactSize_eq_sum]
        apply List.dvd_sum
        exact List.forall_mem_map.mpr ih
  | _ => exact Nat.dvd_refl _

/-- No head of a legal descriptor is empty. -/
theorem wordSize_le_exactSize (t : AbiType) (h : Legal t) : wordSize ≤ exactSize t := by
  induction t using AbiType.induction with
  | fixedArray e n ih =>
      obtain ⟨hn, hlegal⟩ := h
      rw [exactSize]
      split
      · exact Nat.le_refl _
      · exact Nat.le_trans (ih hlegal) (Nat.le_mul_of_pos_right _ (Nat.pos_of_ne_zero hn))
  | tuple fs ih =>
      obtain ⟨hne, hlegal⟩ := h
      rw [exactSize]
      split
      · exact Nat.le_refl _
      · cases fs with
        | nil => contradiction
        | cons f fs =>
            obtain ⟨name, t⟩ := f
            have hfirst := ih t (List.mem_cons_self ..) hlegal.1
            exact Nat.le_trans hfirst (Nat.le_add_right _ _)
  | _ => exact Nat.le_refl _

theorem wordSize_dvd_headSize (t : AbiType) (h : Sized t) : wordSize ∣ headSize t := by
  rw [headSize_eq_exactSize t h]
  exact wordSize_dvd_exactSize t

theorem wordSize_le_headSize (t : AbiType) (hlegal : Legal t) (hsized : Sized t) :
    wordSize ≤ headSize t := by
  rw [headSize_eq_exactSize t hsized]
  exact wordSize_le_exactSize t hlegal

/-- The head of a dynamic value is one offset word. -/
theorem headSize_of_isDynamic (t : AbiType) (h : isDynamic t = true) : headSize t = wordSize := by
  cases t <;> simp_all [isDynamic, headSize]

/-- A static array takes what its elements take. -/
theorem headSize_fixedArray (e : AbiType) (n : Nat) (h : Sized (.fixedArray e n))
    (hstatic : isDynamic e = false) :
    headSize (.fixedArray e n) = ((List.replicate n e).map headSize).sum := by
  rw [headSize_eq_exactSize _ h, exactSize, if_neg (by simp [hstatic]), List.map_replicate,
    List.sum_replicate_nat, headSize_eq_exactSize e h.1, Nat.mul_comm]

/-- A static tuple takes what its fields take. -/
theorem headSize_tuple (fs : List Param) (h : Sized (.tuple fs)) (hstatic : anyDynamic fs = false) :
    headSize (.tuple fs) = ((fs.map Param.kind).map headSize).sum := by
  rw [headSize_eq_exactSize _ h, exactSize, if_neg (by simp [hstatic]), fieldsExactSize_eq_sum,
    map_headSize_eq_map_exactSize _ ((sizedFields_iff fs).mp h.1)]

end AbiType
end ContractAbi
