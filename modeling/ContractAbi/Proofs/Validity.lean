import ContractAbi.Decode
import ContractAbi.Encode
import ContractAbi.Proofs.Legality

/-!
# Which descriptors are valid

`Valid` is the condition on a descriptor that validation is to decide.  It mentions no order and no
pass: everything that occurs in the descriptor, at any depth and also below dynamic arrays, has to have
a width that exists, must not be empty, must not lie too deep and must not be too large.

* `validate_eq_ok_iff_valid` says that validation accepts exactly the valid descriptors, that the error
  of any other one names a fault that is there, and that it is the error of decoding and encoding.
* The list of pending descriptors reaches everything that occurs (`checkPending_eq_ok_iff`), and each
  check of its own asks for one descriptor's share of the condition (`checkNode_eq_ok_iff`).
-/

namespace ContractAbi
namespace AbiType

/-! ## The condition -/

/-- Integers and decimals of that many bits exist. -/
def WidthExists (bits : Nat) : Prop :=
  8 ≤ bits ∧ bits ≤ 256 ∧ 8 ∣ bits

/-- The widths of the descriptor itself exist, if it is a leaf that has any. -/
def LeafExists : AbiType → Prop
  | .uint n => WidthExists n
  | .int n => WidthExists n
  | .fixed m n => WidthExists m ∧ n ≤ 80
  | .fixedBytes n => 1 ≤ n ∧ n ≤ 32
  | _ => True

/-- The descriptor is no array of no elements and no tuple of no fields. -/
def HasItems : AbiType → Prop
  | .fixedArray _ n => n ≠ 0
  | .tuple fs => fs ≠ []
  | _ => True

/-- The items of the descriptor itself, each dynamic one counted as an offset, take no more than can be
addressed. -/
def SizeFits : AbiType → Prop
  | .fixedArray e n => exactSize e * n ≤ maxSize
  | .tuple fs => ((fs.map Param.kind).map exactSize).sum ≤ maxSize
  | _ => True

/-- A descriptor has an encoding and nests at most `limit` containers. -/
structure Valid (limit : Nat) (t : AbiType) : Prop where
  leaves : ∀ k u, Occurs t k u → LeafExists u
  items : ∀ k u, Occurs t k u → HasItems u
  depth : ∀ k u, Occurs t k u → k ≤ limit
  sizes : ∀ k u, Occurs t k u → SizeFits u

/-- What an error says about a descriptor. -/
def Names (limit : Nat) (t : AbiType) : TypeError → Prop
  | .invalid text => ∃ k u, Occurs t k u ∧ ¬ LeafExists u ∧ u.text = text
  | .zeroLengthArray => ∃ k e, Occurs t k (.fixedArray e 0)
  | .emptyTuple => ∃ k, Occurs t k (.tuple [])
  | .tooDeep bound => bound = limit ∧ ∃ k u, Occurs t k u ∧ limit < k
  | .sizeOverflow => ∃ k u, Occurs t k u ∧ ¬ SizeFits u
  | _ => False

/-! ## One level up and down -/

/-- What lies directly inside something that occurs occurs one level deeper. -/
theorem Occurs.deeper {t u s : AbiType} {k : Nat} (h : Occurs t k u) (hs : s ∈ u.inner) :
    Occurs t (k + 1) s := by
  induction h with
  | here t => exact .of_inner hs (.here s)
  | array _ ih => exact .array (ih hs)
  | fixedArray _ ih => exact .fixedArray (ih hs)
  | tuple ht _ ih => exact .tuple ht (ih hs)

/-- What occurs in something that occurs occurs in the whole, deeper by as much. -/
theorem Occurs.trans {t u w : AbiType} {k j : Nat} (h : Occurs t k u) (hw : Occurs u j w) :
    Occurs t (k + j) w := by
  induction h with
  | here t => rwa [Nat.zero_add]
  | array _ ih =>
      rw [Nat.add_right_comm]
      exact .array (ih hw)
  | fixedArray _ ih =>
      rw [Nat.add_right_comm]
      exact .fixedArray (ih hw)
  | tuple ht _ ih =>
      rw [Nat.add_right_comm]
      exact .tuple ht (ih hw)

/-- What occurs below the top lies directly inside something. -/
theorem Occurs.exists_outer {t u : AbiType} {k : Nat} (h : Occurs t k u) (hk : k ≠ 0) :
    ∃ w, Occurs t (k - 1) w ∧ u ∈ w.inner := by
  induction h with
  | here t => contradiction
  | @array e u k h ih =>
      cases k with
      | zero =>
          cases h
          exact ⟨_, .here _, List.mem_singleton_self _⟩
      | succ k =>
          obtain ⟨w, hw, hu⟩ := ih (Nat.succ_ne_zero k)
          exact ⟨w, .array hw, hu⟩
  | @fixedArray e u k n h ih =>
      cases k with
      | zero =>
          cases h
          exact ⟨_, .here _, List.mem_singleton_self _⟩
      | succ k =>
          obtain ⟨w, hw, hu⟩ := ih (Nat.succ_ne_zero k)
          exact ⟨w, .fixedArray hw, hu⟩
  | @tuple fs s u k hs h ih =>
      cases k with
      | zero =>
          cases h
          exact ⟨_, .here _, List.mem_reverse.mpr hs⟩
      | succ k =>
          obtain ⟨w, hw, hu⟩ := ih (Nat.succ_ne_zero k)
          exact ⟨w, .tuple hs hw, hu⟩

/-- Nothing lies too deep if no container lies so deep that its items would. -/
theorem forall_depth_le_iff (limit : Nat) (t : AbiType) :
    (∀ k u, Occurs t k u → k ≤ limit) ↔
      ∀ k u, Occurs t k u → u.inner ≠ [] → k + 1 ≤ limit := by
  constructor
  · intro h k u hu hinner
    obtain ⟨s, hs⟩ := List.exists_mem_of_ne_nil _ hinner
    exact h (k + 1) s (hu.deeper hs)
  · intro h k u hu
    by_cases hk : k = 0
    · omega
    · obtain ⟨w, hw, hinner⟩ := hu.exists_outer hk
      have hroom := h (k - 1) w hw (List.ne_nil_of_mem hinner)
      omega

/-- The condition one level deeper: the descriptor's own share, and the same of what is inside. -/
theorem valid_succ_iff (limit : Nat) (t : AbiType) :
    Valid (limit + 1) t ↔
      LeafExists t ∧ HasItems t ∧ SizeFits t ∧ ∀ s ∈ t.inner, Valid limit s := by
  constructor
  · intro h
    refine ⟨h.leaves 0 t (.here t), h.items 0 t (.here t), h.sizes 0 t (.here t), fun s hs => ?_⟩
    exact {
      leaves := fun k u hu => h.leaves (k + 1) u (.of_inner hs hu)
      items := fun k u hu => h.items (k + 1) u (.of_inner hs hu)
      depth := fun k u hu => Nat.le_of_succ_le_succ (h.depth (k + 1) u (.of_inner hs hu))
      sizes := fun k u hu => h.sizes (k + 1) u (.of_inner hs hu) }
  · rintro ⟨hleaf, hitems, hsize, hinner⟩
    exact {
      leaves := (forall_occurs_iff t fun _ u => LeafExists u).mpr
        ⟨hleaf, fun s hs => (hinner s hs).leaves⟩
      items := (forall_occurs_iff t fun _ u => HasItems u).mpr
        ⟨hitems, fun s hs => (hinner s hs).items⟩
      depth := (forall_occurs_iff t fun k _ => k ≤ limit + 1).mpr
        ⟨Nat.zero_le _, fun s hs k u hu => Nat.succ_le_succ ((hinner s hs).depth k u hu)⟩
      sizes := (forall_occurs_iff t fun _ u => SizeFits u).mpr
        ⟨hsize, fun s hs => (hinner s hs).sizes⟩ }

/-- What occurs in a valid descriptor is valid itself. -/
theorem Valid.of_occurs {limit k : Nat} {t u : AbiType} (h : Valid limit t) (hu : Occurs t k u) :
    Valid limit u where
  leaves j w hw := h.leaves (k + j) w (hu.trans hw)
  items j w hw := h.items (k + j) w (hu.trans hw)
  depth j w hw := Nat.le_trans (Nat.le_add_left j k) (h.depth (k + j) w (hu.trans hw))
  sizes j w hw := h.sizes (k + j) w (hu.trans hw)

/-! ## The first pass -/

theorem isIntegerWidth_iff_widthExists (n : Nat) : isIntegerWidth n = true ↔ WidthExists n := by
  rw [isIntegerWidth_iff, WidthExists]
  omega

/-- The check of a single descriptor asks for its own share of the condition. -/
theorem checkNode_eq_ok_iff (limit level : Nat) (t : AbiType) :
    checkNode limit level t = .ok () ↔
      LeafExists t ∧ HasItems t ∧ (t.inner ≠ [] → level + 1 ≤ limit) := by
  cases t with
  | uint n =>
      simp [checkNode, accept_eq_ok_iff, isIntegerWidth_iff_widthExists, LeafExists, HasItems, inner]
  | int n =>
      simp [checkNode, accept_eq_ok_iff, isIntegerWidth_iff_widthExists, LeafExists, HasItems, inner]
  | fixed m n =>
      have hfraction : n ≤ maxFraction ↔ n ≤ 80 := Iff.rfl
      simp [checkNode, accept_eq_ok_iff, isIntegerWidth_iff_widthExists, LeafExists, HasItems, inner,
        hfraction]
  | fixedBytes n => simp [checkNode, accept_eq_ok_iff, LeafExists, HasItems, inner]
  | array e => simp [checkNode, enter_eq_ok_iff, LeafExists, HasItems, inner]
  | fixedArray e n =>
      by_cases hn : n = 0
      · simp [checkNode, hn, HasItems]
      · simp [checkNode, enter_eq_ok_iff, LeafExists, HasItems, inner, hn]
  | tuple fs =>
      cases fs with
      | nil => simp [checkNode, HasItems]
      | cons f fs => simp [checkNode, enter_eq_ok_iff, LeafExists, HasItems, inner]
  | _ => simp [checkNode, LeafExists, HasItems, inner]

theorem enter_eq_error (limit level : Nat) (cause : TypeError)
    (h : enter limit level = .error cause) : cause = .tooDeep limit ∧ limit < level + 1 := by
  unfold enter at h
  split at h
  · rename_i hdeep
    cases h
    exact ⟨rfl, hdeep⟩
  · contradiction

theorem accept_eq_error (t : AbiType) (condition : Bool) (cause : TypeError)
    (h : accept t condition = .error cause) : cause = .invalid t.text ∧ ¬ condition = true := by
  cases condition with
  | true => contradiction
  | false =>
      cases h
      exact ⟨rfl, Bool.false_ne_true⟩

/-- The error of a single descriptor names a fault of the whole. -/
theorem names_of_checkNode (limit : Nat) (t u : AbiType) (k : Nat) (hu : Occurs t k u)
    (cause : TypeError) (h : checkNode limit k u = .error cause) : Names limit t cause := by
  have hleaf : ∀ condition, checkNode limit k u = accept u condition →
      (LeafExists u → condition = true) → Names limit t cause := by
    intro condition hcheck hexists
    rw [hcheck] at h
    obtain ⟨rfl, hrefused⟩ := accept_eq_error u condition cause h
    exact ⟨k, u, hu, fun hleaf => hrefused (hexists hleaf), rfl⟩
  -- A container with items lies too deep if its items do.
  have hdeep : ∀ s ∈ u.inner, checkNode limit k u = enter limit k → Names limit t cause := by
    intro s hs hcheck
    rw [hcheck] at h
    obtain ⟨rfl, hlimit⟩ := enter_eq_error limit k cause h
    exact ⟨rfl, k + 1, s, hu.deeper hs, hlimit⟩
  cases u with
  | uint n => exact hleaf _ rfl (isIntegerWidth_iff_widthExists n).mpr
  | int n => exact hleaf _ rfl (isIntegerWidth_iff_widthExists n).mpr
  | fixedBytes n => exact hleaf _ rfl (by simp [LeafExists])
  | fixed m n =>
      refine hleaf _ rfl fun hexists => ?_
      rw [Bool.and_eq_true, isIntegerWidth_iff_widthExists, decide_eq_true_eq]
      exact hexists
  | array e => exact hdeep e (List.mem_singleton_self e) rfl
  | fixedArray e n =>
      by_cases hn : n = 0
      · subst hn
        cases h
        exact ⟨k, e, hu⟩
      · exact hdeep e (List.mem_singleton_self e) (if_neg hn)
  | tuple fs =>
      cases fs with
      | nil =>
          cases h
          exact ⟨k, hu⟩
      | cons f fs => exact hdeep f.kind (List.mem_reverse.mpr (List.mem_cons_self ..)) rfl
  | _ => contradiction

/-! ## The second pass -/

/-- Sizes are looked at wherever there are any. -/
theorem sized_iff_forall_occurs (t : AbiType) :
    Sized t ↔ ∀ k u, Occurs t k u → SizeFits u := by
  rw [forall_occurs_iff t fun _ u => SizeFits u]
  induction t using AbiType.induction with
  | array e ih =>
      rw [Sized, ih, ← forall_occurs_iff e fun _ u => SizeFits u]
      simp [SizeFits, inner]
  | fixedArray e n ih =>
      rw [Sized, ih, ← forall_occurs_iff e fun _ u => SizeFits u]
      simp [SizeFits, inner, and_comm]
  | tuple fs ih =>
      rw [Sized, sizedFields_iff, fieldsExactSize_eq_sum, and_comm]
      refine and_congr_right fun _ => ?_
      simp only [inner, List.mem_reverse]
      refine forall_congr' fun t => forall_congr' fun ht => ?_
      rw [ih t ht, ← forall_occurs_iff t fun _ u => SizeFits u]
  | _ => simp [Sized, SizeFits, inner]

theorem exactHeadSize?_eq_none_iff (t : AbiType) : exactHeadSize? t = none ↔ ¬ Sized t := by
  constructor
  · intro h hsized
    rw [exactHeadSize?_of_sized t hsized] at h
    contradiction
  · intro h
    cases hexact : exactHeadSize? t with
    | none => rfl
    | some k => exact absurd (exactHeadSize?_eq_some t k hexact).2 h

/-! ## Both passes -/

/-- Validation accepts what passes and is sized. -/
theorem validate_eq_ok_iff (limit : Nat) (t : AbiType) :
    validate limit t = .ok () ↔ Passes limit 0 t ∧ Sized t := by
  rw [validate, Except.check_bind_eq_ok_iff, checkPending_eq_ok_iff, List.forall_mem_singleton]
  refine and_congr_right fun _ => ?_
  cases hexact : exactHeadSize? t with
  | none => simpa using (exactHeadSize?_eq_none_iff t).mp hexact
  | some k => simpa using (exactHeadSize?_eq_some t k hexact).2

theorem valid_iff (limit : Nat) (t : AbiType) : Valid limit t ↔ Passes limit 0 t ∧ Sized t := by
  rw [sized_iff_forall_occurs]
  simp only [Passes, Nat.zero_add, checkNode_eq_ok_iff]
  constructor
  · intro h
    have hdepth := (forall_depth_le_iff limit t).mp h.depth
    exact ⟨fun k u hu => ⟨h.leaves k u hu, h.items k u hu, hdepth k u hu⟩, h.sizes⟩
  · rintro ⟨hpasses, hsizes⟩
    exact {
      leaves := fun k u hu => (hpasses k u hu).1
      items := fun k u hu => (hpasses k u hu).2.1
      depth := (forall_depth_le_iff limit t).mpr fun k u hu => (hpasses k u hu).2.2
      sizes := hsizes }

theorem valid_iff_validate_eq_ok (limit : Nat) (t : AbiType) :
    Valid limit t ↔ validate limit t = .ok () := by
  rw [validate_eq_ok_iff, valid_iff]

/-- What occurs in a descriptor that validation accepts is accepted on its own. -/
theorem validate_of_occurs {limit k : Nat} {t u : AbiType} (h : validate limit t = .ok ())
    (hu : Occurs t k u) : validate limit u = .ok () := by
  rw [← valid_iff_validate_eq_ok] at h ⊢
  exact h.of_occurs hu

theorem forall_valid_iff (limit : Nat) (ts : List AbiType) :
    (∀ t ∈ ts, Valid limit t) ↔ validateAll limit ts = .ok () := by
  simp only [validateAll_eq_ok_iff, valid_iff_validate_eq_ok]

/-- The error of validation names a fault that is there. -/
theorem names_of_validate (limit : Nat) (t : AbiType) (cause : TypeError)
    (h : validate limit t = .error cause) : Names limit t cause := by
  rw [validate] at h
  cases hpending : checkPending limit [(0, t)] with
  | error first =>
      rw [hpending] at h
      cases h
      obtain ⟨p, hp, k, u, hu, hnode⟩ := exists_of_checkPending_eq_error limit _ cause hpending
      obtain rfl := List.mem_singleton.mp hp
      rw [Nat.zero_add] at hnode
      exact names_of_checkNode limit t u k hu cause hnode
  | ok u =>
      rw [hpending] at h
      cases hexact : exactHeadSize? t with
      | some k =>
          simp only [hexact] at h
          contradiction
      | none =>
          simp only [hexact] at h
          cases h
          have hsized := (exactHeadSize?_eq_none_iff t).mp hexact
          rw [sized_iff_forall_occurs] at hsized
          simpa [Names] using hsized

end AbiType

/-- Validation accepts exactly the valid descriptors.  The error of any other descriptor names a fault
that is there, and with that error decoding refuses all data and encoding all values. -/
theorem validate_eq_ok_iff_valid (config : Config) (t : AbiType) :
    (AbiType.validate config.maxDepth t = .ok () ↔ AbiType.Valid config.maxDepth t) ∧
    ∀ cause, AbiType.validate config.maxDepth t = .error cause →
      AbiType.Names config.maxDepth t cause ∧
      (∀ data, decode config [t] data = .error (.unsupportedType cause)) ∧
      ∀ v, encodeParams config [t] [v] = .error (.unsupportedType cause) := by
  refine ⟨(AbiType.valid_iff_validate_eq_ok config.maxDepth t).symm, fun cause h => ?_⟩
  have hall : AbiType.validateAll config.maxDepth [t] = .error cause := by
    rw [AbiType.validateAll, h]
    rfl
  refine ⟨AbiType.names_of_validate config.maxDepth t cause h, fun data => ?_, fun v => ?_⟩
  · rw [decode, hall]
    rfl
  · rw [encodeParams, hall]
    rfl

/-- A size that overflows below a dynamic array, where no value would show it. -/
example : AbiType.validate 32 (.array (.fixedArray (.fixedArray (.uint 256) (2 ^ 63)) 4)) =
    .error .sizeOverflow := by
  decide +kernel

end ContractAbi
