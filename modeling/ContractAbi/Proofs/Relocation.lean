import ContractAbi.Proofs.HeadTail
import ContractAbi.Proofs.Reading
import ContractAbi.Proofs.Validity
import ContractAbi.Proofs.Writing

/-!
# A region can be moved

Offsets are relative to the region that they stand in.  A tuple is a region of its own: its encoding is
that of its fields, behind one offset word if the tuple is dynamic.  `encodeParams_tuple_iff` says so of
the encoder and `decode_tuple` of the decoder, which is shown for arbitrary data.

Positions, the end of the data and the budget all move by the same number of bytes, so that each single
check decides alike.  Two checks do not.

* A length may be larger than the data and no larger than the data with the front.  Then it is the next
  step that finds the data too short.
* A position may be a size, and no size any more when it is moved.  It is then so far behind the data that
  nothing can be read there (`truncates_value`).

Where values are static, the step over them cannot tell the two runs apart, because they have been read
(`le_size_of_static`).
-/

namespace ContractAbi

/-- Which error it is, whatever it says. -/
inductive ErrorKind where
  | unsupportedType
  | typeMismatch
  | emptyTypedArray
  | sizeOverflow
  | arityMismatch
  | truncatedInput
  | malformedOffset
  | typeArityMismatch
  | unknownFunction
  | unaddressable
deriving DecidableEq, Repr

/-- The kind of an error. -/
def AbiError.kind : AbiError → ErrorKind
  | .unsupportedType _ => .unsupportedType
  | .typeMismatch _ => .typeMismatch
  | .emptyTypedArray => .emptyTypedArray
  | .sizeOverflow _ _ => .sizeOverflow
  | .arityMismatch _ _ => .arityMismatch
  | .truncatedInput _ _ => .truncatedInput
  | .malformedOffset _ => .malformedOffset
  | .typeArityMismatch _ _ => .typeArityMismatch
  | .unknownFunction _ => .unknownFunction
  | .unaddressable => .unaddressable

/-- What stands in front of a value that is alone in its region: the offset of a dynamic one. -/
def AbiType.front (t : AbiType) : Bytes :=
  if t.isDynamic then Bytes.ofNat wordSize wordSize else []

namespace Decode

/-! ## Outcomes -/

section Outcomes

variable {α β : Type}

/-- Every run of the computation finds the data too short. -/
def Truncates (m : Reader Nat α) : Prop :=
  ∀ s, ∃ needed available t, m.run s = .error (.truncatedInput needed available) t

/-- The second computation does what the first does, with `shift` more charged, but for what its error
says. -/
def Moves (shift : Nat) (m n : Reader Nat α) : Prop :=
  ∀ s, (∃ a t, m.run s = .ok a t ∧ n.run (s + shift) = .ok a (t + shift)) ∨
    ∃ e e' t t', m.run s = .error e t ∧ n.run (s + shift) = .error e' t' ∧ e.kind = e'.kind

variable {shift : Nat} {m n : Reader Nat α} {f g : α → Reader Nat β}

theorem truncates_throw (data : Input) (needed : Nat) :
    Truncates (throw (truncated data needed) : Reader Nat α) :=
  fun s => ⟨needed, data.size, s, rfl⟩

theorem truncates_bind (hm : Truncates m) (f : α → Reader Nat β) : Truncates (m >>= f) := by
  intro s
  obtain ⟨needed, available, t, hrun⟩ := hm s
  refine ⟨needed, available, t, ?_⟩
  rw [EStateM.run_bind, hrun]

theorem not_truncates_of_run {s t : Nat} {a : α} (h : m.run s = .ok a t) : ¬ Truncates m := by
  intro htruncates
  obtain ⟨needed, available, t', hrun⟩ := htruncates s
  rw [h] at hrun
  contradiction

theorem moves_pure (a : α) : Moves shift (pure a) (pure a) :=
  fun s => .inl ⟨a, s, rfl, rfl⟩

theorem moves_throw {e e' : AbiError} (h : e.kind = e'.kind) :
    Moves shift (throw e : Reader Nat α) (throw e') :=
  fun s => .inr ⟨e, e', s, s + shift, rfl, rfl, h⟩

theorem moves_of_truncates (hm : Truncates m) (hn : Truncates n) : Moves shift m n := by
  intro s
  obtain ⟨needed, available, t, hrun⟩ := hm s
  obtain ⟨needed', available', t', hrun'⟩ := hn (s + shift)
  exact .inr ⟨_, _, t, t', hrun, hrun', rfl⟩

/-- What the first step has returned is known in the steps behind it. -/
theorem moves_bind (hm : Moves shift m n)
    (hf : ∀ s a t, m.run s = .ok a t → Moves shift (f a) (g a)) :
    Moves shift (m >>= f) (n >>= g) := by
  intro s
  rw [EStateM.run_bind, EStateM.run_bind]
  rcases hm s with ⟨a, t, hrun, hrun'⟩ | ⟨e, e', t, t', hrun, hrun', hkind⟩
  · rw [hrun, hrun']
    exact hf s a t hrun t
  · rw [hrun, hrun']
    exact .inr ⟨e, e', t, t', rfl, rfl, hkind⟩

theorem moves_ite {c : Prop} [Decidable c] {m' n' : Reader Nat α} (hm : Moves shift m n)
    (hn : ¬ c → Moves shift m' n') : Moves shift (if c then m else m') (if c then n else n') := by
  split
  · exact hm
  · exact hn ‹_›

/-- A guard that decides alike, in front of further steps. -/
theorem moves_guard_bind {c : Prop} [Decidable c] {e e' : AbiError} (h : e.kind = e'.kind)
    {m' n' : Reader Nat β} (hm : ¬ c → Moves shift m' n') :
    Moves shift (if c then throw e >>= f else m') (if c then throw e' >>= g else n') :=
  moves_ite (moves_bind (moves_throw h) fun s a t hrun =>
    absurd hrun (EStateM.run_throw_ne_ok e a s t)) hm

end Outcomes

/-! ## Steps that find the data too short -/

section Short

variable (data : Input)

theorem advance_eq_pure (position count : Nat) (h : position + count ≤ maxSize) :
    (advance position count : Reader Nat Nat) = pure (position + count) :=
  if_neg (Nat.not_lt.mpr h)

theorem checkedAdvance_eq_pure (position count : Nat) (h : position + count ≤ maxSize) :
    (checkedAdvance data position count : Reader Nat Nat) = pure (position + count) :=
  if_neg (Nat.not_lt.mpr h)

theorem truncates_checkedAdvance (position count : Nat) (h : maxSize < position + count) :
    Truncates (checkedAdvance data position count : Reader Nat Nat) := by
  rw [checkedAdvance, if_pos h]
  exact truncates_throw data _

theorem checkRoom_eq_pure (start count stride : Nat) (h : count * stride + start ≤ data.size) :
    (checkRoom data start count stride : Reader Nat Unit) = pure () :=
  if_neg (Nat.not_lt.mpr (Nat.le_trans (Nat.min_le_right _ _) h))

theorem truncates_slice (position count : Nat) (h : data.size < position + count) :
    Truncates (slice data position count : Reader Nat Bytes) := by
  rw [slice]
  by_cases hsum : position + count ≤ maxSize
  · rw [checkedAdvance_eq_pure data _ _ hsum, pure_bind]
    simp only [if_pos h]
    exact truncates_bind (truncates_throw data _) _
  · exact truncates_bind (truncates_checkedAdvance data _ _ (by omega)) _

theorem truncates_word (position : Nat) (h : data.size < position + wordSize) :
    Truncates (word data position : Reader Nat Word) :=
  truncates_bind (truncates_slice data position wordSize h) _

theorem truncates_component (t : AbiType) (read : Nat → Reader Nat Value)
    (start cursor : Nat) (h : data.size < cursor + wordSize) (hread : Truncates (read cursor)) :
    Truncates (component data t read start cursor) := by
  rw [component]
  split
  · exact truncates_bind (truncates_bind (truncates_word data cursor h) _) _
  · exact truncates_bind hread _

/-- The heads of a region that has been read lie in the data, one behind the other: a static component
is its own head, and of a dynamic one the offset has been read. -/
theorem le_size_of_heads (config : Config) (ts : List AbiType)
    (hstatic : ∀ t ∈ ts, t.isDynamic = false → ∀ position (s s' : Nat) v,
      (value config data t position).run s = .ok v s' → position + t.headSize ≤ data.size)
    (start cursor s s' : Nat) (vs : List Value)
    (h : (region config data ts start cursor).run s = .ok vs s') :
    ts = [] ∨ cursor + (ts.map AbiType.headSize).sum ≤ data.size := by
  induction ts generalizing cursor s vs with
  | nil => exact .inl rfl
  | cons t ts ih =>
      right
      obtain ⟨v, next, x, rest, hcomponent, hrest, rfl⟩ :=
        (run_region_cons data s s' config t ts start cursor vs).mp h
      have hhead : cursor + t.headSize ≤ data.size ∧ next = cursor + t.headSize := by
        rcases (run_component data s x t _ start cursor v next).mp hcomponent with
          ⟨hdynamic, distance, y, hoffset, -, -, -, rfl⟩ | ⟨hplace, hread, -, rfl⟩
        · rw [AbiType.headSize_of_isDynamic t hdynamic]
          exact ⟨le_size_of_offset data s y cursor distance hoffset, rfl⟩
        · exact ⟨hstatic t (List.mem_cons_self ..) hplace cursor s x v hread, rfl⟩
      obtain ⟨hroom, rfl⟩ := hhead
      rw [List.map_cons, List.sum_cons]
      rcases ih (fun u hu => hstatic u (List.mem_cons_of_mem _ hu)) _ x rest hrest with rfl | hheads
      · simpa using hroom
      · omega

variable (hdata : data.size < maxSize)
include hdata

theorem truncates_checkRoom (start count stride : Nat) (h : data.size < count * stride + start) :
    Truncates (checkRoom data start count stride : Reader Nat Unit) := by
  rw [checkRoom]
  simp only [if_pos (Nat.lt_min.mpr ⟨hdata, h⟩)]
  exact truncates_throw data _

theorem slice_eq_pure (position count : Nat) (h : position + count ≤ data.size) :
    (slice data position count : Reader Nat Bytes) = pure (bytesAt data position count) := by
  rw [slice, checkedAdvance_eq_pure data _ _ (by omega), pure_bind]
  simp only [if_neg (Nat.not_lt.mpr h), toList_extract_add]
  rfl

/-- No value can be read where the data ends within a word. -/
theorem truncates_value (config : Config) (t : AbiType) (hlegal : t.Legal) (hsized : t.Sized)
    (position : Nat) (h : data.size < position + wordSize) :
    Truncates (value config data t position : Reader Nat Value) := by
  have hword := truncates_word data position h
  induction t using AbiType.induction with
  | address => exact truncates_bind hword _
  | uint n => exact truncates_bind hword _
  | int n => exact truncates_bind (truncates_bind hword _) _
  | bool => exact truncates_bind hword _
  | bytes => exact truncates_bind (truncates_bind (truncates_bind hword _) _) _
  | fixedBytes n => exact truncates_bind hword _
  | string => exact truncates_bind (truncates_bind (truncates_bind hword _) _) _
  | fixed m n => exact truncates_bind (truncates_bind hword _) _
  | array e => exact truncates_bind (truncates_bind hword _) _
  | fixedArray e n =>
      -- There is at least one element, and it takes at least one word.
      have helement := AbiType.wordSize_le_headSize e hlegal.2 hsized.1
      have hone : e.headSize ≤ n * e.headSize :=
        Nat.le_mul_of_pos_left _ (Nat.pos_of_ne_zero hlegal.1)
      exact truncates_bind (truncates_checkRoom data hdata position n e.headSize (by omega)) _
  | tuple fs ih =>
      cases fs with
      | nil => exact absurd rfl hlegal.1
      | cons f fs =>
          obtain ⟨name, t⟩ := f
          have hfirst := ih t (List.mem_cons_self ..) hlegal.2.1 hsized.1.1
          exact truncates_bind
            (truncates_bind (truncates_component data t _ position position h hfirst) _) _

/-- What has been read takes one word of the data at least. -/
theorem le_size_of_value (config : Config) (t : AbiType) (hlegal : t.Legal) (hsized : t.Sized)
    (position s s' : Nat) (v : Value) (h : (value config data t position).run s = .ok v s') :
    position + wordSize ≤ data.size := by
  by_contra hshort
  exact not_truncates_of_run h (truncates_value data hdata config t hlegal hsized position (by omega))

/-- A static value that has been read lies in the data. -/
theorem le_size_of_static (config : Config) (t : AbiType) (hlegal : t.Legal) (hsized : t.Sized)
    (hstatic : t.isDynamic = false) (position s s' : Nat) (v : Value)
    (h : (value config data t position).run s = .ok v s') : position + t.headSize ≤ data.size := by
  have hword := le_size_of_value data hdata config t hlegal hsized position s s' v h
  induction t using AbiType.induction generalizing position s s' v with
  | fixedArray e n =>
      obtain ⟨vs, hroom, -⟩ := (run_fixedArray data s s' config e n position v).mp h
      have hsize : (AbiType.fixedArray e n).headSize = n * e.headSize := by
        rw [AbiType.headSize_fixedArray e n hsized hstatic, List.map_replicate,
          List.sum_replicate_nat]
      omega
  | tuple fs ih =>
      obtain ⟨vs, hvs, -⟩ := (run_tuple data s s' config fs position v).mp h
      have hany : AbiType.anyDynamic fs = false := hstatic
      have hlegalfs := (AbiType.legalFields_iff fs).mp hlegal.2
      have hsizedfs := (AbiType.sizedFields_iff fs).mp hsized.1
      have hread : ∀ t ∈ fs.map Param.kind, t.isDynamic = false → ∀ position (s s' : Nat) v,
          (value config data t position).run s = .ok v s' → position + t.headSize ≤ data.size :=
        fun t ht hplace position s s' v hv => ih t ht (hlegalfs t ht) (hsizedfs t ht) hplace
          position s s' v hv
          (le_size_of_value data hdata config t (hlegalfs t ht) (hsizedfs t ht) position s s' v hv)
      rw [AbiType.headSize_tuple fs hsized hany]
      rcases le_size_of_heads data config _ hread position position s s' vs hvs with hempty | hheads
      · exact absurd (List.map_eq_nil_iff.mp hempty) hlegal.1
      · exact hheads
  | _ => exact hword

end Short

/-! ## Moved data -/

/-- The second data is the first behind as many bytes as `shift` says. -/
structure Behind (shift : Nat) (data data' : Input) : Prop where
  size_eq : data'.size = data.size + shift
  bytesAt_eq : ∀ position count, bytesAt data' (position + shift) count = bytesAt data position count
  size_lt : data'.size < maxSize

theorem behind_append (front bytes : Bytes) (h : (front ++ bytes).length < maxSize) :
    Behind front.length bytes.toArray (front ++ bytes).toArray where
  size_eq := by simp [Nat.add_comm]
  bytesAt_eq position count := by simp [bytesAt, Nat.add_comm position, List.drop_length_add_append]
  size_lt := by simpa using h

section Moved

variable {shift : Nat} {data data' : Input} (hbehind : Behind shift data data')
include hbehind

theorem Behind.size_lt_left : data.size < maxSize := by
  have hsize := hbehind.size_eq
  have hlimit := hbehind.size_lt
  omega

theorem moves_charge (count : Nat) :
    Moves shift (charge data count : Reader Nat Unit) (charge data' count) := by
  have hsize := hbehind.size_eq
  have hlimit := hbehind.size_lt
  intro s
  have hcharge : ∀ s, Meter.charged (Meter.charge s count) = min maxSize (s + count) := fun _ => rfl
  have hstate : ∀ s : Nat, Meter.charge s count = min maxSize (s + count) := fun _ => rfl
  rw [run_charge_eq_ite, run_charge_eq_ite, hcharge, hcharge]
  by_cases hroom : s + count ≤ data.size
  · refine .inl ⟨(), s + count, ?_, ?_⟩
    · rw [if_neg (by omega), hstate, Nat.min_eq_right (by omega)]
    · rw [if_neg (by omega), hstate, Nat.min_eq_right (by omega), Nat.add_right_comm]
  · rw [if_pos (by omega), if_pos (by omega)]
    exact .inr ⟨_, _, s, s + shift, rfl, rfl, rfl⟩

theorem moves_slice (position count : Nat) :
    Moves shift (slice data position count : Reader Nat Bytes)
      (slice data' (position + shift) count) := by
  have hsize := hbehind.size_eq
  by_cases hroom : position + count ≤ data.size
  · rw [slice_eq_pure data hbehind.size_lt_left _ _ hroom,
      slice_eq_pure data' hbehind.size_lt _ _ (by omega), hbehind.bytesAt_eq]
    exact moves_pure _
  · exact moves_of_truncates (truncates_slice data _ _ (by omega))
      (truncates_slice data' _ _ (by omega))

theorem moves_word (position : Nat) :
    Moves shift (word data position : Reader Nat Word) (word data' (position + shift)) := by
  refine moves_bind (moves_slice hbehind position wordSize) fun _ bytes _ _ => ?_
  exact moves_bind (moves_charge hbehind wordSize) fun _ _ _ _ => moves_pure _

theorem moves_offset (position : Nat) :
    Moves shift (offset data position : Reader Nat Nat) (offset data' (position + shift)) := by
  refine moves_bind (moves_word hbehind position) fun _ w _ _ => ?_
  refine moves_guard_bind (by rfl) fun _ => ?_
  exact moves_guard_bind (by rfl) fun _ => moves_pure _

theorem moves_checkRoom (start count stride : Nat) :
    Moves shift (checkRoom data start count stride : Reader Nat Unit)
      (checkRoom data' (start + shift) count stride) := by
  have hsize := hbehind.size_eq
  by_cases hroom : count * stride + start ≤ data.size
  · rw [checkRoom_eq_pure data _ _ _ hroom, checkRoom_eq_pure data' _ _ _ (by omega)]
    exact moves_pure _
  · exact moves_of_truncates (truncates_checkRoom data hbehind.size_lt_left _ _ _ (by omega))
      (truncates_checkRoom data' hbehind.size_lt _ _ _ (by omega))

/-- A length and what follows it.  A length between the sizes of the two data is refused at once in the
first and has to be found out in the second. -/
theorem moves_length_bind {α : Type} (position : Nat) {f g : Nat → Reader Nat α}
    (hf : ∀ count, position + wordSize ≤ data.size → Moves shift (f count) (g count))
    (hlong : ∀ count, position + wordSize ≤ data.size → data.size < count → Truncates (g count)) :
    Moves shift (length data position >>= f) (length data' (position + shift) >>= g) := by
  have hsize := hbehind.size_eq
  rw [length, length, bind_assoc, bind_assoc]
  refine moves_bind (moves_word hbehind position) fun s w t hw => ?_
  have hroom := le_size_of_word data s t position w hw
  by_cases hshort : data.size < w.toNat
  · refine moves_of_truncates ?_ ?_
    · simp only [if_pos hshort]
      exact truncates_bind (truncates_bind (truncates_throw data _) _) _
    · by_cases hshort' : data'.size < w.toNat
      · simp only [if_pos hshort']
        exact truncates_bind (truncates_bind (truncates_throw data' _) _) _
      · simp only [if_neg hshort', pure_bind]
        exact hlong w.toNat hroom hshort
  · simp only [if_neg hshort, if_neg (show ¬ data'.size < w.toNat by omega), pure_bind]
    exact hf w.toNat hroom

/-- The content behind a length begins within the data, but a length that is too large leads out of it. -/
theorem moves_content (position : Nat) :
    Moves shift (content data position : Reader Nat Bytes) (content data' (position + shift)) := by
  have hsize := hbehind.size_eq
  have hlimit := hbehind.size_lt
  refine moves_length_bind hbehind position (fun count hroom => ?_) fun count hroom hlong => ?_
  · rw [advance_eq_pure _ _ (by omega), advance_eq_pure _ _ (by omega), pure_bind, pure_bind,
      Nat.add_right_comm]
    refine moves_bind (moves_slice hbehind _ count) fun _ bytes _ _ => ?_
    exact moves_bind (moves_charge hbehind count) fun _ _ _ _ => moves_pure _
  · rw [advance_eq_pure _ _ (by omega), pure_bind]
    exact truncates_bind (truncates_slice data' _ _ (by omega)) _

variable (config : Config)

theorem moves_signed (t : AbiType) (bits position : Nat) :
    Moves shift (signed config data t bits position : Reader Nat Int256)
      (signed config data' t bits (position + shift)) := by
  refine moves_bind (moves_word hbehind position) fun _ w _ _ => ?_
  refine moves_ite (moves_ite (moves_pure _) fun _ => moves_throw rfl) fun _ => moves_pure _

/-- A component and what follows it.  A target that is no position any more when it is moved is far behind
the data, where nothing can be read either. -/
theorem moves_component_bind {α : Type} (t : AbiType) (hlegal : t.Legal) (hsized : t.Sized)
    (hread : ∀ position, Moves shift (value config data t position)
      (value config data' t (position + shift)))
    (start cursor : Nat) {f g : Value × Nat → Reader Nat α}
    (hf : ∀ v next, Moves shift (f (v, next)) (g (v, next + shift))) :
    Moves shift (component data t (value config data t) start cursor >>= f)
      (component data' t (value config data' t) (start + shift) (cursor + shift) >>= g) := by
  have hsize := hbehind.size_eq
  have hlimit := hbehind.size_lt
  by_cases hdynamic : t.isDynamic = true
  · simp only [component, if_pos hdynamic, bind_assoc]
    refine moves_bind (moves_offset hbehind cursor) fun s distance x hoffset => ?_
    have hroom := le_size_of_offset data s x cursor distance hoffset
    by_cases htarget : start + shift + distance ≤ maxSize
    · rw [checkedAdvance_eq_pure _ _ _ (by omega), checkedAdvance_eq_pure _ _ _ htarget, pure_bind,
        pure_bind, Nat.add_right_comm]
      refine moves_bind (hread _) fun _ v _ _ => ?_
      rw [advance_eq_pure _ _ (by omega), advance_eq_pure _ _ (by omega), pure_bind, pure_bind,
        pure_bind, pure_bind, Nat.add_right_comm]
      exact hf v _
    · refine moves_of_truncates ?_
        (truncates_bind (truncates_checkedAdvance data' _ _ (by omega)) _)
      by_cases hsum : start + distance ≤ maxSize
      · rw [checkedAdvance_eq_pure _ _ _ hsum, pure_bind]
        exact truncates_bind (truncates_value data hbehind.size_lt_left config t hlegal hsized _
          (by omega)) _
      · exact truncates_bind (truncates_checkedAdvance data _ _ (by omega)) _
  · simp only [component, if_neg hdynamic, bind_assoc]
    refine moves_bind (hread cursor) fun s v x hv => ?_
    have hroom := le_size_of_static data hbehind.size_lt_left config t hlegal hsized
      (by simpa using hdynamic) cursor s x v hv
    rw [checkedAdvance_eq_pure _ _ _ (by omega), checkedAdvance_eq_pure _ _ _ (by omega), pure_bind,
      pure_bind, pure_bind, pure_bind, Nat.add_right_comm]
    exact hf v _

theorem moves_region (ts : List AbiType) (hlegal : ∀ t ∈ ts, t.Legal ∧ t.Sized)
    (hread : ∀ t ∈ ts, ∀ position, Moves shift (value config data t position)
      (value config data' t (position + shift))) (start cursor : Nat) :
    Moves shift (region config data ts start cursor : Reader Nat (List Value))
      (region config data' ts (start + shift) (cursor + shift)) := by
  induction ts generalizing cursor with
  | nil => exact moves_pure _
  | cons t ts ih =>
      obtain ⟨hlegalt, hsizedt⟩ := hlegal t (List.mem_cons_self ..)
      refine moves_component_bind hbehind config t hlegalt hsizedt (hread t (List.mem_cons_self ..))
        start cursor fun v next => ?_
      refine moves_bind (ih (fun u hu => hlegal u (List.mem_cons_of_mem _ hu))
        (fun u hu => hread u (List.mem_cons_of_mem _ hu)) next) ?_
      exact fun _ vs _ _ => moves_pure _

/-- Reading a value does not depend on where the data begins. -/
theorem moves_value (t : AbiType) (hlegal : t.Legal) (hsized : t.Sized) (position : Nat) :
    Moves shift (value config data t position : Reader Nat Value)
      (value config data' t (position + shift)) := by
  have hsize := hbehind.size_eq
  have hlimit := hbehind.size_lt
  have hword := moves_word hbehind
  have hcontent := moves_content hbehind
  have hsigned := moves_signed hbehind config
  induction t using AbiType.induction generalizing position with
  | address =>
      refine moves_bind (hword position) fun _ w _ _ => ?_
      exact moves_guard_bind rfl fun _ => moves_pure _
  | uint n =>
      refine moves_bind (hword position) fun _ w _ _ => ?_
      refine moves_ite (moves_pure _) fun _ => moves_ite (moves_throw rfl) fun _ => ?_
      refine moves_bind (moves_ite (moves_throw rfl) fun _ => moves_pure _) ?_
      exact fun _ _ _ _ => moves_pure _
  | int n => exact moves_bind (hsigned _ n position) fun _ _ _ _ => moves_pure _
  | bool =>
      refine moves_bind (hword position) fun _ w _ _ => ?_
      exact moves_guard_bind rfl fun _ => moves_pure _
  | fixedBytes n =>
      refine moves_bind (hword position) fun _ w _ _ => ?_
      refine moves_guard_bind rfl fun _ => ?_
      exact moves_guard_bind rfl fun _ => moves_pure _
  | fixed m n =>
      refine moves_bind (hsigned _ m position) fun _ raw _ _ => ?_
      cases Decimal.ofWire raw n config.scaling with
      | ok v => exact moves_pure _
      | error cause => exact moves_throw rfl
  | bytes => exact moves_bind (hcontent position) fun _ _ _ _ => moves_pure _
  | string =>
      refine moves_bind (hcontent position) fun _ bytes _ _ => ?_
      cases Text.Utf8.decode bytes with
      | ok s => exact moves_pure _
      | error cause => exact moves_throw rfl
  | array e ih =>
      simp only [value, elements_eq_region]
      refine moves_length_bind hbehind position (fun count hroom => ?_) fun count hroom hlong => ?_
      · rw [advance_eq_pure _ _ (by omega), advance_eq_pure _ _ (by omega), pure_bind, pure_bind,
          Nat.add_right_comm]
        refine moves_bind (moves_checkRoom hbehind _ count e.headSize) fun _ _ _ _ => ?_
        refine moves_bind (moves_region hbehind config (List.replicate count e)
          (List.forall_mem_replicate.mpr (.inr ⟨hlegal, hsized⟩))
          (List.forall_mem_replicate.mpr (.inr (ih hlegal hsized))) _ _) ?_
        exact fun _ vs _ _ => moves_pure _
      · -- Each element takes some room, so that there is none for as many as that.
        have helement := AbiType.wordSize_le_headSize e hlegal hsized
        have hmany : count ≤ count * e.headSize :=
          Nat.le_mul_of_pos_right _ (Nat.lt_of_lt_of_le (by decide) helement)
        rw [advance_eq_pure _ _ (by omega), pure_bind]
        exact truncates_bind (truncates_checkRoom data' hlimit _ _ _ (by omega)) _
  | fixedArray e n ih =>
      simp only [value, elements_eq_region]
      refine moves_bind (moves_checkRoom hbehind position n e.headSize) fun _ _ _ _ => ?_
      refine moves_bind (moves_region hbehind config (List.replicate n e)
        (List.forall_mem_replicate.mpr (.inr ⟨hlegal.2, hsized.1⟩))
        (List.forall_mem_replicate.mpr (.inr (ih hlegal.2 hsized.1))) _ _) ?_
      exact fun _ vs _ _ => moves_pure _
  | tuple fs ih =>
      simp only [value, fields_eq_region]
      have hlegalfs := (AbiType.legalFields_iff fs).mp hlegal.2
      have hsizedfs := (AbiType.sizedFields_iff fs).mp hsized.1
      refine moves_bind (moves_region hbehind config (fs.map Param.kind)
        (fun u hu => ⟨hlegalfs u hu, hsizedfs u hu⟩)
        (fun u hu => ih u hu (hlegalfs u hu) (hsizedfs u hu)) _ _) ?_
      exact fun _ vs _ _ => moves_pure _

end Moved

/-! ## The region of a single tuple -/

/-- The front of a dynamic value is an offset that leads behind it. -/
theorem run_offset_front (bytes : Bytes)
    (hlimit : (Bytes.ofNat wordSize wordSize ++ bytes).length < maxSize) :
    (offset (Bytes.ofNat wordSize wordSize ++ bytes).toArray 0).run 0 = .ok wordSize wordSize := by
  have hsize : (Bytes.ofNat wordSize wordSize ++ bytes).toArray.size = wordSize + bytes.length := by
    simp
  have hlength : wordSize + bytes.length < maxSize := by simpa using hlimit
  have hword : Word.ofBytes
      (bytesAt (Bytes.ofNat wordSize wordSize ++ bytes).toArray 0 wordSize) = Word.ofNat wordSize := by
    rw [bytesAt, List.drop_zero, List.take_append_of_le_length (by simp), List.take_of_length_le
      (by simp), ← Word.toBytes_ofNat, Word.ofBytes_toBytes]
  refine (run_offset _ 0 wordSize 0 wordSize).mpr ⟨Word.ofNat wordSize, ?_, rfl, rfl, by decide⟩
  refine (run_word _ 0 wordSize 0 _).mpr ⟨⟨by decide, ?_⟩, hword.symm, rfl, ?_⟩
  all_goals
    rw [hsize]
    omega

/-- The region of a single tuple is the region of its fields behind the front. -/
theorem run_region_tuple (config : Config) (fs : List Param) (hsized : (AbiType.tuple fs).Sized)
    (bytes : Bytes) (hlimit : ((AbiType.tuple fs).front ++ bytes).length < maxSize) :
    (region config ((AbiType.tuple fs).front ++ bytes).toArray [.tuple fs] 0 0).run 0 =
      (region config ((AbiType.tuple fs).front ++ bytes).toArray (fs.map Param.kind)
          (0 + (AbiType.tuple fs).front.length) (0 + (AbiType.tuple fs).front.length) >>=
        fun vs => pure [.tuple vs]).run (0 + (AbiType.tuple fs).front.length) := by
  by_cases hdynamic : (AbiType.tuple fs).isDynamic = true
  · have hfront : (AbiType.tuple fs).front = Bytes.ofNat wordSize wordSize := if_pos hdynamic
    rw [hfront] at hlimit ⊢
    simp only [region, component, if_pos hdynamic, bind_assoc]
    rw [EStateM.run_bind, run_offset_front bytes hlimit]
    simp only [checkedAdvance_eq_pure _ 0 wordSize (by decide), advance_eq_pure 0 wordSize (by decide),
      pure_bind, value, fields_eq_region, bind_assoc, Bytes.length_ofNat, Nat.zero_add]
  · have hfront : (AbiType.tuple fs).front = [] := if_neg hdynamic
    have hroom : 0 + (AbiType.tuple fs).headSize ≤ maxSize := by
      have hany : AbiType.anyDynamic fs = false := by simpa [AbiType.isDynamic] using hdynamic
      rw [Nat.zero_add, AbiType.headSize_eq_exactSize _ hsized, AbiType.exactSize,
        if_neg (by simp [hany])]
      exact hsized.2
    rw [hfront]
    simp only [region, component, if_neg hdynamic, bind_assoc, checkedAdvance_eq_pure _ 0 _ hroom,
      pure_bind, value, fields_eq_region, List.length_nil, Nat.add_zero]

/-- So is what reading it comes to. -/
theorem moves_region_tuple (config : Config) (fs : List Param) (hlegal : (AbiType.tuple fs).Legal)
    (hsized : (AbiType.tuple fs).Sized) (bytes : Bytes)
    (hlimit : ((AbiType.tuple fs).front ++ bytes).length < maxSize) :
    Moves (AbiType.tuple fs).front.length
      (region config bytes.toArray (fs.map Param.kind) 0 0 >>= fun vs => pure [Value.tuple vs])
      (region config ((AbiType.tuple fs).front ++ bytes).toArray (fs.map Param.kind)
          (0 + (AbiType.tuple fs).front.length) (0 + (AbiType.tuple fs).front.length) >>=
        fun vs => pure [.tuple vs]) := by
  have hbehind := behind_append (AbiType.tuple fs).front bytes hlimit
  have hlegalfs := (AbiType.legalFields_iff fs).mp hlegal.2
  have hsizedfs := (AbiType.sizedFields_iff fs).mp hsized.1
  refine moves_bind (moves_region hbehind config (fs.map Param.kind)
    (fun t ht => ⟨hlegalfs t ht, hsizedfs t ht⟩)
    (fun t ht => moves_value hbehind config t (hlegalfs t ht) (hsizedfs t ht)) 0 0) ?_
  exact fun _ vs _ _ => moves_pure _

end Decode

/-! ## Encoding and decoding a single tuple -/

/-- The region of a single part is the part behind its front. -/
theorem Part.assemble_singleton (t : AbiType) (body : Bytes) :
    assemble ([t].map AbiType.headSize).sum [⟨t.isDynamic, body⟩] = t.front ++ body := by
  rw [List.map_singleton, List.sum_singleton, AbiType.front]
  cases hdynamic : t.isDynamic with
  | true =>
      rw [AbiType.headSize_of_isDynamic t hdynamic]
      simp [assemble, heads, tails, Word.toBytes_ofNat]
  | false => simp [assemble, heads, tails]

/-- A value that is alone is written behind its front, if there is room for its head. -/
theorem encodeParams_singleton (config : Config) (t : AbiType)
    (hvalid : AbiType.validate config.maxDepth t = .ok ()) (v : Value) :
    encodeParams config [t] [v] =
      Encode.regionHeadSize [t] >>= fun _ =>
        (Encode.value config.scaling t v).map (t.front ++ ·) := by
  have hall := (AbiType.validateAll_singleton config.maxDepth t).mpr hvalid
  rw [encodeParams_of_valid config [t] [v] rfl hall, Encode.region]
  cases hhead : Encode.regionHeadSize [t] with
  | error cause => rfl
  | ok total =>
      cases hbody : Encode.value config.scaling t v with
      | error cause =>
          simp only [Encode.valueParts, hbody]
          rfl
      | ok body =>
          have htotal := ((Encode.regionHeadSize_eq_ok_iff [t] total).mp hhead).2
          have hparts := (Encode.valueParts_cons_eq_ok_iff config.scaling t [] v [] _).mpr
            ⟨body, [], hbody, rfl, rfl⟩
          rw [hparts, htotal]
          exact congrArg Except.ok (Part.assemble_singleton t body)

theorem encodeParams_singleton_eq_ok_iff (config : Config) (t : AbiType)
    (hvalid : AbiType.validate config.maxDepth t = .ok ()) (v : Value) (out : Bytes) :
    encodeParams config [t] [v] = .ok out ↔
      t.headSize ≤ maxBuffer ∧
        ∃ body, Encode.value config.scaling t v = .ok body ∧ out = t.front ++ body := by
  rw [encodeParams_singleton config t hvalid, Except.bind_eq_ok_iff]
  simp only [Encode.regionHeadSize_eq_ok_iff, List.map_singleton, List.sum_singleton]
  cases Encode.value config.scaling t v with
  | error cause => simp [Except.map]
  | ok body => simp [Except.map, eq_comm]

section Tuple

variable (config : Config) (fs : List Param)
  (hvalid : AbiType.validate config.maxDepth (.tuple fs) = .ok ())
include hvalid

/-- The fields of a valid tuple are valid on their own. -/
theorem validateAll_kinds : AbiType.validateAll config.maxDepth (fs.map Param.kind) = .ok () := by
  rw [AbiType.validateAll_eq_ok_iff]
  intro t ht
  exact AbiType.validate_of_occurs hvalid (.tuple ht (.here t))

/-- A tuple is written as its fields behind the front, and only if they can be written. -/
theorem encodeParams_tuple_iff (vs : List Value) (out : Bytes) :
    encodeParams config [.tuple fs] [.tuple vs] = .ok out ↔
      ∃ body, encodeParams config (fs.map Param.kind) vs = .ok body ∧
        out = (AbiType.tuple fs).front ++ body := by
  rw [encodeParams_singleton_eq_ok_iff config _ hvalid]
  simp only [Encode.value_tuple, encodeParams_eq_ok_iff]
  constructor
  · rintro ⟨-, body, ⟨vs', heq, hlength, hfields⟩, rfl⟩
    cases heq
    exact ⟨body, ⟨by rw [List.length_map, hlength], validateAll_kinds config fs hvalid, hfields⟩, rfl⟩
  · rintro ⟨body, ⟨hlength, -, hfields⟩, rfl⟩
    rw [List.length_map] at hlength
    refine ⟨?_, body, ⟨vs, rfl, hlength, hfields⟩, rfl⟩
    -- The head of the tuple is an offset, or the heads of its fields, which have been written.
    cases hdynamic : (AbiType.tuple fs).isDynamic with
    | true =>
        rw [AbiType.headSize_of_isDynamic _ hdynamic]
        decide
    | false =>
        obtain ⟨-, -, hroom, -⟩ := (Encode.region_eq_ok_iff _ _ _).mp hfields
        have hsized := (AbiType.legal_and_sized_of_validate config.maxDepth _ hvalid).2
        rwa [AbiType.headSize_tuple fs hsized hdynamic]

/-- Data with the front in front of it is decoded to the tuple of what it is decoded to, or both fail
alike. -/
theorem decode_tuple (bytes : Bytes)
    (hlimit : ((AbiType.tuple fs).front ++ bytes).length < maxSize) :
    (∃ vs, decode config (fs.map Param.kind) bytes = .ok vs ∧
      decode config [.tuple fs] ((AbiType.tuple fs).front ++ bytes) = .ok [.tuple vs]) ∨
    ∃ e e', decode config (fs.map Param.kind) bytes = .error e ∧
      decode config [.tuple fs] ((AbiType.tuple fs).front ++ bytes) = .error e' ∧
      e.kind = e'.kind := by
  obtain ⟨hlegal, hsized⟩ := AbiType.legal_and_sized_of_validate config.maxDepth _ hvalid
  have hkinds := validateAll_kinds config fs hvalid
  have hsingle := (AbiType.validateAll_singleton config.maxDepth _).mpr hvalid
  have hregion := Decode.run_region_tuple config fs hsized bytes hlimit
  have hmoves := Decode.moves_region_tuple config fs hlegal hsized bytes hlimit 0
  rw [← hregion, EStateM.run_bind] at hmoves
  cases hrun : (Decode.region config bytes.toArray (fs.map Param.kind) 0 0).run 0 with
  | ok vs t =>
      left
      rw [hrun] at hmoves
      rcases hmoves with ⟨ws, t', hok, hok'⟩ | ⟨e, e', t', t'', herror, -⟩
      · cases hok
        exact ⟨vs, (decode_eq_ok_iff config _ bytes vs).mpr ⟨hkinds, t, hrun⟩,
          (decode_eq_ok_iff config _ _ _).mpr ⟨hsingle, _, hok'⟩⟩
      · contradiction
  | error cause t =>
      right
      rw [hrun] at hmoves
      rcases hmoves with ⟨ws, t', hok, -⟩ | ⟨e, e', t', t'', herror, herror', hkind⟩
      · contradiction
      · cases herror
        exact ⟨cause, e', decode_eq_error_of_run config _ bytes cause t hkinds hrun,
          decode_eq_error_of_run config _ _ e' t'' hsingle herror', hkind⟩

end Tuple

/-- A tuple is its fields, moved behind the front.  It can be encoded if they can, as the same bytes
behind the front; and any data that is decoded as the fields, canonical or not, is decoded behind the
front to the tuple of the same values, while any data that is not fails behind the front with an error
of the same kind.

The length of any data that exists is at most `maxBuffer`. -/
theorem tuple_relocation (config : Config) (fs : List Param)
    (hvalid : AbiType.validate config.maxDepth (.tuple fs) = .ok ()) :
    (∀ vs out, encodeParams config [.tuple fs] [.tuple vs] = .ok out ↔
      ∃ body, encodeParams config (fs.map Param.kind) vs = .ok body ∧
        out = (AbiType.tuple fs).front ++ body) ∧
    ∀ bytes, ((AbiType.tuple fs).front ++ bytes).length < maxSize →
      (∀ vs, decode config [.tuple fs] ((AbiType.tuple fs).front ++ bytes) = .ok [.tuple vs] ↔
        decode config (fs.map Param.kind) bytes = .ok vs) ∧
      ∀ kind, (∃ e, decode config [.tuple fs] ((AbiType.tuple fs).front ++ bytes) = .error e ∧
          e.kind = kind) ↔
        ∃ e, decode config (fs.map Param.kind) bytes = .error e ∧ e.kind = kind := by
  refine ⟨encodeParams_tuple_iff config fs hvalid, fun bytes hlimit => ?_⟩
  rcases decode_tuple config fs hvalid bytes hlimit with
    ⟨vs, hfields, htuple⟩ | ⟨e, e', hfields, htuple, hkind⟩
  · rw [hfields, htuple]
    simp
  · rw [hfields, htuple]
    simp [hkind]

/-- Data with a gap in it, and an offset that is no whole number of words. -/
theorem tuple_relocation_gap :
    AbiType.validate Config.standard.maxDepth (.tuple [.unnamed (.uint 8), .unnamed .bytes]) = .ok () ∧
    encodeParams Config.standard [.tuple [.unnamed (.uint 8), .unnamed .bytes]]
        [.tuple [.uint 8 7, .bytes [1]]] =
      .ok (Bytes.ofNat wordSize 32 ++ [7, 64, 1, 1 <<< 248].flatMap (Bytes.ofNat wordSize)) ∧
    decode Config.standard [.tuple [.unnamed (.uint 8), .unnamed .bytes]]
        (Bytes.ofNat wordSize 32 ++ [7, 96, 5, 1, 1 <<< 248].flatMap (Bytes.ofNat wordSize)) =
      .ok [.tuple [.uint 8 7, .bytes [1]]] ∧
    ∃ e, decode Config.standard [.tuple [.unnamed (.uint 8), .unnamed .bytes]]
        (Bytes.ofNat wordSize 32 ++ [7, 33].flatMap (Bytes.ofNat wordSize)) = .error e ∧
      e.kind = .malformedOffset := by
  have hvalid : AbiType.validate Config.standard.maxDepth
      (.tuple [.unnamed (.uint 8), .unnamed .bytes]) = .ok () := by
    decide +kernel
  obtain ⟨hencode, hdecode⟩ := tuple_relocation Config.standard _ hvalid
  refine ⟨hvalid, ?_, ?_, ?_⟩
  · exact (hencode _ _).mpr ⟨_, by decide +kernel, rfl⟩
  · exact ((hdecode _ (by decide +kernel)).1 _).mpr (by decide +kernel)
  · exact ((hdecode _ (by decide +kernel)).2 _).mpr ⟨.malformedOffset (.misaligned 33 32),
      by decide +kernel, rfl⟩

end ContractAbi
