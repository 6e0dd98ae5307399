import Mathlib.Data.List.Forall2
import ContractAbi.Proofs.Legality
import ContractAbi.Region

/-!
# The layout of a region

`HeadTail` is the published definition of a sequence of components: a static component is its own head
and has no tail, a dynamic component is its own tail, and its head is the length of everything that
stands in front of that tail.  The length is the one of the bytes themselves; no descriptor is asked.

`Tiled` is what a reader of the region relies on: static components take exactly the head size of
their descriptors, every offset is the position of its own tail, and the tails follow one another from
the end of the heads to the end of the region.

`assemble` is told the length of the heads in advance.  `sequence_assemble` and `tiled_assemble` say
that it produces such regions whenever the parts have the sizes that their descriptors announce.
-/

namespace ContractAbi

/-! ## Positions -/

/-- The given bytes stand at a position of `out`. -/
def StandsAt (out : Bytes) (position : Nat) (bytes : Bytes) : Prop :=
  ∃ front back, front ++ bytes ++ back = out ∧ front.length = position

namespace StandsAt

variable {out mid bytes front back : Bytes} {position distance : Nat}

theorem refl (out : Bytes) : StandsAt out 0 out :=
  ⟨[], [], by simp, rfl⟩

theorem length_le (h : StandsAt out position bytes) : position + bytes.length ≤ out.length := by
  obtain ⟨front, back, rfl, rfl⟩ := h
  simp

theorem take_drop (h : StandsAt out position bytes) :
    (out.drop position).take bytes.length = bytes := by
  obtain ⟨front, back, rfl, rfl⟩ := h
  rw [List.append_assoc, List.drop_left, List.take_left]

/-- Positions add up. -/
theorem trans (hmid : StandsAt out position mid) (h : StandsAt mid distance bytes) :
    StandsAt out (position + distance) bytes := by
  obtain ⟨front, back, rfl, rfl⟩ := hmid
  obtain ⟨front', back', rfl, rfl⟩ := h
  exact ⟨front ++ front', back' ++ back, by simp, by simp⟩

theorem left (h : StandsAt out position (front ++ back)) : StandsAt out position front := by
  obtain ⟨before, after, rfl, rfl⟩ := h
  exact ⟨before, back ++ after, by simp, rfl⟩

theorem right (h : StandsAt out position (front ++ back)) :
    StandsAt out (position + front.length) back := by
  obtain ⟨before, after, rfl, rfl⟩ := h
  exact ⟨before ++ front, after, by simp, by simp⟩

end StandsAt

/-- The number that a word stands for is read back, as far as one word holds it. -/
theorem StandsAt.toNat_offset {out : Bytes} {position n : Nat}
    (h : StandsAt out position (Bytes.ofNat wordSize n)) (hn : n < 256 ^ wordSize) :
    Bytes.toNat ((out.drop position).take wordSize) = n := by
  have htake := h.take_drop
  rw [Bytes.length_ofNat] at htake
  rw [htake, Bytes.toNat_ofNat]
  exact Nat.mod_eq_of_lt hn

/-! ## The definition -/

/-- The heads and tails of a sequence whose components have the given descriptors and bytes. -/
structure HeadTail (ts : List AbiType) (bodies heads tails : List Bytes) : Prop where
  length_bodies : bodies.length = ts.length
  length_heads : heads.length = ts.length
  length_tails : tails.length = ts.length
  static : ∀ (i : Nat) (t : AbiType), ts[i]? = some t → t.isDynamic = false →
    heads[i]? = bodies[i]? ∧ tails[i]? = some []
  dynamic : ∀ (i : Nat) (t : AbiType), ts[i]? = some t → t.isDynamic = true →
    tails[i]? = bodies[i]? ∧
      heads[i]? = some (Bytes.ofNat wordSize (heads.flatten ++ (tails.take i).flatten).length)

/-- A sequence is written as its heads followed by its tails. -/
def Sequence (ts : List AbiType) (bodies : List Bytes) (out : Bytes) : Prop :=
  ∃ heads tails, HeadTail ts bodies heads tails ∧ heads.flatten ++ tails.flatten = out

/-- Components of the region `out`, the first head being at `cursor` and the first tail at `next`. -/
def Tiles (out : Bytes) : Nat → Nat → List AbiType → List Bytes → Prop
  | _, next, [], [] => next = out.length
  | cursor, next, t :: ts, body :: bodies =>
      if t.isDynamic then
        StandsAt out cursor (Bytes.ofNat wordSize next) ∧
          (out.length < 256 ^ wordSize → Bytes.toNat ((out.drop cursor).take wordSize) = next) ∧
          StandsAt out next body ∧ Tiles out (cursor + wordSize) (next + body.length) ts bodies
      else
        StandsAt out cursor body ∧ body.length = t.headSize ∧
          Tiles out (cursor + t.headSize) next ts bodies
  | _, _, _, _ => False

/-- The heads of a region take what the descriptors announce, and the tails tile the rest of it. -/
def Tiled (ts : List AbiType) (bodies : List Bytes) (out : Bytes) : Prop :=
  Tiles out 0 (ts.map AbiType.headSize).sum ts bodies

namespace HeadTail

variable {ts : List AbiType} {bodies heads tails heads' tails' : List Bytes}

/-- The tails are determined by the components. -/
theorem tails_unique (h : HeadTail ts bodies heads tails) (h' : HeadTail ts bodies heads' tails') :
    tails = tails' := by
  apply List.ext_getElem?
  intro i
  cases ht : ts[i]? with
  | none =>
      have hi := List.getElem?_eq_none_iff.mp ht
      rw [List.getElem?_eq_none (by rw [h.length_tails]; exact hi),
        List.getElem?_eq_none (by rw [h'.length_tails]; exact hi)]
  | some t =>
      cases hdynamic : t.isDynamic with
      | false => rw [(h.static i t ht hdynamic).2, (h'.static i t ht hdynamic).2]
      | true => rw [(h.dynamic i t ht hdynamic).1, (h'.dynamic i t ht hdynamic).1]

/-- So are the lengths of the heads, because every offset is one word. -/
theorem map_length_heads_unique (h : HeadTail ts bodies heads tails)
    (h' : HeadTail ts bodies heads' tails') : heads.map List.length = heads'.map List.length := by
  apply List.ext_getElem?
  intro i
  rw [List.getElem?_map, List.getElem?_map]
  cases ht : ts[i]? with
  | none =>
      have hi := List.getElem?_eq_none_iff.mp ht
      rw [List.getElem?_eq_none (by rw [h.length_heads]; exact hi),
        List.getElem?_eq_none (by rw [h'.length_heads]; exact hi)]
  | some t =>
      cases hdynamic : t.isDynamic with
      | false => rw [(h.static i t ht hdynamic).1, (h'.static i t ht hdynamic).1]
      | true =>
          rw [(h.dynamic i t ht hdynamic).2, (h'.dynamic i t ht hdynamic).2]
          simp

/-- And then the offsets themselves. -/
theorem heads_unique (h : HeadTail ts bodies heads tails) (h' : HeadTail ts bodies heads' tails') :
    heads = heads' := by
  have htails := tails_unique h h'
  have hlength : heads.flatten.length = heads'.flatten.length := by
    rw [List.length_flatten, List.length_flatten, map_length_heads_unique h h']
  apply List.ext_getElem?
  intro i
  cases ht : ts[i]? with
  | none =>
      have hi := List.getElem?_eq_none_iff.mp ht
      rw [List.getElem?_eq_none (by rw [h.length_heads]; exact hi),
        List.getElem?_eq_none (by rw [h'.length_heads]; exact hi)]
  | some t =>
      cases hdynamic : t.isDynamic with
      | false => rw [(h.static i t ht hdynamic).1, (h'.static i t ht hdynamic).1]
      | true =>
          rw [(h.dynamic i t ht hdynamic).2, (h'.dynamic i t ht hdynamic).2, htails,
            List.length_append, List.length_append, hlength]

end HeadTail

/-- The definition leaves no choice: the components determine the bytes of the sequence. -/
theorem sequence_unique {ts : List AbiType} {bodies : List Bytes} {out out' : Bytes}
    (h : Sequence ts bodies out) (h' : Sequence ts bodies out') : out = out' := by
  obtain ⟨heads, tails, hlayout, rfl⟩ := h
  obtain ⟨heads', tails', hlayout', rfl⟩ := h'
  rw [hlayout.heads_unique hlayout', hlayout.tails_unique hlayout']

/-! ## What is assembled -/

/-- The word of a number has the digits of the number, whatever its size. -/
theorem Word.toBytes_ofNat (n : Nat) : Word.toBytes (Word.ofNat n) = Bytes.ofNat wordSize n := by
  have hdigits := Bytes.ofNat_toNat wordSize (Bytes.ofNat wordSize n) (Bytes.length_ofNat _ _)
  rw [Bytes.toNat_ofNat] at hdigits
  rw [← hdigits, Word.toBytes, Word.ofNat, BitVec.toNat_ofNat]
  rfl

namespace Part

/-- A part of a region under a descriptor: it is tagged as the descriptor says, a static one has the
size that the descriptor announces, and it consists of whole words. -/
structure Fits (t : AbiType) (p : Part) : Prop where
  tagged : p.dynamic = t.isDynamic
  size : t.isDynamic = false → p.bytes.length = t.headSize
  whole : wordSize ∣ p.bytes.length

/-- What a part adds to the tails. -/
def tail (p : Part) : Bytes :=
  if p.dynamic then p.bytes else []

/-- The heads of parts one by one, the first tail being at the given offset. -/
def headList : Nat → List Part → List Bytes
  | _, [] => []
  | offset, p :: ps =>
      (if p.dynamic then Word.toBytes (Word.ofNat offset) else p.bytes) ::
        headList (offset + p.tail.length) ps

theorem flatten_headList (offset : Nat) (ps : List Part) :
    (headList offset ps).flatten = heads offset ps := by
  induction ps generalizing offset with
  | nil => rfl
  | cons p ps ih =>
      obtain ⟨dynamic, body⟩ := p
      cases dynamic <;> simp [headList, heads, tail, ih]

theorem flatten_map_tail (ps : List Part) : (ps.map tail).flatten = tails ps := by
  induction ps with
  | nil => rfl
  | cons p ps ih =>
      obtain ⟨dynamic, body⟩ := p
      cases dynamic <;> simp [tails, tail, ih]

theorem length_headList (offset : Nat) (ps : List Part) :
    (headList offset ps).length = ps.length := by
  induction ps generalizing offset with
  | nil => rfl
  | cons p ps ih => simp [headList, ih]

/-- The offset of a part is the first offset and the length of the tails in front of it. -/
theorem getElem?_headList (offset : Nat) (ps : List Part) (i : Nat) :
    (headList offset ps)[i]? = ps[i]?.map fun p =>
      if p.dynamic then Word.toBytes (Word.ofNat (offset + ((ps.map tail).take i).flatten.length))
      else p.bytes := by
  induction ps generalizing offset i with
  | nil => simp [headList]
  | cons p ps ih =>
      cases i with
      | zero => simp [headList]
      | succ i =>
          simp only [headList, List.getElem?_cons_succ, ih, List.map_cons, List.take_succ_cons,
            List.flatten_cons, List.length_append, Nat.add_assoc]

theorem length_heads (offset : Nat) (ps : List Part) :
    (heads offset ps).length = (ps.map headLength).sum := by
  induction ps generalizing offset with
  | nil => rfl
  | cons p ps ih =>
      obtain ⟨dynamic, body⟩ := p
      cases dynamic <;> simp [heads, headLength, wordSize, ih]

/-- A part takes among the heads what its descriptor announces. -/
theorem headLength_of_fits (t : AbiType) (p : Part) (h : Fits t p) : p.headLength = t.headSize := by
  rw [headLength, h.tagged]
  split
  · rename_i hdynamic
    exact (AbiType.headSize_of_isDynamic t hdynamic).symm
  · rename_i hstatic
    exact h.size (by simpa using hstatic)

/-- The heads take what the descriptors announce together. -/
theorem length_heads_of_fits (ts : List AbiType) (ps : List Part) (h : List.Forall₂ Fits ts ps)
    (offset : Nat) : (heads offset ps).length = (ts.map AbiType.headSize).sum := by
  rw [length_heads]
  induction h with
  | nil => rfl
  | cons hp _ ih => rw [List.map_cons, List.map_cons, List.sum_cons, List.sum_cons, ih,
      headLength_of_fits _ _ hp]

/-- What is assembled from parts of the announced sizes is the sequence of these parts. -/
theorem sequence_assemble (ts : List AbiType) (ps : List Part) (h : List.Forall₂ Fits ts ps) :
    Sequence ts (ps.map bytes) (assemble (ts.map AbiType.headSize).sum ps) := by
  generalize htotal : (ts.map AbiType.headSize).sum = total
  have hheads : (headList total ps).flatten.length = total := by
    rw [flatten_headList, length_heads_of_fits ts ps h, htotal]
  -- Heads and tails are asked for by position, and so are the parts that they come from.
  have hpart : ∀ (i : Nat) (t : AbiType), ts[i]? = some t → ∃ p, ps[i]? = some p ∧ Fits t p := by
    intro i t ht
    obtain ⟨hi, rfl⟩ := List.getElem?_eq_some_iff.mp ht
    have hi' : i < ps.length := h.length_eq ▸ hi
    exact ⟨ps[i], List.getElem?_eq_getElem hi', h.get hi hi'⟩
  refine ⟨headList total ps, ps.map tail, ⟨?_, ?_, ?_, ?_, ?_⟩, ?_⟩
  · rw [List.length_map, h.length_eq]
  · rw [length_headList, h.length_eq]
  · rw [List.length_map, h.length_eq]
  · intro i t ht hstatic
    obtain ⟨p, hp, htag, -, -⟩ := hpart i t ht
    rw [hstatic] at htag
    simp [getElem?_headList, hp, htag, tail]
  · intro i t ht hdynamic
    obtain ⟨p, hp, htag, -, -⟩ := hpart i t ht
    rw [hdynamic] at htag
    refine ⟨by simp [hp, htag, tail], ?_⟩
    -- The offset counts from the announced length of the heads, which is the one they have.
    rw [getElem?_headList, hp, Option.map_some, if_pos htag, Word.toBytes_ofNat,
      List.length_append, hheads]
  · rw [flatten_headList, flatten_map_tail, assemble]

/-- The tails of the parts that are still to come tile what is left of the region. -/
theorem tiles_heads_tails (ts : List AbiType) (ps : List Part) (h : List.Forall₂ Fits ts ps)
    (frontHeads frontTails : Bytes) (next : Nat)
    (hnext : next = (frontHeads ++ heads next ps ++ frontTails).length) :
    Tiles (frontHeads ++ heads next ps ++ (frontTails ++ tails ps)) frontHeads.length next ts
      (ps.map bytes) := by
  induction h generalizing frontHeads frontTails next with
  | nil =>
      show next = _
      rw [hnext]
      simp [heads, tails]
  | @cons t p ts ps hp hps ih =>
      obtain ⟨dynamic, body⟩ := p
      obtain ⟨htag, hsize, -⟩ := hp
      simp only at htag hsize
      rw [List.map_cons, Tiles]
      cases dynamic with
      | true =>
          rw [if_pos htag.symm]
          -- The offset moves over to the heads in front, the tail to the tails in front.
          have hout : frontHeads ++ heads next (⟨true, body⟩ :: ps) ++
                (frontTails ++ tails (⟨true, body⟩ :: ps)) =
              (frontHeads ++ Bytes.ofNat wordSize next) ++ heads (next + body.length) ps ++
                ((frontTails ++ body) ++ tails ps) := by
            simp [heads, tails, Word.toBytes_ofNat]
          rw [heads, Word.toBytes_ofNat] at hnext
          rw [hout]
          have hoffset : StandsAt (frontHeads ++ Bytes.ofNat wordSize next ++
              heads (next + body.length) ps ++ (frontTails ++ body ++ tails ps)) frontHeads.length
              (Bytes.ofNat wordSize next) :=
            ⟨frontHeads, heads (next + body.length) ps ++ (frontTails ++ body ++ tails ps),
              by simp, rfl⟩
          have htail : StandsAt (frontHeads ++ Bytes.ofNat wordSize next ++
              heads (next + body.length) ps ++ (frontTails ++ body ++ tails ps)) next body :=
            ⟨frontHeads ++ (Bytes.ofNat wordSize next ++ heads (next + body.length) ps) ++
              frontTails, tails ps, by simp, hnext.symm⟩
          refine ⟨hoffset, ?_, htail, ?_⟩
          · intro hlength
            have hnextle := htail.length_le
            exact hoffset.toNat_offset (by omega)
          · have hrest := ih (frontHeads ++ Bytes.ofNat wordSize next) (frontTails ++ body)
              (next + body.length) (by
                simp only [List.length_append] at hnext ⊢
                omega)
            rwa [List.length_append, Bytes.length_ofNat] at hrest
      | false =>
          rw [if_neg (by simp [← htag])]
          -- The body moves over to the heads in front, and the next tail stays where it is.
          have hout : frontHeads ++ heads next (⟨false, body⟩ :: ps) ++
                (frontTails ++ tails (⟨false, body⟩ :: ps)) =
              (frontHeads ++ body) ++ heads next ps ++ (frontTails ++ tails ps) := by
            simp [heads, tails]
          rw [heads] at hnext
          rw [hout]
          refine ⟨⟨frontHeads, heads next ps ++ (frontTails ++ tails ps), by simp, rfl⟩,
            hsize htag.symm, ?_⟩
          have hrest := ih (frontHeads ++ body) frontTails next (by
            simp only [List.length_append] at hnext ⊢
            omega)
          rwa [List.length_append, hsize htag.symm] at hrest

/-- What is assembled from parts of the announced sizes is tiled. -/
theorem tiled_assemble (ts : List AbiType) (ps : List Part) (h : List.Forall₂ Fits ts ps) :
    Tiled ts (ps.map bytes) (assemble (ts.map AbiType.headSize).sum ps) := by
  have htiles := tiles_heads_tails ts ps h [] [] (ts.map AbiType.headSize).sum (by
    simp [length_heads_of_fits ts ps h])
  simpa [Tiled, assemble] using htiles

/-- A region of whole words consists of whole words. -/
theorem wordSize_dvd_length_assemble (ts : List AbiType) (ps : List Part)
    (h : List.Forall₂ Fits ts ps) (total : Nat) : wordSize ∣ (assemble total ps).length := by
  rw [assemble, List.length_append, length_heads]
  unfold wordSize
  induction h with
  | nil => exact ⟨0, rfl⟩
  | @cons t p ts ps hp _ ih =>
      obtain ⟨dynamic, body⟩ := p
      have hbody : 32 ∣ body.length := hp.whole
      cases dynamic with
      | true =>
          have hhead : headLength ⟨true, body⟩ = 32 := rfl
          rw [List.map_cons, List.sum_cons, hhead, tails, List.length_append]
          omega
      | false =>
          have hhead : headLength ⟨false, body⟩ = body.length := rfl
          rw [List.map_cons, List.sum_cons, hhead, tails]
          omega

/-- What a part adds to a region does not depend on where its tail begins. -/
theorem length_assemble_cons (total total' : Nat) (p : Part) (ps : List Part) :
    (assemble total (p :: ps)).length =
      (if p.dynamic then wordSize else 0) + p.bytes.length + (assemble total' ps).length := by
  obtain ⟨dynamic, body⟩ := p
  simp only [assemble, List.length_append, length_heads, List.map_cons, List.sum_cons, headLength]
  cases dynamic with
  | true =>
      simp only [tails, List.length_append, if_true]
      omega
  | false =>
      simp only [tails, Bool.false_eq_true, if_false]
      omega

/-- A region of static components is their bytes, one behind the other. -/
theorem assemble_of_static (ts : List AbiType) (ps : List Part) (h : List.Forall₂ Fits ts ps)
    (hstatic : ∀ t ∈ ts, t.isDynamic = false) (total : Nat) :
    assemble total ps = (ps.map bytes).flatten := by
  induction h with
  | nil => rfl
  | @cons t p ts ps hp _ ih =>
      obtain ⟨dynamic, body⟩ := p
      obtain rfl : dynamic = false := hp.tagged.trans (hstatic t (List.mem_cons_self ..))
      have hrest := ih fun u hu => hstatic u (List.mem_cons_of_mem _ hu)
      rw [assemble] at hrest ⊢
      rw [heads, tails, List.append_assoc, hrest]
      rfl

/-- A region of static components has no tails. -/
theorem length_assemble_of_static (ts : List AbiType) (ps : List Part)
    (h : List.Forall₂ Fits ts ps) (hstatic : ∀ t ∈ ts, t.isDynamic = false) (total : Nat) :
    (assemble total ps).length = (ts.map AbiType.headSize).sum := by
  have htails : tails ps = [] := by
    induction h with
    | nil => rfl
    | @cons t p ts ps hp _ ih =>
        obtain ⟨dynamic, body⟩ := p
        have htag : dynamic = false := hp.tagged.trans (hstatic t (List.mem_cons_self ..))
        subst htag
        exact ih fun u hu => hstatic u (List.mem_cons_of_mem _ hu)
  rw [assemble, htails, List.append_nil, length_heads_of_fits ts ps h]

end Part
end ContractAbi
