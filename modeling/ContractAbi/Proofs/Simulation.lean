import ContractAbi.Proofs.Reading

/-!
# Comparing two runs of the decoder

Runs of the decoder are compared under different meters, in both padding modes, and on data with and
without more bytes behind it.  What is compared differs at the leaves and in the single steps.  What
all comparisons share is the way through the containers, and this module goes it once.

* `Simulation` lists what a relation of readers has to satisfy: sequencing keeps it, and it holds of
  the steps that containers take.
* `Simulation.region`, `Simulation.array`, `Simulation.fixedArray` and `Simulation.tuple` say that such
  a relation holds of the readers of all containers if it holds of the readers of their items.
-/

namespace ContractAbi
namespace Decode

variable {σ τ : Type} [Meter σ] [Meter τ]

/-- The relation is kept by sequencing and holds of the steps of a container, taken on both inputs. -/
structure Simulation (R : {α : Type} → Reader σ α → Reader τ α → Prop) (data data' : Input) :
    Prop where
  pure {α : Type} (a : α) : R (pure a) (pure a)
  bind {α β : Type} {m : Reader σ α} {n : Reader τ α} {f : α → Reader σ β} {g : α → Reader τ β}
    (hm : R m n) (hf : ∀ a, R (f a) (g a)) : R (m >>= f) (n >>= g)
  advance (position count : Nat) : R (advance position count) (advance position count)
  checkedAdvance (position count : Nat) :
    R (checkedAdvance data position count) (checkedAdvance data' position count)
  checkRoom (start count stride : Nat) :
    R (checkRoom data start count stride) (checkRoom data' start count stride)
  offset (position : Nat) : R (offset data position) (offset data' position)
  length (position : Nat) : R (length data position) (length data' position)

namespace Simulation

variable {R : {α : Type} → Reader σ α → Reader τ α → Prop} {data data' : Input}
  (h : Simulation R data data') (config config' : Config)
include h

theorem component (u : AbiType) (m : Nat → Reader σ Value) (n : Nat → Reader τ Value)
    (hread : ∀ position, R (m position) (n position)) (start cursor : Nat) :
    R (component data u m start cursor) (component data' u n start cursor) := by
  unfold Decode.component
  by_cases hdynamic : u.isDynamic = true
  · rw [if_pos hdynamic, if_pos hdynamic]
    refine h.bind (h.offset cursor) fun distance => ?_
    refine h.bind (h.checkedAdvance start distance) fun position => ?_
    refine h.bind (hread position) fun v => ?_
    exact h.bind (h.advance cursor wordSize) fun _ => h.pure _
  · rw [if_neg hdynamic, if_neg hdynamic]
    refine h.bind (hread cursor) fun v => ?_
    exact h.bind (h.checkedAdvance cursor u.headSize) fun _ => h.pure _

theorem region (ts : List AbiType)
    (hitems : ∀ u ∈ ts, ∀ position, R (value config data u position) (value config' data' u position))
    (start cursor : Nat) :
    R (region config data ts start cursor) (region config' data' ts start cursor) := by
  induction ts generalizing cursor with
  | nil => exact h.pure _
  | cons u us ih =>
      refine h.bind (h.component u _ _ (hitems u (List.mem_cons_self ..)) start cursor)
        fun next => ?_
      refine h.bind (ih (fun w hw => hitems w (List.mem_cons_of_mem _ hw)) next.2) fun vs => ?_
      exact h.pure _

theorem array (e : AbiType)
    (hitem : ∀ position, R (value config data e position) (value config' data' e position))
    (position : Nat) :
    R (value config data (.array e) position) (value config' data' (.array e) position) := by
  simp only [value, elements_eq_region]
  refine h.bind (h.length position) fun count => ?_
  refine h.bind (h.advance position wordSize) fun start => ?_
  refine h.bind (h.checkRoom start count e.headSize) fun _ => ?_
  have hitems := h.region config config' (List.replicate count e)
    (List.forall_mem_replicate.mpr (.inr hitem)) start start
  exact h.bind hitems fun vs => h.pure _

theorem fixedArray (e : AbiType) (n : Nat)
    (hitem : ∀ position, R (value config data e position) (value config' data' e position))
    (position : Nat) :
    R (value config data (.fixedArray e n) position)
      (value config' data' (.fixedArray e n) position) := by
  simp only [value, elements_eq_region]
  refine h.bind (h.checkRoom position n e.headSize) fun _ => ?_
  have hitems := h.region config config' (List.replicate n e)
    (List.forall_mem_replicate.mpr (.inr hitem)) position position
  exact h.bind hitems fun vs => h.pure _

theorem tuple (fs : List Param)
    (hitems : ∀ u ∈ fs.map Param.kind, ∀ position,
      R (value config data u position) (value config' data' u position)) (position : Nat) :
    R (value config data (.tuple fs) position) (value config' data' (.tuple fs) position) := by
  simp only [value, fields_eq_region]
  exact h.bind (h.region config config' _ hitems position position) fun vs => h.pure _

end Simulation
end Decode
end ContractAbi
