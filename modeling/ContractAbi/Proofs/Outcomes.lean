import Mathlib.Data.List.Forall2

/-!
# Computations that may fail

When steps that follow one another end well, or with which error.  Reading, writing, validation and the
builders are all taken apart with these equivalences and are not unfolded any further.

The first half is about results that are a value or an error, the second about readers that carry a state
and end with the state that was reached.
-/

namespace Except

variable {ε α β : Type}

theorem bind_eq_ok_iff (m : Except ε α) (f : α → Except ε β) (b : β) :
    (m >>= f) = .ok b ↔ ∃ a, m = .ok a ∧ f a = .ok b := by
  cases m with
  | error e => simp [bind, Except.bind]
  | ok a => simp [bind, Except.bind]

theorem bind_eq_error_iff (m : Except ε α) (f : α → Except ε β) (e : ε) :
    (m >>= f) = .error e ↔ m = .error e ∨ ∃ a, m = .ok a ∧ f a = .error e := by
  cases m with
  | error e' => simp [bind, Except.bind]
  | ok a => simp [bind, Except.bind]

/-- A check has nothing to say but that it accepts. -/
theorem check_bind_eq_ok_iff (check : Except ε Unit) (m : Except ε α) (a : α) :
    (do check; m) = .ok a ↔ check = .ok () ∧ m = .ok a := by
  rw [bind_eq_ok_iff]
  constructor
  · rintro ⟨⟨⟩, hcheck, hm⟩
    exact ⟨hcheck, hm⟩
  · rintro ⟨hcheck, hm⟩
    exact ⟨(), hcheck, hm⟩

/-- What is refused unless a condition holds is accepted exactly when the condition holds. -/
theorem ite_error_eq_ok_iff (c : Prop) [Decidable c] (m : Except ε α) (e : ε) (a : α) :
    (if c then m else .error e) = .ok a ↔ c ∧ m = .ok a := by
  split
  · rename_i hc
    simp [hc]
  · rename_i hc
    simp [hc]

/-- A list is mapped if each of its members is. -/
theorem mapM_eq_ok_iff (f : α → Except ε β) (xs : List α) (ys : List β) :
    xs.mapM f = .ok ys ↔ List.Forall₂ (fun x y => f x = .ok y) xs ys := by
  induction xs generalizing ys with
  | nil => simp [pure, Except.pure, eq_comm]
  | cons x xs ih =>
      rw [List.mapM_cons, bind_eq_ok_iff, List.forall₂_cons_left_iff]
      simp only [bind_eq_ok_iff, ih, pure, Except.pure, Except.ok.injEq]
      constructor
      · rintro ⟨y, hy, ys, hys, rfl⟩
        exact ⟨y, ys, hy, hys, rfl⟩
      · rintro ⟨y, ys, hy, hys, rfl⟩
        exact ⟨y, hy, ys, hys, rfl⟩

end Except

namespace EStateM

variable {ε σ α β : Type}

theorem run_bind_eq_ok_iff (m : EStateM ε σ α) (f : α → EStateM ε σ β) (s t : σ) (b : β) :
    (m >>= f).run s = .ok b t ↔ ∃ a u, m.run s = .ok a u ∧ (f a).run u = .ok b t := by
  rw [run_bind]
  cases m.run s with
  | ok a u =>
      constructor
      · exact fun h => ⟨a, u, rfl, h⟩
      · intro h
        obtain ⟨a', u', heq, h⟩ := h
        cases heq
        exact h
  | error e u => simp

theorem run_pure_eq_ok_iff (a b : α) (s t : σ) :
    (pure a : EStateM ε σ α).run s = .ok b t ↔ a = b ∧ s = t := by
  simp [pure, EStateM.pure, EStateM.run]

theorem run_throw_ne_ok (e : ε) (b : α) (s t : σ) :
    (throw e : EStateM ε σ α).run s ≠ .ok b t := by
  intro h
  nomatch h

/-- A guard lets the rest of the computation through exactly when its condition does not hold. -/
theorem run_guard_eq_ok_iff (c : Prop) [Decidable c] (e : ε) (m : EStateM ε σ β) (s t : σ) (b : β) :
    (if c then throw e else m).run s = .ok b t ↔ ¬ c ∧ m.run s = .ok b t := by
  split
  · rename_i hc
    simp [run_throw_ne_ok, hc]
  · rename_i hc
    simp [hc]

/-- The same for a guard in front of further steps. -/
theorem run_guard_bind_eq_ok_iff (c : Prop) [Decidable c] (e : ε) (f : α → EStateM ε σ β)
    (m : EStateM ε σ β) (s t : σ) (b : β) :
    (if c then throw e >>= f else m).run s = .ok b t ↔ ¬ c ∧ m.run s = .ok b t := by
  split
  · rename_i hc
    constructor
    · intro h
      obtain ⟨a, u, hthrow, -⟩ := (run_bind_eq_ok_iff _ _ _ _ _).mp h
      exact absurd hthrow (run_throw_ne_ok _ _ _ _)
    · intro h
      obtain ⟨hnot, -⟩ := h
      contradiction
  · rename_i hc
    simp [hc]

end EStateM
