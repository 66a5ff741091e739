import Mathlib.Logic.Function.Iterate
import Mathlib.Tactic.Common

/-! # Small-step machines

A machine that takes one step after the other, as the iterates of a function on its states. A machine
that has come to its end stays there. -/

namespace SmallStep

variable {σ : Type*} {f : σ → σ} {P Q : σ → Prop} {s s' s'' : σ}

/-- The machine gets from the first state to the second one. The property holds in every state on the
way, the last one apart. -/
inductive Through (f : σ → σ) (P : σ → Prop) : σ → σ → Prop
  | refl (s : σ) : Through f P s s
  | head {s s' : σ} (hs : P s) (rest : Through f P (f s) s') : Through f P s s'

namespace Through

/-- A way of one step. -/
theorem single (hs : P s) (h : f s = s') : Through f P s s' := h ▸ head hs (refl (f s))

/-- One way behind the other. -/
theorem trans (h : Through f P s s') (h' : Through f P s' s'') : Through f P s s'' := by
  induction h with
  | refl s => exact h'
  | head hs _ ih => exact head hs (ih h')

/-- The states on the way may be said less of. -/
theorem mono (hPQ : ∀ s, P s → Q s) (h : Through f P s s') : Through f Q s s' := by
  induction h with
  | refl s => exact refl s
  | head hs _ ih => exact head (hPQ _ hs) ih

/-- The number of steps. -/
theorem exists_iterate (h : Through f P s s') : ∃ n, f^[n] s = s' ∧ ∀ m < n, P (f^[m] s) := by
  induction h with
  | refl s => exact ⟨0, rfl, fun m hm => absurd hm m.not_lt_zero⟩
  | head hs _ ih =>
    obtain ⟨n, hn, hP⟩ := ih
    refine ⟨n + 1, hn, fun m hm => ?_⟩
    cases m with
    | zero => exact hs
    | succ m => exact hP m (Nat.lt_of_succ_lt_succ hm)

end Through

/-- At its end a computation stays. -/
theorem iterate_of_end (hend : f s = s) (n : ℕ) : f^[n] s = s := Function.iterate_fixed hend n

/-- On the way to its end the machine is in states with the property, and in no other states than these
and the end. -/
theorem Through.throughout (h : Through f P s s') (hend : f s' = s') (hP : P s') (m : ℕ) :
    P (f^[m] s) := by
  obtain ⟨n, hn, hbefore⟩ := h.exists_iterate
  rcases Nat.lt_or_ge m n with hlt | hge
  · exact hbefore m hlt
  · obtain ⟨k, rfl⟩ := Nat.exists_eq_add_of_le hge
    rw [Nat.add_comm, Function.iterate_add_apply, hn, iterate_of_end hend]
    exact hP

/-- What a step keeps as long as the condition holds is kept by every number of such steps. -/
theorem invariant {I C : σ → Prop} (h₀ : I s) (hstep : ∀ s, I s → C s → I (f s)) {n : ℕ}
    (hC : ∀ m < n, C (f^[m] s)) : I (f^[n] s) := by
  induction n with
  | zero => exact h₀
  | succ n ih =>
    rw [Function.iterate_succ_apply']
    exact hstep _ (ih fun m hm => hC m (Nat.lt_succ_of_lt hm)) (hC n (Nat.lt_succ_self n))

end SmallStep
