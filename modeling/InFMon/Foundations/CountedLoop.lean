import Mathlib.Data.Nat.Notation

/-! # Counted loops

Loops `for (i = 0; i < n; i++)` over a state, with and without an early exit, and the invariant rules
for them. An invariant is indexed by the number of passes made. -/

namespace CountedLoop

variable {σ ε : Type*}

/-- The loop that runs `body i` for every `i < n`, in order. -/
def forUpTo : ℕ → (ℕ → σ → σ) → σ → σ
  | 0, _, s => s
  | n + 1, body, s => body n (forUpTo n body s)

/-- The loop that runs `body i` for every `i < n`, in order, until one of them exits. -/
def forUpToExcept : ℕ → (ℕ → σ → Except ε σ) → σ → Except ε σ
  | 0, _, s => .ok s
  | n + 1, body, s =>
    match forUpToExcept n body s with
    | .ok s => body n s
    | .error e => .error e

/-- No round leaves the state. -/
@[simp] theorem forUpTo_zero (body : ℕ → σ → σ) (s : σ) : forUpTo 0 body s = s := rfl

/-- One round more. -/
theorem forUpTo_succ (n : ℕ) (body : ℕ → σ → σ) (s : σ) :
    forUpTo (n + 1) body s = body n (forUpTo n body s) := rfl

/-- What holds before the loop and is kept by every pass holds after it. -/
theorem forUpTo_induct {n : ℕ} {f : ℕ → σ → σ} {s : σ} (P : ℕ → σ → Prop) (h0 : P 0 s)
    (hstep : ∀ i < n, ∀ s, P i s → P (i + 1) (f i s)) : P n (forUpTo n f s) := by
  induction n with
  | zero => exact h0
  | succ n ih =>
    rw [forUpTo_succ]
    exact hstep n (Nat.lt_succ_self n) _ (ih fun i hi => hstep i (Nat.lt_succ_of_lt hi))

/-- A loop with an early exit either keeps its invariant to the end, or some pass exits from a state
in which the invariant holds. -/
theorem forUpToExcept_induct {n : ℕ} {f : ℕ → σ → Except ε σ} {s : σ} (P : ℕ → σ → Prop)
    (h0 : P 0 s) (hstep : ∀ i < n, ∀ s s', P i s → f i s = .ok s' → P (i + 1) s') :
    (∃ s', forUpToExcept n f s = .ok s' ∧ P n s') ∨
    ∃ e, forUpToExcept n f s = .error e ∧ ∃ i < n, ∃ s', P i s' ∧ f i s' = .error e := by
  induction n with
  | zero => exact Or.inl ⟨s, rfl, h0⟩
  | succ n ih =>
    rcases ih fun i hi => hstep i (Nat.lt_succ_of_lt hi) with ⟨s', hs', hP⟩ | ⟨e, he, i, hi, h⟩
    · rw [forUpToExcept, hs']
      cases hf : f n s' with
      | ok s'' => exact Or.inl ⟨s'', hf, hstep n (Nat.lt_succ_self n) s' s'' hP hf⟩
      | error e => exact Or.inr ⟨e, hf, n, Nat.lt_succ_self n, s', hP, hf⟩
    · rw [forUpToExcept, he]
      exact Or.inr ⟨e, rfl, i, Nat.lt_succ_of_lt hi, h⟩

/-- In a loop that runs to its end every pass succeeds. -/
theorem forUpToExcept_passes {n : ℕ} {f : ℕ → σ → Except ε σ} {s s' : σ}
    (h : forUpToExcept n f s = .ok s') : ∀ i < n, ∃ s₁ s₂, f i s₁ = .ok s₂ := by
  induction n generalizing s' with
  | zero => exact fun i hi => absurd hi (Nat.not_lt_zero i)
  | succ n ih =>
    rw [forUpToExcept] at h
    split at h
    · rename_i s₁ hs₁
      intro i hi
      rcases Nat.lt_succ_iff_lt_or_eq.mp hi with hlt | rfl
      · exact ih hs₁ i hlt
      · exact ⟨s₁, s', h⟩
    · cases h

end CountedLoop
