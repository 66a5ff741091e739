import InFMon.Foundations.Runs
import Mathlib.Algebra.Order.Group.Nat

/-! # Fair runs

Endless runs of a system of threads. A schedule says what happens at every time, and a fair one lets
each thread act again and again. What a thread brings about by its own steps, and no other thread hinders,
then happens at some time. -/

namespace FairRuns

variable {σ ε τ : Type} {step : σ → ε → σ} {owner : ε → Option τ} {schedule : ℕ → ε} {s : σ}

/-- The state at a time. -/
def trace (step : σ → ε → σ) (s : σ) (schedule : ℕ → ε) : ℕ → σ
  | 0 => s
  | k + 1 => step (trace step s schedule k) (schedule k)

/-- Each thread has an event after every time. -/
def Fair (owner : ε → Option τ) (schedule : ℕ → ε) : Prop :=
  ∀ t k, ∃ m, k ≤ m ∧ owner (schedule m) = some t

/-- Whenever the first property holds, the second one holds then or later. -/
def LeadsTo (tr : ℕ → σ) (P Q : σ → Prop) : Prop := ∀ k, P (tr k) → ∃ m, k ≤ m ∧ Q (tr m)

/-- The state at a time is behind the run up to then. -/
theorem trace_eq_run (k : ℕ) : trace step s schedule k =
    Runs.run step s ((List.range k).map schedule) := by
  induction k with
  | zero => rfl
  | succ k ih => rw [trace, ih, List.range_succ, List.map_append, List.map_singleton, Runs.run_concat]

/-- What every step keeps holds at all times. -/
theorem trace_always {I : σ → Prop} (h₀ : I s) (hstep : ∀ s e, I s → I (step s e)) (k : ℕ) :
    I (trace step s schedule k) := by
  rw [trace_eq_run]
  exact Runs.always h₀ hstep _

/-- What the steps of the schedule keep holds at all times. -/
theorem trace_induct {I : σ → Prop} (h₀ : I s) (hstep : ∀ s k, I s → I (step s (schedule k)))
    (k : ℕ) : I (trace step s schedule k) := by
  induction k with
  | zero => exact h₀
  | succ k ih => exact hstep _ k ih

section Rules

variable {tr : ℕ → σ} {P P' Q Q' R : σ → Prop}

/-- What holds already is led to. -/
theorem leadsTo_of_imp (h : ∀ s, P s → Q s) : LeadsTo tr P Q := fun k hP => ⟨k, le_rfl, h _ hP⟩

/-- One thing leads to another and this to a third. -/
theorem LeadsTo.trans (hPQ : LeadsTo tr P Q) (hQR : LeadsTo tr Q R) : LeadsTo tr P R := by
  intro k hP
  obtain ⟨m, hkm, hQ⟩ := hPQ k hP
  obtain ⟨n, hmn, hR⟩ := hQR m hQ
  exact ⟨n, hkm.trans hmn, hR⟩

/-- From less more is led to. -/
theorem LeadsTo.mono (h : LeadsTo tr P Q) (hP : ∀ s, P' s → P s) (hQ : ∀ s, Q s → Q' s) :
    LeadsTo tr P' Q' := by
  intro k hk
  obtain ⟨m, hkm, hm⟩ := h k (hP _ hk)
  exact ⟨m, hkm, hQ _ hm⟩

end Rules

section Threads

variable {P Q : σ → Prop}

/-- Until the second property holds, the first one does. -/
theorem holds_or_reached {tr : ℕ → σ} (hstep : ∀ k, P (tr k) → Q (tr (k + 1)) ∨ P (tr (k + 1)))
    {k m : ℕ} (hkm : k ≤ m) (hP : P (tr k)) : (∃ j, k ≤ j ∧ Q (tr j)) ∨ P (tr m) := by
  induction m, hkm using Nat.le_induction with
  | base => exact Or.inr hP
  | succ m hkm ih =>
    rcases ih with hQ | hPm
    · exact Or.inl hQ
    · rcases hstep m hPm with hQ | hnext
      · exact Or.inl ⟨m + 1, Nat.le_succ_of_le hkm, hQ⟩
      · exact Or.inr hnext

/-- A thread with a rank that its own steps lower and that no step raises gets to its end. -/
theorem leadsTo_of_helper (rank : σ → ℕ) (t : τ) (hfair : Fair owner schedule)
    (hstep : ∀ k, P (trace step s schedule k) → Q (trace step s schedule (k + 1)) ∨
      P (trace step s schedule (k + 1)) ∧
        rank (trace step s schedule (k + 1)) ≤ rank (trace step s schedule k))
    (hhelp : ∀ k, P (trace step s schedule k) → owner (schedule k) = some t →
      Q (trace step s schedule (k + 1)) ∨
        rank (trace step s schedule (k + 1)) < rank (trace step s schedule k)) :
    LeadsTo (trace step s schedule) P Q := by
  intro k hP
  induction hn : rank (trace step s schedule k) using Nat.strong_induction_on generalizing k with
  | _ n ih =>
    obtain ⟨m, hkm, howner⟩ := hfair t k
    -- up to then the rank has not risen
    have hkept := holds_or_reached
      (P := fun s' => P s' ∧ rank s' ≤ rank (trace step s schedule k))
      (fun j hj => (hstep j hj.1).imp_right fun hnext => ⟨hnext.1, hnext.2.trans hj.2⟩) hkm
      ⟨hP, le_rfl⟩
    rcases hkept with hQ | ⟨hPm, hle⟩
    · exact hQ
    rcases hhelp m hPm howner with hQ | hlt
    · exact ⟨m + 1, Nat.le_succ_of_le hkm, hQ⟩
    rcases hstep m hPm with hQ | ⟨hnext, -⟩
    · exact ⟨m + 1, Nat.le_succ_of_le hkm, hQ⟩
    -- the rank is lower now
    obtain ⟨j, hmj, hQ⟩ := ih _ (by omega) (m + 1) hnext rfl
    exact ⟨j, by omega, hQ⟩

end Threads

end FairRuns
