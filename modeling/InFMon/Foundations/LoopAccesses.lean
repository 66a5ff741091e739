import InFMon.Foundations.CountedLoop
import Mathlib.Data.List.Basic
import Mathlib.Tactic.Common

/-! # What loops access

The record of a counted loop with an early exit: what its passes access, up to the pass that exits. -/

namespace CountedLoop

variable {σ ε α : Type*} {n : ℕ} {body : ℕ → σ → Except ε σ} {s : σ}

/-- What the passes access. A pass is made when all passes before it succeed. -/
def accesses (n : ℕ) (acc : ℕ → σ → List α) (body : ℕ → σ → Except ε σ) (s : σ) : List α :=
  (List.range n).flatMap fun i =>
    match forUpToExcept i body s with
    | .ok s => acc i s
    | .error _ => []

/-- An access of a loop is one of a round that it gets to. -/
theorem mem_accesses {acc : ℕ → σ → List α} {a : α} : a ∈ accesses n acc body s ↔
    ∃ i < n, ∃ s', forUpToExcept i body s = .ok s' ∧ a ∈ acc i s' := by
  rw [accesses, List.mem_flatMap]
  constructor
  · rintro ⟨i, hi, ha⟩
    cases hpass : forUpToExcept i body s with
    | ok s' =>
      rw [hpass] at ha
      exact ⟨i, List.mem_range.mp hi, s', hpass, ha⟩
    | error e =>
      rw [hpass] at ha
      cases ha
  · rintro ⟨i, hi, s', hpass, ha⟩
    refine ⟨i, List.mem_range.mpr hi, ?_⟩
    rw [hpass]
    exact ha

/-- One round more, if the loop gets there. -/
theorem accesses_succ (acc : ℕ → σ → List α) : accesses (n + 1) acc body s =
    accesses n acc body s ++
      match forUpToExcept n body s with
      | .ok s => acc n s
      | .error _ => [] := by
  rw [accesses, List.range_succ, List.flatMap_append, List.flatMap_singleton]
  rfl

/-- A loop that reaches its end has reached the end of each of its beginnings. -/
theorem forUpToExcept_ok_of_le {i : ℕ} {s' : σ} (hle : i ≤ n) (h : forUpToExcept n body s = .ok s') :
    ∃ s₁, forUpToExcept i body s = .ok s₁ := by
  induction n generalizing s' with
  | zero =>
    obtain rfl := Nat.le_zero.mp hle
    exact ⟨s', h⟩
  | succ n ih =>
    rcases Nat.le_succ_iff.mp hle with hlt | rfl
    · rw [forUpToExcept] at h
      split at h
      · rename_i s₁ hs₁
        exact ih hlt hs₁
      · cases h
    · exact ⟨s', h⟩

/-- What holds before a loop and is kept by the passes that succeed holds at its end. -/
theorem forUpToExcept_keeps {I : σ → Prop} (h0 : I s)
    (hkeep : ∀ i < n, ∀ s s', I s → body i s = .ok s' → I s') {s' : σ}
    (h : forUpToExcept n body s = .ok s') : I s' := by
  rcases forUpToExcept_induct (fun _ => I) h0 hkeep with ⟨s₁, hs₁, hI⟩ | ⟨e, he, -⟩
  · cases h.symm.trans hs₁
    exact hI
  · cases h.symm.trans he

/-- When an invariant of the states decides, together with the number of the pass, whether a pass
succeeds, the loop reaches its end if and only if all passes can succeed. -/
theorem forUpToExcept_ok_iff (I : σ → Prop) {Q : ℕ → Prop} (h0 : I s)
    (hkeep : ∀ i < n, ∀ s s', I s → body i s = .ok s' → I s')
    (hpass : ∀ i < n, ∀ s, I s → ((∃ s', body i s = .ok s') ↔ Q i)) :
    (∃ s', forUpToExcept n body s = .ok s') ↔ ∀ i < n, Q i := by
  induction n with
  | zero => exact iff_of_true ⟨s, rfl⟩ fun i hi => absurd hi (Nat.not_lt_zero i)
  | succ n ih =>
    have hkeep' : ∀ i < n, ∀ s s', I s → body i s = .ok s' → I s' :=
      fun i hi => hkeep i (Nat.lt_succ_of_lt hi)
    have ih := ih hkeep' fun i hi => hpass i (Nat.lt_succ_of_lt hi)
    have hlast := hpass n (Nat.lt_succ_self n)
    constructor
    · rintro ⟨s', hs'⟩ i hi
      rw [forUpToExcept] at hs'
      split at hs'
      · rename_i s₁ hs₁
        rcases Nat.lt_succ_iff_lt_or_eq.mp hi with hlt | rfl
        · exact ih.mp ⟨s₁, hs₁⟩ i hlt
        · exact (hlast s₁ (forUpToExcept_keeps h0 hkeep' hs₁)).mp ⟨s', hs'⟩
      · cases hs'
    · intro hall
      obtain ⟨s₁, hs₁⟩ := ih.mpr fun i hi => hall i (Nat.lt_succ_of_lt hi)
      obtain ⟨s', hs'⟩ := (hlast s₁ (forUpToExcept_keeps h0 hkeep' hs₁)).mpr
        (hall n (Nat.lt_succ_self n))
      exact ⟨s', by rw [forUpToExcept, hs₁]; exact hs'⟩

end CountedLoop
