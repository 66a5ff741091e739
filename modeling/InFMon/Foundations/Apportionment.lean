import Mathlib.Algebra.BigOperators.Group.List.Basic
import Mathlib.Algebra.Order.BigOperators.Group.List
import Mathlib.Algebra.Order.Ring.Nat
import Mathlib.Tactic.Common

/-! # Proportional shares

A pool is shared out in proportion to some weights, each share rounded down. What rounding leaves over is
less than one unit for each weight. -/

namespace Apportionment

/-- The share of a weight, rounded down. -/
def share (pool : ℕ) (weights : List ℕ) (w : ℕ) : ℕ := pool * w / weights.sum

/-- What rounding leaves over: the fractions of the exact shares, summed. -/
def leftover (pool : ℕ) (weights : List ℕ) : ℕ :=
  (weights.map fun w => pool * w % weights.sum).sum / weights.sum

/-- A weight of zero has no share. -/
@[simp] theorem share_zero (pool : ℕ) (weights : List ℕ) : share pool weights 0 = 0 := by
  simp [share]

/-- A pool smaller than the weights gives a positive weight less than itself. -/
theorem share_lt {pool : ℕ} {weights : List ℕ} (h : pool < weights.sum) {w : ℕ} (hw : 0 < w) :
    share pool weights w < w := by
  rw [share, Nat.div_lt_iff_lt_mul (by omega), Nat.mul_comm]
  exact Nat.mul_lt_mul_of_pos_left h hw

/-- Division with remainder, summed over some weights. -/
theorem sum_div_add_mod (pool n : ℕ) (weights : List ℕ) :
    n * (weights.map fun w => pool * w / n).sum + (weights.map fun w => pool * w % n).sum =
      pool * weights.sum := by
  induction weights with
  | nil => rfl
  | cons w weights ih =>
    have hw := Nat.div_add_mod (pool * w) n
    simp only [List.map_cons, List.sum_cons, Nat.mul_add]
    omega

/-- The shares and what is left over make up the pool. -/
theorem sum_share_add_leftover (pool : ℕ) {weights : List ℕ} (h : 0 < weights.sum) :
    (weights.map (share pool weights)).sum + leftover pool weights = pool := by
  have hsum := sum_div_add_mod pool weights.sum weights
  calc (weights.map (share pool weights)).sum + leftover pool weights
      = (weights.sum * (weights.map (share pool weights)).sum +
          (weights.map fun w => pool * w % weights.sum).sum) / weights.sum :=
        (Nat.mul_add_div h _ _).symm
    _ = pool * weights.sum / weights.sum := congrArg (· / weights.sum) hsum
    _ = pool := Nat.mul_div_cancel pool h

/-- Less than one unit is left over for each weight. -/
theorem leftover_le_length (pool : ℕ) (weights : List ℕ) :
    leftover pool weights ≤ weights.length := by
  rcases Nat.eq_zero_or_pos weights.sum with hzero | hpos
  · rw [leftover, hzero, Nat.div_zero]
    exact Nat.zero_le _
  · have hmod : (weights.map fun w => pool * w % weights.sum).sum ≤ weights.length * weights.sum := by
      have := List.sum_le_card_nsmul (weights.map fun w => pool * w % weights.sum) weights.sum
        (by
          intro n hn
          obtain ⟨w, -, rfl⟩ := List.mem_map.mp hn
          exact (Nat.mod_lt _ hpos).le)
      simpa using this
    exact Nat.div_le_of_le_mul (by rwa [Nat.mul_comm] at hmod)

end Apportionment
