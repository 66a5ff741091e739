import Mathlib.Data.Nat.Bitwise
import Mathlib.Tactic.Ring

/-! # Powers of two by bit smearing

`x ||| x >>> 1`, then `>>> 2`, `>>> 4`, … copies the top bit of `x` into every lower position.
`Smeared x n m` says that `m` has received the bits of `x` from `n` positions; each round doubles
`n`, and once `x < 2 ^ n` the result is one less than the least power of two above `x`. -/

namespace PowerOfTwo

/-- Bit `i` of `m` is set exactly when `x` has a set bit at one of the `n` positions from `i` on. -/
def Smeared (x n m : ℕ) : Prop :=
  ∀ i, m.testBit i = true ↔ ∃ j < n, x.testBit (i + j) = true

/-- A number is smeared over one bit. -/
theorem smeared_one (x : ℕ) : Smeared x 1 x := by
  intro i
  constructor
  · intro h
    exact ⟨0, Nat.one_pos, h⟩
  · rintro ⟨j, hj, h⟩
    obtain rfl : j = 0 := by omega
    exact h

/-- One round of smearing doubles the reach. -/
theorem Smeared.double {x n m : ℕ} (h : Smeared x n m) : Smeared x (2 * n) (m ||| m >>> n) := by
  intro i
  rw [Nat.testBit_or, Nat.testBit_shiftRight, Bool.or_eq_true, h i, h (n + i)]
  constructor
  · rintro (⟨j, hj, hx⟩ | ⟨j, hj, hx⟩)
    · exact ⟨j, by omega, hx⟩
    · exact ⟨n + j, by omega, by rwa [show i + (n + j) = n + i + j by ring]⟩
  · rintro ⟨j, hj, hx⟩
    by_cases hjn : j < n
    · exact Or.inl ⟨j, hjn, hx⟩
    · exact Or.inr ⟨j - n, by omega, by rwa [show n + i + (j - n) = i + j by omega]⟩

/-- A full smear is one less than a power of two, and that power is the least one above `x`. -/
theorem Smeared.succ_eq_two_pow {x n m : ℕ} (h : Smeared x n m) (hx : x < 2 ^ n) :
    ∃ k ≤ n, m + 1 = 2 ^ k ∧ x < 2 ^ k ∧ ∀ l, x < 2 ^ l → k ≤ l := by
  rcases Nat.eq_zero_or_pos x with rfl | hpos
  · -- nothing to smear: `m = 0`
    have hm : m = 0 := Nat.eq_of_testBit_eq fun i => by
      rw [Nat.zero_testBit, Bool.eq_false_iff]
      intro hi
      obtain ⟨j, -, hj⟩ := (h i).mp hi
      simp at hj
    exact ⟨0, Nat.zero_le _, by simp [hm], by simp, fun l _ => Nat.zero_le l⟩
  · obtain ⟨p, hp, habove⟩ := Nat.exists_most_significant_bit (Nat.pos_iff_ne_zero.mp hpos)
    have hle : 2 ^ p ≤ x := Nat.ge_two_pow_of_testBit hp
    have hlt : x < 2 ^ (p + 1) := Nat.lt_pow_two_of_testBit x fun i hi => habove i hi
    have hpn : p < n := (Nat.pow_lt_pow_iff_right (by omega)).mp (lt_of_le_of_lt hle hx)
    have hm : m = 2 ^ (p + 1) - 1 := Nat.eq_of_testBit_eq fun i => by
      rw [Nat.testBit_two_pow_sub_one, Bool.eq_iff_iff, decide_eq_true_iff, h i]
      constructor
      · rintro ⟨j, -, hj⟩
        by_contra hi
        rw [habove (i + j) (by omega)] at hj
        exact Bool.false_ne_true hj
      · intro hi
        exact ⟨p - i, by omega, by rwa [show i + (p - i) = p by omega]⟩
    have hpow : 0 < 2 ^ (p + 1) := Nat.two_pow_pos _
    refine ⟨p + 1, hpn, by omega, hlt, fun l hl => ?_⟩
    exact (Nat.pow_lt_pow_iff_right (by omega)).mp (lt_of_le_of_lt hle hl)

/-- Masking with `2 ^ k - 1` is reduction modulo `2 ^ k`. -/
theorem and_mask_eq_mod {n mask k : ℕ} (hn : n = 2 ^ k) (hmask : mask = n - 1) (x : ℕ) :
    x &&& mask = x % n := by
  rw [hmask, hn, Nat.and_two_pow_sub_one_eq_mod]

end PowerOfTwo
