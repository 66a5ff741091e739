import Mathlib.Algebra.BigOperators.Group.List.Basic
import Mathlib.Algebra.Ring.Nat
import Mathlib.Data.UInt

/-! # Machine words

Unsigned 32-bit arithmetic on natural numbers: sums and differences are taken modulo `2 ^ 32`, as C
takes them on `uint32_t`. 64-bit counters use `UInt64`. Sums of machine words are the sums of their
values as long as these fit. -/

namespace MachineWord

/-- The largest 32-bit value, `UINT32_MAX`. -/
def max32 : ℕ := 0xFFFFFFFF

/-- Reduction to 32 bits. -/
def u32 (n : ℕ) : ℕ := n % 0x100000000

/-- The 32-bit difference of two 32-bit values. -/
def sub32 (a b : ℕ) : ℕ := (a + 0x100000000 - b) % 0x100000000

/-- A number of 32 bits stays as it is. -/
theorem u32_of_le {n : ℕ} (h : n ≤ max32) : u32 n = n :=
  Nat.mod_eq_of_lt (Nat.lt_succ_of_le h)

/-- Offsets into a packet are far from the end of the range. -/
theorem u32_of_small {n : ℕ} (h : n ≤ 0x100000) : u32 n = n :=
  u32_of_le (Nat.le_trans h (by decide))

/-- A difference that is not negative does not wrap around. -/
theorem sub32_of_le {a b : ℕ} (hb : b ≤ a) (ha : a ≤ max32) : sub32 a b = a - b := by
  simp only [sub32, max32] at *
  omega

/-- Adding and taking away again is the identity, wrap-around or not. -/
theorem sub32_u32_add {a b : ℕ} (ha : a ≤ max32) (hb : b ≤ max32) : sub32 (u32 (a + b)) b = a := by
  simp only [sub32, u32, max32] at *
  omega

/-! ### Sums of words -/

/-- A number below the largest one can be counted up. -/
theorem toNat_add_one {n : UInt64} (h : n.toNat + 1 < 2 ^ 64) : (n + 1).toNat = n.toNat + 1 := by
  rw [UInt64.toNat_add]
  exact Nat.mod_eq_of_lt h

/-- A sum that fits in 32 bits does not wrap around. -/
theorem toNat_sum32 {xs : List UInt32} (h : (xs.map UInt32.toNat).sum < 2 ^ 32) :
    xs.sum.toNat = (xs.map UInt32.toNat).sum := by
  induction xs with
  | nil => rfl
  | cons x xs ih =>
    rw [List.map_cons, List.sum_cons] at h ⊢
    rw [List.sum_cons, UInt32.toNat_add, ih (by omega), Nat.mod_eq_of_lt h]

/-- A sum that fits in 64 bits does not wrap around. -/
theorem toNat_sum64 {xs : List UInt64} (h : (xs.map UInt64.toNat).sum < 2 ^ 64) :
    xs.sum.toNat = (xs.map UInt64.toNat).sum := by
  induction xs with
  | nil => rfl
  | cons x xs ih =>
    rw [List.map_cons, List.sum_cons] at h ⊢
    rw [List.sum_cons, UInt64.toNat_add, ih (by omega), Nat.mod_eq_of_lt h]

end MachineWord
