import Mathlib.Algebra.BigOperators.Group.List.Basic
import Mathlib.Data.Nat.Bitwise
import Mathlib.Data.Nat.ModEq
import Mathlib.Tactic.Ring

/-! # Sums and ors of numbers

Taking the bits of some numbers together counts every bit once, and adding the numbers up counts it as
often as it is set. What the two differ by is the weight of the repeated bits. -/

namespace BitCounts

/-- How many of the numbers have bit `b` set. -/
def count (xs : List ℕ) (b : ℕ) : ℕ := xs.countP fun x => x.testBit b

/-- The bits below `n`, each as often as `f` says. -/
def weigh : ℕ → (ℕ → ℕ) → ℕ
  | 0, _ => 0
  | n + 1, f => weigh n f + 2 ^ n * f n

/-- The bits of all numbers together. -/
def orAll (xs : List ℕ) : ℕ := xs.foldl (· ||| ·) 0

/-- The weight of the bits below `n`, each as often as it is set after the first time. -/
def repeated (n : ℕ) (xs : List ℕ) : ℕ := weigh n fun b => count xs b - 1

/-! ### Weights -/

/-- Equal counts have equal weights. -/
theorem weigh_congr {n : ℕ} {f g : ℕ → ℕ} (h : ∀ b < n, f b = g b) : weigh n f = weigh n g := by
  induction n with
  | zero => rfl
  | succ n ih =>
    rw [weigh, weigh, ih fun b hb => h b (Nat.lt_succ_of_lt hb), h n (Nat.lt_succ_self n)]

/-- The weights of both counts. -/
theorem weigh_add (n : ℕ) (f g : ℕ → ℕ) :
    weigh n (fun b => f b + g b) = weigh n f + weigh n g := by
  induction n with
  | zero => rfl
  | succ n ih =>
    rw [weigh, weigh, weigh, ih]
    ring

/-- Only counts of zero weigh nothing. -/
theorem weigh_eq_zero_iff {n : ℕ} {f : ℕ → ℕ} : weigh n f = 0 ↔ ∀ b < n, f b = 0 := by
  induction n with
  | zero => exact iff_of_true rfl fun b hb => absurd hb (Nat.not_lt_zero b)
  | succ n ih =>
    rw [weigh, Nat.add_eq_zero_iff, ih, Nat.mul_eq_zero,
      or_iff_right (Nat.ne_of_gt (Nat.two_pow_pos n)), Nat.forall_lt_succ_right]

/-- A number is the weight of its bits. -/
theorem weigh_testBit (n x : ℕ) : weigh n (fun b => (x.testBit b).toNat) = x % 2 ^ n := by
  induction n with
  | zero => rw [weigh, Nat.pow_zero, Nat.mod_one]
  | succ n ih => rw [weigh, ih, Nat.mod_pow_succ, Nat.toNat_testBit]

/-! ### All numbers -/

/-- The first number counts for its own bits. -/
theorem count_cons (x : ℕ) (xs : List ℕ) (b : ℕ) :
    count (x :: xs) b = (x.testBit b).toNat + count xs b := by
  rw [count, List.countP_cons, Nat.add_comm, count]
  cases x.testBit b <;> rfl

/-- The sum has every bit as often as it is set. -/
theorem sum_eq_weigh {n : ℕ} {xs : List ℕ} (h : ∀ x ∈ xs, x < 2 ^ n) :
    xs.sum = weigh n (count xs) := by
  induction xs with
  | nil => exact (weigh_eq_zero_iff.mpr fun _ _ => rfl).symm
  | cons x xs ih =>
    rw [List.sum_cons, ih fun y hy => h y (List.mem_cons_of_mem _ hy), funext (count_cons x xs),
      weigh_add, weigh_testBit, Nat.mod_eq_of_lt (h x List.mem_cons_self)]

/-- A bit is set when it was or when some number has it. -/
theorem testBit_foldl_or (xs : List ℕ) (a b : ℕ) :
    (xs.foldl (· ||| ·) a).testBit b = (a.testBit b || decide (0 < count xs b)) := by
  induction xs generalizing a with
  | nil => exact (Bool.or_false _).symm
  | cons x xs ih =>
    rw [List.foldl_cons, ih, Nat.testBit_or, Bool.or_assoc, count_cons]
    cases x.testBit b with
    | false => simp
    | true => simp

/-- Numbers below a power of two stay below it. -/
theorem orAll_lt {n : ℕ} {xs : List ℕ} (h : ∀ x ∈ xs, x < 2 ^ n) : orAll xs < 2 ^ n := by
  refine Nat.lt_pow_two_of_testBit _ fun b hb => ?_
  -- no number has a bit from `n` on
  have hnone : count xs b = 0 := by
    refine List.countP_eq_zero.mpr fun x hx => ?_
    rw [Nat.testBit_lt_two_pow (Nat.lt_of_lt_of_le (h x hx) (Nat.pow_le_pow_right Nat.two_pos hb))]
    exact Bool.false_ne_true
  rw [orAll, testBit_foldl_or, hnone, Nat.zero_testBit]
  rfl

/-- The numbers taken together have every bit that is set once. -/
theorem orAll_eq_weigh {n : ℕ} {xs : List ℕ} (h : ∀ x ∈ xs, x < 2 ^ n) :
    orAll xs = weigh n fun b => min 1 (count xs b) := by
  rw [← Nat.mod_eq_of_lt (orAll_lt h), ← weigh_testBit]
  refine weigh_congr fun b _ => ?_
  rw [orAll, testBit_foldl_or, Nat.zero_testBit, Bool.false_or]
  cases count xs b with
  | zero => rfl
  | succ k => simp

/-- The sum is the bits taken together and those that are repeated. -/
theorem sum_eq_orAll_add_repeated {n : ℕ} {xs : List ℕ} (h : ∀ x ∈ xs, x < 2 ^ n) :
    xs.sum = orAll xs + repeated n xs := by
  rw [sum_eq_weigh h, orAll_eq_weigh h, repeated, ← weigh_add]
  exact weigh_congr fun b _ => by omega

/-- The bits taken together are the sum up to multiples of `2 ^ n` exactly when the repeated bits come
to such a multiple. -/
theorem orAll_eq_sum_mod_iff {n : ℕ} {xs : List ℕ} (h : ∀ x ∈ xs, x < 2 ^ n) :
    orAll xs = xs.sum % 2 ^ n ↔ repeated n xs % 2 ^ n = 0 := by
  have hlt := orAll_lt h
  rw [sum_eq_orAll_add_repeated h]
  constructor
  · intro heq
    have hmod : (orAll xs + 0) % 2 ^ n = (orAll xs + repeated n xs) % 2 ^ n := by
      rw [Nat.add_zero, Nat.mod_eq_of_lt hlt, ← heq]
    exact Eq.trans (Nat.ModEq.add_left_cancel' _ hmod).symm (Nat.zero_mod _)
  · intro hzero
    rw [Nat.add_mod, hzero, Nat.add_zero, Nat.mod_mod, Nat.mod_eq_of_lt hlt]

end BitCounts
