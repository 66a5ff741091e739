import InFMon.Foundations.CountedLoop
import Mathlib.Logic.Function.Basic

/-! # Dense arrays

An array whose first entries are those of a list and whose other entries hold a default: appending
writes behind the last entry, removing an entry moves the later ones down by one and clears the last.
-/

namespace DenseArray

open CountedLoop

variable {α β : Type*}

/-- The array that holds the list `l`, and `d` behind it. -/
def ofList (d : α) (l : List α) (i : ℕ) : α := l[i]?.getD d

/-- Where entry `j` was before entry `i` was removed. -/
def skip (i j : ℕ) : ℕ := if j < i then j else j + 1

/-- Where entry `j` is after another entry `i` was removed. -/
def unskip (i j : ℕ) : ℕ := if i < j then j - 1 else j

/-- An index behind a gap is not the gap. -/
theorem skip_ne (i j : ℕ) : skip i j ≠ i := by
  rw [skip]
  split
  all_goals omega

/-- Closing the gap again. -/
theorem unskip_skip (i j : ℕ) : unskip i (skip i j) = j := by
  rw [unskip, skip]
  by_cases h : j < i
  · rw [if_pos h, if_neg (by omega)]
  · rw [if_neg h, if_pos (by omega), Nat.add_sub_cancel]

/-- Opening the gap again. -/
theorem skip_unskip {i j : ℕ} (h : j ≠ i) : skip i (unskip i j) = j := by
  rw [skip, unskip]
  by_cases hij : i < j
  · rw [if_pos hij, if_neg (by omega)]
    omega
  · rw [if_neg hij, if_pos (by omega)]

/-- The array after the entries `i + 1, …, n` have moved down by one. -/
def closeGap (a : ℕ → α) (i n j : ℕ) : α := if i ≤ j ∧ j < n then a (j + 1) else a j

variable {d : α} {l : List α}

/-- The entries of the list come first. -/
theorem ofList_of_lt {i : ℕ} (h : i < l.length) : ofList d l i = l[i] := by
  rw [ofList, List.getElem?_eq_getElem h, Option.getD_some]

/-- The default stands behind them. -/
theorem ofList_of_ge {i : ℕ} (h : l.length ≤ i) : ofList d l i = d := by
  rw [ofList, List.getElem?_eq_none h, Option.getD_none]

/-- Without entries there is the default only. -/
@[simp] theorem ofList_nil (i : ℕ) : ofList d [] i = d := rfl

/-- Appending is a write behind the last entry. -/
theorem ofList_concat (x : α) :
    ofList d (l ++ [x]) = Function.update (ofList d l) l.length x := by
  funext i
  by_cases hi : i = l.length
  · subst hi
    simp [ofList]
  · rw [Function.update_of_ne hi]
    rcases Nat.lt_or_gt_of_ne hi with hlt | hgt
    · rw [ofList, ofList, List.getElem?_append_left hlt]
    · rw [ofList_of_ge (by simp; omega), ofList_of_ge (Nat.le_of_lt hgt)]

/-- Replacing an entry is a write. -/
theorem ofList_set {i : ℕ} (h : i < l.length) (x : α) :
    ofList d (l.set i x) = Function.update (ofList d l) i x := by
  funext j
  by_cases hj : j = i
  · subst hj
    simp [ofList, h]
  · rw [Function.update_of_ne hj, ofList, ofList, List.getElem?_set_ne (Ne.symm hj)]

/-- Removing an entry closes the gap and clears the last entry. -/
theorem ofList_eraseIdx {i n : ℕ} (hi : i ≤ n) (hn : l.length = n + 1) :
    ofList d (l.eraseIdx i) = Function.update (closeGap (ofList d l) i n) n d := by
  funext j
  rw [ofList, List.getElem?_eraseIdx]
  by_cases hj : j = n
  · subst hj
    rw [Function.update_self, if_neg (by omega), List.getElem?_eq_none (by omega), Option.getD_none]
  · rw [Function.update_of_ne hj, closeGap]
    by_cases hji : j < i
    · rw [if_pos hji, if_neg (by omega)]
      rfl
    · rw [if_neg hji]
      by_cases hjn : j < n
      · rw [if_pos ⟨by omega, hjn⟩]
        rfl
      · rw [if_neg (by omega), ofList_of_ge (by omega), List.getElem?_eq_none (by omega),
          Option.getD_none]

/-- Removing an entry leaves the others, from `skip`. -/
theorem ofList_eraseIdx_apply (i j : ℕ) : ofList d (l.eraseIdx i) j = ofList d l (skip i j) := by
  rw [ofList, ofList, List.getElem?_eraseIdx, skip]
  split <;> rfl

/-- The loop that moves entries down, one at a time. -/
theorem forUpTo_closeGap (a : ℕ → α) (i k : ℕ) :
    forUpTo k (fun m a => Function.update a (i + m) (a (i + m + 1))) a = closeGap a i (i + k) := by
  induction k with
  | zero =>
    funext j
    rw [forUpTo_zero, closeGap, if_neg (by omega)]
  | succ k ih =>
    rw [forUpTo_succ, ih]
    funext j
    by_cases hj : j = i + k
    · subst hj
      rw [Function.update_self, closeGap, if_neg (by omega), closeGap, if_pos (by omega)]
    · rw [Function.update_of_ne hj, closeGap, closeGap]
      have hlt : (i ≤ j ∧ j < i + k) ↔ (i ≤ j ∧ j < i + (k + 1)) := by omega
      simp only [hlt]

end DenseArray
