import Mathlib.Data.List.Basic
import Mathlib.Logic.Function.Basic
import Mathlib.Tactic.Common

/-! # Sparse arrays

An array of `n` cells, some of which are live. The live cells are enumerated in order, and writing to a
cell changes their number by what it changes of the cell. -/

namespace SparseArray

variable {α : Type} (live : α → Bool)

/-- The indices of the live cells, in order. -/
def liveCells (n : ℕ) (cells : ℕ → α) : List ℕ := (List.range n).filter fun i => live (cells i)

/-- Walk over some indices and stop at the live cell in front of which as many live cells were seen as
the index says. -/
def scan (cells : ℕ → α) (index : ℕ) : List ℕ → ℕ → Option ℕ
  | [], _ => none
  | i :: rest, seen =>
    if live (cells i) then
      if seen = index then some i else scan cells index rest (seen + 1)
    else scan cells index rest seen

variable {live} {n : ℕ} {cells : ℕ → α}

/-- The cells that are live. -/
theorem mem_liveCells {i : ℕ} : i ∈ liveCells live n cells ↔ i < n ∧ live (cells i) = true := by
  rw [liveCells, List.mem_filter, List.mem_range]

/-- Each live cell is listed once. -/
theorem nodup_liveCells : (liveCells live n cells).Nodup := List.nodup_range.filter _

/-- No more cells are live than there are. -/
theorem length_liveCells_le : (liveCells live n cells).length ≤ n :=
  Nat.le_trans (List.length_filter_le _ _) (Nat.le_of_eq List.length_range)

/-- One cell more, listed if it is live. -/
theorem liveCells_succ : liveCells live (n + 1) cells =
    liveCells live n cells ++ (bif live (cells n) then [n] else []) := by
  rw [liveCells, List.range_succ, List.filter_append, List.filter_singleton]
  rfl

/-- The list depends on which cells are live only. -/
theorem liveCells_congr {cells' : ℕ → α} (h : ∀ i < n, live (cells' i) = live (cells i)) :
    liveCells live n cells' = liveCells live n cells :=
  List.filter_congr fun i hi => h i (List.mem_range.mp hi)

/-- A write takes away what was live and adds what is live now. -/
theorem length_liveCells_update {i : ℕ} (hi : i < n) (a : α) :
    (liveCells live n (Function.update cells i a)).length + (live (cells i)).toNat =
      (liveCells live n cells).length + (live a).toNat := by
  have hlen : ∀ b : Bool, (bif b then [n - 1] else []).length = b.toNat := by
    intro b
    cases b <;> rfl
  induction n with
  | zero => exact absurd hi (Nat.not_lt_zero i)
  | succ n ih =>
    rw [Nat.add_sub_cancel] at hlen
    rw [liveCells_succ, liveCells_succ, List.length_append, List.length_append, hlen, hlen]
    rcases Nat.lt_or_eq_of_le (Nat.le_of_lt_succ hi) with hlt | rfl
    · -- the last cell is not the one that is written
      have hsame := ih hlt fun b => by cases b <;> rfl
      rw [Function.update_of_ne (Nat.ne_of_gt hlt)]
      omega
    · rw [Function.update_self, liveCells_congr fun j hj => by
        rw [Function.update_of_ne (Nat.ne_of_lt hj)]]
      omega

/-- Walking over indices finds the live ones among them in order. -/
theorem scan_eq {index seen : ℕ} (hseen : seen ≤ index) (indices : List ℕ) :
    scan live cells index indices seen =
      (indices.filter fun i => live (cells i))[index - seen]? := by
  induction indices generalizing seen with
  | nil => rfl
  | cons i rest ih =>
    rw [scan, List.filter_cons]
    split
    · split
      · rename_i heq
        rw [heq, Nat.sub_self]
        rfl
      · -- one live cell fewer is to be skipped
        rename_i hne
        obtain ⟨k, hk⟩ : ∃ k, index - seen = k + 1 := ⟨index - seen - 1, by omega⟩
        rw [ih (by omega), hk, List.getElem?_cons_succ]
        congr 1
        omega
    · exact ih hseen

end SparseArray
