import Mathlib.Data.List.Basic
import Mathlib.Tactic.Common

/-! # Lines with a limit

A reader that takes what comes up to the first separator, but no more than a limit. A line is read whole,
with or without its separator, exactly when it is not longer than the limit. -/

namespace CappedLine

variable {α : Type*} [DecidableEq α] {sep : α} {line : List α} {limit : ℕ}

/-- Everything up to the first separator, which is included. -/
def firstLine (sep : α) : List α → List α
  | [] => []
  | a :: as => if a = sep then [a] else a :: firstLine sep as

/-- The first line of what lies within the limit. -/
def cappedLine (sep : α) (limit : ℕ) (input : List α) : List α := firstLine sep (input.take limit)

/-- Behind the separator nothing is read. -/
theorem firstLine_append (h : sep ∉ line) (rest : List α) :
    firstLine sep (line ++ sep :: rest) = line ++ [sep] := by
  induction line with
  | nil => rw [List.nil_append, firstLine, if_pos rfl, List.nil_append]
  | cons a as ih =>
    rw [List.mem_cons, not_or] at h
    rw [List.cons_append, firstLine, if_neg (Ne.symm h.1), ih h.2, List.cons_append]

/-- Without a separator everything is read. -/
theorem firstLine_of_not_mem (h : sep ∉ line) : firstLine sep line = line := by
  induction line with
  | nil => rfl
  | cons a as ih =>
    rw [List.mem_cons, not_or] at h
    rw [firstLine, if_neg (Ne.symm h.1), ih h.2]

/-- A line below the limit is read with its separator. -/
theorem cappedLine_of_lt (h : sep ∉ line) (hlt : line.length < limit) :
    cappedLine sep limit (line ++ [sep]) = line ++ [sep] := by
  rw [cappedLine, List.take_of_length_le, firstLine_append h]
  rw [List.length_append, List.length_singleton]
  exact hlt

/-- Of any other line the part within the limit is read. -/
theorem cappedLine_of_ge (h : sep ∉ line) (hge : limit ≤ line.length) :
    cappedLine sep limit (line ++ [sep]) = line.take limit := by
  rw [cappedLine, List.take_append_of_le_length hge]
  exact firstLine_of_not_mem fun hmem => h (List.mem_of_mem_take hmem)

end CappedLine
