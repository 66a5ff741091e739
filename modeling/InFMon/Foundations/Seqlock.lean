import Mathlib.Algebra.Group.Nat.Defs
import Mathlib.Logic.Basic
import Mathlib.Tactic.Common

/-! # Sequence locks

A writer raises a 32-bit sequence number when it begins a write section and again when it ends it. A
reader loads the number before and after its reads: an even number that is still there afterwards shows
that no section was open in between, unless so many of them were that the number has come round. -/

namespace Seqlock

/-- The sequence number of a lock on which `begun` sections were begun, the last of them still open or
not. -/
def Tracks (seq : UInt32) (begun : ℕ) (isOpen : Bool) : Prop :=
  (seq.toNat + if isOpen then 1 else 0) % 2 ^ 32 = 2 * begun % 2 ^ 32

/-- The number is even, as a reader asks before it trusts its reads. -/
def Even (seq : UInt32) : Prop := seq &&& 1 = 0

instance (seq : UInt32) : Decidable (Even seq) := decEq (seq &&& 1) 0

/-- A sequence number is even when its number is. -/
theorem even_iff {seq : UInt32} : Even seq ↔ seq.toNat % 2 = 0 := by
  rw [Even, ← UInt32.toNat_inj, UInt32.toNat_and]
  exact iff_of_eq (congrArg (· = 0) (Nat.and_one_is_mod _))

variable {seq : UInt32} {begun begun' : ℕ} {isOpen isOpen' : Bool}

/-- At the start there are no sections. -/
theorem tracks_zero : Tracks 0 0 false := rfl

/-- A section is begun. -/
theorem Tracks.opened (h : Tracks seq begun false) : Tracks (seq + 1) (begun + 1) true := by
  rw [Tracks] at h ⊢
  rw [UInt32.toNat_add, UInt32.toNat_one]
  simp only [Bool.false_eq_true, if_false, if_true] at h ⊢
  omega

/-- The open section is ended. -/
theorem Tracks.closed (h : Tracks seq begun true) : Tracks (seq + 1) begun false := by
  rw [Tracks] at h ⊢
  rw [UInt32.toNat_add, UInt32.toNat_one]
  simp only [Bool.false_eq_true, if_false, if_true] at h ⊢
  omega

/-- While a section is open the number is odd. -/
theorem Tracks.closed_of_even (h : Tracks seq begun isOpen) (heven : Even seq) : isOpen = false := by
  rw [even_iff] at heven
  cases isOpen with
  | false => rfl
  | true =>
    rw [Tracks] at h
    simp only [if_true] at h
    omega

/-- A number that is even and the same as before shows that no section was begun in between, provided that
fewer than `2 ^ 31` were. -/
theorem Tracks.unchanged (h : Tracks seq begun isOpen) (h' : Tracks seq begun' isOpen')
    (heven : Even seq) (hle : begun ≤ begun') (hfew : begun' - begun < 2 ^ 31) : begun' = begun := by
  obtain rfl := h.closed_of_even heven
  obtain rfl := h'.closed_of_even heven
  rw [Tracks] at h h'
  omega

end Seqlock
