import Mathlib.Data.List.Basic
import Mathlib.Tactic.Common

/-! # Joined texts

Pieces with a separator in between: what such a text is made of, how long it is, and that its pieces can
be read off it. -/

namespace JoinedText

section
variable {α : Type*} {sep : List α} {pieces : List (List α)}

/-- An element of a joined text stands in the separator or in a piece. -/
theorem mem_intercalate {a : α} (h : a ∈ sep.intercalate pieces) :
    a ∈ sep ∨ ∃ piece ∈ pieces, a ∈ piece := by
  induction pieces with
  | nil => exact absurd h List.not_mem_nil
  | cons piece pieces ih =>
    by_cases hnil : pieces = []
    · rw [hnil, List.intercalate_singleton] at h
      exact .inr ⟨piece, List.mem_cons_self, h⟩
    · rw [List.intercalate_cons_of_ne_nil hnil, List.mem_append, List.mem_append] at h
      obtain (hpiece | hsep) | hrest := h
      · exact .inr ⟨piece, List.mem_cons_self, hpiece⟩
      · exact .inl hsep
      · obtain hsep | ⟨p, hp, hap⟩ := ih hrest
        · exact .inl hsep
        · exact .inr ⟨p, List.mem_cons_of_mem piece hp, hap⟩

/-- A joined text of short pieces is short. -/
theorem length_intercalate_le {k : ℕ} (h : ∀ piece ∈ pieces, piece.length ≤ k) :
    (sep.intercalate pieces).length ≤ pieces.length * (k + sep.length) := by
  induction pieces with
  | nil => exact Nat.zero_le _
  | cons piece pieces ih =>
    have hpiece := h piece List.mem_cons_self
    have hrest := ih fun p hp => h p (List.mem_cons_of_mem piece hp)
    rw [List.length_cons, Nat.succ_mul]
    by_cases hnil : pieces = []
    · rw [hnil, List.intercalate_singleton]
      omega
    · rw [List.intercalate_cons_of_ne_nil hnil, List.length_append, List.length_append]
      omega

/-- Pieces without the separator are known by the text they make up. -/
theorem intercalate_inj [DecidableEq α] {a : α} {pieces' : List (List α)}
    (hnil : pieces ≠ []) (hnil' : pieces' ≠ []) (h : ∀ piece ∈ pieces, a ∉ piece)
    (h' : ∀ piece ∈ pieces', a ∉ piece) :
    [a].intercalate pieces = [a].intercalate pieces' ↔ pieces = pieces' := by
  constructor
  · intro heq
    rw [← List.splitOn_intercalate a h hnil, heq, List.splitOn_intercalate a h' hnil']
  · rintro rfl
    rfl

end

/-! ### Splitting at every separator -/

/-- No separator stands in a piece. -/
theorem notMem_of_mem_splitOn {α : Type*} [DecidableEq α] {a : α} {text piece : List α}
    (h : piece ∈ text.splitOn a) : a ∉ piece := by
  induction text generalizing piece with
  | nil =>
    rw [List.splitOn_nil, List.mem_singleton] at h
    exact h ▸ List.not_mem_nil
  | cons b text ih =>
    obtain ⟨first, rest, hsplit⟩ := List.exists_cons_of_ne_nil (List.splitOn_ne_nil a text)
    rw [List.splitOn_cons_eq_if_modifyHead, hsplit] at h
    rw [hsplit] at ih
    split at h
    · rcases List.mem_cons.mp h with rfl | h
      · exact List.not_mem_nil
      · exact ih h
    · rename_i hb
      rw [List.modifyHead_cons] at h
      rcases List.mem_cons.mp h with rfl | h
      · -- the first piece goes on in front
        refine List.mem_cons.not.mpr (not_or.mpr ⟨fun heq => hb ?_, ih List.mem_cons_self⟩)
        rw [heq, beq_self_eq_true]
      · exact ih (List.mem_cons_of_mem first h)

/-! ### Splitting at the first separator -/

section
variable {α : Type*} [DecidableEq α] {a : α} {text front back : List α}

/-- What stands in front of the first separator and what stands behind it. -/
def splitOnce (a : α) : List α → Option (List α × List α)
  | [] => none
  | b :: text => if b = a then some ([], text) else (splitOnce a text).map fun p => (b :: p.1, p.2)

/-- The first separator splits the text. -/
theorem splitOnce_append (h : a ∉ front) : splitOnce a (front ++ a :: back) = some (front, back) := by
  induction front with
  | nil => exact if_pos rfl
  | cons b front ih =>
    obtain ⟨hne, hrest⟩ := not_or.mp (List.mem_cons.not.mp h)
    rw [List.cons_append, splitOnce, if_neg (Ne.symm hne), ih hrest]
    rfl

/-- A text is split at its first separator. -/
theorem splitOnce_eq_some_iff :
    splitOnce a text = some (front, back) ↔ a ∉ front ∧ text = front ++ a :: back := by
  constructor
  · intro h
    induction text generalizing front with
    | nil => cases h
    | cons b text ih =>
      rw [splitOnce] at h
      split at h
      · rename_i hb
        obtain ⟨rfl, rfl⟩ := Prod.mk.inj (Option.some.inj h)
        exact ⟨List.not_mem_nil, hb ▸ rfl⟩
      · rename_i hb
        obtain ⟨p, hp, heq⟩ := Option.map_eq_some_iff.mp h
        obtain ⟨rfl, rfl⟩ := Prod.mk.inj heq
        obtain ⟨hfront, rfl⟩ := ih hp
        exact ⟨List.mem_cons.not.mpr (not_or.mpr ⟨Ne.symm hb, hfront⟩), rfl⟩
  · rintro ⟨hfront, rfl⟩
    exact splitOnce_append hfront

end

/-! ### Numerals -/

/-- The characters of a numeral are digits of its base. -/
theorem exists_of_mem_toDigits {b n : ℕ} {c : Char} (hb : 1 < b) (h : c ∈ Nat.toDigits b n) :
    ∃ d < b, c = d.digitChar := by
  induction n using Nat.strongRecOn with
  | ind n ih =>
    by_cases hlt : n < b
    · rw [Nat.toDigits_of_lt_base hlt, List.mem_singleton] at h
      exact ⟨n, hlt, h⟩
    · -- the last digit, behind those of the quotient
      rw [Nat.toDigits_of_base_le hb (Nat.le_of_not_lt hlt), List.mem_append,
        List.mem_singleton] at h
      obtain hfront | hlast := h
      · exact ih (n / b) (Nat.div_lt_self (by omega) hb) hfront
      · exact ⟨n % b, Nat.mod_lt n (by omega), hlast⟩

/-- Numbers are told apart by their decimal numerals. -/
theorem toDigits_ten_injective : Function.Injective (Nat.toDigits 10) :=
  Function.LeftInverse.injective (g := fun digits => Nat.ofDigitChars 10 digits 0) fun _ =>
    Nat.ofDigitChars_ten_toDigits

end JoinedText
