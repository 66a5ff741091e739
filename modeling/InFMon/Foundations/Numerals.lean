import InFMon.Foundations.JoinedText
import Mathlib.Data.List.Forall2
import Mathlib.Data.Nat.Digits.Defs
import Mathlib.Algebra.Ring.Nat

/-! # Reading numerals

Numbers below a bound from the digits of a radix, as `from_str_radix` reads them: behind a plus sign or not,
with any number of leading zeros, and letters in both cases. -/

namespace Numerals

/-! ### Digits -/

/-- `char::to_digit`. -/
def toDigit (radix : ℕ) (c : Char) : Option ℕ :=
  let value :=
    if '0' ≤ c ∧ c ≤ '9' then some (c.toNat - 48)
    else if 'a' ≤ c ∧ c ≤ 'z' then some (c.toNat - 87)
    else if 'A' ≤ c ∧ c ≤ 'Z' then some (c.toNat - 55)
    else none
  value.filter fun d => d < radix

/-- The digits that are written are read. -/
theorem toDigit_digitChar {radix : ℕ} (hradix : radix ≤ 16) : ∀ d < radix,
    toDigit radix d.digitChar = some d := by
  have hsixteen : ∀ d < 16, (if '0' ≤ d.digitChar ∧ d.digitChar ≤ '9' then
        some (d.digitChar.toNat - 48)
      else if 'a' ≤ d.digitChar ∧ d.digitChar ≤ 'z' then some (d.digitChar.toNat - 87)
      else if 'A' ≤ d.digitChar ∧ d.digitChar ≤ 'Z' then some (d.digitChar.toNat - 55)
      else none) = some d := by
    decide
  intro d hd
  rw [toDigit, hsixteen d (hd.trans_le hradix)]
  exact Option.filter_some_pos (decide_eq_true hd)

/-- A sign is no digit. -/
theorem toDigit_plus (radix : ℕ) : toDigit radix '+' = none := rfl

/-- Nor is the other one. -/
theorem toDigit_minus (radix : ℕ) : toDigit radix '-' = none := rfl

/-! ### Numbers -/

/-- `ParseIntError`. -/
inductive ParseIntError where
  | empty
  | invalidDigit
  | posOverflow
  deriving DecidableEq, Repr

/-- The text of an error. -/
def ParseIntError.display : ParseIntError → String
  | empty => "cannot parse integer from empty string"
  | invalidDigit => "invalid digit found in string"
  | posOverflow => "number too large to fit in target type"

/-- The loop over the digits, behind the value `n`. -/
def readDigits (radix bound n : ℕ) : List Char → Except ParseIntError ℕ
  | [] => .ok n
  | c :: cs =>
    match toDigit radix c with
    | none => .error .invalidDigit
    | some d =>
      if n * radix + d < bound then readDigits radix bound (n * radix + d) cs
      else .error .posOverflow

/-- `from_str_radix` of an unsigned type with values below `bound`. -/
def fromStrRadix (radix bound : ℕ) : List Char → Except ParseIntError ℕ
  | [] => .error .empty
  | ['+'] | ['-'] => .error .invalidDigit
  | '+' :: digits => readDigits radix bound 0 digits
  | digits => readDigits radix bound 0 digits

/-- The number that digits stand for, behind the value `n`. -/
def digitsValue (radix n : ℕ) (digits : List ℕ) : ℕ := digits.foldl (fun n d => n * radix + d) n

/-- The characters are these digits. -/
def AreDigits (radix : ℕ) (text : List Char) (digits : List ℕ) : Prop :=
  List.Forall₂ (fun c d => toDigit radix c = some d) text digits

variable {radix bound n m : ℕ} {text : List Char}

/-- Digits behind a value do not make it smaller. -/
theorem le_digitsValue (hradix : 0 < radix) (n : ℕ) (digits : List ℕ) :
    n ≤ digitsValue radix n digits := by
  induction digits generalizing n with
  | nil => exact Nat.le_refl n
  | cons d digits ih =>
    calc n ≤ n * radix := Nat.le_mul_of_pos_right n hradix
      _ ≤ n * radix + d := Nat.le_add_right ..
      _ ≤ digitsValue radix (n * radix + d) digits := ih _

/-- The loop reads digits whose value is below the bound. -/
theorem readDigits_eq_ok_iff (hradix : 0 < radix) (hn : n < bound) :
    readDigits radix bound n text = .ok m ↔
      ∃ digits, AreDigits radix text digits ∧ digitsValue radix n digits = m ∧ m < bound := by
  induction text generalizing n with
  | nil =>
    constructor
    · intro h
      obtain rfl := Except.ok.inj h
      exact ⟨[], .nil, rfl, hn⟩
    · rintro ⟨digits, hdigits, rfl, -⟩
      cases hdigits
      rfl
  | cons c text ih =>
    rw [readDigits]
    constructor
    · intro h
      split at h
      · cases h
      rename_i d hd
      split at h
      · rename_i hlt
        obtain ⟨digits, hdigits, hvalue, hm⟩ := (ih hlt).mp h
        exact ⟨d :: digits, .cons hd hdigits, hvalue, hm⟩
      · cases h
    · rintro ⟨digits, hdigits, rfl, hm⟩
      cases hdigits with
      | @cons _ d _ digits hd hdigits =>
        -- the value in front of the last digits is no larger than that behind them
        have hlt : n * radix + d < bound := (le_digitsValue hradix _ digits).trans_lt hm
        rw [hd]
        dsimp only
        rw [if_pos hlt]
        exact (ih hlt).mpr ⟨digits, hdigits, rfl, hm⟩

/-- Without a sign the loop reads the whole text. -/
theorem fromStrRadix_of_digit {c : Char} {d : ℕ} (h : toDigit radix c = some d) (text : List Char) :
    fromStrRadix radix bound (c :: text) = readDigits radix bound 0 (c :: text) := by
  have hplus : c ≠ '+' := fun heq => by
    rw [heq, toDigit_plus] at h
    cases h
  have hminus : c ≠ '-' := fun heq => by
    rw [heq, toDigit_minus] at h
    cases h
  rw [fromStrRadix]
  · exact List.cons_ne_nil c text
  · exact fun heq => hplus (List.cons.inj heq).1
  · exact fun heq => hminus (List.cons.inj heq).1
  · exact fun _ heq => hplus (List.cons.inj heq).1

/-- **What is read.** Digits, behind a plus sign or not, whose value is below the bound. -/
theorem fromStrRadix_eq_ok_iff (hradix : 0 < radix) (hbound : 0 < bound) :
    fromStrRadix radix bound text = .ok m ↔ ∃ digits values, digits ≠ [] ∧
      (text = digits ∨ text = '+' :: digits) ∧ AreDigits radix digits values ∧
        digitsValue radix 0 values = m ∧ m < bound := by
  constructor
  · intro h
    unfold fromStrRadix at h
    split at h
    · cases h
    · cases h
    · cases h
    · rename_i digits hne
      obtain ⟨values, hvalues⟩ := (readDigits_eq_ok_iff hradix hbound).mp h
      exact ⟨digits, values, fun hnil => hne (hnil ▸ rfl), .inr rfl, hvalues⟩
    · rename_i hne _ _ _
      obtain ⟨values, hvalues⟩ := (readDigits_eq_ok_iff hradix hbound).mp h
      exact ⟨text, values, hne, .inl rfl, hvalues⟩
  · rintro ⟨digits, values, hne, htext, hdigits, hvalue⟩
    have hread := (readDigits_eq_ok_iff hradix hbound).mpr ⟨values, hdigits, hvalue⟩
    cases hdigits with
    | nil => exact absurd rfl hne
    | @cons c d digits values hc hdigits =>
      rcases htext with rfl | rfl
      · rw [fromStrRadix_of_digit hc, hread]
      · rw [fromStrRadix, hread]
        rintro heq
        cases heq

/-! ### Written numbers -/

/-- Leading zeros do not count. -/
theorem digitsValue_zeros (radix k : ℕ) (digits : List ℕ) :
    digitsValue radix 0 (List.replicate k 0 ++ digits) = digitsValue radix 0 digits := by
  induction k with
  | zero => rfl
  | succ k ih =>
    rw [List.replicate_succ, List.cons_append, digitsValue, List.foldl_cons, Nat.zero_mul]
    exact ih

/-- The digits of a number are read as digits with its value. -/
theorem areDigits_toDigits (hradix : 1 < radix) (hle : radix ≤ 16) (n : ℕ) :
    ∃ values, AreDigits radix (Nat.toDigits radix n) values ∧ digitsValue radix 0 values = n := by
  induction n using Nat.strongRecOn with
  | ind n ih =>
    by_cases hlt : n < radix
    · rw [Nat.toDigits_of_lt_base hlt]
      exact ⟨[n], .cons (toDigit_digitChar hle n hlt) .nil, by simp [digitsValue]⟩
    · -- the last digit, behind those of the quotient
      obtain ⟨values, hvalues, hvalue⟩ := ih (n / radix) (Nat.div_lt_self (by omega) hradix)
      rw [Nat.toDigits_of_base_le hradix (Nat.le_of_not_lt hlt)]
      refine ⟨values ++ [n % radix], List.rel_append hvalues (.cons ?_ .nil), ?_⟩
      · exact toDigit_digitChar hle _ (Nat.mod_lt n (by omega))
      · rw [digitsValue, List.foldl_append]
        change digitsValue radix 0 values * radix + n % radix = n
        rw [hvalue, Nat.mul_comm]
        exact Nat.div_add_mod n radix

/-- A number that is written with leading zeros or without is read. -/
theorem fromStrRadix_toDigits (hradix : 1 < radix) (hle : radix ≤ 16) (hn : n < bound) (k : ℕ) :
    fromStrRadix radix bound (List.replicate k '0' ++ Nat.toDigits radix n) = .ok n := by
  obtain ⟨values, hvalues, hvalue⟩ := areDigits_toDigits hradix hle n
  have hpos : 0 < radix := by omega
  refine (fromStrRadix_eq_ok_iff hpos (Nat.zero_lt_of_lt hn)).mpr
    ⟨_, List.replicate k 0 ++ values, ?_, .inl rfl, ?_, ?_, hn⟩
  · intro hnil
    have hlength := congrArg List.length (List.append_eq_nil_iff.mp hnil).2
    have hdigits := Nat.length_toDigits_pos (b := radix) (n := n)
    rw [hlength] at hdigits
    exact Nat.lt_irrefl 0 hdigits
  · refine List.rel_append ?_ hvalues
    induction k with
    | zero => exact .nil
    | succ k ih => exact .cons (toDigit_digitChar hle 0 hpos) ih
  · rw [digitsValue_zeros, hvalue]

end Numerals
