import Mathlib.Data.List.Nodup
import Mathlib.Tactic.Common

/-! # Checks with early returns

A validator is a sequence of checks in `Except`: each one returns at once with its error, or lets the
next one run. It accepts exactly what every check lets through. -/

namespace Checks

variable {ε α : Type}

/-- `if bad { return Err(e) }`. -/
def reject (bad : Prop) [Decidable bad] (e : ε) : Except ε Unit :=
  if bad then .error e else .ok ()

/-- A check of a part that may be absent. -/
def optional (check : α → Except ε Unit) : Option α → Except ε Unit
  | none => .ok ()
  | some a => check a

/-- The first entry that stands in the list before, or among the entries seen already. -/
def firstRepeated [DecidableEq α] (seen : List α) : List α → Option α
  | [] => none
  | a :: as => if a ∈ seen then some a else firstRepeated (a :: seen) as

/-- `if let Some(a) = found { return Err(e(a)) }`. -/
def rejectSome (found : Option α) (e : α → ε) : Except ε Unit :=
  match found with
  | none => .ok ()
  | some a => .error (e a)

/-- A check lets through what is not bad. -/
theorem reject_ok_iff {bad : Prop} [Decidable bad] {e : ε} : reject bad e = .ok () ↔ ¬ bad := by
  unfold reject
  by_cases hbad : bad
  · rw [if_pos hbad]
    exact iff_of_false (by simp) (not_not.mpr hbad)
  · rw [if_neg hbad]
    exact iff_of_true rfl hbad

/-- A check lets through where nothing is found. -/
theorem rejectSome_ok_iff {found : Option α} {e : α → ε} :
    rejectSome found e = .ok () ↔ found = none := by
  cases found with
  | none => exact iff_of_true rfl rfl
  | some a => exact iff_of_false (by simp [rejectSome]) (by simp)

/-- The second check runs behind the first one. -/
theorem bind_ok_iff {first : Except ε Unit} {second : Unit → Except ε α} {a : α} :
    (first >>= second) = .ok a ↔ first = .ok () ∧ second () = .ok a := by
  cases first with
  | error e => exact iff_of_false (fun h => by cases h) (fun h => by cases h.1)
  | ok u => exact (and_iff_right rfl).symm

/-- No entry is repeated when the list has no duplicates and meets none of the entries seen. -/
theorem firstRepeated_eq_none_iff [DecidableEq α] {seen as : List α} :
    firstRepeated seen as = none ↔ as.Nodup ∧ ∀ a ∈ as, a ∉ seen := by
  induction as generalizing seen with
  | nil => exact iff_of_true rfl ⟨List.nodup_nil, fun _ h => absurd h List.not_mem_nil⟩
  | cons a as ih =>
    rw [firstRepeated]
    by_cases hseen : a ∈ seen
    · rw [if_pos hseen]
      exact iff_of_false (by simp) fun h => h.2 a List.mem_cons_self hseen
    · rw [if_neg hseen, ih, List.nodup_cons]
      constructor
      · rintro ⟨hnodup, hfresh⟩
        refine ⟨⟨fun ha => hfresh a ha List.mem_cons_self, hnodup⟩, fun b hb => ?_⟩
        rcases List.mem_cons.mp hb with rfl | hb
        · exact hseen
        · exact fun h => hfresh b hb (List.mem_cons_of_mem _ h)
      · rintro ⟨⟨ha, hnodup⟩, hfresh⟩
        refine ⟨hnodup, fun b hb h => ?_⟩
        rcases List.mem_cons.mp h with rfl | h
        · exact ha hb
        · exact hfresh b (List.mem_cons_of_mem _ hb) h

/-! ### Errors -/

/-- Every error that a check may return satisfies the property. -/
def ErrorsSatisfy (P : ε → Prop) (check : Except ε α) : Prop := ∀ e, check = .error e → P e

variable {P Q : ε → Prop}

/-- A success has no error. -/
theorem errorsSatisfy_ok {a : α} : ErrorsSatisfy P (.ok a) := fun _ h => by cases h

/-- A failure has its own error only. -/
theorem errorsSatisfy_error {e : ε} (h : P e) : ErrorsSatisfy P (.error e : Except ε α) :=
  fun _ he => Except.error.inj he ▸ h

/-- The errors may be said less of. -/
theorem ErrorsSatisfy.mono {check : Except ε α} (h : ErrorsSatisfy P check) (hPQ : ∀ e, P e → Q e) :
    ErrorsSatisfy Q check := fun e he => hPQ e (h e he)

/-- The errors of a sequence are those of its parts. -/
theorem ErrorsSatisfy.bind {first : Except ε Unit} {second : Unit → Except ε α}
    (h : ErrorsSatisfy P first) (hsecond : ErrorsSatisfy P (second ())) :
    ErrorsSatisfy P (first >>= second) := by
  cases first with
  | error e => exact errorsSatisfy_error (h e rfl)
  | ok u => exact hsecond

/-- A check has its own error only. -/
theorem errorsSatisfy_reject {bad : Prop} [Decidable bad] {e : ε} (h : P e) :
    ErrorsSatisfy P (reject bad e) := by
  unfold reject
  split
  · exact errorsSatisfy_error h
  · exact errorsSatisfy_ok

/-- A check has the errors about what it may find only. -/
theorem errorsSatisfy_rejectSome {found : Option α} {e : α → ε} (h : ∀ a, P (e a)) :
    ErrorsSatisfy P (rejectSome found e) := by
  cases found with
  | none => exact errorsSatisfy_ok
  | some a => exact errorsSatisfy_error (h a)

end Checks
