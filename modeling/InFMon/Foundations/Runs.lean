import Mathlib.Data.List.Basic
import Mathlib.Data.List.Induction
import Mathlib.Tactic.Common

/-! # Runs

Runs of a system that takes one step for each event. A condition on steps is met by a run when every
event meets it in the state in which it happens; a property of states holds throughout a run when it
holds in every state that the run reaches. -/

namespace Runs

variable {σ ε : Type} {step : σ → ε → σ} {cond : σ → ε → Prop} {P I : σ → Prop} {s : σ}

/-- The state behind a run. -/
def run (step : σ → ε → σ) (s : σ) (events : List ε) : σ := events.foldl step s

/-- Every event of the run meets the condition in the state in which it happens. -/
def Meets (step : σ → ε → σ) (cond : σ → ε → Prop) (s : σ) (events : List ε) : Prop :=
  ∀ pre e post, events = pre ++ e :: post → cond (run step s pre) e

/-- The property holds in every state that the run reaches, the first one included. -/
def Throughout (step : σ → ε → σ) (P : σ → Prop) (s : σ) (events : List ε) : Prop :=
  ∀ pre post, events = pre ++ post → P (run step s pre)

/-- A run without events stays where it is. -/
@[simp] theorem run_nil : run step s [] = s := rfl

/-- One event more. -/
theorem run_concat (events : List ε) (e : ε) :
    run step s (events ++ [e]) = step (run step s events) e := List.foldl_concat ..

/-- One run behind the other. -/
theorem run_append (events more : List ε) :
    run step s (events ++ more) = run step (run step s events) more := List.foldl_append ..

/-- A map of the states that takes steps to steps takes runs to runs. -/
theorem run_map {τ : Type} {step' : τ → ε → τ} (f : σ → τ)
    (hstep : ∀ s e, f (step s e) = step' (f s) e) {events : List ε} :
    f (run step s events) = run step' (f s) events := by
  induction events generalizing s with
  | nil => rfl
  | cons e events ih => exact ih.trans (congrArg (run step' · events) (hstep s e))

/-- Such a map takes runs that meet a condition to runs that meet it. -/
theorem meets_map {τ : Type} {step' : τ → ε → τ} {cond' : τ → ε → Prop} (f : σ → τ)
    (hstep : ∀ s e, f (step s e) = step' (f s) e) {events : List ε} :
    Meets step (fun s e => cond' (f s) e) s events ↔ Meets step' cond' (f s) events := by
  refine forall_congr' fun pre => forall_congr' fun e => forall_congr' fun post =>
    imp_congr_right fun _ => ?_
  rw [← run_map f hstep]

/-- Without events every condition is met. -/
theorem meets_nil : Meets step cond s [] := by
  intro pre e post h
  cases pre with
  | nil => cases h
  | cons _ _ => cases h

/-- A run meets a condition when its first event does and the rest does from there on. -/
theorem meets_cons {events : List ε} {e : ε} :
    Meets step cond s (e :: events) ↔ cond s e ∧ Meets step cond (step s e) events := by
  constructor
  · intro h
    refine ⟨h [] e events rfl, fun pre e' post hsplit => h (e :: pre) e' post ?_⟩
    rw [hsplit, List.cons_append]
  · rintro ⟨hfirst, hrest⟩ pre e' post hsplit
    cases pre with
    | nil =>
      obtain rfl : e = e' := (List.cons.inj hsplit).1
      exact hfirst
    | cons e₀ pre =>
      rw [List.cons_append] at hsplit
      obtain ⟨rfl, htail⟩ := List.cons.inj hsplit
      exact hrest pre e' post htail

instance decidableMeets [∀ s e, Decidable (cond s e)] :
    (events : List ε) → (s : σ) → Decidable (Meets step cond s events)
  | [], _ => isTrue meets_nil
  | e :: events, s =>
    have := decidableMeets events (step s e)
    decidable_of_iff (cond s e ∧ Meets step cond (step s e) events) meets_cons.symm

/-- A run meets a condition when it does up to the last event and the last event does. -/
theorem meets_concat {events : List ε} {e : ε} :
    Meets step cond s (events ++ [e]) ↔ Meets step cond s events ∧ cond (run step s events) e := by
  constructor
  · intro h
    refine ⟨fun pre e' post hsplit => h pre e' (post ++ [e]) ?_, h events e [] rfl⟩
    rw [hsplit, List.append_assoc, List.cons_append]
  · rintro ⟨hevents, hlast⟩ pre e' post hsplit
    rcases List.eq_nil_or_concat post with rfl | ⟨post, last, rfl⟩
    · obtain ⟨rfl, heq⟩ := List.append_inj' hsplit rfl
      obtain rfl : e = e' := (List.cons.inj heq).1
      exact hlast
    · rw [List.concat_eq_append, ← List.cons_append, ← List.append_assoc] at hsplit
      exact hevents pre e' post (List.append_inj' hsplit rfl).1

/-- Events that meet the condition in every state. -/
theorem meets_of_forall {events : List ε} (h : ∀ e ∈ events, ∀ s, cond s e) :
    Meets step cond s events := by
  rintro pre e post rfl
  exact h e (List.mem_append_right _ List.mem_cons_self) _

/-- A run meets a condition when both of its parts do. -/
theorem meets_append {events more : List ε} :
    Meets step cond s (events ++ more) ↔
      Meets step cond s events ∧ Meets step cond (run step s events) more := by
  induction events generalizing s with
  | nil => exact (and_iff_right meets_nil).symm
  | cons e events ih =>
    rw [List.cons_append, meets_cons, meets_cons, ih, and_assoc]
    rfl

/-- Without events the property is that of the first state. -/
theorem throughout_nil : Throughout step P s [] ↔ P s := by
  constructor
  · exact fun h => h [] [] rfl
  · intro h pre post hsplit
    obtain ⟨rfl, -⟩ := List.append_eq_nil_iff.mp hsplit.symm
    exact h

/-- A property holds throughout a run when it does up to the last event and in the last state. -/
theorem throughout_concat {events : List ε} {e : ε} :
    Throughout step P s (events ++ [e]) ↔
      Throughout step P s events ∧ P (run step s (events ++ [e])) := by
  constructor
  · intro h
    refine ⟨fun pre post hsplit => h pre (post ++ [e]) ?_, h (events ++ [e]) [] ?_⟩
    · rw [hsplit, List.append_assoc]
    · rw [List.append_nil]
  · rintro ⟨hevents, hlast⟩ pre post hsplit
    rcases List.eq_nil_or_concat post with rfl | ⟨post, last, rfl⟩
    · rw [List.append_nil] at hsplit
      rwa [← hsplit]
    · rw [List.concat_eq_append, ← List.append_assoc] at hsplit
      exact hevents pre post (List.append_inj' hsplit rfl).1

/-- What every step preserves under its condition holds behind every run that meets it. -/
theorem invariant (h₀ : I s) (hstep : ∀ s e, I s → cond s e → I (step s e)) {events : List ε}
    (h : Meets step cond s events) : I (run step s events) := by
  induction events using List.reverseRecOn with
  | nil => exact h₀
  | append_singleton events e ih =>
    obtain ⟨hevents, hlast⟩ := meets_concat.mp h
    rw [run_concat]
    exact hstep _ e (ih hevents) hlast

/-- An invariant of every step holds behind every run. -/
theorem always (h₀ : I s) (hstep : ∀ s e, I s → I (step s e)) (events : List ε) :
    I (run step s events) := by
  induction events using List.reverseRecOn with
  | nil => exact h₀
  | append_singleton events e ih =>
    rw [run_concat]
    exact hstep _ e ih

/-- The states of a run that meets the condition satisfy every property that the invariant implies. -/
theorem throughout_of_meets (h₀ : I s) (hstep : ∀ s e, I s → cond s e → I (step s e))
    (hP : ∀ s, I s → P s) {events : List ε} (h : Meets step cond s events) :
    Throughout step P s events := by
  induction events using List.reverseRecOn with
  | nil => exact throughout_nil.mpr (hP s h₀)
  | append_singleton events e ih =>
    exact throughout_concat.mpr
      ⟨ih (meets_concat.mp h).1, hP _ (invariant h₀ hstep h)⟩

/-- When a step against the condition breaks the property at once, the runs in which it holds
throughout are the runs that meet the condition. -/
theorem throughout_iff_meets (h₀ : I s) (hstep : ∀ s e, I s → cond s e → I (step s e))
    (hP : ∀ s, I s → P s) (hbreak : ∀ s e, I s → ¬ cond s e → ¬ P (step s e)) {events : List ε} :
    Throughout step P s events ↔ Meets step cond s events := by
  constructor
  · intro h
    induction events using List.reverseRecOn with
    | nil => exact meets_nil
    | append_singleton events e ih =>
      obtain ⟨hevents, hlast⟩ := throughout_concat.mp h
      have hmeets := ih hevents
      refine meets_concat.mpr ⟨hmeets, ?_⟩
      by_contra hcond
      rw [run_concat] at hlast
      exact hbreak _ e (invariant h₀ hstep hmeets) hcond hlast
  · exact throughout_of_meets h₀ hstep hP

/-- Two conditions that agree on every step from a state of the invariant, which the steps that meet them
preserve, are met by the same runs. -/
theorem meets_congr {cond' : σ → ε → Prop} {E : ε → Prop} (h₀ : I s)
    (hstep : ∀ s e, I s → E e → cond' s e → I (step s e))
    (hcond : ∀ s e, I s → E e → (cond s e ↔ cond' s e)) {events : List ε} (hE : ∀ e ∈ events, E e) :
    Meets step cond s events ↔ Meets step cond' s events := by
  induction events generalizing s with
  | nil => exact iff_of_true meets_nil meets_nil
  | cons e events ih =>
    obtain ⟨he, hrest⟩ := List.forall_mem_cons.mp hE
    rw [meets_cons, meets_cons, hcond s e h₀ he]
    exact and_congr_right fun hfirst => ih (hstep s e h₀ he hfirst) hrest

end Runs
