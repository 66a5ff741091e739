import InFMon.Foundations.Runs

/-! # Sessions

Runs of a system that answers each of its inputs. One system simulates another one when, from related
states, each step gives related answers and related states again; the inputs of the second system may
depend on the state of the first one. -/

namespace Sessions

variable {σ τ ι κ ρ ω : Type}

/-- The answers of a session, and the state behind it. -/
def run (step : σ → ι → ρ × σ) : σ → List ι → List ρ × σ
  | s, [] => ([], s)
  | s, i :: inputs =>
    ((step s i).1 :: (run step (step s i).2 inputs).1, (run step (step s i).2 inputs).2)

/-- The state behind a session is that behind the run of its inputs. -/
theorem run_snd (step : σ → ι → ρ × σ) (s : σ) (inputs : List ι) :
    (run step s inputs).2 = Runs.run (fun s i => (step s i).2) s inputs := by
  induction inputs generalizing s with
  | nil => rfl
  | cons i inputs ih => exact ih (step s i).2

/-- One session behind the other. -/
theorem run_append (step : σ → ι → ρ × σ) (s : σ) (inputs more : List ι) :
    run step s (inputs ++ more) =
      ((run step s inputs).1 ++ (run step (run step s inputs).2 more).1,
        (run step (run step s inputs).2 more).2) := by
  induction inputs generalizing s with
  | nil => rfl
  | cons i inputs ih => rw [List.cons_append, run, ih, run, List.cons_append]

/-- What the other system gets for the inputs of a session. -/
def translate (step : σ → ι → ρ × σ) (input : σ → ι → κ) : σ → List ι → List κ
  | _, [] => []
  | s, i :: inputs => input s i :: translate step input (step s i).2 inputs

/-- One step of the first system is one step of the second one. -/
def Simulates (step : σ → ι → ρ × σ) (absStep : τ → κ → ω × τ) (rel : σ → τ → Prop)
    (cond : σ → ι → Prop) (input : σ → ι → κ) (answer : ρ → ω → Prop) : Prop :=
  ∀ s t i, rel s t → cond s i →
    answer (step s i).1 (absStep t (input s i)).1 ∧ rel (step s i).2 (absStep t (input s i)).2

/-- A session of the first system is one of the second. -/
theorem Simulates.run {step : σ → ι → ρ × σ} {absStep : τ → κ → ω × τ} {rel : σ → τ → Prop}
    {cond : σ → ι → Prop} {input : σ → ι → κ} {answer : ρ → ω → Prop}
    (h : Simulates step absStep rel cond input answer) {s : σ} {t : τ} (hst : rel s t)
    {inputs : List ι} (hmeets : Runs.Meets (fun s i => (step s i).2) cond s inputs) :
    List.Forall₂ answer (Sessions.run step s inputs).1
        (Sessions.run absStep t (translate step input s inputs)).1 ∧
      rel (Sessions.run step s inputs).2
        (Sessions.run absStep t (translate step input s inputs)).2 := by
  induction inputs generalizing s t with
  | nil => exact ⟨.nil, hst⟩
  | cons i inputs ih =>
    obtain ⟨hi, hrest⟩ := Runs.meets_cons.mp hmeets
    obtain ⟨hanswer, hnext⟩ := h s t i hst hi
    obtain ⟨hanswers, hlast⟩ := ih hnext hrest
    exact ⟨.cons hanswer hanswers, hlast⟩

end Sessions
