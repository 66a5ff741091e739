import InFMon.Foundations.TracedReader

/-! # Two readers side by side

Two programs read the same memory. The second follows the first when, wherever the first one
succeeds, the second one either succeeds with a related value or ends with one of the errors that are
tolerated. Programs that differ only in how early they stop are compared so, one step at a time. -/

namespace TracedReader

variable {ε α β α' β' : Type} {m : ByteMemory}

/-- If `x` succeeds, `y` succeeds with a value related by `P`, or ends with an error in `E`. -/
def Follows (m : ByteMemory) (E : ε → Prop) (P : α → α' → Prop) (x : TracedReader ε α)
    (y : TracedReader ε α') : Prop :=
  ∀ a, x.result m = .ok a → (∃ e, y.result m = .error e ∧ E e) ∨ ∃ b, y.result m = .ok b ∧ P a b

variable {E : ε → Prop} {P : α → α' → Prop} {Q : β → β' → Prop} {x : TracedReader ε α}
  {y : TracedReader ε α'}

/-- Two values that go together. -/
theorem follows_pure {a : α} {b : α'} (h : P a b) :
    Follows m E P (pure a : TracedReader ε α) (pure b) := by
  intro a' ha
  cases ha
  exact Or.inr ⟨b, rfl, h⟩

/-- Two runs that are known. -/
theorem follows_of_result {a : α} {b : α'} (hx : x.result m = .ok a) (hy : y.result m = .ok b)
    (h : P a b) : Follows m E P x y := by
  intro a' ha
  rw [hx] at ha
  cases ha
  exact Or.inr ⟨b, hy, h⟩

/-- What is returned may be said less of. -/
theorem Follows.mono {P' : α → α' → Prop} (h : Follows m E P x y) (hP : ∀ a b, P a b → P' a b) :
    Follows m E P' x y :=
  fun a ha => (h a ha).imp_right fun ⟨b, hb, hab⟩ => ⟨b, hb, hP a b hab⟩

/-- What is known of the first run can be used. -/
theorem Follows.strengthen {R : α → Prop} (h : Follows m E P x y)
    (hx : ∀ a, x.result m = .ok a → R a) : Follows m E (fun a b => P a b ∧ R a) x y :=
  fun a ha => (h a ha).imp_right fun ⟨b, hb, hab⟩ => ⟨b, hb, hab, hx a ha⟩

/-- A program follows itself. -/
theorem follows_refl (x : TracedReader ε α) : Follows m E (fun a b => b = a) x x :=
  fun a ha => Or.inr ⟨a, ha, rfl⟩

/-- One step after another. -/
theorem Follows.bind {f : α → TracedReader ε β} {g : α' → TracedReader ε β'}
    (h : Follows m E P x y) (hf : ∀ a b, P a b → Follows m E Q (f a) (g b)) :
    Follows m E Q (x >>= f) (y >>= g) := by
  intro c hc
  obtain ⟨a, ha, hc⟩ := result_bind_eq_ok_iff.mp hc
  rcases h a ha with ⟨e, he, hE⟩ | ⟨b, hb, hP⟩
  · refine Or.inl ⟨e, ?_, hE⟩
    rw [result_bind, he]
    rfl
  · have hy : (y >>= g).result m = (g b).result m := by
      rw [result_bind, hb]
      rfl
    rw [hy]
    exact hf a b hP c hc

/-- Two steps with the same value. -/
theorem Follows.bind_eq {y : TracedReader ε α} {f : α → TracedReader ε β}
    {g : α → TracedReader ε β'} (h : Follows m E (fun a b => b = a) x y)
    (hf : ∀ a, Follows m E Q (f a) (g a)) : Follows m E Q (x >>= f) (y >>= g) :=
  h.bind fun a _ hb => hb ▸ hf a

/-- The same step on both sides. -/
theorem follows_bind_same {f : α → TracedReader ε β} {g : α → TracedReader ε β'}
    (hf : ∀ a, Follows m E Q (f a) (g a)) : Follows m E Q (x >>= f) (x >>= g) :=
  (follows_refl x).bind_eq hf

/-- A step that only the first program takes. -/
theorem Follows.bind_left {f : α → TracedReader ε β} {b : β'} {R : α → β' → Prop}
    (h : Follows m E R x (pure b)) (hf : ∀ a, R a b → Follows m E Q (f a) (pure b)) :
    Follows m E Q (x >>= f) (pure b) := by
  intro c hc
  obtain ⟨a, ha, hc⟩ := result_bind_eq_ok_iff.mp hc
  rcases h a ha with ⟨e, he, -⟩ | ⟨b', hb', hR⟩
  · cases he
  · cases hb'
    exact hf a hR c hc

/-- Two checks with a tolerated error. -/
theorem follows_failIf {c c' : Prop} [Decidable c] [Decidable c'] {e : ε} (he : E e) :
    Follows m E (fun _ _ => ¬ c ∧ ¬ c') (failIf c e) (failIf c' e) := by
  intro u hu
  have hc : ¬ c := (result_failIf_eq_ok_iff c e u).mp hu
  by_cases hc' : c'
  · left
    refine ⟨e, ?_, he⟩
    rw [failIf, if_pos hc']
    rfl
  · exact Or.inr ⟨(), (result_failIf_eq_ok_iff c' e ()).mpr hc', hc, hc'⟩

/-- A tolerated check in front of both programs. -/
theorem follows_failIf_bind {c c' : Prop} [Decidable c] [Decidable c'] {e : ε} (he : E e)
    {f : Unit → TracedReader ε β} {g : Unit → TracedReader ε β'}
    (hf : ¬ c → ¬ c' → Follows m E Q (f ()) (g ())) :
    Follows m E Q (failIf c e >>= f) (failIf c' e >>= g) :=
  (follows_failIf he).bind fun _ _ h => hf h.1 h.2

/-- Both branches follow theirs. -/
theorem follows_ite {c : Prop} [Decidable c] {x y : TracedReader ε α} {x' y' : TracedReader ε α'}
    (hthen : c → Follows m E P x x') (helse : ¬ c → Follows m E P y y') :
    Follows m E P (if c then x else y) (if c then x' else y') := by
  split
  · exact hthen ‹_›
  · exact helse ‹_›

end TracedReader
