import Mathlib.Data.List.Nodup
import Mathlib.Data.List.Range
import Mathlib.Logic.Function.Basic

/-! # Unique ownership

Places refer to things: `ref p` is what place `p` refers to, if anything. Every live thing has exactly
one owner when some place refers to it, no other place does, and no place refers to anything else.
The rules say how such a state survives new things (`add`), the end of things (`drop`) and references
that change place (`move`). -/

variable {P I : Type*}

/-- Every live thing is referred to from exactly one place, and nothing else is referred to. -/
structure UniqueOwner (ref : P → Option I) (live : I → Prop) : Prop where
  sound : ∀ p i, ref p = some i → live i
  injective : ∀ p q i, ref p = some i → ref q = some i → p = q
  complete : ∀ i, live i → ∃ p, ref p = some i

namespace UniqueOwner

variable {ref ref' : P → Option I} {live live' : I → Prop}

/-- What is live has exactly one owner. -/
theorem existsUnique (h : UniqueOwner ref live) {i : I} (hi : live i) : ∃! p, ref p = some i := by
  obtain ⟨p, hp⟩ := h.complete i hi
  exact ⟨p, hp, fun q hq => h.injective q p i hq hp⟩

/-- References change place along `f`. -/
theorem move (h : UniqueOwner ref live) (f : P → P)
    (hto : ∀ p i, ref p = some i → ref' (f p) = some i)
    (hfrom : ∀ q i, ref' q = some i → ∃ p, f p = q ∧ ref p = some i) : UniqueOwner ref' live where
  sound q i hq := by
    obtain ⟨p, -, hp⟩ := hfrom q i hq
    exact h.sound p i hp
  injective q₁ q₂ i hq₁ hq₂ := by
    obtain ⟨p₁, rfl, hp₁⟩ := hfrom q₁ i hq₁
    obtain ⟨p₂, rfl, hp₂⟩ := hfrom q₂ i hq₂
    rw [h.injective p₁ p₂ i hp₁ hp₂]
  complete i hi := by
    obtain ⟨p, hp⟩ := h.complete i hi
    exact ⟨f p, hto p i hp⟩

/-- New things appear, each in one place. -/
theorem add (h : UniqueOwner ref live) (added : P → I → Prop)
    (href : ∀ p i, ref' p = some i ↔ ref p = some i ∨ added p i)
    (hlive : ∀ i, live' i ↔ live i ∨ ∃ p, added p i)
    (hfresh : ∀ p i, added p i → ¬ live i)
    (hinj : ∀ p q i, added p i → added q i → p = q) : UniqueOwner ref' live' where
  sound p i hp := by
    rw [hlive]
    exact ((href p i).mp hp).imp (h.sound p i) fun ha => ⟨p, ha⟩
  injective p q i hp hq := by
    rcases (href p i).mp hp with hp | hp <;> rcases (href q i).mp hq with hq | hq
    · exact h.injective p q i hp hq
    · exact absurd (h.sound p i hp) (hfresh q i hq)
    · exact absurd (h.sound q i hq) (hfresh p i hp)
    · exact hinj p q i hp hq
  complete i hi := by
    rcases (hlive i).mp hi with hi | ⟨p, hp⟩
    · obtain ⟨p, hp⟩ := h.complete i hi
      exact ⟨p, (href p i).mpr (Or.inl hp)⟩
    · exact ⟨p, (href p i).mpr (Or.inr hp)⟩

/-- The things in some places cease to be, and the places are cleared. -/
theorem drop (h : UniqueOwner ref live) (dropped : P → Prop)
    (href : ∀ p i, ref' p = some i ↔ ref p = some i ∧ ¬ dropped p)
    (hlive : ∀ i, live' i ↔ live i ∧ ¬ ∃ p, dropped p ∧ ref p = some i) :
    UniqueOwner ref' live' where
  sound p i hp := by
    obtain ⟨hp, hkeep⟩ := (href p i).mp hp
    refine (hlive i).mpr ⟨h.sound p i hp, ?_⟩
    rintro ⟨q, hq, hqi⟩
    rw [h.injective p q i hp hqi] at hkeep
    exact hkeep hq
  injective p q i hp hq := h.injective p q i ((href p i).mp hp).1 ((href q i).mp hq).1
  complete i hi := by
    obtain ⟨hi, hkeep⟩ := (hlive i).mp hi
    obtain ⟨p, hp⟩ := h.complete i hi
    exact ⟨p, (href p i).mpr ⟨hp, fun hd => hkeep ⟨p, hd, hp⟩⟩⟩

/-- Equivalent notions of being live. -/
theorem congr (h : UniqueOwner ref live) (href : ∀ p, ref' p = ref p)
    (hlive : ∀ i, live' i ↔ live i) : UniqueOwner ref' live' where
  sound p i hp := (hlive i).mpr (h.sound p i (href p ▸ hp))
  injective p q i hp hq := h.injective p q i (href p ▸ hp) (href q ▸ hq)
  complete i hi := by
    obtain ⟨p, hp⟩ := h.complete i ((hlive i).mp hi)
    exact ⟨p, (href p).trans hp⟩

end UniqueOwner

/-! ### Rows of references -/

/-- What the first `n` places of a row refer to. -/
def pointees (row : ℕ → Option I) (n : ℕ) : List I := (List.range n).filterMap row

/-- The pointees of a row. -/
theorem mem_pointees {row : ℕ → Option I} {n : ℕ} {i : I} :
    i ∈ pointees row n ↔ ∃ v < n, row v = some i := by
  simp [pointees]

/-- One cell more. -/
theorem pointees_succ (row : ℕ → Option I) (n : ℕ) :
    pointees row (n + 1) = pointees row n ++ (row n).toList := by
  rw [pointees, pointees, List.range_succ, List.filterMap_append]
  cases hn : row n <;> simp [hn]

/-- A row that refers to nothing twice. -/
theorem pointees_nodup {row : ℕ → Option I} {n : ℕ}
    (hinj : ∀ u < n, ∀ v < n, ∀ i, row u = some i → row v = some i → u = v) :
    (pointees row n).Nodup := by
  induction n with
  | zero => exact List.nodup_nil
  | succ n ih =>
    rw [pointees_succ]
    have hrest := ih fun u hu v hv => hinj u (by omega) v (by omega)
    cases hn : row n with
    | none => simpa using hrest
    | some i =>
      refine List.nodup_append.mpr ⟨hrest, by simp, ?_⟩
      intro j hj j' hj' heq
      obtain rfl : j' = i := by simpa using hj'
      obtain ⟨v, hv, hvj⟩ := mem_pointees.mp hj
      exact hv.ne (hinj v (by omega) n (by omega) j' (heq ▸ hvj) hn)
