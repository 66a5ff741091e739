import InFMon.Foundations.ByteMemory
import InFMon.Foundations.MachineWord

/-! # Traced readers

Programs that read a byte memory at 32-bit offsets and end with a value or an error. Every byte index
they read and every offset they compute is recorded next to the result, so that a bound on what a
program may touch is a statement about its record. The value never depends on the record. -/

open MachineWord

/-- One thing a reader does: read the byte at an index, or compute an offset. A sum is recorded as it
is before the reduction to 32 bits, a difference by its two sides. -/
inductive Access where
  | byte (i : ℕ)
  | sum (n : ℕ)
  | diff (a b : ℕ)
  deriving DecidableEq, Repr

/-- Only bytes below `len` are read, and no offset wraps around. -/
def Access.InBounds (len : ℕ) : Access → Prop
  | .byte i => i < len
  | .sum n => n ≤ max32
  | .diff a b => b ≤ a

/-- The 16-bit value of two bytes in network order. -/
def be16 (hi lo : UInt8) : ℕ := hi.toNat * 256 + lo.toNat

/-- The 32-bit value of four bytes in network order. -/
def be32 (b₀ b₁ b₂ b₃ : UInt8) : ℕ :=
  b₀.toNat * 16777216 + b₁.toNat * 65536 + b₂.toNat * 256 + b₃.toNat

/-- Two bytes have 16 bits. -/
theorem be16_lt (hi lo : UInt8) : be16 hi lo < 65536 := by
  have h₁ := hi.toNat_lt
  have h₂ := lo.toNat_lt
  unfold be16
  omega

/-- A program that reads a memory: its record, and its value or its error. -/
def TracedReader (ε α : Type) : Type := ByteMemory → List Access × Except ε α

namespace TracedReader

variable {ε α β : Type}

/-- The record of a run. -/
def trace (x : TracedReader ε α) (m : ByteMemory) : List Access := (x m).1

/-- How a run ends. -/
def result (x : TracedReader ε α) (m : ByteMemory) : Except ε α := (x m).2

instance : Monad (TracedReader ε) where
  pure a := fun _ => ([], .ok a)
  bind x f := fun m =>
    match x m with
    | (t, .error e) => (t, .error e)
    | (t, .ok a) => (t ++ (f a m).1, (f a m).2)

/-! ### Programs -/

/-- Stop with an error. -/
def fail (e : ε) : TracedReader ε α := fun _ => ([], .error e)

/-- Stop with an error if a condition holds. -/
def failIf (c : Prop) [Decidable c] (e : ε) : TracedReader ε Unit :=
  if c then fail e else pure ()

/-- Read one byte. -/
def readByte (i : ℕ) : TracedReader ε UInt8 := fun m => ([.byte i], .ok (m i))

/-- Read `n` bytes. -/
def readBytes (i n : ℕ) : TracedReader ε (List UInt8) := fun m =>
  ((List.range n).map fun j => .byte (i + j), .ok (m.read i n))

/-- Read a 16-bit value in network order. -/
def readU16 (i : ℕ) : TracedReader ε ℕ := do
  let hi ← readByte i
  let lo ← readByte (i + 1)
  return be16 hi lo

/-- Read a 32-bit value in network order. -/
def readU32 (i : ℕ) : TracedReader ε ℕ := do
  let b₀ ← readByte i
  let b₁ ← readByte (i + 1)
  let b₂ ← readByte (i + 2)
  let b₃ ← readByte (i + 3)
  return be32 b₀ b₁ b₂ b₃

/-- Compute a 32-bit offset, given its exact value. -/
def offset (n : ℕ) : TracedReader ε ℕ := fun _ => ([.sum n], .ok (u32 n))

/-- Compute a 32-bit difference. -/
def less (a b : ℕ) : TracedReader ε ℕ := fun _ => ([.diff a b], .ok (sub32 a b))

/-! ### How runs end -/

variable {x : TracedReader ε α} {f : α → TracedReader ε β} {m : ByteMemory}

/-- A value is returned. -/
@[simp] theorem result_pure (a : α) : (pure a : TracedReader ε α).result m = .ok a := rfl

/-- A failure is returned. -/
@[simp] theorem result_fail (e : ε) : (fail e : TracedReader ε α).result m = .error e := rfl

/-- The byte at the index is returned. -/
@[simp] theorem result_readByte (i : ℕ) : (readByte i : TracedReader ε UInt8).result m = .ok (m i) :=
  rfl

/-- The bytes from the index on are returned. -/
@[simp] theorem result_readBytes (i n : ℕ) :
    (readBytes i n : TracedReader ε (List UInt8)).result m = .ok (m.read i n) := rfl

/-- Two bytes are returned in network order. -/
@[simp] theorem result_readU16 (i : ℕ) :
    (readU16 i : TracedReader ε ℕ).result m = .ok (be16 (m i) (m (i + 1))) := rfl

/-- Four bytes are returned in network order. -/
@[simp] theorem result_readU32 (i : ℕ) : (readU32 i : TracedReader ε ℕ).result m =
    .ok (be32 (m i) (m (i + 1)) (m (i + 2)) (m (i + 3))) := rfl

/-- A sum is returned in 32 bits. -/
@[simp] theorem result_offset (n : ℕ) : (offset n : TracedReader ε ℕ).result m = .ok (u32 n) := rfl

/-- A difference is returned in 32 bits. -/
@[simp] theorem result_less (a b : ℕ) : (less a b : TracedReader ε ℕ).result m = .ok (sub32 a b) :=
  rfl

/-- A sequence ends as its first part does, or else as its second part. -/
theorem result_bind : (x >>= f).result m = x.result m >>= fun a => (f a).result m := by
  change (match x m with
    | (t, .error e) => ((t, .error e) : List Access × Except ε β)
    | (t, .ok a) => (t ++ (f a m).1, (f a m).2)).2 = (x m).2 >>= _
  cases x m with
  | mk t r =>
    cases r with
    | error e => rfl
    | ok a => rfl

/-- A sequence succeeds when both parts do. -/
theorem result_bind_eq_ok_iff {b : β} :
    (x >>= f).result m = .ok b ↔ ∃ a, x.result m = .ok a ∧ (f a).result m = .ok b := by
  rw [result_bind]
  cases x.result m with
  | error e => simp [bind, Except.bind]
  | ok a => simp [bind, Except.bind]

/-- The result of the branch that is taken. -/
theorem result_ite (c : Prop) [Decidable c] (x y : TracedReader ε α) :
    (if c then x else y).result m = if c then x.result m else y.result m := by
  split <;> rfl

/-- A check is passed when its condition is false. -/
@[simp] theorem result_failIf_eq_ok_iff (c : Prop) [Decidable c] (e : ε) (u : Unit) :
    (failIf c e).result m = .ok u ↔ ¬ c := by
  unfold failIf
  split
  · simp_all
  · simp_all

/-! ### Specifications -/

/-- Everything that a run of `x` records satisfies `P`, and its value, if any, satisfies `Q`. -/
def Spec (x : TracedReader ε α) (m : ByteMemory) (P : Access → Prop) (Q : α → Prop) : Prop :=
  (∀ a ∈ x.trace m, P a) ∧ ∀ v, x.result m = .ok v → Q v

variable {P : Access → Prop} {Q R : α → Prop}

/-- What is returned may be said less of. -/
theorem Spec.mono (h : x.Spec m P Q) (hQ : ∀ v, Q v → R v) : x.Spec m P R :=
  ⟨h.1, fun v hv => hQ v (h.2 v hv)⟩

/-- What is known of the value can be used. -/
theorem Spec.strengthen (h : x.Spec m P Q) (hx : ∀ v, x.result m = .ok v → R v) :
    x.Spec m P fun v => Q v ∧ R v :=
  ⟨h.1, fun v hv => ⟨h.2 v hv, hx v hv⟩⟩

/-- A value is returned without an access. -/
theorem spec_pure {a : α} (h : Q a) : (pure a : TracedReader ε α).Spec m P Q :=
  ⟨fun _ ha => absurd ha List.not_mem_nil, fun v hv => by cases hv; exact h⟩

/-- A failure makes no access and returns nothing. -/
theorem spec_fail (e : ε) : (fail e : TracedReader ε α).Spec m P Q :=
  ⟨fun _ ha => absurd ha List.not_mem_nil, fun v hv => by cases hv⟩

/-- One program after another. -/
theorem spec_bind {S : β → Prop} (hx : x.Spec m P Q) (hf : ∀ a, Q a → (f a).Spec m P S) :
    (x >>= f).Spec m P S := by
  constructor
  · intro a ha
    change a ∈ (match x m with
      | (t, .error e) => ((t, .error e) : List Access × Except ε β)
      | (t, .ok a) => (t ++ (f a m).1, (f a m).2)).1 at ha
    have htrace := hx.1
    have hvalue := hx.2
    unfold trace at htrace
    unfold result at hvalue
    cases hxm : x m with
    | mk t r =>
      rw [hxm] at ha htrace hvalue
      cases r with
      | error e => exact htrace a ha
      | ok v =>
        rcases List.mem_append.mp ha with ha | ha
        · exact htrace a ha
        · exact (hf v (hvalue v rfl)).1 a ha
  · intro b hb
    obtain ⟨a, ha, hb⟩ := result_bind_eq_ok_iff.mp hb
    exact (hf a (hx.2 a ha)).2 b hb

/-- Behind a check its condition is false. -/
theorem spec_failIf {c : Prop} [Decidable c] {e : ε} {Q : Unit → Prop} (h : ¬ c → Q ()) :
    (failIf c e).Spec m P Q := by
  unfold failIf
  split
  · exact spec_fail e
  · exact spec_pure (h ‹_›)

/-- One byte is read, and returned. -/
theorem spec_readByte {i : ℕ} {Q : UInt8 → Prop} (hi : P (.byte i)) (h : Q (m i)) :
    (readByte i : TracedReader ε UInt8).Spec m P Q :=
  ⟨fun a ha => by rwa [List.mem_singleton.mp ha], fun v hv => by cases hv; exact h⟩

/-- All bytes of a range are read, and returned. -/
theorem spec_readBytes {i n : ℕ} {Q : List UInt8 → Prop} (hi : ∀ j < n, P (.byte (i + j)))
    (h : Q (m.read i n)) : (readBytes i n : TracedReader ε (List UInt8)).Spec m P Q := by
  refine ⟨fun a ha => ?_, fun v hv => by cases hv; exact h⟩
  obtain ⟨j, hj, rfl⟩ := List.mem_map.mp ha
  exact hi j (List.mem_range.mp hj)

/-- Two bytes are read, and returned in network order. -/
theorem spec_readU16 {i : ℕ} {Q : ℕ → Prop} (h₀ : P (.byte i)) (h₁ : P (.byte (i + 1)))
    (h : Q (be16 (m i) (m (i + 1)))) : (readU16 i : TracedReader ε ℕ).Spec m P Q := by
  refine ⟨fun a ha => ?_, fun v hv => by cases hv; exact h⟩
  rcases List.mem_cons.mp ha with rfl | ha
  · exact h₀
  · rwa [List.mem_singleton.mp ha]

/-- Four bytes are read, and returned in network order. -/
theorem spec_readU32 {i : ℕ} {Q : ℕ → Prop} (hi : ∀ j < 4, P (.byte (i + j)))
    (h : Q (be32 (m i) (m (i + 1)) (m (i + 2)) (m (i + 3)))) :
    (readU32 i : TracedReader ε ℕ).Spec m P Q := by
  refine ⟨fun a ha => ?_, fun v hv => by cases hv; exact h⟩
  have hmem : a ∈ ([.byte (i + 0), .byte (i + 1), .byte (i + 2), .byte (i + 3)] : List Access) := ha
  simp only [List.mem_cons, List.not_mem_nil, or_false] at hmem
  rcases hmem with rfl | rfl | rfl | rfl
  · exact hi 0 (by decide)
  · exact hi 1 (by decide)
  · exact hi 2 (by decide)
  · exact hi 3 (by decide)

/-- A sum is made, and returned in 32 bits. -/
theorem spec_offset {n : ℕ} {Q : ℕ → Prop} (hn : P (.sum n)) (h : Q (u32 n)) :
    (offset n : TracedReader ε ℕ).Spec m P Q :=
  ⟨fun a ha => by rwa [List.mem_singleton.mp ha], fun v hv => by cases hv; exact h⟩

/-- A difference is made, and returned in 32 bits. -/
theorem spec_less {a b : ℕ} {Q : ℕ → Prop} (hab : P (.diff a b)) (h : Q (sub32 a b)) :
    (less a b : TracedReader ε ℕ).Spec m P Q :=
  ⟨fun c hc => by rwa [List.mem_singleton.mp hc], fun v hv => by cases hv; exact h⟩

end TracedReader
