import Mathlib.Data.List.Basic
import Mathlib.Tactic.Common

/-! # Prefixes of UTF-8 text

Where a text may be cut. A cut is legal between two characters, and in the encoded text that is visible at
the byte behind it: the first byte of a character is told apart from the ones that continue it. -/

namespace Utf8Prefix

/-- The bytes of some characters. -/
def encode (cs : List Char) : List UInt8 := cs.flatMap String.utf8EncodeChar

/-- No characters have no bytes. -/
@[simp] theorem encode_nil : encode [] = [] := rfl

/-- The bytes of the first character, and of the others. -/
@[simp] theorem encode_cons (c : Char) (cs : List Char) :
    encode (c :: cs) = String.utf8EncodeChar c ++ encode cs :=
  List.flatMap_cons

/-- The bytes of both parts. -/
@[simp] theorem encode_append (cs ds : List Char) : encode (cs ++ ds) = encode cs ++ encode ds :=
  List.flatMap_append

/-- A beginning of the characters has a beginning of the bytes. -/
theorem encode_mono {q cs : List Char} (h : q <+: cs) : encode q <+: encode cs := by
  obtain ⟨rest, rfl⟩ := h
  rw [encode_append]
  exact List.prefix_append _ _

/-- A byte that begins a character. -/
def Starts (b : UInt8) : Prop := b < 0x80 ∨ 0xC0 ≤ b

/-- A character starts with a byte below 128, or from 192 on. -/
theorem starts_ofNat {n : ℕ} (h : n < 256) : Starts (UInt8.ofNat n) ↔ n < 0x80 ∨ 0xC0 ≤ n := by
  rw [Starts, UInt8.lt_iff_toNat_lt, UInt8.le_iff_toNat_le, UInt8.toNat_ofNat', Nat.mod_eq_of_lt h]
  rfl

/-- The first byte of a character begins it, the others do not. -/
theorem utf8EncodeChar_eq_cons (c : Char) :
    ∃ b bs, String.utf8EncodeChar c = b :: bs ∧ Starts b ∧ ∀ x ∈ bs, ¬ Starts x := by
  have hcontinues : ∀ n, ¬ Starts (UInt8.ofNat (n % 64 + 128)) := fun n => by
    rw [starts_ofNat (by omega)]
    omega
  have hnil : ∀ x ∈ ([] : List UInt8), ¬ Starts x := fun x hx => absurd hx List.not_mem_nil
  have hcons : ∀ n bs, (∀ x ∈ bs, ¬ Starts x) → ∀ x ∈ UInt8.ofNat (n % 64 + 128) :: bs, ¬ Starts x :=
    fun n bs hbs => List.forall_mem_cons.mpr ⟨hcontinues n, hbs⟩
  simp only [String.utf8EncodeChar]
  split
  · exact ⟨_, _, rfl, (starts_ofNat (by omega)).mpr (by omega), hnil⟩
  split
  · exact ⟨_, _, rfl, (starts_ofNat (by omega)).mpr (by omega), hcons _ _ hnil⟩
  split
  · exact ⟨_, _, rfl, (starts_ofNat (by omega)).mpr (by omega), hcons _ _ (hcons _ _ hnil)⟩
  · exact ⟨_, _, rfl, (starts_ofNat (by omega)).mpr (by omega),
      hcons _ _ (hcons _ _ (hcons _ _ hnil))⟩

/-- The index lies at the end of the bytes or before the first byte of a character. -/
def Boundary (bytes : List UInt8) (i : ℕ) : Prop :=
  i = bytes.length ∨ ∃ b, bytes[i]? = some b ∧ Starts b

/-- A boundary behind the first character is a boundary of the others. -/
theorem boundary_append_add (bytes rest : List UInt8) (j : ℕ) :
    Boundary (bytes ++ rest) (bytes.length + j) ↔ Boundary rest j := by
  rw [Boundary, Boundary, List.length_append, Nat.add_left_cancel_iff,
    List.getElem?_append_right (Nat.le_add_right _ _), Nat.add_sub_cancel_left]

/-- There is no boundary inside a character. -/
theorem not_boundary_of_lt {c : Char} {i : ℕ} (rest : List UInt8) (hpos : 0 < i)
    (hlt : i < (String.utf8EncodeChar c).length) :
    ¬ Boundary (String.utf8EncodeChar c ++ rest) i := by
  obtain ⟨b, bs, heq, -, hbs⟩ := utf8EncodeChar_eq_cons c
  rintro (hend | ⟨x, hx, hstarts⟩)
  · rw [List.length_append] at hend
    omega
  · rw [List.getElem?_append_left hlt, heq] at hx
    obtain ⟨k, rfl⟩ : ∃ k, i = k + 1 := ⟨i - 1, by omega⟩
    rw [List.getElem?_cons_succ] at hx
    exact hbs x (List.mem_of_getElem? hx) hstarts

/-- The boundaries of a text are where its prefixes end. -/
theorem boundary_encode_iff {cs : List Char} {i : ℕ} :
    Boundary (encode cs) i ↔ ∃ q, q <+: cs ∧ (encode q).length = i := by
  induction cs generalizing i with
  | nil => simp [Boundary, eq_comm]
  | cons c cs ih =>
    obtain ⟨b, bs, heq, hb, -⟩ := utf8EncodeChar_eq_cons c
    have hpos : 0 < (String.utf8EncodeChar c).length := by simp [heq]
    rw [encode_cons]
    constructor
    · intro h
      rcases Nat.eq_zero_or_pos i with rfl | hi
      · exact ⟨[], List.nil_prefix, rfl⟩
      · have hge : (String.utf8EncodeChar c).length ≤ i :=
          Nat.le_of_not_lt fun hlt => not_boundary_of_lt _ hi hlt h
        obtain ⟨j, rfl⟩ := Nat.exists_eq_add_of_le hge
        obtain ⟨q, hq, rfl⟩ := ih.mp ((boundary_append_add _ _ _).mp h)
        exact ⟨c :: q, List.cons_prefix_cons.mpr ⟨rfl, hq⟩, by simp⟩
    · rintro ⟨q, hq, rfl⟩
      rcases List.prefix_cons_iff.mp hq with rfl | ⟨q, rfl, -⟩
      · exact Or.inr ⟨b, by simp [heq], hb⟩
      · rw [encode_cons, List.length_append, boundary_append_add]
        exact ih.mpr ⟨q, (List.cons_prefix_cons.mp hq).2, rfl⟩

/-- Of two prefixes the one with fewer bytes is a prefix of the other. -/
theorem prefix_of_length_encode_le {p q cs : List Char} (hp : p <+: cs) (hq : q <+: cs)
    (hle : (encode q).length ≤ (encode p).length) : q <+: p := by
  rcases List.prefix_or_prefix_of_prefix hq hp with h | ⟨rest, rfl⟩
  · exact h
  · cases rest with
    | nil => simp
    | cons c rest =>
      have hpos := Char.utf8Size_pos c
      simp at hle
      omega

end Utf8Prefix
