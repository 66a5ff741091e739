import Mathlib.Data.List.Basic
import Mathlib.Tactic.Common

/-! # Byte memories

A flat byte memory, read and written in runs of bytes. Indices are unbounded: a bound on what a
program may touch is a statement about its reads and writes, never a property of the memory. -/

/-- A byte memory: the byte stored at every index. -/
abbrev ByteMemory := ℕ → UInt8

namespace ByteMemory

/-- The `n` bytes of `m` from index `off` on. -/
def read (m : ByteMemory) (off n : ℕ) : List UInt8 :=
  (List.range n).map fun i => m (off + i)

/-- Store `bytes` from index `off` on. -/
def write (m : ByteMemory) (off : ℕ) (bytes : List UInt8) : ByteMemory := fun i =>
  if off ≤ i then (bytes[i - off]?).getD (m i) else m i

/-- As many bytes are read as asked for. -/
@[simp] theorem length_read (m : ByteMemory) (off n : ℕ) : (m.read off n).length = n := by
  simp [read]

/-- Reading no bytes. -/
@[simp] theorem read_zero (m : ByteMemory) (off : ℕ) : m.read off 0 = [] := rfl

/-- A run of `a + b` bytes is the run of `a` bytes followed by the next `b`. -/
theorem read_add (m : ByteMemory) (off a b : ℕ) :
    m.read off (a + b) = m.read off a ++ m.read (off + a) b := by
  simp [read, List.range_add, Function.comp_def, Nat.add_assoc]

/-- The bytes are read in order. -/
@[simp] theorem getElem_read (m : ByteMemory) (off n i : ℕ) (h : i < (m.read off n).length) :
    (m.read off n)[i] = m (off + i) := by
  simp [read]

/-- Two runs are equal when the memories agree on the indices of the run. -/
theorem read_congr {m m' : ByteMemory} {off n : ℕ}
    (h : ∀ i, off ≤ i → i < off + n → m i = m' i) : m.read off n = m'.read off n := by
  apply List.map_congr_left
  intro i hi
  exact h (off + i) (Nat.le_add_right _ _) (Nat.add_lt_add_left (List.mem_range.mp hi) _)

/-- Bytes in front of those written stay. -/
theorem write_of_lt {m : ByteMemory} {off i : ℕ} {bytes : List UInt8} (h : i < off) :
    m.write off bytes i = m i := by
  simp [write, Nat.not_le.mpr h]

/-- Bytes behind those written stay. -/
theorem write_of_ge {m : ByteMemory} {off i : ℕ} {bytes : List UInt8}
    (h : off + bytes.length ≤ i) : m.write off bytes i = m i := by
  have hnone : bytes[i - off]? = none := List.getElem?_eq_none (by omega)
  simp [write, hnone]

/-- What was written is read back. -/
theorem read_write_self (m : ByteMemory) (off : ℕ) (bytes : List UInt8) :
    (m.write off bytes).read off bytes.length = bytes := by
  apply List.ext_getElem (by simp)
  intro i hi hi'
  simp [write, List.getElem?_eq_getElem hi']

/-- A run that ends before the write is not changed by it. -/
theorem read_write_of_le {m : ByteMemory} {off n off' : ℕ} {bytes : List UInt8}
    (h : off + n ≤ off') : (m.write off' bytes).read off n = m.read off n :=
  read_congr fun _ _ hi => write_of_lt (Nat.lt_of_lt_of_le hi h)

/-- Nothing is written. -/
theorem write_nil (m : ByteMemory) (off : ℕ) : m.write off [] = m := by
  funext i
  simp [write]

/-- One byte is written. -/
theorem write_singleton (m : ByteMemory) (off : ℕ) (b : UInt8) :
    m.write off [b] = Function.update m off b := by
  funext i
  unfold write
  by_cases hi : i = off
  · simp [hi]
  · rw [Function.update_of_ne hi]
    split
    · rw [List.getElem?_eq_none (by rw [List.length_singleton]; omega), Option.getD_none]
    · rfl

/-- Two runs written one behind the other are one run. -/
theorem write_append (m : ByteMemory) (off : ℕ) (as bs : List UInt8) :
    (m.write off as).write (off + as.length) bs = m.write off (as ++ bs) := by
  funext i
  unfold write
  by_cases has : off + as.length ≤ i
  · have hnone : as[i - off]? = none := List.getElem?_eq_none (by omega)
    have hindex : i - off - as.length = i - (off + as.length) := by omega
    rw [if_pos has, if_pos (by omega), if_pos (by omega), hnone, Option.getD_none,
      List.getElem?_append_right (by omega), hindex]
  · rw [if_neg has]
    split
    · rw [List.getElem?_append_left (by omega)]
    · rfl

/-! ### Bytes at an offset -/

/-- The bytes `bs` lie in the memory from index `off` on. -/
def Holds (m : ByteMemory) (off : ℕ) (bs : List UInt8) : Prop := m.read off bs.length = bs

/-- The memory holds what is read from it. -/
theorem holds_read (m : ByteMemory) (off n : ℕ) : m.Holds off (m.read off n) := by
  rw [Holds, length_read]

/-- Two runs one after the other. -/
theorem holds_append {m : ByteMemory} {off : ℕ} {as bs : List UInt8} :
    m.Holds off (as ++ bs) ↔ m.Holds off as ∧ m.Holds (off + as.length) bs := by
  rw [Holds, Holds, Holds, List.length_append, read_add]
  constructor
  · exact fun h => List.append_inj h (length_read ..)
  · rintro ⟨ha, hb⟩
    rw [ha, hb]

/-- A byte of what the memory holds. -/
theorem Holds.getD_eq {m : ByteMemory} {off i : ℕ} {bs : List UInt8} (h : m.Holds off bs)
    (hi : i < bs.length) : bs.getD i 0 = m (off + i) := by
  rw [List.getD_eq_getElem?_getD, List.getElem?_eq_getElem hi, Option.getD_some,
    ← List.getElem_of_eq h (by simpa using hi), getElem_read]

/-- A run inside a run. -/
theorem take_drop_read (m : ByteMemory) (off : ℕ) {a b n : ℕ} (h : a + b ≤ n) :
    ((m.read off n).drop a).take b = m.read (off + a) b := by
  apply List.ext_getElem
  · simp only [List.length_take, List.length_drop, length_read]
    omega
  · intro i hi hi'
    simp only [List.getElem_take, List.getElem_drop, getElem_read, Nat.add_assoc]

/-- The memory from index `base` on. -/
def shift (m : ByteMemory) (base : ℕ) : ByteMemory := fun i => m (base + i)

end ByteMemory
