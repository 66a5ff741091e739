import InFMon.CounterTable.Model
import InFMon.Foundations.PowerOfTwo
import Mathlib.Tactic.Ring

/-! # Table geometry

What `infmon_counter_table_create` establishes and no update changes: a power-of-two number of
slots, the matching mask, and an arena whose size fits in 32 bits. With it, masked slot indices are
the probe sequence of linear probing. -/

namespace InFMon

open MachineWord OpenAddressing

/-! ### Rounding up to a power of two -/

/-- `infmon_next_pow2` returns the least power of two that is at least `v`. -/
theorem nextPow2_spec {v : ℕ} (hpos : 0 < v) (hle : v ≤ 2 ^ 31) :
    ∃ k ≤ 31, nextPow2 v = 2 ^ k ∧ v ≤ 2 ^ k ∧ ∀ l, v ≤ 2 ^ l → k ≤ l := by
  have hsmear := (((((PowerOfTwo.smeared_one (v - 1)).double).double).double).double).double
  obtain ⟨k, -, hm, hlt, hmin⟩ := hsmear.succ_eq_two_pow (by norm_num; omega)
  have hk : k ≤ 31 := hmin 31 (by omega)
  have hpow : 2 ^ k ≤ 2 ^ 31 := Nat.pow_le_pow_right (by omega) hk
  refine ⟨k, hk, ?_, by omega, fun l hl => hmin l (by have := Nat.two_pow_pos l; omega)⟩
  rw [nextPow2, if_neg (by omega), if_neg (by norm_num at hle ⊢; omega)]
  norm_num at hm ⊢
  rw [hm, u32_of_le (by simp only [max32]; omega)]

/-- A power of two is its own rounding. -/
theorem nextPow2_two_pow {k : ℕ} (hk : k ≤ 31) : nextPow2 (2 ^ k) = 2 ^ k := by
  obtain ⟨l, -, hl, hle, hmin⟩ :=
    nextPow2_spec (Nat.two_pow_pos k) (Nat.pow_le_pow_right (by omega) hk)
  have hlk : l ≤ k := hmin k le_rfl
  have hkl : k ≤ l := (Nat.pow_le_pow_iff_right (by omega)).mp hle
  rw [hl, le_antisymm hlk hkl]

/-- Above 2 ^ 31 the rounding wraps around to zero. -/
theorem nextPow2_of_gt {v : ℕ} (h : 2 ^ 31 < v) : nextPow2 v = 0 := by
  rw [nextPow2, if_neg (by omega), if_pos (by norm_num at h ⊢; omega)]

/-! ### Geometry -/

namespace CounterTable

/-- The geometry of a table. -/
structure Geometry (t : CounterTable) : Prop where
  /-- The number of slots is a power of two below `2 ^ 32`. -/
  pow : ∃ k ≤ 31, t.numSlots = 2 ^ k
  /-- `slot_mask` selects the low bits. -/
  mask : t.slotMask = t.numSlots - 1
  /-- `key_arena_capacity` is a 32-bit value. -/
  capacity : t.keyArenaCapacity ≤ max32

namespace Geometry

variable {t : CounterTable}

/-- There is at least one slot. -/
theorem numSlots_pos (h : t.Geometry) : 0 < t.numSlots := by
  obtain ⟨k, -, hk⟩ := h.pow
  rw [hk]
  exact Nat.two_pow_pos k

/-- There are 2 ^ 31 slots at most. -/
theorem numSlots_le (h : t.Geometry) : t.numSlots ≤ 2 ^ 31 := by
  obtain ⟨k, hk, hpow⟩ := h.pow
  rw [hpow]
  exact Nat.pow_le_pow_right (by omega) hk

/-- The mask takes the remainder by the number of slots. -/
theorem and_slotMask (h : t.Geometry) (x : ℕ) : x &&& t.slotMask = x % t.numSlots := by
  obtain ⟨k, -, hk⟩ := h.pow
  exact PowerOfTwo.and_mask_eq_mod hk h.mask x

/-- Masked slot indices are linear probes. -/
theorem probeIdx_eq (h : t.Geometry) (start i : ℕ) :
    t.probeIdx start i = probe t.numSlots start i :=
  h.and_slotMask (start + i)

/-- The home slot is a slot of the table. -/
theorem homeSlot_lt (h : t.Geometry) (keyHash : UInt64) : t.homeSlot keyHash < t.numSlots := by
  rw [homeSlot, h.and_slotMask]
  exact Nat.mod_lt _ h.numSlots_pos

end Geometry

/-! ### Freshly created tables -/

/-- A table without keys and with all counters at zero. -/
structure Empty (t : CounterTable) : Prop where
  slots : ∀ i, t.slots i = Slot.zero
  used : t.keyArenaUsed = 0
  insertFailed : t.insertFailed = 0
  tableFull : t.tableFull = 0
  occupiedCount : t.occupiedCount = 0

/-- An empty table as `infmon_counter_table_create` returns it. -/
structure Fresh (t : CounterTable) : Prop extends t.Empty where
  generation : t.generation = 0
  epochNs : t.epochNs = 0

end CounterTable

/-- What a successful `infmon_counter_table_create` returns. -/
theorem counterTableCreate_some {maxKeys width : ℕ} {alloc : Alloc} {t : CounterTable}
    (h : counterTableCreate maxKeys width alloc = some t) :
    0 < maxKeys ∧ maxKeys ≤ 2 ^ 31 ∧ 0 < width ∧ t.Geometry ∧ t.Fresh ∧
      t.numSlots = nextPow2 maxKeys ∧ t.keyArenaCapacity = t.numSlots * width := by
  rw [counterTableCreate] at h
  split at h
  · simp at h
  rename_i hzero
  push Not at hzero
  simp only at h
  split at h
  · simp at h
  rename_i hslots
  push Not at hslots
  split at h
  · simp at h
  rename_i hcap
  split at h
  · rw [Option.some.injEq] at h
    have hle : maxKeys ≤ 2 ^ 31 := by
      by_contra hgt
      exact hslots.2 (nextPow2_of_gt (by omega))
    obtain ⟨k, hk, hpow, -⟩ := nextPow2_spec (Nat.pos_of_ne_zero hzero.1) hle
    subst h
    exact ⟨Nat.pos_of_ne_zero hzero.1, hle, Nat.pos_of_ne_zero hzero.2,
      ⟨⟨k, hk, hpow⟩, rfl, Nat.le_of_not_lt hcap⟩, ⟨⟨fun _ => rfl, rfl, rfl, rfl, rfl⟩, rfl, rfl⟩,
      rfl, rfl⟩
  · simp at h

/-- Without memory `infmon_counter_table_create` fails. -/
theorem counterTableCreate_alloc {maxKeys width : ℕ} {alloc : Alloc} {t : CounterTable}
    (h : counterTableCreate maxKeys width alloc = some t) : alloc.ok = true := by
  rw [counterTableCreate] at h
  split at h
  · cases h
  simp only at h
  split at h
  · cases h
  split at h
  · cases h
  split at h
  · assumption
  · cases h

/-- With memory, `infmon_counter_table_create` succeeds for every key count up to `2 ^ 31` whose
arena fits in 32 bits. -/
theorem counterTableCreate_isSome {maxKeys width : ℕ} {alloc : Alloc} (hpos : 0 < maxKeys)
    (hle : maxKeys ≤ 2 ^ 31) (hwidth : 0 < width) (hcap : nextPow2 maxKeys * width ≤ max32)
    (halloc : alloc.ok = true) : (counterTableCreate maxKeys width alloc).isSome = true := by
  obtain ⟨k, -, hpow, hk, -⟩ := nextPow2_spec hpos hle
  have hslots : ¬ (nextPow2 maxKeys < maxKeys ∨ nextPow2 maxKeys = 0) := by
    rw [hpow]
    have := Nat.two_pow_pos k
    omega
  simp only [counterTableCreate, if_neg hslots, if_neg (Nat.not_lt.mpr hcap), halloc, if_true]
  rw [if_neg (by omega)]
  rfl

/-- Every group of eight slots has its seqlock, and so has the only group of a smaller table. -/
theorem counterTableCreate_numGroups {maxKeys width : ℕ} {alloc : Alloc} {t : CounterTable}
    (h : counterTableCreate maxKeys width alloc = some t) {idx : ℕ} (hidx : idx < t.numSlots) :
    idx / slotsPerGroup < t.numGroups := by
  have hgroups : t.numGroups =
      if t.numSlots / slotsPerGroup = 0 then 1 else t.numSlots / slotsPerGroup := by
    rw [counterTableCreate] at h
    split at h
    · cases h
    simp only at h
    split at h
    · cases h
    split at h
    · cases h
    split at h
    · cases h
      rfl
    · cases h
  obtain ⟨-, -, -, hgeom, -⟩ := counterTableCreate_some h
  obtain ⟨k, -, hk⟩ := hgeom.pow
  rw [hgroups]
  by_cases hsmall : t.numSlots / slotsPerGroup = 0
  · rw [if_pos hsmall]
    simp only [slotsPerGroup] at *
    omega
  · rw [if_neg hsmall]
    simp only [slotsPerGroup] at *
    -- from eight slots on, their number is a multiple of eight
    have hle : 3 ≤ k := by
      by_contra hlt
      have : 2 ^ k ≤ 2 ^ 2 := Nat.pow_le_pow_right (by omega) (by omega)
      omega
    obtain ⟨m, rfl⟩ := Nat.exists_eq_add_of_le hle
    rw [Nat.pow_add] at hk
    omega

/-- The geometry of a created table: the least power of two of slots that holds `max_keys`, a probe
sequence that visits every slot exactly once and is computed without wrap-around, a seqlock for
every slot, and an arena of exactly `num_slots * max_key_width` bytes. -/
theorem counterTableCreate_geometry {maxKeys width : ℕ} {alloc : Alloc} {t : CounterTable}
    (h : counterTableCreate maxKeys width alloc = some t) :
    IsLeast {n | maxKeys ≤ n ∧ ∃ k, n = 2 ^ k} t.numSlots ∧
      (∀ keyHash : UInt64,
        Set.BijOn (t.probeIdx (t.homeSlot keyHash)) (Set.Iio t.numSlots) (Set.Iio t.numSlots) ∧
          ∀ i < t.numSlots, t.homeSlot keyHash + i < 2 ^ 32) ∧
      (∀ idx < t.numSlots, idx / slotsPerGroup < t.numGroups) ∧
      t.keyArenaCapacity = t.numSlots * width ∧ t.numSlots * width < 2 ^ 32 := by
  obtain ⟨hpos, hle, -, hgeom, -, hslots, hcap⟩ := counterTableCreate_some h
  obtain ⟨k, hk31, hpow, hk, hmin⟩ := nextPow2_spec hpos hle
  rw [hpow] at hslots
  have hle31 : 2 ^ k ≤ 2 ^ 31 := Nat.pow_le_pow_right (by omega) hk31
  refine ⟨⟨⟨hslots ▸ hk, k, hslots⟩, ?_⟩, fun keyHash => ⟨?_, fun i hi => ?_⟩,
    fun idx => counterTableCreate_numGroups h, hcap, ?_⟩
  · rintro n ⟨hn, l, rfl⟩
    rw [hslots]
    exact Nat.pow_le_pow_right (by omega) (hmin l hn)
  · exact (probe_bijOn (hgeom.homeSlot_lt keyHash)).congr fun i _ =>
      (hgeom.probeIdx_eq (t.homeSlot keyHash) i).symm
  · have hhome := hgeom.homeSlot_lt keyHash
    omega
  · have hmax := hgeom.capacity
    rw [hcap, max32] at hmax
    omega

/-- Nine keys of four bytes get a table of sixteen slots in two groups. -/
theorem counterTableCreate_geometry_nine :
    ∃ t, counterTableCreate 9 4 ⟨true, fun _ => 0⟩ = some t ∧
      IsLeast {n | 9 ≤ n ∧ ∃ k, n = 2 ^ k} t.numSlots ∧
      (∀ idx < t.numSlots, idx / slotsPerGroup < t.numGroups) ∧ t.keyArenaCapacity = 64 := by
  refine ⟨_, rfl, ?_⟩
  obtain ⟨hleast, -, hgroups, -, -⟩ := @counterTableCreate_geometry 9 4 ⟨true, fun _ => 0⟩ _ rfl
  exact ⟨hleast, hgroups, rfl⟩

/-- A key as wide as the table's keys always fits below `UINT32_MAX` on top of the arena: the sum
`offset + key_len` of `arena_alloc` cannot wrap. -/
theorem capacity_add_width_le {n width : ℕ} (hn : ∃ k, n = 2 ^ k) (hcap : n * width ≤ max32)
    (hwidth : width < 2 ^ 16) : n * width + width ≤ max32 := by
  obtain ⟨k, rfl⟩ := hn
  simp only [max32] at *
  by_cases hk : k < 16
  · -- few slots: both factors are small
    have hpow : 2 ^ k ≤ 2 ^ 15 := Nat.pow_le_pow_right (by omega) (by omega)
    have hmul : 2 ^ k * width ≤ 2 ^ 15 * width := Nat.mul_le_mul_right _ hpow
    omega
  · -- many slots: the capacity is a multiple of `2 ^ 16`, so a whole key fits on top
    obtain ⟨m, rfl⟩ : ∃ m, k = 16 + m := ⟨k - 16, by omega⟩
    have hsplit : 2 ^ (16 + m) * width = 65536 * (2 ^ m * width) := by
      rw [Nat.pow_add]
      norm_num
      ring
    rw [hsplit] at hcap ⊢
    omega

end InFMon
