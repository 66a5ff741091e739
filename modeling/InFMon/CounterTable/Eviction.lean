import InFMon.CounterTable.Accounting
import InFMon.CounterTable.ExactMap

/-! # Eviction

What comes of a call that finds a full table. The arena is as large as the keys of all slots together and
never gets bytes back, so it is used up when all slots are occupied: the call evicts a key and then cannot
store its own. -/

namespace InFMon

open MachineWord OpenAddressing

namespace CounterTable

/-- A key is in the table with its counters. -/
def Holds (t : CounterTable) (bytes : List UInt8) (tally : Tally) : Prop :=
  ∃ j < t.numSlots, t.key (t.slots j) = some bytes ∧ t.tallyAt j = tally

variable {t : CounterTable} {width : ℕ} {c : UpdateCall}

/-! ### The victim -/

/-- The scan finds a victim if an occupied slot was updated before the bound that it starts with. -/
theorem victimScan_none (t : CounterTable) (start : ℕ) (l : List ℕ) (acc : Option ℕ × UInt64) :
    (l.foldl (t.victimStep start) acc).1 = none ↔
      acc.1 = none ∧ ∀ i ∈ l, (t.slots (t.probeIdx start i)).flags = .occupied →
        acc.2 ≤ (t.slots (t.probeIdx start i)).lastUpdate := by
  induction l generalizing acc with
  | nil => simp
  | cons i l ih =>
    rw [List.foldl_cons, ih, List.forall_mem_cons, victimStep]
    by_cases hocc : (t.slots (t.probeIdx start i)).flags = .occupied
    · by_cases hlt : (t.slots (t.probeIdx start i)).lastUpdate < acc.2
      · -- a victim, which a later one can only replace
        simp [hocc, hlt, UInt64.not_le.mpr hlt]
      · simp [hocc, hlt, UInt64.not_lt.mp hlt]
    · simp [hocc]

/-- In a full table only slots with the last tick of all are passed over. -/
theorem lruVictim_eq_none_iff (hg : t.Geometry) (hfull : ∀ j < t.numSlots, (t.slots j).flags = .occupied)
    (start : ℕ) : t.lruVictim start = none ↔
      ∀ i < t.evictWindow, (t.slots (t.probeIdx start i)).lastUpdate = 0xFFFFFFFFFFFFFFFF := by
  rw [lruVictim, victimScan_none]
  simp only [List.mem_range, true_and]
  refine forall_congr' fun i => imp_congr_right fun _ => ?_
  have hocc : (t.slots (t.probeIdx start i)).flags = .occupied := by
    refine hfull _ ?_
    rw [hg.probeIdx_eq]
    exact Nat.mod_lt _ hg.numSlots_pos
  have hle : ∀ a : UInt64, 0xFFFFFFFFFFFFFFFF ≤ a ↔ a = 0xFFFFFFFFFFFFFFFF := by
    intro a
    rw [UInt64.le_iff_toNat_le, ← UInt64.toNat_inj]
    have := a.toNat_lt
    have : (0xFFFFFFFFFFFFFFFF : UInt64).toNat = 2 ^ 64 - 1 := rfl
    omega
  simp only [hocc, true_imp_iff, hle]

/-! ### Tables whose arena cannot wrap around -/

/-- A settled table whose arena no key of its width takes beyond 32 bits. -/
structure Spacious (width : ℕ) (t : CounterTable) : Prop extends t.Settled where
  width_pos : 0 < width
  room : t.keyArenaCapacity + width ≤ max32

/-- A new table has room for a key in each slot. -/
theorem spacious_of_create {maxKeys : ℕ} {alloc : Alloc} (hwidth : width < 2 ^ 16)
    (h : counterTableCreate maxKeys width alloc = some t) : t.Spacious width := by
  obtain ⟨-, -, hpos, hg, hfresh, -, hcap⟩ := counterTableCreate_some h
  obtain ⟨k, -, hk⟩ := hg.pow
  exact
    { toSettled := hfresh.toEmpty.settled hg
      width_pos := hpos
      room := hcap ▸ capacity_add_width_le ⟨k, hk⟩ (hcap ▸ hg.capacity) hwidth }

/-- A call with a key that is not wider ends in one of the known ways. -/
theorem Spacious.outcome (h : t.Spacious width) (hlen : c.key.len ≤ width) :
    Outcome t c.keyHash c.key c.pktBytes c.tick (t.call c) (t.evicted c.keyHash c.key) := by
  have hused := h.used_le
  have hroom := h.room
  have hpos := h.width_pos
  exact h.toSettled.outcome (by omega) (by omega) _ _ _

/-- A call with a key that is not wider leaves room for a key in each slot. -/
theorem Spacious.call (h : t.Spacious width) (hlen : c.key.len ≤ width) :
    (t.call c).2.Spacious width := by
  obtain ⟨hs, -, hcap⟩ := (h.outcome hlen).settled h.toSettled
  exact { toSettled := hs, width_pos := h.width_pos, room := hcap ▸ h.room }

/-- So do any number of such calls. -/
theorem Spacious.calls (h : t.Spacious width) {cs : List UpdateCall}
    (hlen : ∀ c ∈ cs, c.key.len ≤ width) : (t.calls cs).Spacious width :=
  calls_of_call (· ≤ width) h (fun _ _ h hle => h.call hle) hlen

/-! ### A table for one key -/

/-- A table for one key of one byte, which holds one. -/
def oneKey : CounterTable :=
  { slots := fun _ => Slot.zero
    numSlots := 1
    slotMask := 0
    keyArena := fun _ => 0
    keyArenaCapacity := 1
    keyArenaUsed := 0
    seqlocks := fun _ => 0
    numGroups := 1
    generation := 0
    epochNs := 0
    insertFailed := 0
    tableFull := 0
    occupiedCount := 0 : CounterTable }.calls [⟨0, .one 1, 60, 1⟩]

/-- A call for another key. -/
def otherKey : UpdateCall := ⟨0, .one 2, 90, 2⟩

/-! ### Full tables -/

/-- A table for keys of one length, whose arena has got at least the bytes of all keys in the table. -/
structure Packed (width : ℕ) (t : CounterTable) : Prop extends t.Spacious width where
  capacity_eq : t.keyArenaCapacity = t.numSlots * width
  packed : held (fun _ => width) t ≤ t.keyArenaUsed

/-- A new table is packed. -/
theorem packed_of_create {maxKeys : ℕ} {alloc : Alloc} (hwidth : width < 2 ^ 16)
    (h : counterTableCreate maxKeys width alloc = some t) : t.Packed width where
  toSpacious := spacious_of_create hwidth h
  capacity_eq := (counterTableCreate_some h).2.2.2.2.2.2
  packed := by
    rw [held_of_create h]
    exact Nat.zero_le _

/-- A key that is stored takes its bytes from the arena, and an evicted one gives none back. -/
theorem Packed.call (h : t.Packed width) (hlen : c.key.len = width) :
    (t.call c).2.Packed width := by
  have hspacious := h.toSpacious.call hlen.le
  have hout := h.toSpacious.outcome hlen.le
  have hpacked := h.packed
  obtain ⟨-, hn, hcap⟩ := hout.settled h.toSettled
  refine { toSpacious := hspacious, capacity_eq := by rw [hcap, hn, h.capacity_eq], packed := ?_ }
  generalize t.call c = out at hout ⊢
  generalize t.evicted c.keyHash c.key = victim at hout
  cases hout with
  | @counted j hj hcell =>
    -- the key is there already
    have hsum := held_bumpSlot (w := fun _ => width) hj (cell_eq_full_iff.mp hcell).1 c.pktBytes c.tick
    change held _ (t.bumpSlot j c.pktBytes c.tick) ≤ t.keyArenaUsed
    omega
  | @stored r hr hfree hroom =>
    rw [held_placeKey hr hfree]
    change _ ≤ t.keyArenaUsed + c.key.len
    omega
  | @released r hr hfree =>
    rw [held_releaseSlot hr hfree]
    exact hpacked
  | refused => exact hpacked
  | @replaced v hv hocc hroom =>
    -- the slot of the victim holds the new key, but the bytes of both stay in the arena
    have hevict := held_evictSlot (w := fun _ => width) (t := t.noteFull) hv hocc
    change _ = held (fun _ => width) t at hevict
    rw [held_placeKey (t := t.noteFull.evictSlot v) hv (by simp [evictSlot])]
    change _ ≤ t.keyArenaUsed + c.key.len
    omega
  | @lost v hv hocc =>
    have hevict := held_evictSlot (w := fun _ => width) (t := t.noteFull) hv hocc
    change _ = held (fun _ => width) t at hevict
    rw [held_releaseSlot (t := t.noteFull.evictSlot v) hv (by simp [evictSlot])]
    change _ ≤ t.keyArenaUsed
    omega

/-- Calls with keys of the width keep the table packed. -/
theorem Packed.calls (h : t.Packed width) {cs : List UpdateCall}
    (hlen : ∀ c ∈ cs, c.key.len = width) : (t.calls cs).Packed width :=
  calls_of_call (· = width) h (fun _ _ h hle => h.call hle) hlen

/-- The arena of a full table is used up. -/
theorem Packed.used_of_full (h : t.Packed width)
    (hfull : ∀ j < t.numSlots, (t.slots j).flags = .occupied) :
    t.keyArenaUsed = t.keyArenaCapacity := by
  have hheld : held (fun _ => width) t = t.numSlots * width := by
    rw [held, Finset.sum_congr rfl fun j hj => share_of_occupied (hfull j (Finset.mem_range.mp hj)),
      Finset.sum_const, Finset.card_range, Nat.nsmul_eq_mul]
  have hpacked := h.packed
  have hcap := h.capacity_eq
  exact Nat.le_antisymm h.used_le (by omega)

/-- A call for a new key on a full table fails. -/
theorem Packed.call_of_full (h : t.Packed width) (hlen : c.key.len = width)
    (hfull : ∀ j < t.numSlots, (t.slots j).flags = .occupied)
    (hnew : ∀ j < t.numSlots, t.key (t.slots j) ≠ some c.key.bytes) : (t.call c).1 = false := by
  have hout := h.toSpacious.outcome hlen.le
  have hused := h.used_of_full hfull
  have hpos := h.width_pos
  generalize t.call c = out at hout ⊢
  generalize t.evicted c.keyHash c.key = victim at hout
  cases hout with
  | @counted j hj hcell =>
    obtain ⟨hocc, hkey⟩ := cell_eq_full_iff.mp hcell
    exact absurd ((h.key_eq_some_iff hj).mpr ⟨hocc, congrArg Prod.snd hkey⟩) (hnew j hj)
  | stored hr hfree hroom => exact absurd (hfull _ hr) hfree
  | released => rfl
  | refused => rfl
  | replaced hv hocc hroom => omega
  | lost => rfl

/-- A call for a new key on a full table gets in: it takes the place of the key among those that eviction
looks at that was updated first, and all other keys stay as they are. -/
structure AdmittedByEviction (t : CounterTable) (c : UpdateCall) : Prop where
  succeeds : (t.call c).1 = true
  victim : ∃ i < t.evictWindow,
    let v := t.probeIdx (t.homeSlot c.keyHash) i
    (∀ d < t.evictWindow, (t.slots v).lastUpdate ≤
      (t.slots (t.probeIdx (t.homeSlot c.keyHash) d)).lastUpdate) ∧
    (∀ bytes ∈ t.key (t.slots v), ∀ tally, ¬(t.call c).2.Holds bytes tally) ∧
    ∀ j < t.numSlots, j ≠ v → ∀ bytes ∈ t.key (t.slots j), (t.call c).2.Holds bytes (t.tallyAt j)
  stored : (t.call c).2.Holds c.key.bytes ⟨1, c.pktBytes, c.tick⟩
  count : (t.call c).2.occupiedCount = t.occupiedCount
  full : (t.call c).2.tableFull = t.tableFull + 1

/-- **A full table admits no new key.** Behind any run of calls with keys of the table's width, a call for
a new key of this width fails if all slots are occupied. -/
theorem full_table_admits_none {maxKeys : ℕ} {alloc : Alloc} {table : CounterTable}
    (hcreate : counterTableCreate maxKeys width alloc = some table) {cs : List UpdateCall}
    (hlens : ∀ c ∈ cs, c.key.len = width) (hlen : c.key.len = width)
    (hfull : ∀ j < (table.calls cs).numSlots, ((table.calls cs).slots j).flags = .occupied)
    (hnew : ∀ j < (table.calls cs).numSlots,
      (table.calls cs).key ((table.calls cs).slots j) ≠ some c.key.bytes) :
    ((table.calls cs).call c).1 = false ∧ ¬(table.calls cs).AdmittedByEviction c := by
  have hwidth : width < 2 ^ 16 := hlen ▸ c.key.length_lt
  have hfail := ((packed_of_create hwidth hcreate).calls hlens).call_of_full hlen hfull hnew
  refine ⟨hfail, fun h => ?_⟩
  have hok := h.succeeds
  rw [hfail] at hok
  cases hok

/-- A table for one key. -/
theorem full_table_admits_none_one :
    (oneKey.call otherKey).1 = false ∧ ¬oneKey.AdmittedByEviction otherKey :=
  full_table_admits_none (show counterTableCreate 1 1 ⟨true, fun _ => 0⟩ = some _ from rfl)
    (fun c hc => by
      rw [List.mem_singleton.mp hc]
      decide)
    (by decide) (by decide +kernel) (by decide +kernel)

/-- A second key does not get in. -/
theorem second_key_not_admitted : ∃ t, counterTableCreate 1 1 ⟨true, fun _ => 0⟩ = some t ∧
    (∀ j < (t.calls [⟨0, ⟨[1], by decide⟩, 60, 1⟩]).numSlots,
      ((t.calls [⟨0, ⟨[1], by decide⟩, 60, 1⟩]).slots j).flags = .occupied ∧
        (t.calls [⟨0, ⟨[1], by decide⟩, 60, 1⟩]).key
          ((t.calls [⟨0, ⟨[1], by decide⟩, 60, 1⟩]).slots j) ≠ some [2]) ∧
    ¬(t.calls [⟨0, ⟨[1], by decide⟩, 60, 1⟩]).AdmittedByEviction otherKey :=
  ⟨_, rfl, by decide +kernel, fun h => absurd h.succeeds (by decide +kernel)⟩

end CounterTable

end InFMon
