import InFMon.CounterTable.Update

/-! # The effects, cell by cell

How each effect of an update changes the cells of the table, and that it leaves the table settled.
Counting a packet and raising a counter change no cell; storing, evicting and releasing change one. -/

namespace InFMon

open MachineWord OpenAddressing

namespace CounterTable

variable {t : CounterTable}

/-! ### What a slot holds -/

/-- The key of an occupied slot is what the arena stores for it. -/
theorem Settled.key_eq_some_iff (h : t.Settled) {j : ℕ} (hj : j < t.numSlots)
    {bytes : List UInt8} :
    t.key (t.slots j) = some bytes ↔
      (t.slots j).flags = .occupied ∧ (t.storedKey j).2 = bytes := by
  rw [key]
  split
  · rename_i hocc
    simp [hocc]
  · rename_i hocc
    rw [not_not] at hocc
    have hbound := (h.stored j hj hocc).trans h.used_le
    rw [u32_of_le (hbound.trans h.capacity), if_neg (Nat.not_lt.mpr hbound), Option.some.injEq]
    simp [hocc, storedKey]

/-! ### Counting a packet -/

/-- Counting a packet leaves the number of slots. -/
@[simp] theorem bumpSlot_numSlots (j : ℕ) (pktBytes tick : UInt64) :
    (t.bumpSlot j pktBytes tick).numSlots = t.numSlots := rfl

/-- Counting a packet leaves the home slots. -/
@[simp] theorem bumpSlot_home (j : ℕ) (pktBytes tick : UInt64) :
    (t.bumpSlot j pktBytes tick).home = t.home := rfl

/-- Counting a packet takes nothing from the arena. -/
@[simp] theorem bumpSlot_used (j : ℕ) (pktBytes tick : UInt64) :
    (t.bumpSlot j pktBytes tick).keyArenaUsed = t.keyArenaUsed := rfl

/-- Counting a packet leaves the size of the arena. -/
@[simp] theorem bumpSlot_capacity (j : ℕ) (pktBytes tick : UInt64) :
    (t.bumpSlot j pktBytes tick).keyArenaCapacity = t.keyArenaCapacity := rfl

/-- Counting a packet changes the counters of one slot. -/
theorem bumpSlot_slots (j : ℕ) (pktBytes tick : UInt64) :
    (t.bumpSlot j pktBytes tick).slots = Function.update t.slots j
      { t.slots j with
        packets := (t.slots j).packets + 1
        bytes := (t.slots j).bytes + pktBytes
        lastUpdate := tick } := rfl

/-- Counting a packet leaves all flags. -/
@[simp] theorem bumpSlot_slot_flags (j i : ℕ) (pktBytes tick : UInt64) :
    ((t.bumpSlot j pktBytes tick).slots i).flags = (t.slots i).flags := by
  by_cases hij : i = j <;> simp [bumpSlot_slots, hij]

/-- Counting a packet leaves all hashes. -/
@[simp] theorem bumpSlot_slot_keyHash (j i : ℕ) (pktBytes tick : UInt64) :
    ((t.bumpSlot j pktBytes tick).slots i).keyHash = (t.slots i).keyHash := by
  by_cases hij : i = j <;> simp [bumpSlot_slots, hij]

/-- Counting a packet leaves where the keys are. -/
@[simp] theorem bumpSlot_slot_keyOffset (j i : ℕ) (pktBytes tick : UInt64) :
    ((t.bumpSlot j pktBytes tick).slots i).keyOffset = (t.slots i).keyOffset := by
  by_cases hij : i = j <;> simp [bumpSlot_slots, hij]

/-- Counting a packet leaves the lengths of the keys. -/
@[simp] theorem bumpSlot_slot_keyLen (j i : ℕ) (pktBytes tick : UInt64) :
    ((t.bumpSlot j pktBytes tick).slots i).keyLen = (t.slots i).keyLen := by
  by_cases hij : i = j <;> simp [bumpSlot_slots, hij]

/-- Counting a packet leaves the keys. -/
@[simp] theorem bumpSlot_storedKey (j : ℕ) (pktBytes tick : UInt64) :
    (t.bumpSlot j pktBytes tick).storedKey = t.storedKey := by
  funext i
  rw [storedKey, bumpSlot_slot_keyHash, bumpSlot_slot_keyOffset, bumpSlot_slot_keyLen]
  rfl

/-- To the search the table is the same when a packet has been counted. -/
@[simp] theorem bumpSlot_cell (j : ℕ) (pktBytes tick : UInt64) :
    (t.bumpSlot j pktBytes tick).cell = t.cell := by
  funext i
  simp [cell]

/-- A settled table is settled when a packet has been counted. -/
theorem Settled.bump (h : t.Settled) (j : ℕ) (pktBytes tick : UInt64) :
    (t.bumpSlot j pktBytes tick).Settled where
  toGeometry := ⟨h.pow, h.mask, h.capacity⟩
  noInserting i hi := by simpa using h.noInserting i hi
  stored i hi hocc := by simpa using h.stored i hi (by simpa using hocc)
  used_le := h.used_le

/-! ### Raising a counter -/

/-- The note that the table is full is not seen by the search. -/
@[simp] theorem noteFull_cell : t.noteFull.cell = t.cell := rfl

/-- A failed insertion is not seen by the search. -/
@[simp] theorem failInsert_cell : t.failInsert.cell = t.cell := rfl

/-- A settled table is settled with the note that it is full. -/
theorem Settled.note (h : t.Settled) : t.noteFull.Settled :=
  ⟨⟨h.pow, h.mask, h.capacity⟩, h.noInserting, h.stored, h.used_le⟩

/-- A settled table is settled when an insertion has failed. -/
theorem Settled.fail (h : t.Settled) : t.failInsert.Settled :=
  ⟨⟨h.pow, h.mask, h.capacity⟩, h.noInserting, h.stored, h.used_le⟩

/-! ### Changing the flags of one slot -/

/-- The flags of other slots stay. -/
theorem setFlags_slot_of_ne {idx j : ℕ} {f : SlotFlags} (h : j ≠ idx) :
    (t.setFlags idx f).slots j = t.slots j := by
  simp [setFlags, modifySlot, h]

/-- The slot has the new flags and is the same otherwise. -/
@[simp] theorem setFlags_slot_self (idx : ℕ) (f : SlotFlags) :
    (t.setFlags idx f).slots idx = { t.slots idx with flags := f } := by
  simp [setFlags, modifySlot]

/-- What the search sees of a slot depends on the slot and the arena only. -/
theorem cell_congr {t' : CounterTable} {j : ℕ} (hslot : t'.slots j = t.slots j)
    (harena : t'.keyArena = t.keyArena) : t'.cell j = t.cell j := by
  simp [cell, storedKey, hslot, harena]

/-- A released slot becomes a free cell. -/
theorem releaseSlot_cell (idx : ℕ) :
    (t.releaseSlot idx).cell = Function.update t.cell idx .free := by
  funext j
  by_cases hj : j = idx
  · subst hj
    rw [Function.update_self]
    simp [cell, releaseSlot, failInsert]
  · rw [Function.update_of_ne hj]
    exact cell_congr (setFlags_slot_of_ne hj) rfl

/-- An evicted slot becomes a deleted cell. -/
theorem evictSlot_cell (victim : ℕ) :
    (t.evictSlot victim).cell = Function.update t.cell victim .tomb := by
  funext j
  by_cases hj : j = victim
  · subst hj
    rw [Function.update_self]
    simp [cell, evictSlot]
  · rw [Function.update_of_ne hj]
    exact cell_congr (setFlags_slot_of_ne hj) rfl

/-- A settled table is settled when a slot has been given up. -/
theorem Settled.release (h : t.Settled) (idx : ℕ) : (t.releaseSlot idx).Settled where
  toGeometry := ⟨h.pow, h.mask, h.capacity⟩
  noInserting j hj := by
    by_cases hji : j = idx
    · simp [releaseSlot, failInsert, hji]
    · simpa [releaseSlot, failInsert, setFlags_slot_of_ne hji] using h.noInserting j hj
  stored j hj hocc := by
    by_cases hji : j = idx
    · simp [releaseSlot, failInsert, hji] at hocc
    · simp only [releaseSlot, failInsert, setFlags_slot_of_ne hji] at hocc ⊢
      exact h.stored j hj hocc
  used_le := h.used_le

/-! ### Storing a key -/

/-- Other slots stay when a key is stored. -/
theorem placeKey_slot_of_ne {idx j : ℕ} {keyHash pktBytes tick : UInt64} {key : Key} (h : j ≠ idx) :
    (t.placeKey idx keyHash key pktBytes tick).slots j = t.slots j := by
  simp [placeKey, h]

/-- The slot that a key is stored in. -/
@[simp] theorem placeKey_slot_self (idx : ℕ) (keyHash pktBytes tick : UInt64) (key : Key) :
    (t.placeKey idx keyHash key pktBytes tick).slots idx =
      { keyHash := keyHash
        packets := 1
        bytes := pktBytes
        keyOffset := t.keyArenaUsed
        keyLen := key.len
        flags := .occupied
        lastUpdate := tick } := by
  simp [placeKey]

/-- The new key is stored with its own hash and bytes. -/
theorem placeKey_storedKey_self (idx : ℕ) (keyHash pktBytes tick : UInt64) (key : Key) :
    (t.placeKey idx keyHash key pktBytes tick).storedKey idx = (keyHash, key.bytes) := by
  rw [storedKey, placeKey_slot_self]
  exact congrArg (Prod.mk keyHash) (ByteMemory.read_write_self _ _ _)

/-- The keys stored before lie below the bump pointer and stay as they are. -/
theorem Settled.placeKey_storedKey_of_ne (h : t.Settled) {idx j : ℕ} (hj : j < t.numSlots)
    (hocc : (t.slots j).flags = .occupied) (hji : j ≠ idx) (keyHash pktBytes tick : UInt64)
    (key : Key) : (t.placeKey idx keyHash key pktBytes tick).storedKey j = t.storedKey j := by
  rw [storedKey, placeKey_slot_of_ne hji]
  exact congrArg (Prod.mk _) (ByteMemory.read_write_of_le (h.stored j hj hocc))

/-- A stored key fills its cell and changes no other. -/
theorem Settled.placeKey_cell (h : t.Settled) (idx : ℕ) {j : ℕ} (hj : j < t.numSlots)
    (keyHash pktBytes tick : UInt64) (key : Key) :
    (t.placeKey idx keyHash key pktBytes tick).cell j =
      Function.update t.cell idx (.full (keyHash, key.bytes)) j := by
  by_cases hji : j = idx
  · subst hji
    rw [Function.update_self, cell_eq_full_iff]
    exact ⟨by simp, placeKey_storedKey_self ..⟩
  · rw [Function.update_of_ne hji, cell, cell, placeKey_slot_of_ne hji]
    cases hflags : (t.slots j).flags with
    | occupied => simp only [h.placeKey_storedKey_of_ne hj hflags hji]
    | free => rfl
    | tombstone => rfl
    | inserting => rfl

/-- A settled table is settled when a key has been stored that the arena has room for. -/
theorem Settled.place (h : t.Settled) {key : Key} {idx : ℕ}
    (hroom : t.keyArenaUsed + key.len ≤ t.keyArenaCapacity) (keyHash pktBytes tick : UInt64) :
    (t.placeKey idx keyHash key pktBytes tick).Settled where
  toGeometry := ⟨h.pow, h.mask, h.capacity⟩
  noInserting j hj := by
    by_cases hji : j = idx
    · simp [hji]
    · rw [placeKey_slot_of_ne hji]
      exact h.noInserting j hj
  stored j hj hocc := by
    show _ ≤ t.keyArenaUsed + key.len
    by_cases hji : j = idx
    · simp [hji]
    · rw [placeKey_slot_of_ne hji] at hocc ⊢
      have := h.stored j hj hocc
      omega
  used_le := hroom

end CounterTable

end InFMon
