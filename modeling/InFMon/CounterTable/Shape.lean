import InFMon.CounterTable.Geometry

/-! # What updates leave alone

No update changes the dimensions of its table or its generation, whatever state the table is in. -/

namespace InFMon

namespace CounterTable

/-- The dimensions of a table and its generation. -/
def shape (t : CounterTable) : ℕ × ℕ × ℕ × UInt64 :=
  (t.numSlots, t.slotMask, t.keyArenaCapacity, t.generation)

/-- The geometry depends on the shape only. -/
theorem Geometry.of_shape {t t' : CounterTable} (h : t.Geometry) (hs : t'.shape = t.shape) :
    t'.Geometry := by
  simp only [shape, Prod.mk.injEq] at hs
  obtain ⟨hslots, hmask, hcap, -⟩ := hs
  exact ⟨hslots ▸ h.pow, by rw [hmask, hslots, h.mask], hcap ▸ h.capacity⟩

/-- Setting flags keeps the shape. -/
@[simp] theorem shape_setFlags (t : CounterTable) (idx : ℕ) (f : SlotFlags) :
    (t.setFlags idx f).shape = t.shape := rfl

/-- A bump of a sequence number keeps the shape. -/
@[simp] theorem shape_seqlockBump (t : CounterTable) (group : ℕ) :
    (t.seqlockBump group).shape = t.shape := rfl

/-- Counting a packet keeps the shape. -/
@[simp] theorem shape_bumpSlot (t : CounterTable) (idx : ℕ) (pktBytes tick : UInt64) :
    (t.bumpSlot idx pktBytes tick).shape = t.shape := rfl

/-- A failed insertion keeps the shape. -/
@[simp] theorem shape_failInsert (t : CounterTable) : t.failInsert.shape = t.shape := rfl

/-- The note that the table is full keeps the shape. -/
@[simp] theorem shape_noteFull (t : CounterTable) : t.noteFull.shape = t.shape := rfl

/-- An exchange of flags keeps the shape. -/
@[simp] theorem shape_casFlags (t : CounterTable) (idx : ℕ) (f g : SlotFlags) :
    (t.casFlags idx f g).2.shape = t.shape := by
  unfold casFlags
  split <;> rfl

/-- The contents of the arena are no part of the shape. -/
theorem shape_arena (t : CounterTable) (used : ℕ) (arena : ByteMemory) :
    ({ t with keyArenaUsed := used, keyArena := arena } : CounterTable).shape = t.shape := rfl

/-- Taking bytes from the arena keeps the shape. -/
@[simp] theorem shape_arenaAlloc (t : CounterTable) (key : Key) :
    (t.arenaAlloc key).2.shape = t.shape := by
  rw [arenaAlloc]
  split
  · exact t.shape_arena _ _
  · exact t.shape_arena _ _

/-- Filling a slot keeps the shape. -/
theorem shape_fillSlot (t : CounterTable) (idx : ℕ) (keyHash : UInt64) (key : Key)
    (pktBytes tick : UInt64) : (t.fillSlot idx keyHash key pktBytes tick).2.shape = t.shape := by
  have halloc := t.shape_arenaAlloc key
  unfold fillSlot
  simp only
  split
  · exact halloc
  · exact halloc

/-- Evicting a key keeps the shape. -/
theorem shape_evictLru (t : CounterTable) (start : ℕ) : (t.evictLru start).2.shape = t.shape := by
  unfold evictLru
  split
  · rfl
  · simp only
    split <;> rfl

/-- The table that a claim leaves. -/
def Claim.table? : Claim → Option CounterTable
  | .claimed t => some t
  | .counted t => some t
  | .exhausted => none

/-- Claiming a slot keeps the shape, however it ends. -/
theorem shape_claimSlot (t : CounterTable) (idx : ℕ) (f : SlotFlags) (keyHash : UInt64) (key : Key)
    (pktBytes tick : UInt64) (fuel : ℕ) :
    ∀ t' ∈ (t.claimSlot idx f keyHash key pktBytes tick fuel).table?, t'.shape = t.shape := by
  induction fuel with
  | zero =>
    intro t' ht'
    cases ht'
  | succ fuel ih =>
    intro t' ht'
    have hcas := t.shape_casFlags idx f .inserting
    rw [claimSlot] at ht'
    split at ht'
    · rename_i t₁ heq
      rw [heq] at hcas
      cases ht'
      exact hcas
    · rename_i t₁ heq
      rw [heq] at hcas
      split at ht'
      · cases ht'
        exact hcas
      · exact ih t' ht'

/-- The second scan keeps the shape. -/
theorem shape_retryScan (t : CounterTable) (start : ℕ) (keyHash : UInt64) (key : Key)
    (pktBytes tick : UInt64) (fuel i : ℕ) :
    (t.retryScan start keyHash key pktBytes tick fuel i).2.shape = t.shape := by
  induction fuel generalizing t i with
  | zero => rfl
  | succ fuel ih =>
    have hcas := t.shape_casFlags (t.probeIdx start i) (t.slots (t.probeIdx start i)).flags
      .inserting
    rw [retryScan]
    split
    · split
      · rfl
      · exact ih t (i + 1)
    · exact ih t (i + 1)
    -- a slot that is free or deleted is claimed, or passed when the claim fails
    all_goals
      split
      · rename_i t₁ heq
        rw [heq] at hcas
        rw [shape_fillSlot, hcas]
      · rename_i t₁ heq
        rw [heq] at hcas
        rw [ih, hcas]

/-- Evicting and scanning again keeps the shape. -/
theorem shape_evictAndRetry (t : CounterTable) (start : ℕ) (keyHash : UInt64) (key : Key)
    (pktBytes tick : UInt64) :
    (t.evictAndRetry start keyHash key pktBytes tick).2.shape = t.shape := by
  have hevict := t.noteFull.shape_evictLru start
  unfold evictAndRetry
  simp only
  split
  · rename_i t₁ heq
    rw [heq] at hevict
    exact hevict
  · rename_i t₁ heq
    rw [heq] at hevict
    rw [shape_retryScan]
    exact hevict

/-- No update changes the shape of its table. -/
theorem shape_update (t : CounterTable) (keyHash : UInt64) (key : Key) (pktBytes tick : UInt64) :
    (t.update keyHash key pktBytes tick).2.shape = t.shape := by
  rw [update]
  split
  · rfl
  · exact t.shape_evictAndRetry ..
  · rename_i idx hmiss
    have hclaim := t.shape_claimSlot idx (t.slots idx).flags keyHash key pktBytes tick insertRetry
    simp only
    split
    · split
      · rename_i t₁ heq
        exact hclaim t₁ (by rw [heq]; rfl)
      · rfl
      · rename_i t₁ heq
        rw [shape_fillSlot]
        exact hclaim t₁ (by rw [heq]; rfl)
    · exact t.shape_evictAndRetry ..

end CounterTable

end InFMon
