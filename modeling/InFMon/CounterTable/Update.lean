import InFMon.CounterTable.Geometry

/-! # What an update does

The update of `counter_table.c` as a lookup followed by one of four effects on the table: a packet
counted in the key's slot, the key stored in a reusable slot, an eviction followed by a store, or a
failure. `update_eq` is the one place where the loops of the update are opened; everything later
works with the lookup of `OpenAddressing` and the effects defined here. -/

namespace InFMon

open MachineWord OpenAddressing

namespace CounterTable

/-! ### Slots as cells -/

/-- The hash and the key bytes that a slot refers to. -/
def storedKey (t : CounterTable) (j : ℕ) : UInt64 × List UInt8 :=
  ((t.slots j).keyHash, t.keyArena.read (t.slots j).keyOffset (t.slots j).keyLen)

/-- The slot array as the cells of an open-addressing table. -/
def cell (t : CounterTable) (j : ℕ) : Cell (UInt64 × List UInt8) :=
  match (t.slots j).flags with
  | .free => .free
  | .occupied => .full (t.storedKey j)
  | .tombstone => .tomb
  | .inserting => .busy

/-- The home slot of a hashed key. -/
def home (t : CounterTable) (k : UInt64 × List UInt8) : ℕ := t.homeSlot k.1

/-- The search sees a free slot. -/
theorem cell_eq_free_iff {t : CounterTable} {j : ℕ} :
    t.cell j = .free ↔ (t.slots j).flags = .free := by
  unfold cell
  split <;> simp_all

/-- The search sees an occupied slot and its key. -/
theorem cell_eq_full_iff {t : CounterTable} {j : ℕ} {k : UInt64 × List UInt8} :
    t.cell j = .full k ↔ (t.slots j).flags = .occupied ∧ t.storedKey j = k := by
  unfold cell
  split <;> simp_all

/-! ### Tables between updates -/

/-- A table between two updates of its writer: no slot is being written, and the arena holds the
key of every occupied slot below its bump pointer. -/
structure Settled (t : CounterTable) : Prop extends t.Geometry where
  noInserting : ∀ j < t.numSlots, (t.slots j).flags ≠ .inserting
  stored : ∀ j < t.numSlots, (t.slots j).flags = .occupied →
    (t.slots j).keyOffset + (t.slots j).keyLen ≤ t.keyArenaUsed
  used_le : t.keyArenaUsed ≤ t.keyArenaCapacity

/-- An empty table is settled. -/
theorem Empty.settled {t : CounterTable} (hg : t.Geometry) (h : t.Empty) : t.Settled where
  toGeometry := hg
  noInserting j _ := by simp [h.slots j, Slot.zero]
  stored j _ hj := by simp [h.slots j, Slot.zero] at hj
  used_le := by simp [h.used]

/-- The home of a key is a slot of the table. -/
theorem Settled.home_lt {t : CounterTable} (h : t.Settled) (k : UInt64 × List UInt8) :
    t.home k < t.numSlots :=
  h.homeSlot_lt k.1

/-- A slot that a lookup passes as taken is occupied. -/
theorem Settled.occupied_of_taken {t : CounterTable} (h : t.Settled)
    {k : UInt64 × List UInt8} {j : ℕ} (hj : j < t.numSlots) (htaken : TakenFrom t.cell k j) :
    (t.slots j).flags = .occupied := by
  rcases htaken with hbusy | ⟨k', -, hfull⟩
  · exact absurd (by unfold cell at hbusy; split at hbusy <;> simp_all) (h.noInserting j hj)
  · exact (cell_eq_full_iff.mp hfull).1

/-- `key_matches` on an occupied slot compares the hash and the stored bytes. -/
theorem Settled.keyMatches_iff {t : CounterTable} (h : t.Settled) {j : ℕ} (hj : j < t.numSlots)
    (hocc : (t.slots j).flags = .occupied) (keyHash : UInt64) (key : Key) :
    t.keyMatches (t.slots j) keyHash key = true ↔ t.storedKey j = (keyHash, key.bytes) := by
  have hstored := h.stored j hj hocc
  have hbound : (t.slots j).keyOffset + (t.slots j).keyLen ≤ t.keyArenaCapacity :=
    hstored.trans h.used_le
  have hcap := h.capacity
  rw [keyMatches, storedKey, Prod.mk.injEq]
  split
  · rename_i hhash
    simp [hhash]
  rename_i hhash
  rw [not_not] at hhash
  split
  · -- different lengths, so the stored bytes differ from the key
    rename_i hlen
    simp only [Bool.false_eq_true, false_iff, not_and]
    intro _ hread
    have := congrArg List.length hread
    rw [ByteMemory.length_read] at this
    exact hlen this
  rename_i hlen
  rw [not_not] at hlen
  rw [← hlen, u32_of_le (hbound.trans hcap), if_neg (Nat.not_lt.mpr hbound), decide_eq_true_iff]
  simp [hhash]

/-- Phase 1 of the update is the lookup of open addressing. -/
theorem Settled.searchSlot_eq {t : CounterTable} (h : t.Settled) {start : ℕ}
    (hstart : start < t.numSlots) (keyHash : UInt64) (key : Key) (fuel i : ℕ)
    (candidate : Option ℕ) :
    t.searchSlot start keyHash key fuel i candidate =
      search t.numSlots t.cell start (keyHash, key.bytes) fuel i candidate := by
  induction fuel generalizing i candidate with
  | zero => rfl
  | succ fuel ih =>
    have hidx := probe_lt hstart i
    rw [searchSlot, search]
    simp only [h.probeIdx_eq]
    cases hflags : (t.slots (probe t.numSlots start i)).flags with
    | free => simp only [cell, hflags]
    | occupied =>
      simp only [cell, hflags, ih]
      have hmatch := h.keyMatches_iff hidx hflags keyHash key
      by_cases hk : t.storedKey (probe t.numSlots start i) = (keyHash, key.bytes)
      · rw [if_pos (hmatch.mpr hk), if_pos hk]
      · rw [if_neg (fun hm => hk (hmatch.mp hm)), if_neg hk]
    | tombstone => simp only [cell, hflags, ih]
    | inserting => simp only [cell, hflags, ih]

/-! ### Effects -/

/-- Store a new key in slot `idx`, with its bytes at the end of the arena. -/
def placeKey (t : CounterTable) (idx : ℕ) (keyHash : UInt64) (key : Key)
    (pktBytes tick : UInt64) : CounterTable :=
  { t with
    slots := Function.update t.slots idx
      { keyHash := keyHash
        packets := 1
        bytes := pktBytes
        keyOffset := t.keyArenaUsed
        keyLen := key.len
        flags := .occupied
        lastUpdate := tick }
    keyArena := t.keyArena.write t.keyArenaUsed key.bytes
    keyArenaUsed := t.keyArenaUsed + key.len
    seqlocks := Function.update t.seqlocks (idx / slotsPerGroup)
      (t.seqlocks (idx / slotsPerGroup) + 1 + 1)
    occupiedCount := u32 (t.occupiedCount + 1) }

/-- Give up a claimed slot: it becomes free, whatever it was before. -/
def releaseSlot (t : CounterTable) (idx : ℕ) : CounterTable := (t.setFlags idx .free).failInsert

/-- Evict the key of slot `victim`. -/
def evictSlot (t : CounterTable) (victim : ℕ) : CounterTable :=
  { t.setFlags victim .tombstone with
    seqlocks := Function.update t.seqlocks (victim / slotsPerGroup)
      (t.seqlocks (victim / slotsPerGroup) + 1 + 1)
    occupiedCount := sub32 t.occupiedCount 1 }

/-- Store a new key in slot `idx` if the arena has room for it. -/
def storeAt (t : CounterTable) (idx : ℕ) (keyHash : UInt64) (key : Key) (pktBytes tick : UInt64) :
    Bool × CounterTable :=
  if t.keyArenaUsed + key.len ≤ t.keyArenaCapacity then
    (true, t.placeKey idx keyHash key pktBytes tick)
  else (false, t.releaseSlot idx)

/-- The last flags count. -/
theorem setFlags_setFlags (t : CounterTable) (idx : ℕ) (f g : SlotFlags) :
    (t.setFlags idx f).setFlags idx g = t.setFlags idx g := by
  simp [setFlags, modifySlot]

/-- Filling a claimed slot stores the key, or releases the slot. -/
theorem fillSlot_claimed {t : CounterTable} {key : Key} (hused : t.keyArenaUsed < max32)
    (hroom : t.keyArenaUsed + key.len ≤ max32) (idx : ℕ) (keyHash pktBytes tick : UInt64) :
    (t.setFlags idx .inserting).fillSlot idx keyHash key pktBytes tick =
      t.storeAt idx keyHash key pktBytes tick := by
  have hkey : key.len ≤ max32 := by omega
  by_cases hcap : t.keyArenaUsed + key.len ≤ t.keyArenaCapacity
  · have halloc : (t.setFlags idx .inserting).arenaAlloc key =
        (t.keyArenaUsed, { t.setFlags idx .inserting with
          keyArenaUsed := t.keyArenaUsed + key.len
          keyArena := t.keyArena.write t.keyArenaUsed key.bytes }) := by
      simp [arenaAlloc, setFlags, modifySlot, u32_of_le hroom, Nat.not_lt.mpr hcap]
    rw [fillSlot, halloc, storeAt, if_pos hcap]
    simp [hused.ne, placeKey, seqlockBump, setFlags, modifySlot]
  · have halloc : (t.setFlags idx .inserting).arenaAlloc key =
        (max32, t.setFlags idx .inserting) := by
      have hback := sub32_u32_add hused.le hkey
      simp only [arenaAlloc, setFlags, modifySlot, u32_of_le hroom, gt_iff_lt,
        if_pos (Nat.lt_of_not_le hcap)]
      rw [u32_of_le hroom] at hback
      rw [hback]
    rw [fillSlot, halloc, storeAt, if_neg hcap]
    simp [setFlags_setFlags, releaseSlot]

/-- Without contention the first compare-and-swap on the candidate succeeds. -/
theorem claimSlot_uncontended (t : CounterTable) (idx : ℕ) (keyHash : UInt64) (key : Key)
    (pktBytes tick : UInt64) :
    t.claimSlot idx (t.slots idx).flags keyHash key pktBytes tick insertRetry =
      .claimed (t.setFlags idx .inserting) := by
  simp [insertRetry, claimSlot, casFlags]

/-! ### Eviction -/

/-- A victim is an occupied slot. -/
theorem lruVictim_some {t : CounterTable} (hg : t.Geometry) {start v : ℕ}
    (h : t.lruVictim start = some v) : v < t.numSlots ∧ (t.slots v).flags = .occupied := by
  -- the scan keeps only occupied slots
  have hscan : ∀ (l : List ℕ) (acc : Option ℕ × UInt64),
      (∀ v, acc.1 = some v → v < t.numSlots ∧ (t.slots v).flags = .occupied) →
      ∀ v, (l.foldl (t.victimStep start) acc).1 = some v →
        v < t.numSlots ∧ (t.slots v).flags = .occupied := by
    intro l
    induction l with
    | nil => exact fun acc hacc => hacc
    | cons i l ih =>
      intro acc hacc
      rw [List.foldl_cons]
      apply ih
      intro v hv
      rw [victimStep] at hv
      split at hv
      · rename_i hocc
        simp only at hv
        split at hv
        · rw [Option.some.injEq] at hv
          subst hv
          exact ⟨by rw [hg.probeIdx_eq]; exact Nat.mod_lt _ hg.numSlots_pos, hocc⟩
        · exact hacc v hv
      · exact hacc v hv
  exact hscan _ _ (by simp) v h

/-- Without a victim nothing is evicted. -/
theorem evictLru_none {t : CounterTable} {start : ℕ} (h : t.lruVictim start = none) :
    t.evictLru start = (false, t) := by
  rw [evictLru, h]

/-- The victim is evicted. -/
theorem evictLru_some {t : CounterTable} (hg : t.Geometry) {start v : ℕ}
    (h : t.lruVictim start = some v) : t.evictLru start = (true, t.evictSlot v) := by
  have hocc := (lruVictim_some hg h).2
  simp [evictLru, h, seqlockBump, hocc, evictSlot, setFlags, modifySlot]

/-- What the retry finds: the key, a slot that can be claimed, or nothing. -/
def retryFind (t : CounterTable) (start : ℕ) (keyHash : UInt64) (key : Key) : ℕ → ℕ → Found
  | 0, _ => .miss none
  | fuel + 1, i =>
    let idx := t.probeIdx start i
    match (t.slots idx).flags with
    | .occupied =>
      if t.keyMatches (t.slots idx) keyHash key then .hit idx
      else retryFind t start keyHash key fuel (i + 1)
    | .inserting => retryFind t start keyHash key fuel (i + 1)
    | .free | .tombstone => .miss (some idx)

/-- The retry does what it finds. -/
theorem retryScan_eq_find (t : CounterTable) (start : ℕ) (keyHash : UInt64) (key : Key)
    (pktBytes tick : UInt64) (fuel i : ℕ) :
    t.retryScan start keyHash key pktBytes tick fuel i =
      match t.retryFind start keyHash key fuel i with
      | .hit idx => (true, t.bumpSlot idx pktBytes tick)
      | .miss (some idx) => (t.setFlags idx .inserting).fillSlot idx keyHash key pktBytes tick
      | .miss none => (false, t.failInsert) := by
  induction fuel generalizing i with
  | zero => rfl
  | succ fuel ih =>
    rw [retryScan, retryFind]
    cases hflags : (t.slots (t.probeIdx start i)).flags with
    | free => simp only [casFlags, hflags, if_true]
    | tombstone => simp only [casFlags, hflags, if_true]
    | inserting => simp only [ih]
    | occupied =>
      by_cases hmatch : t.keyMatches (t.slots (t.probeIdx start i)) keyHash key
      · simp only [if_pos hmatch]
      · simp only [if_neg hmatch, ih]

/-- The retry passes the occupied slots of other keys, and finds the first slot that is not occupied. -/
theorem retryFind_eq {t : CounterTable} (hg : t.Geometry) (start : ℕ) (keyHash : UInt64)
    (key : Key) (fuel : ℕ) {i d : ℕ} (hid : i ≤ d) (hd : d < i + fuel) (hv : (t.slots (probe t.numSlots start d)).flags = .tombstone)
    (hpass : ∀ e, i ≤ e → e < d → (t.slots (probe t.numSlots start e)).flags = .occupied ∧
      t.keyMatches (t.slots (probe t.numSlots start e)) keyHash key = false) :
    t.retryFind start keyHash key fuel i = .miss (some (probe t.numSlots start d)) := by
  induction fuel generalizing i with
  | zero => omega
  | succ fuel ih =>
    rw [retryFind]
    simp only [hg.probeIdx_eq]
    rcases Nat.eq_or_lt_of_le hid with rfl | hlt
    · simp only [hv]
    · obtain ⟨hocc, hne⟩ := hpass i le_rfl hlt
      simp only [hocc, hne]
      exact ih hlt (by omega) fun e he1 he2 => hpass e (by omega) he2

/-- After an eviction from a table full of other keys, the retry finds the evicted slot. -/
theorem retryFind_evictSlot {t : CounterTable} (hg : t.Geometry) {keyHash : UInt64} {key : Key}
    {v : ℕ} (hv : v < t.numSlots)
    (hother : ∀ j < t.numSlots, (t.slots j).flags = .occupied ∧
      t.keyMatches (t.slots j) keyHash key = false) :
    (t.evictSlot v).retryFind (t.homeSlot keyHash) keyHash key t.numSlots 0 = .miss (some v) := by
  have hstart := hg.homeSlot_lt keyHash
  have hdist := distance_lt hstart v
  have hpass : ∀ e, 0 ≤ e → e < distance t.numSlots (t.homeSlot keyHash) v →
      ((t.evictSlot v).slots (probe t.numSlots (t.homeSlot keyHash) e)).flags = .occupied ∧
      (t.evictSlot v).keyMatches ((t.evictSlot v).slots
        (probe t.numSlots (t.homeSlot keyHash) e)) keyHash key = false := by
    intro e _ he
    have hjv : probe t.numSlots (t.homeSlot keyHash) e ≠ v := by
      intro heq
      have hen : e < t.numSlots := lt_trans he hdist
      rw [← heq, distance_probe hstart hen] at he
      exact lt_irrefl _ he
    have hslot : (t.evictSlot v).slots (probe t.numSlots (t.homeSlot keyHash) e) =
        t.slots (probe t.numSlots (t.homeSlot keyHash) e) := by
      simp [evictSlot, setFlags, modifySlot, hjv]
    rw [hslot]
    exact hother _ (probe_lt hstart e)
  have hfind := retryFind_eq (t := t.evictSlot v) ⟨hg.pow, hg.mask, hg.capacity⟩
    (t.homeSlot keyHash) keyHash key t.numSlots
    (Nat.zero_le (distance t.numSlots (t.homeSlot keyHash) v)) (by omega)
    (by
      show ((t.evictSlot v).slots (probe t.numSlots _ _)).flags = .tombstone
      rw [probe_distance hstart hv]
      simp [evictSlot, setFlags, modifySlot])
    hpass
  rwa [show (t.evictSlot v).numSlots = t.numSlots from rfl, probe_distance hstart hv] at hfind

/-- After an eviction from a table full of other keys, the retry claims and fills the evicted slot. -/
theorem retryScan_evictSlot {t : CounterTable} (hg : t.Geometry) {keyHash : UInt64} {key : Key}
    {v : ℕ} (hv : v < t.numSlots)
    (hother : ∀ j < t.numSlots, (t.slots j).flags = .occupied ∧
      t.keyMatches (t.slots j) keyHash key = false) (pktBytes tick : UInt64) :
    (t.evictSlot v).retryScan (t.homeSlot keyHash) keyHash key pktBytes tick t.numSlots 0 =
      ((t.evictSlot v).setFlags v .inserting).fillSlot v keyHash key pktBytes tick := by
  rw [retryScan_eq_find, retryFind_evictSlot hg hv hother]

/-! ### The update -/

/-- The slots of a full table, one of them evicted. -/
theorem Settled.evict {t : CounterTable} (h : t.Settled) (v : ℕ) : (t.evictSlot v).Settled where
  toGeometry := ⟨h.pow, h.mask, h.capacity⟩
  noInserting j hj := by
    by_cases hjv : j = v
    · simp [evictSlot, setFlags, modifySlot, hjv]
    · simpa [evictSlot, setFlags, modifySlot, hjv] using h.noInserting j hj
  stored j hj hocc := by
    by_cases hjv : j = v
    · simp [evictSlot, setFlags, modifySlot, hjv] at hocc
    · simp only [evictSlot, setFlags, modifySlot, ne_eq, hjv, not_false_eq_true,
        Function.update_of_ne] at hocc ⊢
      exact h.stored j hj hocc
  used_le := h.used_le

/-- After an eviction from a table full of other keys, the retry stores the key in the evicted
slot. -/
theorem Settled.retryScan_evict {t : CounterTable} (h : t.Settled) {keyHash : UInt64} {key : Key}
    {pktBytes tick : UInt64} (hused : t.keyArenaUsed < max32)
    (hroom : t.keyArenaUsed + key.len ≤ max32) {v : ℕ} (hv : v < t.numSlots)
    (htaken : ∀ j < t.numSlots, TakenFrom t.cell (keyHash, key.bytes) j) :
    (t.evictSlot v).retryScan (t.homeSlot keyHash) keyHash key pktBytes tick t.numSlots 0 =
      (t.evictSlot v).storeAt v keyHash key pktBytes tick := by
  rw [retryScan_evictSlot h.toGeometry hv (fun j hj => ?_)]
  · exact fillSlot_claimed (t := t.evictSlot v) hused hroom v keyHash pktBytes tick
  · have hocc := h.occupied_of_taken hj (htaken j hj)
    refine ⟨hocc, ?_⟩
    rw [Bool.eq_false_iff]
    intro hm
    exact (htaken j hj).ne_full (cell_eq_full_iff.mpr ⟨hocc, (h.keyMatches_iff hj hocc _ _).mp hm⟩)

/-- A slot that a lookup offers for reuse is free or a tombstone. -/
theorem flags_of_reusable {t : CounterTable} {r : ℕ} (h : t.cell r = .free ∨ t.cell r = .tomb) :
    (t.slots r).flags = .free ∨ (t.slots r).flags = .tombstone := by
  unfold cell at h
  split at h <;> simp_all

/-- A slot that can be used again is not occupied. -/
theorem ne_occupied_of_reusable {f : SlotFlags} (h : f = .free ∨ f = .tombstone) : f ≠ .occupied := by
  rcases h with rfl | rfl <;> simp

/-- Phase 1 is the lookup from the home slot. -/
theorem Settled.search_eq {t : CounterTable} (h : t.Settled) (keyHash : UInt64) (key : Key) :
    t.searchSlot (t.homeSlot keyHash) keyHash key t.numSlots 0 none =
      lookup t.numSlots t.home t.cell (keyHash, key.bytes) :=
  h.searchSlot_eq (h.homeSlot_lt keyHash) keyHash key t.numSlots 0 none

/-- The lookup finds the key, or a slot that can be claimed, or occupied slots only. -/
theorem Settled.lookup_cases {t : CounterTable} (h : t.Settled) (k : UInt64 × List UInt8) :
    (∃ j < t.numSlots, t.cell j = .full k ∧ lookup t.numSlots t.home t.cell k = .hit j) ∨
    (∃ r < t.numSlots, ((t.slots r).flags = .free ∨ (t.slots r).flags = .tombstone) ∧
      lookup t.numSlots t.home t.cell k = .miss (some r)) ∨
    (∀ j < t.numSlots, (t.slots j).flags = .occupied) ∧
      lookup t.numSlots t.home t.cell k = .miss none := by
  cases hlook : lookup t.numSlots t.home t.cell k with
  | hit j =>
    obtain ⟨hj, hcell⟩ := lookup_hit (h.home_lt k) hlook
    exact Or.inl ⟨j, hj, hcell, rfl⟩
  | miss reuse =>
    cases reuse with
    | some r =>
      obtain ⟨hr, hcell, -⟩ := lookup_miss_some (h.home_lt k) hlook
      exact Or.inr (Or.inl ⟨r, hr, flags_of_reusable hcell, rfl⟩)
    | none =>
      exact Or.inr (Or.inr ⟨fun j hj =>
        h.occupied_of_taken hj (lookup_miss_none (h.home_lt k) hlook j hj), rfl⟩)

/-- The update is a lookup followed by one effect. -/
theorem Settled.update_eq {t : CounterTable} (h : t.Settled) {key : Key}
    (hused : t.keyArenaUsed < max32) (hroom : t.keyArenaUsed + key.len ≤ max32)
    (keyHash pktBytes tick : UInt64) :
    t.update keyHash key pktBytes tick =
      match lookup t.numSlots t.home t.cell (keyHash, key.bytes) with
      | .hit j => (true, t.bumpSlot j pktBytes tick)
      | .miss (some r) => t.storeAt r keyHash key pktBytes tick
      | .miss none =>
        match t.lruVictim (t.homeSlot keyHash) with
        | none => (false, t.noteFull.failInsert)
        | some v => (t.noteFull.evictSlot v).storeAt v keyHash key pktBytes tick := by
  rw [update]
  simp only [h.search_eq]
  cases hlook : lookup t.numSlots t.home t.cell (keyHash, key.bytes) with
  | hit j => rfl
  | miss r =>
    cases r with
    | some r =>
      obtain ⟨hr, hcell, -⟩ := lookup_miss_some (h.home_lt _) hlook
      simp only [if_pos (flags_of_reusable hcell), claimSlot_uncontended]
      exact fillSlot_claimed hused hroom _ _ _ _
    | none =>
      have htaken := lookup_miss_none (h.home_lt _) hlook
      have hnote : t.noteFull.Settled :=
        ⟨⟨h.pow, h.mask, h.capacity⟩, h.noInserting, h.stored, h.used_le⟩
      simp only [evictAndRetry]
      cases hv : t.lruVictim (t.homeSlot keyHash) with
      | none => rw [evictLru_none (t := t.noteFull) hv]
      | some v =>
        have hvn := (lruVictim_some h.toGeometry hv).1
        rw [evictLru_some (t := t.noteFull) hnote.toGeometry hv]
        exact hnote.retryScan_evict hused hroom hvn htaken

end CounterTable

end InFMon
