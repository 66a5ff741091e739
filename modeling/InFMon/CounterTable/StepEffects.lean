import InFMon.CounterTable.Steps
import InFMon.CounterTable.Shape

/-! # What one access does

The accesses of an update by what they do to the table. Most of them only load something; the others
store in one place each. `access_step` is the one place where the steps are opened. -/

namespace InFMon

open MachineWord

/-! ### Positions in the update -/

/-- Flags that a compare-and-swap of the update expects. -/
def SlotFlags.Reusable (f : SlotFlags) : Prop := f = .free ∨ f = .tombstone

namespace Pc

/-- The slot that an update has claimed and has neither published nor given back. -/
def claimed : Pc → Option ℕ
  | .alloc idx | .unalloc idx | .unclaim idx | .copy idx _ _ | .beginWrite idx _ | .store idx _ _
  | .endWrite idx _ | .publish idx _ => some idx
  | _ => none

/-- The slot on account of which an update has a write section open. -/
def writing : Pc → Option ℕ
  | .store idx _ _ | .endWrite idx _ => some idx
  | .recheck victim | .bury victim | .uncount victim | .endEvict victim _ => some victim
  | _ => none

/-- The update has claimed no slot, and its packet is not accounted for yet. -/
def Looking : Pc → Prop
  | .countBytes _ | .stamp _ | .alloc _ | .unalloc _ | .unclaim _ | .copy .. | .beginWrite ..
  | .store .. | .endWrite .. | .publish .. | .countSlot | .uncount _ | .returned _ => False
  | _ => True

/-- The next access only loads something, or is a compare-and-swap. -/
def Loads : Pc → Prop
  | .scan .. | .compare .. | .reload _ | .claim .. | .inspect .. | .age .. | .recheck _ | .rescan _
  | .reclaim .. => True
  | _ => False

/-- A thread that loads is looking for a slot. -/
theorem Loads.looking {pc : Pc} (h : pc.Loads) : pc.Looking := by
  cases pc <;> trivial

/-- A thread that looks for a slot has claimed none. -/
theorem Looking.claimed_eq {pc : Pc} (h : pc.Looking) : pc.claimed = none := by
  cases pc <;> first | rfl | exact h.elim

end Pc

/-- Storing another field leaves the flags. -/
@[simp] theorem Slot.storeField_flags (slot : Slot) (c : UpdateCall) (off : ℕ) (field : SlotField) :
    (slot.storeField c off field).flags = slot.flags := by
  cases field <;> rfl

/-- What refers to the key in a slot. -/
def Slot.keyRef (slot : Slot) : UInt64 × ℕ × ℕ := (slot.keyHash, slot.keyOffset, slot.keyLen)

/-- Slot indices are in range, and only reusable slots are claimed. -/
def Site.Valid (n : ℕ) : Site → Prop
  | .scan _ candidate => ∀ j ∈ candidate, j < n
  | .claim f _ => f.Reusable
  | .rescan _ => True

/-- Slot indices are in range, and only reusable slots are claimed. -/
def Pc.Valid (n : ℕ) : Pc → Prop
  | .scan _ candidate => ∀ j ∈ candidate, j < n
  | .compare site idx _ => idx < n ∧ site.Valid n
  | .claim idx f _ => idx < n ∧ f.Reusable
  | .reclaim _ f => f.Reusable
  | .inspect _ victim _ | .age _ victim _ => ∀ j ∈ victim, j < n
  | .reload idx | .countPacket idx | .countBytes idx | .stamp idx | .alloc idx | .unalloc idx
  | .unclaim idx | .copy idx _ _ | .beginWrite idx _ | .store idx _ _ | .endWrite idx _
  | .publish idx _ | .beginEvict idx | .recheck idx | .bury idx | .uncount idx | .endEvict idx _ =>
    idx < n
  | .countSlot | .fail | .noteFull | .rescan _ | .returned _ => True

namespace CounterTable

variable {t : CounterTable} {c : UpdateCall}

/-- What the comparison of a key has found out so far, when nobody else stores in the slot: it is
occupied, and its key is as long as the key of the call. -/
def Compares (c : UpdateCall) (t : CounterTable) : Pc → Prop
  | .compare _ idx .keyHash | .compare _ idx .keyLen => (t.slots idx).flags = .occupied
  | .compare _ idx .keyOffset | .compare _ idx .keyBytes =>
    (t.slots idx).flags = .occupied ∧ (t.slots idx).keyLen = c.key.len
  | _ => True

/-! ### Between two accesses -/

/-- Where an update looks on: it has no slot, no section and no comparison going on. -/
structure LooksOn (n : ℕ) (pc : Pc) : Prop where
  looking : pc.Looking
  writing : pc.writing = none
  compares : ∀ c t, Compares c t pc
  valid : pc.Valid n

section LooksOn

variable {i idx retry : ℕ} {f : SlotFlags} {candidate victim : Option ℕ} {minTick : UInt64}

/-- Behind the scan the thread claims the candidate, or looks for a victim. -/
theorem looksOn_afterScan (h : ∀ j ∈ candidate, j < t.numSlots) :
    LooksOn t.numSlots (afterScan candidate) := by
  cases candidate with
  | none => exact ⟨trivial, rfl, fun _ _ => trivial, trivial⟩
  | some idx => exact ⟨trivial, rfl, fun _ _ => trivial, h idx rfl⟩

/-- The scan goes on or ends. -/
theorem looksOn_nextScan (h : ∀ j ∈ candidate, j < t.numSlots) :
    LooksOn t.numSlots (t.nextScan i candidate) := by
  rw [nextScan]
  split
  · exact ⟨trivial, rfl, fun _ _ => trivial, h⟩
  · exact looksOn_afterScan h

/-- An update starts with nothing found. -/
theorem looksOn_start : LooksOn t.numSlots t.start := looksOn_nextScan fun _ h => nomatch h

/-- A slot that can be used again is claimed. -/
theorem looksOn_nextClaim (hidx : idx < t.numSlots) (hf : f.Reusable) :
    LooksOn t.numSlots (nextClaim idx f retry) := by
  rw [nextClaim]
  split
  · exact ⟨trivial, rfl, fun _ _ => trivial, hidx, hf⟩
  · exact ⟨trivial, rfl, fun _ _ => trivial, trivial⟩

/-- The second scan goes on or ends. -/
theorem looksOn_nextRescan : LooksOn t.numSlots (t.nextRescan i) := by
  rw [nextRescan]
  split <;> exact ⟨trivial, rfl, fun _ _ => trivial, trivial⟩

/-- The search for a victim goes on or ends. -/
theorem looksOn_nextInspect (h : ∀ j ∈ victim, j < t.numSlots) :
    LooksOn t.numSlots (t.nextInspect i victim minTick) := by
  rw [nextInspect.eq_def]
  split
  · exact ⟨trivial, rfl, fun _ _ => trivial, h⟩
  · cases victim with
    | none => exact ⟨trivial, rfl, fun _ _ => trivial, trivial⟩
    | some v => exact ⟨trivial, rfl, fun _ _ => trivial, h v rfl⟩

/-- Behind another key the thread looks on. -/
theorem looksOn_mismatch {site : Site} (hidx : idx < t.numSlots) (hsite : site.Valid t.numSlots) :
    LooksOn t.numSlots (t.mismatch idx site) := by
  cases site with
  | scan i candidate => exact looksOn_nextScan hsite
  | claim f retry => exact looksOn_nextClaim hidx hsite
  | rescan i => exact looksOn_nextRescan

end LooksOn

/-- A claimed slot is filled, unless its offset stands for a failure. -/
theorem valid_nextCopy {key : Key} {idx off k n : ℕ} (hidx : idx < n) :
    (nextCopy key idx off k).Valid n := by
  rw [nextCopy]
  split
  · exact hidx
  · split <;> exact hidx

/-- The slot stays claimed until its key is copied. -/
theorem claimed_nextCopy (key : Key) (idx off k : ℕ) : (nextCopy key idx off k).claimed = some idx := by
  rw [nextCopy]
  split
  · rfl
  · split <;> rfl

/-- The slot stays claimed until its fields are stored. -/
theorem claimed_nextStore (idx off : ℕ) (field : SlotField) :
    (nextStore idx off field).claimed = some idx := by
  cases field <;> rfl

/-- A probe is a slot of the table. -/
theorem Geometry.probeIdx_lt (h : t.Geometry) (start i : ℕ) : t.probeIdx start i < t.numSlots := by
  rw [h.probeIdx_eq]
  exact Nat.mod_lt _ h.numSlots_pos

/-! ### The accesses -/

/-- What an access does to the table, and where the update goes on. -/
inductive Access (c : UpdateCall) (t : CounterTable) : Pc → CounterTable × Pc → Prop
  | load {pc pc' : Pc} (loads : pc.Loads) (looking : pc'.Looking)
    (writing : pc'.writing = pc.writing) (compares : Compares c t pc → Compares c t pc') :
    Access c t pc (t, pc')
  | claim {pc : Pc} {idx : ℕ} (loads : pc.Loads) (writing : pc.writing = none)
    (reusable : (t.slots idx).flags.Reusable) : Access c t pc (t.setFlags idx .inserting, .alloc idx)
  | countPacket (idx : ℕ) : Access c t (.countPacket idx)
    (t.modifySlot idx fun slot => { slot with packets := slot.packets + 1 }, .countBytes idx)
  | countBytes (idx : ℕ) : Access c t (.countBytes idx)
    (t.modifySlot idx fun slot => { slot with bytes := slot.bytes + c.pktBytes }, .stamp idx)
  | stamp (idx : ℕ) : Access c t (.stamp idx)
    (t.modifySlot idx fun slot => { slot with lastUpdate := c.tick }, .returned true)
  | overflow (idx : ℕ) {used : ℕ} (used_eq : used = u32 (t.keyArenaUsed + c.key.len))
    (full : t.keyArenaCapacity < used) :
    Access c t (.alloc idx) ({ t with keyArenaUsed := used }, .unalloc idx)
  | reserve (idx : ℕ) {used : ℕ} (used_eq : used = u32 (t.keyArenaUsed + c.key.len))
    (room : used ≤ t.keyArenaCapacity) :
    Access c t (.alloc idx) ({ t with keyArenaUsed := used }, nextCopy c.key idx t.keyArenaUsed 0)
  | unalloc (idx : ℕ) {used : ℕ} (used_eq : used = sub32 t.keyArenaUsed c.key.len) :
    Access c t (.unalloc idx) ({ t with keyArenaUsed := used }, .unclaim idx)
  | unclaim (idx : ℕ) : Access c t (.unclaim idx) (t.setFlags idx .free, .fail)
  | copy (idx off k : ℕ) : Access c t (.copy idx off k)
    ({ t with keyArena := t.keyArena.write (off + k) [c.key.bytes.getD k 0] },
      nextCopy c.key idx off (k + 1))
  | beginWrite (idx off : ℕ) : Access c t (.beginWrite idx off)
    (t.seqlockBump (idx / slotsPerGroup), .store idx off .keyHash)
  | store (idx off : ℕ) (field : SlotField) : Access c t (.store idx off field)
    (t.modifySlot idx fun slot => slot.storeField c off field, nextStore idx off field)
  | endWrite (idx off : ℕ) : Access c t (.endWrite idx off)
    (t.seqlockBump (idx / slotsPerGroup), .publish idx off)
  | publish (idx off : ℕ) : Access c t (.publish idx off) (t.setFlags idx .occupied, .countSlot)
  | countSlot {count : ℕ} (count_eq : count = u32 (t.occupiedCount + 1)) :
    Access c t .countSlot ({ t with occupiedCount := count }, .returned true)
  | fail : Access c t .fail (t.failInsert, .returned false)
  | noteFull {pc' : Pc} (looksOn : LooksOn t.numSlots pc') : Access c t .noteFull (t.noteFull, pc')
  | beginEvict (victim : ℕ) : Access c t (.beginEvict victim)
    (t.seqlockBump (victim / slotsPerGroup), .recheck victim)
  | bury (victim : ℕ) : Access c t (.bury victim) (t.setFlags victim .tombstone, .uncount victim)
  | uncount (victim : ℕ) {count : ℕ} (count_eq : count = sub32 t.occupiedCount 1) :
    Access c t (.uncount victim) ({ t with occupiedCount := count }, .endEvict victim true)
  | endEvict (victim : ℕ) (ok : Bool) {pc' : Pc} (looksOn : LooksOn t.numSlots pc') :
    Access c t (.endEvict victim ok) (t.seqlockBump (victim / slotsPerGroup), pc')
  | returned (ok : Bool) : Access c t (.returned ok) (t, .returned ok)

/-- A load after which the thread looks on is an access. -/
theorem LooksOn.access {pc pc' : Pc} {n : ℕ} (h : LooksOn n pc') (loads : pc.Loads)
    (writing : pc.writing = none) : Access c t pc (t, pc') :=
  .load loads h.looking (h.writing.trans writing.symm) fun _ => h.compares c t

/-- No access changes the dimensions of the table. -/
theorem shape_access {pc : Pc} {s : CounterTable × Pc} (hacc : Access c t pc s) :
    s.1.shape = t.shape := by
  cases hacc <;> rfl

/-- A load of `key_matches`. -/
theorem access_compare {site : Site} {idx : ℕ} (hidx : idx < t.numSlots)
    (hsite : site.Valid t.numSlots) (load : MatchLoad) :
    Access c t (.compare site idx load) (t, stepCompare c t site idx load) ∧
      (stepCompare c t site idx load).Valid t.numSlots := by
  have hmismatch := looksOn_mismatch (t := t) hidx hsite
  -- whatever differs, the scan goes on behind the slot
  have hother : ∀ load, Access c t (.compare site idx load) (t, t.mismatch idx site) ∧
      (t.mismatch idx site).Valid t.numSlots :=
    fun load => ⟨hmismatch.access trivial rfl, hmismatch.valid⟩
  cases load with
  | keyHash =>
    rw [stepCompare]
    split
    · exact hother _
    · exact ⟨.load trivial trivial rfl id, hidx, hsite⟩
  | keyLen =>
    rw [stepCompare]
    split
    · exact hother _
    · rename_i hlen
      exact ⟨.load trivial trivial rfl fun h => ⟨h, not_not.mp hlen⟩, hidx, hsite⟩
  | keyOffset =>
    rw [stepCompare]
    split
    · exact hother _
    · exact ⟨.load trivial trivial rfl id, hidx, hsite⟩
  | keyBytes =>
    rw [stepCompare]
    split
    · exact ⟨.load trivial trivial rfl fun _ => trivial, hidx⟩
    · exact hother _

/-- A compare-and-swap that expects a reusable slot. -/
theorem casFlags_eq (t : CounterTable) (idx : ℕ) (f : SlotFlags) :
    t.casFlags idx f .inserting =
      if (t.slots idx).flags = f then (true, t.setFlags idx .inserting) else (false, t) := rfl

/-- Every step does one of these things, and leads to a position in range. -/
theorem access_step (hg : t.Geometry) {pc : Pc} (hpc : pc.Valid t.numSlots) :
    Access c t pc (step c (t, pc)) ∧ (step c (t, pc)).2.Valid t.numSlots := by
  have hprobe := hg.probeIdx_lt (t.homeSlot c.keyHash)
  cases pc with
  | scan i candidate =>
    have hor : ∀ j ∈ candidate.or (some (t.probeIdx (t.homeSlot c.keyHash) i)), j < t.numSlots := by
      intro j hj
      cases candidate with
      | none => exact Option.some.inj hj ▸ hprobe i
      | some idx => exact hpc j hj
    simp only [step]
    cases hflags : (t.slots (t.probeIdx (t.homeSlot c.keyHash) i)).flags with
    | free => exact ⟨(looksOn_afterScan hor).access trivial rfl, (looksOn_afterScan hor).valid⟩
    | tombstone => exact ⟨(looksOn_nextScan hor).access trivial rfl, (looksOn_nextScan hor).valid⟩
    | inserting => exact ⟨(looksOn_nextScan hpc).access trivial rfl, (looksOn_nextScan hpc).valid⟩
    | occupied => exact ⟨.load trivial trivial rfl fun _ => hflags, hprobe i, hpc⟩
  | compare site idx load => exact access_compare hpc.1 hpc.2 load
  | reload idx =>
    simp only [step]
    split
    · rename_i hflags
      exact ⟨.load trivial trivial rfl fun _ => trivial, hpc, hflags⟩
    · exact ⟨.load trivial trivial rfl fun _ => trivial, trivial⟩
  | claim idx f retry =>
    have hnext : LooksOn t.numSlots (nextClaim idx f (retry + 1)) := looksOn_nextClaim hpc.1 hpc.2
    simp only [step, casFlags_eq]
    by_cases hflags : (t.slots idx).flags = f
    · simp only [if_pos hflags]
      exact ⟨.claim trivial rfl (hflags ▸ hpc.2), hpc.1⟩
    · simp only [if_neg hflags]
      split
      · rename_i hocc
        exact ⟨.load trivial trivial rfl fun _ => hocc, hpc⟩
      · exact ⟨hnext.access trivial rfl, hnext.valid⟩
  | countPacket idx => exact ⟨.countPacket idx, hpc⟩
  | countBytes idx => exact ⟨.countBytes idx, hpc⟩
  | stamp idx => exact ⟨.stamp idx, trivial⟩
  | alloc idx =>
    simp only [step]
    split
    · rename_i hfull
      exact ⟨.overflow idx rfl hfull, hpc⟩
    · rename_i hroom
      exact ⟨.reserve idx rfl (Nat.le_of_not_lt hroom), valid_nextCopy hpc⟩
  | unalloc idx => exact ⟨.unalloc idx rfl, hpc⟩
  | unclaim idx => exact ⟨.unclaim idx, trivial⟩
  | copy idx off k => exact ⟨.copy idx off k, valid_nextCopy hpc⟩
  | beginWrite idx off => exact ⟨.beginWrite idx off, hpc⟩
  | store idx off field =>
    refine ⟨.store idx off field, ?_⟩
    cases field <;> exact hpc
  | endWrite idx off => exact ⟨.endWrite idx off, hpc⟩
  | publish idx off => exact ⟨.publish idx off, trivial⟩
  | countSlot => exact ⟨.countSlot rfl, trivial⟩
  | fail => exact ⟨.fail, trivial⟩
  | noteFull =>
    have hnext : LooksOn t.numSlots (t.nextInspect 0 none 0xFFFFFFFFFFFFFFFF) :=
      looksOn_nextInspect fun _ h => nomatch h
    exact ⟨.noteFull hnext, hnext.valid⟩
  | inspect i victim minTick =>
    simp only [step]
    split
    · exact ⟨.load trivial trivial rfl fun _ => trivial, hpc⟩
    · have hnext : LooksOn t.numSlots (t.nextInspect (i + 1) victim minTick) := looksOn_nextInspect hpc
      exact ⟨hnext.access trivial rfl, hnext.valid⟩
  | age i victim minTick =>
    simp only [step]
    split
    · have hnext : LooksOn t.numSlots (t.nextInspect (i + 1)
          (some (t.probeIdx (t.homeSlot c.keyHash) i))
          (t.slots (t.probeIdx (t.homeSlot c.keyHash) i)).lastUpdate) :=
        looksOn_nextInspect fun j hj => Option.some.inj hj ▸ hprobe i
      exact ⟨hnext.access trivial rfl, hnext.valid⟩
    · have hnext : LooksOn t.numSlots (t.nextInspect (i + 1) victim minTick) := looksOn_nextInspect hpc
      exact ⟨hnext.access trivial rfl, hnext.valid⟩
  | beginEvict victim => exact ⟨.beginEvict victim, hpc⟩
  | recheck victim =>
    simp only [step]
    split
    · exact ⟨.load trivial trivial rfl fun _ => trivial, hpc⟩
    · exact ⟨.load trivial trivial rfl fun _ => trivial, hpc⟩
  | bury victim => exact ⟨.bury victim, hpc⟩
  | uncount victim => exact ⟨.uncount victim rfl, hpc⟩
  | endEvict victim ok =>
    have hnext : LooksOn t.numSlots (if ok then t.nextRescan 0 else .fail) := by
      cases ok with
      | false => exact ⟨trivial, rfl, fun _ _ => trivial, trivial⟩
      | true => exact looksOn_nextRescan
    exact ⟨.endEvict victim ok hnext, hnext.valid⟩
  | rescan i =>
    simp only [step]
    cases hflags : (t.slots (t.probeIdx (t.homeSlot c.keyHash) i)).flags with
    | free => exact ⟨.load trivial trivial rfl fun _ => trivial, Or.inl rfl⟩
    | tombstone => exact ⟨.load trivial trivial rfl fun _ => trivial, Or.inr rfl⟩
    | inserting => exact ⟨looksOn_nextRescan.access trivial rfl, looksOn_nextRescan.valid⟩
    | occupied => exact ⟨.load trivial trivial rfl fun _ => hflags, hprobe i, trivial⟩
  | reclaim i f =>
    simp only [step, casFlags_eq]
    by_cases hflags : (t.slots (t.probeIdx (t.homeSlot c.keyHash) i)).flags = f
    · simp only [if_pos hflags]
      exact ⟨.claim trivial rfl (hflags ▸ hpc), hprobe i⟩
    · simp only [if_neg hflags]
      exact ⟨looksOn_nextRescan.access trivial rfl, looksOn_nextRescan.valid⟩
  | returned ok => exact ⟨.returned ok, trivial⟩

/-! ### What one access changes -/

variable {t' : CounterTable} {pc pc' : Pc}

/-- One slot is modified. -/
theorem modifySlot_slots (t : CounterTable) (idx j : ℕ) (f : Slot → Slot) :
    (t.modifySlot idx f).slots j = if j = idx then f (t.slots idx) else t.slots j :=
  Function.update_apply ..

/-- One slot gets other flags. -/
theorem setFlags_slots (t : CounterTable) (idx j : ℕ) (f : SlotFlags) :
    (t.setFlags idx f).slots j = if j = idx then { t.slots idx with flags := f } else t.slots j :=
  Function.update_apply ..

/-- Only an access that stores the fields of a slot changes what refers to its key. -/
theorem keyRef_access (hacc : Access c t pc (t', pc')) {j : ℕ} (hj : ∀ off field, pc ≠ .store j off field) :
    (t'.slots j).keyRef = (t.slots j).keyRef := by
  have hmodify : ∀ (idx : ℕ) (f : Slot → Slot), (∀ slot, (f slot).keyRef = slot.keyRef) →
      ((t.modifySlot idx f).slots j).keyRef = (t.slots j).keyRef := by
    intro idx f hf
    rw [modifySlot_slots]
    split
    · rename_i heq
      rw [hf, heq]
    · rfl
  cases hacc with
  | store idx off field =>
    rw [modifySlot_slots, if_neg]
    exact fun heq => hj off field (by rw [heq])
  | claim => exact hmodify _ _ fun _ => rfl
  | countPacket => exact hmodify _ _ fun _ => rfl
  | countBytes => exact hmodify _ _ fun _ => rfl
  | stamp => exact hmodify _ _ fun _ => rfl
  | unclaim => exact hmodify _ _ fun _ => rfl
  | publish => exact hmodify _ _ fun _ => rfl
  | bury => exact hmodify _ _ fun _ => rfl
  | _ => rfl

/-- A change that leaves the flags of its slot leaves all flags. -/
theorem flags_modifySlot {idx : ℕ} {f : Slot → Slot} (hf : ∀ slot, (f slot).flags = slot.flags) (j : ℕ) :
    ((t.modifySlot idx f).slots j).flags = (t.slots j).flags := by
  rw [modifySlot_slots]
  split
  · rename_i heq
    rw [hf, heq]
  · rfl

/-- Only `publish` makes a slot occupied. -/
theorem occupied_access (hacc : Access c t pc (t', pc')) {j : ℕ}
    (hocc : (t'.slots j).flags = .occupied) :
    (t.slots j).flags = .occupied ∨ ∃ off, pc = .publish j off := by
  have hflags : ∀ {idx f}, ((t.setFlags idx f).slots j).flags = .occupied → f ≠ .occupied →
      (t.slots j).flags = .occupied := by
    intro idx f hocc hf
    rw [setFlags_slots] at hocc
    split at hocc
    · exact absurd hocc hf
    · exact hocc
  cases hacc with
  | publish idx off =>
    rw [setFlags_slots] at hocc
    split at hocc
    · rename_i heq
      exact Or.inr ⟨off, by rw [heq]⟩
    · exact Or.inl hocc
  | claim => exact Or.inl (hflags hocc nofun)
  | unclaim => exact Or.inl (hflags hocc nofun)
  | bury => exact Or.inl (hflags hocc nofun)
  | store idx off field =>
    rw [flags_modifySlot fun slot => slot.storeField_flags c off field] at hocc
    exact Or.inl hocc
  | countPacket => exact Or.inl ((flags_modifySlot (fun _ => by rfl) j).symm.trans hocc)
  | countBytes => exact Or.inl ((flags_modifySlot (fun _ => by rfl) j).symm.trans hocc)
  | stamp => exact Or.inl ((flags_modifySlot (fun _ => by rfl) j).symm.trans hocc)
  | _ => exact Or.inl hocc

/-- Only the bytes of the key that is copied change in the arena. -/
theorem arena_access (hacc : Access c t pc (t', pc')) : t'.keyArena = t.keyArena ∨
    ∃ idx off k, pc = .copy idx off k ∧
      t'.keyArena = t.keyArena.write (off + k) [c.key.bytes.getD k 0] := by
  cases hacc with
  | copy idx off k => exact Or.inr ⟨idx, off, k, rfl, rfl⟩
  | _ => exact Or.inl rfl

/-- A slot that an update has claimed is `INSERTING`, and was claimed before or could be. -/
theorem claimed_access (hacc : Access c t pc (t', pc'))
    (h : ∀ j, pc.claimed = some j → (t.slots j).flags = .inserting) {j : ℕ} (hj : pc'.claimed = some j) :
    (t'.slots j).flags = .inserting ∧ (pc.claimed = some j ∨ (t.slots j).flags.Reusable) := by
  cases hacc with
  | claim loads writing reusable =>
    cases hj
    rw [setFlags_slots, if_pos rfl]
    exact ⟨rfl, Or.inr reusable⟩
  | overflow idx => exact ⟨h j hj, Or.inl hj⟩
  | unalloc idx => exact ⟨h j hj, Or.inl hj⟩
  | beginWrite idx off => exact ⟨h j hj, Or.inl hj⟩
  | endWrite idx off => exact ⟨h j hj, Or.inl hj⟩
  | reserve idx =>
    rw [claimed_nextCopy] at hj
    exact ⟨h j hj, Or.inl hj⟩
  | copy idx off k =>
    rw [claimed_nextCopy] at hj
    exact ⟨h j hj, Or.inl hj⟩
  | store idx off field =>
    rw [claimed_nextStore] at hj
    rw [flags_modifySlot fun slot => slot.storeField_flags c off field]
    exact ⟨h j hj, Or.inl hj⟩
  | load loads looking => rw [looking.claimed_eq] at hj; cases hj
  | noteFull looksOn => rw [looksOn.looking.claimed_eq] at hj; cases hj
  | endEvict victim ok looksOn => rw [looksOn.looking.claimed_eq] at hj; cases hj
  | _ => cases hj

/-- A slot keeps its flags, unless it can be claimed, the update has claimed it or evicts it. -/
theorem flags_access (hacc : Access c t pc (t', pc')) {j : ℕ} (hclaimed : pc.claimed ≠ some j)
    (hbury : pc ≠ .bury j) (hfree : ¬ (t.slots j).flags.Reusable) :
    (t'.slots j).flags = (t.slots j).flags := by
  have hother : ∀ {idx f}, j ≠ idx → ((t.setFlags idx f).slots j).flags = (t.slots j).flags := by
    intro idx f hidx
    rw [setFlags_slots, if_neg hidx]
  cases hacc with
  | claim loads writing reusable => exact hother fun heq => hfree (heq ▸ reusable)
  | unclaim idx => exact hother fun heq => hclaimed (by rw [heq]; rfl)
  | publish idx off => exact hother fun heq => hclaimed (by rw [heq]; rfl)
  | bury victim => exact hother fun heq => hbury (by rw [heq])
  | store idx off field => exact flags_modifySlot (fun slot => slot.storeField_flags c off field) j
  | countPacket => exact flags_modifySlot (fun _ => by rfl) j
  | countBytes => exact flags_modifySlot (fun _ => by rfl) j
  | stamp => exact flags_modifySlot (fun _ => by rfl) j
  | _ => rfl

end CounterTable

end InFMon
