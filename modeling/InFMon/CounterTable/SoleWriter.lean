import InFMon.CounterTable.StepEffects

/-! # A table with one writer, between any two accesses

What holds at every position of an update when nobody else stores in the table: which slot is claimed,
how much of it is written, and that the arena holds the keys of the occupied slots below
`key_arena_used`. It is kept by every access, as long as the request to the arena does not wrap. -/

namespace InFMon

open MachineWord

/-! ### The key of a claimed slot -/

/-- The place of a field in the order in which an insertion stores the fields. -/
def SlotField.rank : SlotField → ℕ
  | .keyHash => 0
  | .packets => 1
  | .bytes => 2
  | .keyOffset => 3
  | .keyLen => 4
  | .lastUpdate => 5

/-- The next field has the next rank. -/
theorem SlotField.rank_next {field next : SlotField} (h : field.next = some next) :
    next.rank = field.rank + 1 := by
  cases field <;> cases h <;> rfl

/-- The last field has the highest rank. -/
theorem SlotField.rank_of_last {field : SlotField} (h : field.next = none) (g : SlotField) :
    g.rank ≤ field.rank := by
  cases field <;> cases h
  cases g <;> decide

/-- Fields have different ranks. -/
theorem SlotField.rank_injective {f g : SlotField} (h : f.rank = g.rank) : f = g := by
  cases f <;> cases g <;> first | rfl | cases h

/-- The field belongs to the key of the slot, and is the one that the insertion stores. The counters may
move on as soon as they are stored. -/
def SlotField.Holds (slot : Slot) (c : UpdateCall) (off : ℕ) : SlotField → Prop
  | .keyHash => slot.keyHash = c.keyHash
  | .keyOffset => slot.keyOffset = off
  | .keyLen => slot.keyLen = c.key.len
  | .packets | .bytes | .lastUpdate => True

/-- A stored field stays as it is when the next ones are stored. -/
theorem SlotField.holds_storeField {slot : Slot} {c : UpdateCall} {off : ℕ} (f g : SlotField) :
    f.Holds (slot.storeField c off g) c off ↔ f = g ∨ f.Holds slot c off := by
  cases f <;> cases g <;> simp [Holds, Slot.storeField]

namespace Pc

/-- The claimed slot and the offset of its key, once the arena has made room for it. -/
def placed : Pc → Option (ℕ × ℕ)
  | .copy idx off _ | .beginWrite idx off | .store idx off _ | .endWrite idx off | .publish idx off =>
    some (idx, off)
  | _ => none

/-- How many fields of the claimed slot are stored. -/
def stored : Pc → ℕ
  | .store _ _ field => field.rank
  | .endWrite .. | .publish .. => 6
  | _ => 0

/-- How many bytes of the key are copied. -/
def copied (key : Key) : Pc → ℕ
  | .copy _ _ k => k
  | .beginWrite .. | .store .. | .endWrite .. | .publish .. => key.len
  | _ => 0

/-- A thread that looks for a slot has placed no key. -/
theorem Looking.placed_eq {pc : Pc} (h : pc.Looking) : pc.placed = none := by
  cases pc <;> first | rfl | exact h.elim

/-- Where a key is placed, the slot is claimed. -/
theorem claimed_of_placed {pc : Pc} {idx off : ℕ} (h : pc.placed = some (idx, off)) :
    pc.claimed = some idx := by
  cases pc <;> cases h <;> rfl

end Pc

namespace CounterTable

variable {t : CounterTable} {c : UpdateCall} {pc : Pc}

/-- How far the insertion of a key has come in its slot and in the arena. -/
structure Placed (c : UpdateCall) (t : CounterTable) (pc : Pc) (idx off : ℕ) : Prop where
  fields : ∀ f : SlotField, f.rank < pc.stored → f.Holds (t.slots idx) c off
  bytes : ∀ i < pc.copied c.key, t.keyArena (off + i) = c.key.bytes.getD i 0
  copying : ∀ k, pc = .copy idx off k → k < c.key.len

/-- Behind a byte of the key the slot and the offset are the same, if there is an offset at all. -/
theorem placed_of_nextCopy {key : Key} {idx off k idx' off' : ℕ}
    (h : (nextCopy key idx off k).placed = some (idx', off')) : idx' = idx ∧ off' = off := by
  rw [nextCopy] at h
  split at h
  · cases h
    exact ⟨rfl, rfl⟩
  · split at h
    · cases h
    · cases h
      exact ⟨rfl, rfl⟩

/-- The bytes that are copied stay placed for the next one. -/
theorem placed_nextCopy {idx off k : ℕ} (hk : k ≤ c.key.len)
    (hbytes : ∀ i < k, t.keyArena (off + i) = c.key.bytes.getD i 0) :
    Placed c t (nextCopy c.key idx off k) idx off := by
  rw [nextCopy]
  by_cases hlt : k < c.key.len
  · rw [if_pos hlt]
    exact ⟨fun f hf => absurd hf (Nat.not_lt_zero _), hbytes, fun k h => by cases h; exact hlt⟩
  · obtain rfl : k = c.key.len := by omega
    rw [if_neg hlt]
    split
    · exact ⟨fun f hf => absurd hf (Nat.not_lt_zero _), fun i hi => absurd hi (Nat.not_lt_zero _),
        fun k h => by cases h⟩
    · exact ⟨fun f hf => absurd hf (Nat.not_lt_zero _), hbytes, fun k h => by cases h⟩

/-- Behind a field the slot and the offset are the same. -/
theorem placed_nextStore (idx off : ℕ) (field : SlotField) :
    (nextStore idx off field).placed = some (idx, off) := by
  cases field <;> rfl

/-- Behind a field it and the fields before it are stored. -/
theorem rank_le_of_nextStore {idx off : ℕ} {field f : SlotField}
    (hf : f.rank < (nextStore idx off field).stored) : f.rank ≤ field.rank := by
  cases hnext : field.next with
  | none => exact SlotField.rank_of_last hnext f
  | some next =>
    rw [nextStore, hnext] at hf
    change f.rank < next.rank at hf
    rw [SlotField.rank_next hnext] at hf
    exact Nat.lt_succ_iff.mp hf

/-- Storing a field. -/
theorem Placed.store {idx off : ℕ} {field : SlotField} (h : Placed c t (.store idx off field) idx off) :
    Placed c (t.modifySlot idx fun slot => slot.storeField c off field) (nextStore idx off field) idx
      off where
  fields f hf := by
    simp only [modifySlot, Function.update_self]
    rw [SlotField.holds_storeField]
    rcases Nat.lt_or_eq_of_le (rank_le_of_nextStore hf) with hlt | heq
    · exact Or.inr (h.fields f hlt)
    · exact Or.inl (SlotField.rank_injective heq)
  bytes := by
    have hcopied : (nextStore idx off field).copied c.key = c.key.len := by cases field <;> rfl
    rw [hcopied]
    exact h.bytes
  copying k h := by cases field <;> cases h

/-- Every access keeps what the insertion has done so far. -/
theorem placed_access {s : CounterTable × Pc} (hacc : Access c t pc s)
    (h : ∀ idx off, pc.placed = some (idx, off) → Placed c t pc idx off) :
    ∀ idx off, s.2.placed = some (idx, off) → Placed c s.1 s.2 idx off := by
  intro idx off hplaced
  cases hacc with
  | load loads looking => rw [looking.placed_eq] at hplaced; cases hplaced
  | claim | countPacket | countBytes | stamp | overflow | unalloc | unclaim | publish | countSlot | fail
  | beginEvict | bury | uncount | returned => cases hplaced
  | noteFull looksOn | endEvict _ _ looksOn =>
    rw [looksOn.looking.placed_eq] at hplaced
    cases hplaced
  | reserve j used_eq room =>
    obtain ⟨rfl, rfl⟩ := placed_of_nextCopy hplaced
    exact placed_nextCopy (Nat.zero_le _) fun i hi => absurd hi (Nat.not_lt_zero _)
  | copy j o k =>
    obtain ⟨rfl, rfl⟩ := placed_of_nextCopy hplaced
    obtain ⟨-, hbytes, hcopying⟩ := h idx off rfl
    -- byte `k` is written now, the bytes before it stand
    refine placed_nextCopy (hcopying k rfl) fun i hi => ?_
    change t.keyArena.write (off + k) [c.key.bytes.getD k 0] (off + i) = _
    rw [ByteMemory.write_singleton]
    rcases Nat.lt_succ_iff_lt_or_eq.mp hi with hlt | rfl
    · rw [Function.update_of_ne (by omega)]
      exact hbytes i hlt
    · exact Function.update_self ..
  | beginWrite j o =>
    cases hplaced
    exact ⟨fun f hf => absurd hf (Nat.not_lt_zero _), (h idx off rfl).bytes, nofun⟩
  | store j o field =>
    have hsame := (placed_nextStore j o field).symm.trans hplaced
    cases hsame
    exact (h idx off rfl).store
  | endWrite j o =>
    cases hplaced
    exact ⟨(h idx off rfl).fields, (h idx off rfl).bytes, nofun⟩

/-! ### The invariant -/

/-- `key_arena_used` without a request that was too large and is rolled back next. -/
def settledUsed (c : UpdateCall) (t : CounterTable) : Pc → ℕ
  | .unalloc _ => sub32 t.keyArenaUsed c.key.len
  | _ => t.keyArenaUsed

/-- The table and the position of its only writer. -/
structure SoleWriter (c : UpdateCall) (t : CounterTable) (pc : Pc) : Prop extends t.Geometry where
  valid : pc.Valid t.numSlots
  compares : Compares c t pc
  placed : ∀ idx off, pc.placed = some (idx, off) → Placed c t pc idx off
  inserting : ∀ j < t.numSlots, (t.slots j).flags = .inserting ↔ pc.claimed = some j
  stored : ∀ j < t.numSlots, (t.slots j).flags = .occupied →
    (t.slots j).keyOffset + (t.slots j).keyLen ≤ settledUsed c t pc
  within : ∀ idx off, pc.placed = some (idx, off) → off + c.key.len ≤ t.keyArenaUsed
  used_le : settledUsed c t pc ≤ t.keyArenaCapacity

/-- The request to the arena, if the next access is one, does not wrap. -/
def Fits (c : UpdateCall) : CounterTable × Pc → Prop
  | (t, .alloc _) => t.keyArenaUsed + c.key.len ≤ max32
  | _ => True


/-! ### Accesses that leave the keys alone -/

/-- The tables differ in nothing that has to do with the keys of slots. -/
structure SameKeys (t t' : CounterTable) : Prop where
  shape : t'.shape = t.shape
  flags : ∀ j, (t'.slots j).flags = (t.slots j).flags
  keyHash : ∀ j, (t'.slots j).keyHash = (t.slots j).keyHash
  keyOffset : ∀ j, (t'.slots j).keyOffset = (t.slots j).keyOffset
  keyLen : ∀ j, (t'.slots j).keyLen = (t.slots j).keyLen

/-- With the same slots the keys are the same. -/
theorem sameKeys_of_slots {t' : CounterTable} (hshape : t'.shape = t.shape)
    (hslots : t'.slots = t.slots) : SameKeys t t' := by
  refine ⟨hshape, ?_, ?_, ?_, ?_⟩ <;> exact fun j => by rw [hslots]

/-- What a slot has to do with its key. -/
def keyFields (slot : Slot) : SlotFlags × UInt64 × ℕ × ℕ :=
  (slot.flags, slot.keyHash, slot.keyOffset, slot.keyLen)

/-- A slot is changed in its counters only. -/
theorem sameKeys_modifySlot {idx : ℕ} {f : Slot → Slot}
    (hf : ∀ slot, keyFields (f slot) = keyFields slot) : SameKeys t (t.modifySlot idx f) := by
  have hslot : ∀ j, keyFields ((t.modifySlot idx f).slots j) = keyFields (t.slots j) := by
    intro j
    rw [modifySlot_slots]
    split
    · rename_i hj
      rw [hf, hj]
    · rfl
  exact ⟨rfl, fun j => congrArg (·.1) (hslot j), fun j => congrArg (·.2.1) (hslot j),
    fun j => congrArg (·.2.2.1) (hslot j), fun j => congrArg (·.2.2.2) (hslot j)⟩

/-- An access that leaves the keys alone, and the claimed slot claimed. -/
theorem SoleWriter.frame (h : SoleWriter c t pc) {t' : CounterTable} {pc' : Pc}
    (hsame : SameKeys t t') (hvalid : pc'.Valid t'.numSlots)
    (hplaced : ∀ idx off, pc'.placed = some (idx, off) → Placed c t' pc' idx off)
    (hcompares : Compares c t' pc') (hclaimed : pc'.claimed = pc.claimed)
    (hwithin : ∀ idx off, pc'.placed = some (idx, off) → off + c.key.len ≤ t'.keyArenaUsed)
    (hsettled : settledUsed c t' pc' = settledUsed c t pc) : SoleWriter c t' pc' := by
  have hn : t'.numSlots = t.numSlots := congrArg Prod.fst hsame.shape
  have hcap : t'.keyArenaCapacity = t.keyArenaCapacity := congrArg (·.2.2.1) hsame.shape
  refine { toGeometry := h.of_shape hsame.shape, valid := hvalid, compares := hcompares,
           placed := hplaced, within := hwithin, inserting := ?_, stored := ?_, used_le := ?_ }
  · intro j hj
    rw [hsame.flags, hclaimed]
    exact h.inserting j (hn ▸ hj)
  · intro j hj hocc
    rw [hsame.keyOffset, hsame.keyLen, hsettled]
    rw [hsame.flags] at hocc
    exact h.stored j (hn ▸ hj) hocc
  · rw [hsettled, hcap]
    exact h.used_le

/-- An access that leaves the keys alone when no slot is claimed. -/
theorem SoleWriter.quiet (h : SoleWriter c t pc) {t' : CounterTable} {pc' : Pc}
    (hsame : SameKeys t t') (hused : t'.keyArenaUsed = t.keyArenaUsed) (hvalid : pc'.Valid t'.numSlots)
    (hcompares : Compares c t' pc') (hclaimed : pc.claimed = none) (hclaimed' : pc'.claimed = none) :
    SoleWriter c t' pc' := by
  have hnone : ∀ {idx off}, pc'.placed ≠ some (idx, off) := by
    intro idx off hplaced
    rw [Pc.claimed_of_placed hplaced] at hclaimed'
    cases hclaimed'
  have hsettled : ∀ {t : CounterTable} {pc : Pc}, pc.claimed = none →
      settledUsed c t pc = t.keyArenaUsed := by
    intro t pc hnone
    cases pc <;> first | rfl | cases hnone
  exact h.frame hsame hvalid (fun idx off hplaced => absurd hplaced hnone) hcompares
    (hclaimed'.trans hclaimed.symm) (fun idx off hplaced => absurd hplaced hnone)
    (by rw [hsettled hclaimed, hsettled hclaimed', hused])

/-! ### Accesses that store flags -/

/-- Storing flags keeps what is true of a sole writer. -/
theorem SoleWriter.storeFlags (h : SoleWriter c t pc) {idx : ℕ} {f : SlotFlags} {pc' : Pc}
    (hvalid : pc'.Valid t.numSlots)
    (hcompares : Compares c (t.setFlags idx f) pc')
    (hclaimed : ∀ j, pc'.claimed = some j ↔ if j = idx then f = .inserting else pc.claimed = some j)
    (hnone : pc'.placed = none)
    (hocc : f = .occupied → (t.slots idx).keyOffset + (t.slots idx).keyLen ≤ settledUsed c t pc)
    (hsettled : settledUsed c (t.setFlags idx f) pc' = settledUsed c t pc) :
    SoleWriter c (t.setFlags idx f) pc' where
  toGeometry := ⟨h.pow, h.mask, h.capacity⟩
  valid := hvalid
  compares := hcompares
  placed i off hplaced' := by rw [hnone] at hplaced'; cases hplaced'
  inserting j hj := by
    rw [hclaimed, setFlags_slots]
    split
    · rfl
    · exact h.inserting j hj
  stored j hj := by
    rw [setFlags_slots, hsettled]
    split
    · exact hocc
    · exact h.stored j hj
  within i off hplaced' := by rw [hnone] at hplaced'; cases hplaced'
  used_le := hsettled.trans_le h.used_le

/-! ### One access -/

/-- While a slot is looked for, all of the arena that is used is settled. -/
theorem settledUsed_of_looking (h : pc.Looking) : settledUsed c t pc = t.keyArenaUsed := by
  cases pc <;> first | rfl | exact h.elim

/-- While a key is copied, the arena counts as used. -/
theorem settledUsed_nextCopy (key : Key) (idx off k : ℕ) :
    settledUsed c t (nextCopy key idx off k) = t.keyArenaUsed := by
  rw [nextCopy]
  split
  · rfl
  · split <;> rfl

/-- Copying a key compares nothing. -/
theorem compares_nextCopy (key : Key) (idx off k : ℕ) : Compares c t (nextCopy key idx off k) := by
  rw [nextCopy]
  split
  · trivial
  · split <;> trivial

/-- The only writer of a table keeps its invariant with every access, unless a request to the arena
wraps. -/
theorem SoleWriter.access (h : SoleWriter c t pc) (hfits : Fits c (t, pc)) :
    SoleWriter c (step c (t, pc)).1 (step c (t, pc)).2 := by
  obtain ⟨hacc, hvalid⟩ := access_step (c := c) h.toGeometry h.valid
  have hplaced := placed_access hacc h.placed
  generalize step c (t, pc) = s at hacc hvalid hplaced ⊢
  obtain ⟨t', pc'⟩ := s
  simp only at hvalid hplaced ⊢
  cases hacc with
  | load loads looking writing compares =>
    exact h.quiet (sameKeys_of_slots rfl rfl) rfl hvalid (compares h.compares) loads.looking.claimed_eq
      looking.claimed_eq
  | countPacket idx => exact h.quiet (sameKeys_modifySlot fun _ => by rfl) rfl hvalid trivial rfl rfl
  | countBytes idx => exact h.quiet (sameKeys_modifySlot fun _ => by rfl) rfl hvalid trivial rfl rfl
  | stamp idx => exact h.quiet (sameKeys_modifySlot fun _ => by rfl) rfl hvalid trivial rfl rfl
  | countSlot count_eq => exact h.quiet (sameKeys_of_slots rfl rfl) rfl hvalid trivial rfl rfl
  | fail => exact h.quiet (sameKeys_of_slots rfl rfl) rfl hvalid trivial rfl rfl
  | noteFull looksOn =>
    exact h.quiet (sameKeys_of_slots rfl rfl) rfl hvalid (looksOn.compares _ _) rfl
      looksOn.looking.claimed_eq
  | beginEvict victim => exact h.quiet (sameKeys_of_slots rfl rfl) rfl hvalid trivial rfl rfl
  | uncount victim count_eq => exact h.quiet (sameKeys_of_slots rfl rfl) rfl hvalid trivial rfl rfl
  | endEvict victim ok looksOn =>
    exact h.quiet (sameKeys_of_slots rfl rfl) rfl hvalid (looksOn.compares _ _) rfl
      looksOn.looking.claimed_eq
  | returned ok => exact h
  | claim loads writing reusable =>
    refine h.storeFlags hvalid trivial (fun j => ?_) rfl nofun
      (settledUsed_of_looking loads.looking).symm
    rw [loads.looking.claimed_eq]
    split
    · rename_i hj
      exact iff_of_true (congrArg some hj.symm) rfl
    · rename_i hj
      exact iff_of_false (fun heq => hj (Option.some.inj heq).symm) nofun
  | unclaim idx =>
    refine h.storeFlags hvalid trivial (fun j => ?_) rfl nofun rfl
    split
    · exact iff_of_false nofun nofun
    · rename_i hj
      exact iff_of_false nofun fun heq => hj (Option.some.inj heq).symm
  | publish idx off =>
    have hkey := (h.placed idx off rfl).fields
    have hend := h.within idx off rfl
    refine h.storeFlags hvalid trivial (fun j => ?_) rfl (fun _ => ?_) rfl
    · split
      · exact iff_of_false nofun nofun
      · rename_i hj
        exact iff_of_false nofun fun heq => hj (Option.some.inj heq).symm
    · rw [hkey .keyOffset (Nat.lt_of_sub_eq_succ rfl), hkey .keyLen (Nat.lt_of_sub_eq_succ rfl)]
      exact hend
  | bury victim =>
    refine h.storeFlags hvalid trivial (fun j => ?_) rfl nofun rfl
    split
    · exact iff_of_false nofun nofun
    · exact Iff.rfl
  | overflow idx used_eq full =>
    have hused : t.keyArenaUsed ≤ max32 := h.used_le.trans h.capacity
    have hsettled := sub32_u32_add hused (key_len_le c.key)
    rw [← used_eq] at hsettled
    exact h.frame (sameKeys_of_slots rfl rfl) hvalid hplaced trivial rfl nofun hsettled
  | @reserve idx used used_eq room =>
    rw [u32_of_le hfits] at used_eq
    have hnone : (nextCopy c.key idx t.keyArenaUsed 0).claimed = some idx := claimed_nextCopy ..
    have hle : settledUsed c t (.alloc idx) ≤ used := by
      rw [used_eq]
      exact Nat.le_add_right ..
    refine { toGeometry := ⟨h.pow, h.mask, h.capacity⟩, valid := hvalid, compares := compares_nextCopy ..,
             placed := hplaced, inserting := ?_, stored := ?_, within := ?_, used_le := ?_ }
    · rw [hnone]
      exact h.inserting
    · rw [settledUsed_nextCopy]
      exact fun j hj hocc => (h.stored j hj hocc).trans hle
    · intro i off hplace
      obtain ⟨-, rfl⟩ := placed_of_nextCopy hplace
      exact used_eq.ge
    · rw [settledUsed_nextCopy]
      exact room
  | unalloc idx used_eq =>
    exact h.frame (sameKeys_of_slots rfl rfl) hvalid hplaced trivial rfl nofun used_eq
  | copy idx off k =>
    refine h.frame (sameKeys_of_slots rfl rfl) hvalid hplaced (compares_nextCopy ..)
      (claimed_nextCopy ..) (fun i o hplace => ?_) (settledUsed_nextCopy ..)
    obtain ⟨-, rfl⟩ := placed_of_nextCopy hplace
    exact h.within idx o rfl
  | beginWrite idx off => exact h.frame (sameKeys_of_slots rfl rfl) hvalid hplaced trivial rfl h.within rfl
  | store idx off field =>
    have hclaimed := claimed_nextStore idx off field
    have hsettled : settledUsed c (t.modifySlot idx fun slot => slot.storeField c off field)
        (nextStore idx off field) = t.keyArenaUsed := by cases field <;> rfl
    have hbusy : (t.slots idx).flags = .inserting := (h.inserting idx h.valid).mpr rfl
    have hcompares : ∀ t, Compares c t (nextStore idx off field) := by
      intro t
      cases field <;> trivial
    refine { toGeometry := ⟨h.pow, h.mask, h.capacity⟩, valid := hvalid, compares := hcompares _,
             placed := hplaced, inserting := ?_, stored := ?_, within := ?_, used_le := ?_ }
    · intro j hj
      rw [hclaimed, modifySlot_slots]
      split
      · rename_i hj
        rw [Slot.storeField_flags, hj]
        exact iff_of_true hbusy rfl
      · exact h.inserting j hj
    · intro j hj
      rw [hsettled, modifySlot_slots]
      split
      · -- the claimed slot is not occupied yet
        rw [Slot.storeField_flags, hbusy]
        nofun
      · exact h.stored j hj
    · intro i o hplace
      have hsame := (placed_nextStore idx off field).symm.trans hplace
      cases hsame
      exact h.within idx off rfl
    · exact hsettled.trans_le h.used_le
  | endWrite idx off => exact h.frame (sameKeys_of_slots rfl rfl) hvalid hplaced trivial rfl h.within rfl

/-! ### Between two calls -/

/-- A call on a settled table starts as the sole writer. -/
theorem Settled.soleWriter (h : t.Settled) (c : UpdateCall) : SoleWriter c t t.start := by
  have hstart := looksOn_start (t := t)
  exact
    { toGeometry := h.toGeometry
      valid := hstart.valid
      compares := hstart.compares c t
      placed := fun idx off hplaced => by
        rw [hstart.looking.placed_eq] at hplaced
        cases hplaced
      inserting := fun j hj => by
        rw [hstart.looking.claimed_eq]
        exact iff_of_false (h.noInserting j hj) nofun
      stored := by
        rw [settledUsed_of_looking hstart.looking]
        exact h.stored
      within := fun idx off hplaced => by
        rw [hstart.looking.placed_eq] at hplaced
        cases hplaced
      used_le := by
        rw [settledUsed_of_looking hstart.looking]
        exact h.used_le }

/-- When the sole writer has returned, the table is settled. -/
theorem SoleWriter.settled {ok : Bool} (h : SoleWriter c t (.returned ok)) : t.Settled where
  toGeometry := h.toGeometry
  noInserting j hj := fun hbusy => by cases (h.inserting j hj).mp hbusy
  stored := h.stored
  used_le := h.used_le

/-- On a settled table a call may have returned. -/
theorem Settled.returned (h : t.Settled) (c : UpdateCall) (ok : Bool) :
    SoleWriter c t (.returned ok) where
  toGeometry := h.toGeometry
  valid := trivial
  compares := trivial
  placed := nofun
  inserting j hj := iff_of_false (h.noInserting j hj) nofun
  stored := h.stored
  within := nofun
  used_le := h.used_le

end CounterTable

end InFMon
