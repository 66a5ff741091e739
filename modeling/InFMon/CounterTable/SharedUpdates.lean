import InFMon.CounterTable.SoleWriter
import InFMon.Foundations.Runs
import Mathlib.Data.Fintype.Basic

/-! # Several threads update one table

Any number of threads call `infmon_counter_table_update` on the same table, and take their accesses in
any order. Nothing keeps two of them from storing the same key in two slots, from counting a packet in a
slot that was evicted meanwhile, from evicting a slot that is being filled, or from getting the same
stretch of the arena. As long as no access does one of these things, every slot that is claimed has one
owner, and the keys that are stored or being stored are different and lie apart in the arena. -/

namespace InFMon

open MachineWord

/-- The slot that an update fills, once it has stored the first packet there. -/
def Pc.filling : Pc → Option ℕ
  | .store idx _ field => if SlotField.packets.rank < field.rank then some idx else none
  | .endWrite idx _ | .publish idx _ => some idx
  | _ => none

/-- A table and the threads that update it. The calls made so far and the packets in the slots that were
evicted are counted beside it. -/
structure SharedTable (W : Type) where
  table : CounterTable
  call : W → UpdateCall
  pc : W → Pc
  performed : ℕ
  evicted : ℕ

/-- A thread starts a call, or takes the next access of the call it is in. -/
inductive ThreadEvent (W : Type) where
  | call (w : W) (c : UpdateCall)
  | access (w : W)

namespace SharedTable

open CounterTable

variable {W : Type}

/-- A table before any call. -/
def ofTable (t : CounterTable) : SharedTable W where
  table := t
  call := fun _ => ⟨0, .empty, 0, 0⟩
  pc := fun _ => .returned true
  performed := 0
  evicted := 0

/-- The packets in the slot that the next access of a thread evicts. -/
def buried (s : SharedTable W) (w : W) : ℕ :=
  match s.pc w with
  | .bury victim => (s.table.slots victim).packets.toNat
  | _ => 0

/-- A thread takes the next access of its call. -/
def access [DecidableEq W] (s : SharedTable W) (w : W) : SharedTable W :=
  let (table, pc) := CounterTable.step (s.call w) (s.table, s.pc w)
  { s with
    table := table
    pc := Function.update s.pc w pc
    evicted := s.evicted + s.buried w }

/-- One event. A thread that is in a call does not start another one. -/
def step [DecidableEq W] (s : SharedTable W) : ThreadEvent W → SharedTable W
  | .call w c =>
    match s.pc w with
    | .returned _ =>
      { s with
        call := Function.update s.call w c
        pc := Function.update s.pc w s.table.start
        performed := s.performed + 1 }
    | _ => s
  | .access w => s.access w

/-- No update is in progress. -/
def Idle (s : SharedTable W) : Prop := ∀ w, ∃ ok, s.pc w = .returned ok

/-- When no update is in progress, no key is in two occupied slots, `occupied_count` is the number of
occupied slots, and every call is accounted for once. -/
def Consistent (s : SharedTable W) : Prop :=
  s.Idle →
    (∀ i < s.table.numSlots, ∀ j < s.table.numSlots, (s.table.slots i).flags = .occupied →
      (s.table.slots j).flags = .occupied →
      s.table.key (s.table.slots i) = s.table.key (s.table.slots j) → i = j) ∧
    s.table.occupiedCount = held (fun _ => 1) s.table ∧
    held slotPackets s.table + s.evicted + s.table.insertFailed.toNat = s.performed

/-! ### What goes wrong, and when it does not -/

/-- A slot has a key in the arena: it is occupied, or a thread is filling it. -/
inductive Keeps (s : SharedTable W) : ℕ → ℕ → List UInt8 → Prop
  | occupied {j : ℕ} (hj : j < s.table.numSlots) (hocc : (s.table.slots j).flags = .occupied) :
    Keeps s j (s.table.slots j).keyOffset
      (s.table.keyArena.read (s.table.slots j).keyOffset (s.table.slots j).keyLen)
  | filling {w : W} {idx off : ℕ} (h : (s.pc w).placed = some (idx, off)) :
    Keeps s idx off (s.call w).key.bytes

/-- Two stretches of the arena have no byte in common. -/
def Apart (off len off' len' : ℕ) : Prop := ∀ i < len, ∀ i' < len', off + i ≠ off' + i'

/-- The packets of a slot count: it is occupied, or its first packet is stored and it will be. -/
def Counts (s : SharedTable W) (idx : ℕ) : Prop :=
  (s.table.slots idx).flags = .occupied ∨ ∃ w, (s.pc w).filling = some idx

/-- The next access of a thread is not disturbed by what others have done.
- A request to the arena that is granted lies inside it, apart from the keys that slots have, and the key
  of the call is none of these.
- The slot that is evicted is occupied.
- A packet is counted in a slot whose packets count, and the counter does not wrap.
- The counter of failed insertions does not wrap. -/
def Undisturbed (s : SharedTable W) : ThreadEvent W → Prop
  | .call _ _ => True
  | .access w =>
    match s.pc w with
    | .alloc _ =>
      u32 (s.table.keyArenaUsed + (s.call w).key.len) ≤ s.table.keyArenaCapacity →
        s.table.keyArenaUsed + (s.call w).key.len ≤ s.table.keyArenaCapacity ∧
          ∀ j off bytes, s.Keeps j off bytes → bytes ≠ (s.call w).key.bytes ∧
            Apart off bytes.length s.table.keyArenaUsed (s.call w).key.len
    | .bury victim => (s.table.slots victim).flags = .occupied
    | .countPacket idx => s.Counts idx ∧ (s.table.slots idx).packets.toNat + 1 < 2 ^ 64
    | .fail => s.table.insertFailed.toNat + 1 < 2 ^ 64
    | _ => True

variable {s : SharedTable W} {w : W}

/-- The victim of an undisturbed eviction is still occupied. -/
theorem Undisturbed.bury (h : s.Undisturbed (.access w)) {victim : ℕ} (hpc : s.pc w = .bury victim) :
    (s.table.slots victim).flags = .occupied := by
  simpa only [Undisturbed, hpc] using h

/-- A packet is counted undisturbed in a slot that counts and has not come to its end. -/
theorem Undisturbed.countPacket (h : s.Undisturbed (.access w)) {idx : ℕ}
    (hpc : s.pc w = .countPacket idx) :
    s.Counts idx ∧ (s.table.slots idx).packets.toNat + 1 < 2 ^ 64 := by
  simpa only [Undisturbed, hpc] using h

/-- An undisturbed failure does not bring its counter to its end. -/
theorem Undisturbed.fail (h : s.Undisturbed (.access w)) (hpc : s.pc w = .fail) :
    s.table.insertFailed.toNat + 1 < 2 ^ 64 := by
  simpa only [Undisturbed, hpc] using h

/-- A request to the arena that is granted. -/
theorem Undisturbed.alloc (h : s.Undisturbed (.access w)) {idx : ℕ} (hpc : s.pc w = .alloc idx)
    (hroom : u32 (s.table.keyArenaUsed + (s.call w).key.len) ≤ s.table.keyArenaCapacity) :
    s.table.keyArenaUsed + (s.call w).key.len ≤ s.table.keyArenaCapacity ∧
      ∀ j off bytes, s.Keeps j off bytes → bytes ≠ (s.call w).key.bytes ∧
        Apart off bytes.length s.table.keyArenaUsed (s.call w).key.len := by
  simp only [Undisturbed, hpc] at h
  exact h hroom

section Decidable

/-- All keys that are kept: those of occupied slots and those of threads that have placed one. -/
theorem forall_keeps {Q : ℕ → List UInt8 → Prop} :
    (∀ j off bytes, s.Keeps j off bytes → Q off bytes) ↔
      (∀ j < s.table.numSlots, (s.table.slots j).flags = .occupied → Q (s.table.slots j).keyOffset
        (s.table.keyArena.read (s.table.slots j).keyOffset (s.table.slots j).keyLen)) ∧
      ∀ w, ∀ place ∈ (s.pc w).placed, Q place.2 (s.call w).key.bytes := by
  constructor
  · intro h
    exact ⟨fun j hj hocc => h j _ _ (.occupied hj hocc), fun _ _ hplaced => h _ _ _ (.filling hplaced)⟩
  · rintro ⟨hoccupied, hfilling⟩ j off bytes hkeeps
    cases hkeeps with
    | occupied hj hocc => exact hoccupied j hj hocc
    | @filling w _ _ hplaced => exact hfilling w _ hplaced

instance (off len off' len' : ℕ) : Decidable (Apart off len off' len') :=
  inferInstanceAs (Decidable (∀ i < len, ∀ i' < len', off + i ≠ off' + i'))

variable [Fintype W]

instance (idx : ℕ) : Decidable (s.Counts idx) :=
  inferInstanceAs (Decidable (_ ∨ ∃ w, (s.pc w).filling = some idx))

instance : (e : ThreadEvent W) → Decidable (s.Undisturbed e)
  | .call _ _ => isTrue trivial
  | .access w =>
    match hpc : s.pc w with
    | .alloc idx =>
      decidable_of_iff (u32 (s.table.keyArenaUsed + (s.call w).key.len) ≤ s.table.keyArenaCapacity →
        s.table.keyArenaUsed + (s.call w).key.len ≤ s.table.keyArenaCapacity ∧ _ ∧ _)
        (by simp only [Undisturbed, hpc, forall_keeps]; exact Iff.rfl)
    | .bury victim =>
      decidable_of_iff ((s.table.slots victim).flags = .occupied) (by simp only [Undisturbed, hpc])
    | .countPacket idx =>
      decidable_of_iff (s.Counts idx ∧ (s.table.slots idx).packets.toNat + 1 < 2 ^ 64)
        (by simp only [Undisturbed, hpc])
    | .fail => decidable_of_iff (s.table.insertFailed.toNat + 1 < 2 ^ 64) (by simp only [Undisturbed, hpc])
    | .scan .. | .compare .. | .reload _ | .claim .. | .countBytes _ | .stamp _ | .unalloc _ | .unclaim _
    | .copy .. | .beginWrite .. | .store .. | .endWrite .. | .publish .. | .countSlot | .noteFull
    | .inspect .. | .age .. | .beginEvict _ | .recheck _ | .uncount _ | .endEvict .. | .rescan _
    | .reclaim .. | .returned _ => isTrue (by simp only [Undisturbed, hpc])

end Decidable

/-! ### One owner for every claimed slot -/

/-- The table and its threads between any two accesses that are not disturbed. -/
structure Owned (s : SharedTable W) : Prop extends s.table.Geometry where
  valid : ∀ w, (s.pc w).Valid s.table.numSlots
  claimed : ∀ w j, (s.pc w).claimed = some j → (s.table.slots j).flags = .inserting
  unique : ∀ v w j, (s.pc v).claimed = some j → (s.pc w).claimed = some j → v = w
  placed : ∀ w idx off, (s.pc w).placed = some (idx, off) →
    Placed (s.call w) s.table (s.pc w) idx off
  inside : ∀ j off bytes, s.Keeps j off bytes → off + bytes.length ≤ s.table.keyArenaCapacity
  apart : ∀ j off bytes j' off' bytes', s.Keeps j off bytes → s.Keeps j' off' bytes' → j ≠ j' →
    bytes ≠ bytes' ∧ Apart off bytes.length off' bytes'.length

section

variable [DecidableEq W]

/-- An access of a thread is one of its call. -/
theorem Owned.access_step (h : s.Owned) (w : W) :
    Access (s.call w) s.table (s.pc w) ((s.access w).table, (s.access w).pc w) ∧
      ((s.access w).pc w).Valid s.table.numSlots := by
  have hpc : (s.access w).pc w = (CounterTable.step (s.call w) (s.table, s.pc w)).2 :=
    Function.update_self ..
  rw [hpc]
  exact CounterTable.access_step h.toGeometry (h.valid w)

/-- An access leaves the other threads where they are. -/
theorem access_pc_of_ne {v : W} (hv : v ≠ w) : (s.access w).pc v = s.pc v := Function.update_of_ne hv ..

/-- The slot and the offset of an insertion were its own before, unless the arena has just made room. -/
theorem placed_before {t t' : CounterTable} {c : UpdateCall} {pc pc' : Pc}
    (hacc : Access c t pc (t', pc')) {idx off : ℕ} (h : pc'.placed = some (idx, off)) :
    pc.placed = some (idx, off) ∨ (pc = .alloc idx ∧ off = t.keyArenaUsed ∧
      u32 (t.keyArenaUsed + c.key.len) ≤ t.keyArenaCapacity) := by
  cases hacc with
  | reserve i used_eq room =>
    obtain ⟨rfl, rfl⟩ := placed_of_nextCopy h
    exact Or.inr ⟨rfl, rfl, used_eq ▸ room⟩
  | copy i o k =>
    obtain ⟨rfl, rfl⟩ := placed_of_nextCopy h
    exact Or.inl rfl
  | store i o field =>
    rw [placed_nextStore] at h
    exact Or.inl h
  | beginWrite => exact Or.inl h
  | endWrite => exact Or.inl h
  | load loads looking => rw [looking.placed_eq] at h; cases h
  | noteFull looksOn => rw [looksOn.looking.placed_eq] at h; cases h
  | endEvict victim ok looksOn => rw [looksOn.looking.placed_eq] at h; cases h
  | _ => cases h

/-- The bytes of a key other than the one that is copied stay as they are. -/
theorem Owned.arena_eq (h : s.Owned) {j off : ℕ} {bytes : List UInt8} (hkeeps : s.Keeps j off bytes)
    (hj : (s.pc w).claimed ≠ some j) {i : ℕ} (hi : i < bytes.length) :
    (s.access w).table.keyArena (off + i) = s.table.keyArena (off + i) := by
  rcases arena_access (h.access_step w).1 with harena | ⟨idx, o, k, hpc, harena⟩
  · rw [harena]
  · have hplaced : (s.pc w).placed = some (idx, o) := by rw [hpc]; rfl
    have hk := (h.placed w idx o hplaced).copying k hpc
    have hne : j ≠ idx := fun heq => hj (by rw [heq, hpc]; rfl)
    have hapart := (h.apart j off bytes idx o _ hkeeps (.filling hplaced) hne).2 i hi k hk
    rw [harena, ByteMemory.write_singleton, Function.update_of_ne hapart]

/-- What refers to the key of a slot stays as it is, unless the thread has claimed the slot. -/
theorem Owned.keyRef_eq (h : s.Owned) {j : ℕ} (hj : (s.pc w).claimed ≠ some j) :
    ((s.access w).table.slots j).keyRef = (s.table.slots j).keyRef :=
  keyRef_access (h.access_step w).1 fun off field hpc => hj (by rw [hpc]; rfl)

/-- No more of a key has been copied than there is. -/
theorem copied_le {c : UpdateCall} {t : CounterTable} {pc : Pc} {idx off : ℕ}
    (h : Placed c t pc idx off) (hplaced : pc.placed = some (idx, off)) : pc.copied c.key ≤ c.key.len := by
  cases pc with
  | copy i o k =>
    cases hplaced
    exact (h.copying k rfl).le
  | beginWrite | store | endWrite | publish => exact le_rfl
  | _ => exact Nat.zero_le _

/-- A stored key is the key of its insertion. -/
theorem read_of_placed {c : UpdateCall} {t : CounterTable} {idx off : ℕ}
    (h : Placed c t (.publish idx off) idx off) : t.keyArena.read off c.key.len = c.key.bytes := by
  refine List.ext_getElem (ByteMemory.length_read ..) fun i hi hi' => ?_
  rw [ByteMemory.getElem_read, h.bytes i hi', List.getD_eq_getElem _ _ hi']

/-- A key that a slot has was there before, unless the arena has just made room for it. -/
theorem Owned.keeps_access (h : s.Owned) {j off : ℕ} {bytes : List UInt8}
    (hkeeps : (s.access w).Keeps j off bytes) : s.Keeps j off bytes ∨
      (s.pc w = .alloc j ∧ off = s.table.keyArenaUsed ∧ bytes = (s.call w).key.bytes ∧
        u32 (s.table.keyArenaUsed + (s.call w).key.len) ≤ s.table.keyArenaCapacity) := by
  have hacc := (h.access_step w).1
  have hn : (s.access w).table.numSlots = s.table.numSlots := congrArg Prod.fst (shape_access hacc)
  cases hkeeps with
  | occupied hj hocc =>
    rw [hn] at hj
    rcases occupied_access hacc hocc with hbefore | ⟨off, hpc⟩
    · -- the slot was occupied before, so this thread has not claimed it
      have hclaimed : (s.pc w).claimed ≠ some j := by
        intro heq
        rw [h.claimed w j heq] at hbefore
        cases hbefore
      have hkey := h.keyRef_eq hclaimed
      have hoff : ((s.access w).table.slots j).keyOffset = (s.table.slots j).keyOffset :=
        congrArg (·.2.1) hkey
      have hlen : ((s.access w).table.slots j).keyLen = (s.table.slots j).keyLen :=
        congrArg (·.2.2) hkey
      have hold : s.Keeps j _ _ := .occupied hj hbefore
      have hread : (s.access w).table.keyArena.read (s.table.slots j).keyOffset
          (s.table.slots j).keyLen =
          s.table.keyArena.read (s.table.slots j).keyOffset (s.table.slots j).keyLen := by
        refine ByteMemory.read_congr fun i hi hi' => ?_
        obtain ⟨k, rfl⟩ := Nat.exists_eq_add_of_le hi
        exact h.arena_eq hold hclaimed (by rw [ByteMemory.length_read]; omega)
      rw [hoff, hlen, hread]
      exact Or.inl hold
    · have hplaced : (s.pc w).placed = some (j, off) := by rw [hpc]; rfl
      have hfields := (h.placed w j off hplaced)
      rw [hpc] at hfields
      have hkey := keyRef_access hacc (j := j) (fun off field => by rw [hpc]; nofun)
      have hoff : ((s.access w).table.slots j).keyOffset = (s.table.slots j).keyOffset :=
        congrArg (·.2.1) hkey
      have hlen : ((s.access w).table.slots j).keyLen = (s.table.slots j).keyLen :=
        congrArg (·.2.2) hkey
      have hoff' : (s.table.slots j).keyOffset = off :=
        hfields.fields .keyOffset (Nat.lt_of_sub_eq_succ rfl)
      have hlen' : (s.table.slots j).keyLen = (s.call w).key.len :=
        hfields.fields .keyLen (Nat.lt_of_sub_eq_succ rfl)
      have harena : (s.access w).table.keyArena = s.table.keyArena := by
        rcases arena_access hacc with harena | ⟨idx, o, k, hcopy, -⟩
        · exact harena
        · rw [hpc] at hcopy
          cases hcopy
      rw [hoff, hlen, hoff', hlen', harena, read_of_placed hfields]
      exact Or.inl (.filling hplaced)
  | @filling v _ _ hplaced =>
    by_cases hv : v = w
    · subst hv
      rcases placed_before hacc hplaced with hbefore | ⟨hpc, hoff, hroom⟩
      · exact Or.inl (.filling hbefore)
      · exact Or.inr ⟨hpc, hoff, rfl, hroom⟩
    · rw [access_pc_of_ne hv] at hplaced
      exact Or.inl (.filling hplaced)

/-- Which part of a key is stored depends on what refers to the key only. -/
theorem holds_of_keyRef {slot slot' : Slot} {c : UpdateCall} {off : ℕ} (h : slot'.keyRef = slot.keyRef)
    {f : SlotField} (hf : f.Holds slot c off) : f.Holds slot' c off := by
  obtain ⟨hhash, hrest⟩ := Prod.mk.inj h
  obtain ⟨hoff, hlen⟩ := Prod.mk.inj hrest
  cases f with
  | keyHash => exact hhash.trans hf
  | keyOffset => exact hoff.trans hf
  | keyLen => exact hlen.trans hf
  | packets | bytes | lastUpdate => trivial

/-- The insertions of other threads. -/
theorem Owned.placed_of_ne (h : s.Owned) {v : W} (hv : v ≠ w) {idx off : ℕ}
    (hplaced : (s.pc v).placed = some (idx, off)) :
    Placed (s.call v) (s.access w).table (s.pc v) idx off := by
  obtain ⟨hfields, hbytes, hcopying⟩ := h.placed v idx off hplaced
  have hclaimed : (s.pc w).claimed ≠ some idx := by
    intro heq
    exact hv (h.unique v w idx (Pc.claimed_of_placed hplaced) heq)
  refine ⟨fun f hf => holds_of_keyRef (h.keyRef_eq hclaimed) (hfields f hf), fun i hi => ?_, hcopying⟩
  have hlt := hi.trans_le (copied_le (h.placed v idx off hplaced) hplaced)
  rw [h.arena_eq (.filling hplaced) hclaimed hlt]
  exact hbytes i hi

/-- A slot that is claimed after an access is marked as one that is being filled. -/
theorem Owned.claimed_access (h : s.Owned) (hund : s.Undisturbed (.access w)) {v : W} {j : ℕ}
    (hj : ((s.access w).pc v).claimed = some j) :
    ((s.access w).table.slots j).flags = .inserting := by
  have hacc := (h.access_step w).1
  by_cases hv : v = w
  · subst hv
    exact (CounterTable.claimed_access hacc (h.claimed v) hj).1
  · rw [access_pc_of_ne hv] at hj
    have hbusy := h.claimed v j hj
    have hbury : s.pc w ≠ .bury j := by
      intro hpc
      rw [hund.bury hpc] at hbusy
      cases hbusy
    rw [flags_access hacc (fun heq => hv (h.unique v w j hj heq)) hbury, hbusy]
    rw [hbusy]
    rintro (hfree | hfree) <;> cases hfree

/-- A slot that another thread has claimed is not claimed a second time. -/
theorem Owned.claimed_ne (h : s.Owned) {v : W} (hv : v ≠ w) {j : ℕ}
    (hj : ((s.access w).pc w).claimed = some j) : ((s.access w).pc v).claimed ≠ some j := by
  rw [access_pc_of_ne hv]
  intro hother
  rcases (CounterTable.claimed_access (h.access_step w).1 (h.claimed w) hj).2 with hown | hfree
  · exact hv (h.unique v w j hother hown)
  · have hbusy := h.claimed v j hother
    rcases hfree with hfree | hfree <;> cases hfree.symm.trans hbusy

/-- An undisturbed access keeps who owns what. -/
theorem Owned.access (h : s.Owned) (hund : s.Undisturbed (.access w)) : (s.access w).Owned := by
  obtain ⟨hacc, hvalid⟩ := h.access_step w
  have hshape := shape_access hacc
  have hn : (s.access w).table.numSlots = s.table.numSlots := congrArg Prod.fst hshape
  have hcap : (s.access w).table.keyArenaCapacity = s.table.keyArenaCapacity :=
    congrArg (·.2.2.1) hshape
  refine { toGeometry := h.of_shape hshape, valid := ?_, claimed := ?_, unique := ?_, placed := ?_,
           inside := ?_, apart := ?_ }
  · intro v
    rw [hn]
    by_cases hv : v = w
    · exact hv ▸ hvalid
    · rw [access_pc_of_ne hv]
      exact h.valid v
  · exact fun v j hj => h.claimed_access hund hj
  -- two threads with one claimed slot: the accessing one cannot be either of them
  · intro u v j hu hv
    by_cases huw : u = w
    · subst huw
      by_contra hne
      exact h.claimed_ne (Ne.symm hne) hu hv
    · by_cases hvw : v = w
      · subst hvw
        exact absurd hu (h.claimed_ne huw hv)
      · rw [access_pc_of_ne huw] at hu
        rw [access_pc_of_ne hvw] at hv
        exact h.unique u v j hu hv
  · intro v idx off hplaced
    by_cases hv : v = w
    · subst hv
      exact placed_access hacc (h.placed v) idx off hplaced
    · rw [access_pc_of_ne hv] at hplaced ⊢
      exact h.placed_of_ne hv hplaced
  · intro j off bytes hkeeps
    rw [hcap]
    rcases h.keeps_access hkeeps with hbefore | ⟨hpc, rfl, rfl, hroom⟩
    · exact h.inside j off bytes hbefore
    · exact (hund.alloc hpc hroom).1
  -- one of the two ranges may be the one just reserved, which lies above the others
  · intro j off bytes j' off' bytes' hkeeps hkeeps' hne
    rcases h.keeps_access hkeeps with hbefore | ⟨hpc, rfl, rfl, hroom⟩
    · rcases h.keeps_access hkeeps' with hbefore' | ⟨hpc', rfl, rfl, hroom'⟩
      · exact h.apart j off bytes j' off' bytes' hbefore hbefore' hne
      · exact (hund.alloc hpc' hroom').2 j off bytes hbefore
    · rcases h.keeps_access hkeeps' with hbefore' | ⟨hpc', -⟩
      · obtain ⟨hkey, hapart⟩ := (hund.alloc hpc hroom).2 j' off' bytes' hbefore'
        exact ⟨hkey.symm, fun i hi i' hi' heq => hapart i' hi' i hi heq.symm⟩
      · rw [hpc] at hpc'
        cases hpc'
        exact absurd rfl hne

/-! ### Calls -/

/-- A thread that has returned starts the next call. -/
theorem step_call {ok : Bool} (hpc : s.pc w = .returned ok) (c : UpdateCall) :
    s.step (.call w c) =
      { s with
        call := Function.update s.call w c
        pc := Function.update s.pc w s.table.start
        performed := s.performed + 1 } := by
  simp only [step, hpc]

/-- A thread that starts a call has no slot yet, and the others keep theirs. -/
theorem placed_call {v : W} {idx off : ℕ}
    (hplaced : (Function.update s.pc w s.table.start v).placed = some (idx, off)) :
    v ≠ w ∧ (s.pc v).placed = some (idx, off) := by
  by_cases hv : v = w
  · subst hv
    rw [Function.update_self, looksOn_start.looking.placed_eq] at hplaced
    cases hplaced
  · rw [Function.update_of_ne hv] at hplaced
    exact ⟨hv, hplaced⟩

/-- The start of a call claims no slot. -/
theorem claimed_call {v : W} {j : ℕ}
    (hclaimed : (Function.update s.pc w s.table.start v).claimed = some j) :
    (s.pc v).claimed = some j := by
  by_cases hv : v = w
  · subst hv
    rw [Function.update_self, looksOn_start.looking.claimed_eq] at hclaimed
    cases hclaimed
  · rwa [Function.update_of_ne hv] at hclaimed

/-- The start of a call keeps no new key. -/
theorem keeps_call {ok : Bool} (hpc : s.pc w = .returned ok) {c : UpdateCall} {j off : ℕ}
    {bytes : List UInt8} (hkeeps : (s.step (.call w c)).Keeps j off bytes) : s.Keeps j off bytes := by
  rw [step_call hpc] at hkeeps
  cases hkeeps with
  | occupied hj hocc => exact .occupied hj hocc
  | filling hplaced =>
    obtain ⟨hv, hbefore⟩ := placed_call hplaced
    simp only [Function.update_of_ne hv]
    exact .filling hbefore

/-- The start of a call keeps who owns what. -/
theorem Owned.call (h : s.Owned) {ok : Bool} (hpc : s.pc w = .returned ok) (c : UpdateCall) :
    (s.step (.call w c)).Owned := by
  have hkeeps : ∀ {j off bytes}, (s.step (.call w c)).Keeps j off bytes → s.Keeps j off bytes :=
    keeps_call hpc
  rw [step_call hpc] at hkeeps ⊢
  refine { toGeometry := h.toGeometry, valid := ?_, claimed := ?_, unique := ?_, placed := ?_,
           inside := ?_, apart := ?_ }
  · intro v
    by_cases hv : v = w
    · subst hv
      simp only [Function.update_self]
      exact looksOn_start.valid
    · simp only [Function.update_of_ne hv]
      exact h.valid v
  · exact fun v j hj => h.claimed v j (claimed_call hj)
  · exact fun u v j hu hv => h.unique u v j (claimed_call hu) (claimed_call hv)
  · intro v idx off hplaced
    obtain ⟨hv, hbefore⟩ := placed_call hplaced
    simp only [Function.update_of_ne hv]
    exact h.placed v idx off hbefore
  · exact fun j off bytes hnew => h.inside j off bytes (hkeeps hnew)
  · exact fun j off bytes j' off' bytes' hnew hnew' =>
      h.apart j off bytes j' off' bytes' (hkeeps hnew) (hkeeps hnew')

/-- An undisturbed event keeps who owns what. -/
theorem Owned.step (h : s.Owned) {e : ThreadEvent W} (hund : s.Undisturbed e) : (s.step e).Owned := by
  cases e with
  | access w => exact h.access hund
  | call w c =>
    cases hpc : s.pc w with
    | returned ok => exact h.call hpc c
    | _ =>
      simp only [SharedTable.step, hpc]
      exact h

end

end SharedTable

end InFMon
