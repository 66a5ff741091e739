import InFMon.CounterTable.SoleWriter
import InFMon.Foundations.Runs
import InFMon.Foundations.Seqlock

/-! # Reading a slot while the table is updated

A reader of `infmon_counter_table_read_slot` beside the writer of the table. Both take their accesses one
by one and in any order: the reader loads the sequence number of the slot's group, copies the slot field
by field, and loads the sequence number again. -/

namespace InFMon

open MachineWord

/-! ### The reader -/

/-- The fields of a slot that a reader copies. -/
inductive CopyField where
  | keyHash
  | packets
  | bytes
  | keyOffset
  | keyLen
  | flags
  | lastUpdate
  deriving DecidableEq, Repr

/-- All of them. -/
def CopyField.all : List CopyField :=
  [.keyHash, .packets, .bytes, .keyOffset, .keyLen, .flags, .lastUpdate]

/-- One field of a slot is copied. -/
def Slot.copyField (out slot : Slot) : CopyField → Slot
  | .keyHash => { out with keyHash := slot.keyHash }
  | .packets => { out with packets := slot.packets }
  | .bytes => { out with bytes := slot.bytes }
  | .keyOffset => { out with keyOffset := slot.keyOffset }
  | .keyLen => { out with keyLen := slot.keyLen }
  | .flags => { out with flags := slot.flags }
  | .lastUpdate => { out with lastUpdate := slot.lastUpdate }

/-- `seqlock_read_retry`, on the number that it loads. -/
def seqlockReadRetry (seq start : UInt32) : Bool := start &&& 1 ≠ 0 || seq ≠ start

/-- Where a call of `infmon_counter_table_read_slot` is. The number of write sections that were begun in
the group of the slot is noted when an attempt starts, and how many there were when it succeeds. -/
inductive Reader where
  | idle
  /-- Load the sequence number. -/
  | attempt (index n : ℕ) (out : Slot)
  /-- Copy the fields that are left, then load the sequence number again. -/
  | copying (index n : ℕ) (seq : UInt32) (out : Slot) (left : List CopyField) (begun : ℕ)
  | returned (index : ℕ) (ok : Bool) (out : Slot) (sections : ℕ)

/-- What an insertion puts into a slot. -/
structure Insertion where
  slot : ℕ
  keyHash : UInt64
  keyOffset : ℕ
  key : Key

/-- What an insertion stores to refer to its key. -/
def Insertion.keyRef (ins : Insertion) : UInt64 × ℕ × ℕ := (ins.keyHash, ins.keyOffset, ins.key.len)

/-! ### The reader beside the writer -/

namespace Pc

/-- The group in which the next access begins a write section. -/
def begins : Pc → Option ℕ
  | .beginWrite idx _ => some (idx / slotsPerGroup)
  | .beginEvict victim => some (victim / slotsPerGroup)
  | _ => none

/-- The group in which a write section is open. -/
def group (pc : Pc) : Option ℕ := pc.writing.map (· / slotsPerGroup)

/-- The slot and the offset of an insertion whose write section was begun. -/
def written : Pc → Option (ℕ × ℕ)
  | .store idx off _ | .endWrite idx off | .publish idx off => some (idx, off)
  | _ => none

end Pc

/-- A table with its writer and a reader. The insertions so far, and the write sections begun in each
group, are recorded beside it. -/
structure LiveTable where
  table : CounterTable
  call : UpdateCall
  pc : Pc
  insertions : List Insertion
  sections : ℕ → ℕ
  reader : Reader

/-- What happens next: the writer starts a call or takes one step of it; the reader starts to read a slot
into a buffer, loads the sequence number, or copies a field. -/
inductive LiveEvent where
  | call (c : UpdateCall)
  | write
  | read (index : ℕ) (out : Slot)
  | loadSeq
  | copy (field : CopyField)

namespace LiveTable

open CounterTable

/-- A table before its first call. -/
def ofTable (t : CounterTable) : LiveTable where
  table := t
  call := ⟨0, .empty, 0, 0⟩
  pc := .returned true
  insertions := []
  sections := fun _ => 0
  reader := .idle

/-- The writer takes one step. The section of an insertion is the one in which it stores the fields of the
slot. -/
def write (s : LiveTable) : LiveTable :=
  let (table, pc) := CounterTable.step s.call (s.table, s.pc)
  { s with
    table := table
    pc := pc
    insertions :=
      match s.pc with
      | .beginWrite idx off => ⟨idx, s.call.keyHash, off, s.call.key⟩ :: s.insertions
      | _ => s.insertions
    sections :=
      match s.pc.begins with
      | some group => Function.update s.sections group (s.sections group + 1)
      | none => s.sections }

/-- The reader loads the sequence number, at the start of an attempt or at its end. -/
def loadSeq (s : LiveTable) : LiveTable :=
  match s.reader with
  | .attempt index n out =>
    let group := index / slotsPerGroup
    { s with
      reader := .copying index n (s.table.seqlocks group) out CopyField.all (s.sections group) }
  | .copying index n seq out [] begun =>
    let group := index / slotsPerGroup
    if seqlockReadRetry (s.table.seqlocks group) seq then
      { s with
        reader := if n + 1 < 16 then .attempt index (n + 1) out else .returned index false out 0 }
    else { s with reader := .returned index true out (s.sections group - begun) }
  | _ => s

/-- The reader copies a field that is left. -/
def copy (s : LiveTable) (field : CopyField) : LiveTable :=
  match s.reader with
  | .copying index n seq out left begun =>
    if field ∈ left then
      { s with
        reader := .copying index n seq (out.copyField (s.table.slots index) field) (left.erase field)
          begun }
    else s
  | _ => s

/-- `infmon_counter_table_read_slot` is called with a slot and a buffer, when it is not running. -/
def read (s : LiveTable) (index : ℕ) (out : Slot) : LiveTable :=
  match s.reader with
  | .idle | .returned .. =>
    { s with
      reader := if index ≥ s.table.numSlots then .returned index false out 0 else .attempt index 0 out }
  | _ => s

/-- One event. -/
def step (s : LiveTable) : LiveEvent → LiveTable
  | .call c =>
    match s.pc with
    | .returned _ => { s with call := c, pc := s.table.start }
    | _ => s
  | .write => s.write
  | .read index out => s.read index out
  | .loadSeq => s.loadSeq
  | .copy field => s.copy field

end LiveTable

/-! ### What one access of the writer changes -/

namespace CounterTable

variable {t t' : CounterTable} {c : UpdateCall} {pc pc' : Pc}

/-- A load begins no section. -/
theorem begins_of_loads (h : pc.Loads) : pc.begins = none := by
  cases pc <;> first | rfl | exact h.elim

/-- Copying a key writes no slot. -/
theorem writing_nextCopy (key : Key) (idx off k : ℕ) : (nextCopy key idx off k).writing = none := by
  rw [nextCopy]
  split
  · rfl
  · split <;> rfl

/-- An access begins a section, ends the open one, or does neither. -/
theorem group_access (hacc : Access c t pc (t', pc')) :
    (∃ g, pc.begins = some g ∧ pc.group = none ∧ pc'.group = some g ∧
        t'.seqlocks = Function.update t.seqlocks g (t.seqlocks g + 1)) ∨
      (∃ g, pc.begins = none ∧ pc.group = some g ∧ pc'.group = none ∧
        t'.seqlocks = Function.update t.seqlocks g (t.seqlocks g + 1)) ∨
      (pc.begins = none ∧ pc'.group = pc.group ∧ t'.seqlocks = t.seqlocks) := by
  cases hacc with
  | beginWrite idx off => exact Or.inl ⟨_, rfl, rfl, rfl, rfl⟩
  | beginEvict victim => exact Or.inl ⟨_, rfl, rfl, rfl, rfl⟩
  | endWrite idx off => exact Or.inr (Or.inl ⟨_, rfl, rfl, rfl, rfl⟩)
  | endEvict victim ok looksOn =>
    exact Or.inr (Or.inl ⟨_, rfl, rfl, by rw [Pc.group, looksOn.writing]; rfl, rfl⟩)
  | load loads looking writing =>
    exact Or.inr (Or.inr ⟨begins_of_loads loads, by rw [Pc.group, writing]; rfl, rfl⟩)
  | claim loads writing =>
    exact Or.inr (Or.inr ⟨begins_of_loads loads, by rw [Pc.group, Pc.group, writing]; rfl, rfl⟩)
  | noteFull looksOn => exact Or.inr (Or.inr ⟨rfl, by rw [Pc.group, looksOn.writing]; rfl, rfl⟩)
  | store idx off field => exact Or.inr (Or.inr ⟨rfl, by cases field <;> rfl, rfl⟩)
  | reserve idx =>
    exact Or.inr (Or.inr ⟨rfl, by rw [Pc.group, writing_nextCopy]; rfl, rfl⟩)
  | copy idx off k =>
    exact Or.inr (Or.inr ⟨rfl, by rw [Pc.group, writing_nextCopy]; rfl, rfl⟩)
  | _ => exact Or.inr (Or.inr ⟨rfl, rfl, rfl⟩)

/-- An insertion goes on in its slot, at its offset, behind the beginning of its section. -/
theorem written_access (hacc : Access c t pc (t', pc')) {idx off : ℕ}
    (hwritten : pc'.written = some (idx, off)) :
    pc.written = some (idx, off) ∨ pc = .beginWrite idx off := by
  have hlooking : ∀ {pc : Pc}, pc.Looking → pc.written = none := by
    intro pc h
    cases pc <;> first | rfl | exact h.elim
  have hnext : ∀ idx off k, (nextCopy c.key idx off k).written = none := by
    intro idx off k
    rw [nextCopy]
    split
    · rfl
    · split <;> rfl
  cases hacc with
  | beginWrite => cases hwritten; exact Or.inr rfl
  | store i o field => exact Or.inl (by cases field <;> exact hwritten)
  | endWrite => exact Or.inl hwritten
  | load loads looking => rw [hlooking looking] at hwritten; cases hwritten
  | noteFull looksOn => rw [hlooking looksOn.looking] at hwritten; cases hwritten
  | endEvict victim ok looksOn => rw [hlooking looksOn.looking] at hwritten; cases hwritten
  | reserve => rw [hnext] at hwritten; cases hwritten
  | copy => rw [hnext] at hwritten; cases hwritten
  | _ => cases hwritten

/-- A key is copied to where `key_arena_used` was when the arena made room for it. -/
theorem copying_access (hacc : Access c t pc (t', pc')) {idx off k : ℕ} (hcopy : pc' = .copy idx off k) :
    (∃ k, pc = .copy idx off k) ∨ (pc = .alloc idx ∧ off = t.keyArenaUsed) := by
  have hplaced : pc'.placed = some (idx, off) := by rw [hcopy]; rfl
  cases hacc with
  | reserve i =>
    obtain ⟨rfl, rfl⟩ := placed_of_nextCopy hplaced
    exact Or.inr ⟨rfl, rfl⟩
  | copy i o k =>
    obtain ⟨rfl, rfl⟩ := placed_of_nextCopy hplaced
    exact Or.inl ⟨k, rfl⟩
  | load loads looking => rw [looking.placed_eq] at hplaced; cases hplaced
  | noteFull looksOn => rw [looksOn.looking.placed_eq] at hplaced; cases hplaced
  | endEvict victim ok looksOn => rw [looksOn.looking.placed_eq] at hplaced; cases hplaced
  | store i o field => cases field <;> cases hcopy
  | _ => cases hcopy

/-- No stretch of the arena that was given out is given out again. -/
theorem settledUsed_access (hacc : Access c t pc (t', pc')) (hfits : Fits c (t, pc))
    (hused : t.keyArenaUsed ≤ max32 ∨ ∃ idx, pc = .unalloc idx) :
    settledUsed c t pc ≤ settledUsed c t' pc' := by
  cases hacc with
  | overflow idx used_eq =>
    have hle : t.keyArenaUsed ≤ max32 := hused.resolve_right nofun
    have hback := sub32_u32_add hle (key_len_le c.key)
    rw [← used_eq] at hback
    exact hback.ge
  | reserve idx used_eq =>
    rw [u32_of_le hfits] at used_eq
    rw [settledUsed_nextCopy]
    exact (Nat.le_add_right ..).trans used_eq.ge
  | unalloc idx used_eq => exact used_eq.ge
  | copy => rw [settledUsed_nextCopy]; exact le_rfl
  | store i o field => cases field <;> exact le_rfl
  | load loads looking => rw [settledUsed_of_looking loads.looking, settledUsed_of_looking looking]
  | claim loads => rw [settledUsed_of_looking loads.looking]; exact le_rfl
  | noteFull looksOn => rw [settledUsed_of_looking looksOn.looking]; exact le_rfl
  | endEvict victim ok looksOn => rw [settledUsed_of_looking looksOn.looking]; exact le_rfl
  | _ => exact le_rfl

end CounterTable

/-! ### The invariant -/

namespace LiveTable

open CounterTable

/-- The slot refers to the key of one insertion into it. -/
def Inserted (s : LiveTable) (index : ℕ) (slot : Slot) : Prop :=
  ∃ ins ∈ s.insertions, ins.slot = index ∧ slot.keyRef = ins.keyRef

/-- What is copied so far is what the slot still holds, and if it was occupied, it holds the key of an
insertion. -/
structure CopyHolds (s : LiveTable) (index : ℕ) (out : Slot) (left : List CopyField) : Prop where
  keyHash : .keyHash ∉ left → out.keyHash = (s.table.slots index).keyHash
  keyOffset : .keyOffset ∉ left → out.keyOffset = (s.table.slots index).keyOffset
  keyLen : .keyLen ∉ left → out.keyLen = (s.table.slots index).keyLen
  flags : .flags ∉ left → out.flags = .occupied → s.Inserted index (s.table.slots index)

/-- What the reader relies on. As long as no section was begun in the group of its slot, none is open and
the copy holds. -/
def ReaderHolds (s : LiveTable) : Reader → Prop
  | .idle => True
  | .attempt index _ _ => index < s.table.numSlots
  | .copying index _ seq out left begun =>
    index < s.table.numSlots ∧ begun ≤ s.sections (index / slotsPerGroup) ∧
      (∃ isOpen, Seqlock.Tracks seq begun isOpen) ∧
      (Seqlock.Even seq → s.sections (index / slotsPerGroup) = begun →
        s.pc.group ≠ some (index / slotsPerGroup) ∧ s.CopyHolds index out left)
  | .returned index ok out sections =>
    ok = true → sections < 2 ^ 31 → out.flags = .occupied → s.Inserted index out

/-- The table, its writer and its reader between any two accesses. -/
structure Coherent (s : LiveTable) : Prop where
  writer : SoleWriter s.call s.table s.pc
  capacity : s.table.keyArenaCapacity ≤ 2 ^ 30
  stored : ∀ ins ∈ s.insertions,
    ins.keyOffset + ins.key.len ≤ settledUsed s.call s.table s.pc ∧
      s.table.keyArena.Holds ins.keyOffset ins.key.bytes
  copying : ∀ idx off k, s.pc = .copy idx off k → ∀ ins ∈ s.insertions,
    ins.keyOffset + ins.key.len ≤ off
  current : ∀ idx off, s.pc.written = some (idx, off) →
    ⟨idx, s.call.keyHash, off, s.call.key⟩ ∈ s.insertions
  occupied : ∀ j < s.table.numSlots, (s.table.slots j).flags = .occupied →
    s.Inserted j (s.table.slots j)
  seqlocks : ∀ g, Seqlock.Tracks (s.table.seqlocks g) (s.sections g) (decide (s.pc.group = some g))
  reader : s.ReaderHolds s.reader

variable {s s' : LiveTable}

/-! ### The writer -/

/-- The call fits the table. -/
theorem Coherent.fits (h : s.Coherent) : Fits s.call (s.table, s.pc) := by
  have hcap := h.capacity
  have hlen := s.call.key.length_lt
  have hused := h.writer.used_le
  cases hpc : s.pc with
  | alloc idx =>
    rw [hpc] at hused
    change s.table.keyArenaUsed ≤ _ at hused
    change s.table.keyArenaUsed + s.call.key.bytes.length ≤ max32
    rw [max32]
    omega
  | _ => trivial

/-- What has been inserted stays inserted when there are more insertions. -/
theorem Inserted.mono {index : ℕ} {slot : Slot} (h : s.Inserted index slot)
    (hsub : s.insertions ⊆ s'.insertions) : s'.Inserted index slot := by
  obtain ⟨ins, hins, hslot, hkey⟩ := h
  exact ⟨ins, hsub hins, hslot, hkey⟩

/-- The reader keeps what it relies on while the writer goes on, as long as a slot changes only in a
section of its group. -/
theorem ReaderHolds.mono {r : Reader} (h : s.ReaderHolds r)
    (hn : s'.table.numSlots = s.table.numSlots) (hsub : s.insertions ⊆ s'.insertions)
    (hsections : ∀ g, s.sections g ≤ s'.sections g)
    (hsame : ∀ g, s'.sections g = s.sections g → s.pc.group ≠ some g → s'.pc.group ≠ some g ∧
      ∀ j, j / slotsPerGroup = g → (s'.table.slots j).keyRef = (s.table.slots j).keyRef) :
    s'.ReaderHolds r := by
  cases r with
  | idle => trivial
  | attempt index n out =>
    change index < s'.table.numSlots
    rw [hn]
    exact h
  | copying index n seq out left begun =>
    obtain ⟨hindex, hbegun, htracks, hcopy⟩ := h
    refine ⟨hn ▸ hindex, hbegun.trans (hsections _), htracks, fun heven hsec => ?_⟩
    have hle := hsections (index / slotsPerGroup)
    obtain ⟨hgroup, hholds⟩ := hcopy heven (by omega)
    obtain ⟨hgroup', hkey⟩ := hsame (index / slotsPerGroup) (by omega) hgroup
    have hslot := hkey index rfl
    refine ⟨hgroup', ⟨?_, ?_, ?_, ?_⟩⟩
    · exact fun hleft => (hholds.keyHash hleft).trans (congrArg (·.1) hslot).symm
    · exact fun hleft => (hholds.keyOffset hleft).trans (congrArg (·.2.1) hslot).symm
    · exact fun hleft => (hholds.keyLen hleft).trans (congrArg (·.2.2) hslot).symm
    · intro hleft hocc
      obtain ⟨ins, hins, hat, href⟩ := hholds.flags hleft hocc
      exact ⟨ins, hsub hins, hat, hslot.trans href⟩
  | returned index ok out sections =>
    exact fun hok hfew hocc => (h hok hfew hocc).mono hsub

/-- The writer forgets no insertion. -/
theorem write_insertions (s : LiveTable) : s.insertions ⊆ s.write.insertions := by
  intro ins hins
  simp only [write]
  split
  · exact List.mem_cons_of_mem _ hins
  · exact hins

/-- A new insertion is the one whose section begins. -/
theorem mem_write_insertions {ins : Insertion} (h : ins ∈ s.write.insertions) :
    ins ∈ s.insertions ∨
      ∃ idx off, s.pc = .beginWrite idx off ∧ ins = ⟨idx, s.call.keyHash, off, s.call.key⟩ := by
  simp only [write] at h
  split at h
  · rename_i idx off hpc
    rcases List.mem_cons.mp h with rfl | hmem
    · exact Or.inr ⟨idx, off, hpc, rfl⟩
    · exact Or.inl hmem
  · exact Or.inl h

/-- The section that begins is counted. -/
theorem write_sections_of_begins {g : ℕ} (h : s.pc.begins = some g) :
    s.write.sections = Function.update s.sections g (s.sections g + 1) := by
  simp only [write, h]

/-- Where none begins, the sections stay. -/
theorem write_sections_of_not (h : s.pc.begins = none) : s.write.sections = s.sections := by
  simp only [write, h]

/-- A step of the writer is an access of its call. -/
theorem Coherent.access (h : s.Coherent) :
    Access s.call s.table s.pc (s.write.table, s.write.pc) ∧ s.write.pc.Valid s.table.numSlots :=
  access_step h.writer.toGeometry h.writer.valid

/-- The key of an insertion lies in the arena when its section begins. -/
theorem Coherent.holds_of_beginWrite (h : s.Coherent) {idx off : ℕ} (hpc : s.pc = .beginWrite idx off) :
    off + s.call.key.len ≤ settledUsed s.call s.table s.pc ∧
      s.table.keyArena.Holds off s.call.key.bytes := by
  have hwithin := h.writer.within idx off (by rw [hpc]; rfl)
  have hbytes := (h.writer.placed idx off (by rw [hpc]; rfl)).bytes
  rw [hpc] at hbytes ⊢
  refine ⟨hwithin, List.ext_getElem (ByteMemory.length_read ..) fun i hi hi' => ?_⟩
  rw [ByteMemory.getElem_read, hbytes i hi', List.getD_eq_getElem _ _ hi']

/-- Every insertion so far lies below the bytes that are copied next, and keeps its own. -/
theorem Coherent.stored_write (h : s.Coherent) : ∀ ins ∈ s.write.insertions,
    ins.keyOffset + ins.key.len ≤ settledUsed s.write.call s.write.table s.write.pc ∧
      s.write.table.keyArena.Holds ins.keyOffset ins.key.bytes := by
  obtain ⟨hacc, -⟩ := h.access
  have hused : s.table.keyArenaUsed ≤ max32 ∨ ∃ idx, s.pc = .unalloc idx := by
    have hle := h.writer.used_le.trans h.writer.capacity
    cases hpc : s.pc with
    | unalloc idx => exact Or.inr ⟨idx, rfl⟩
    | _ => rw [hpc] at hle; exact Or.inl hle
  have hmono := settledUsed_access hacc h.fits hused
  intro ins hins
  -- an insertion is an old one, or the one whose section opens at this access
  have hbefore : ins.keyOffset + ins.key.len ≤ settledUsed s.call s.table s.pc ∧
      s.table.keyArena.Holds ins.keyOffset ins.key.bytes := by
    rcases mem_write_insertions hins with hmem | ⟨idx, off, hpc, rfl⟩
    · exact h.stored ins hmem
    · exact h.holds_of_beginWrite hpc
  refine ⟨hbefore.1.trans hmono, ?_⟩
  rcases arena_access hacc with harena | ⟨idx, off, k, hpc, harena⟩
  · rw [harena]
    exact hbefore.2
  · have hmem : ins ∈ s.insertions := by
      rcases mem_write_insertions hins with hmem | ⟨idx', off', hpc', -⟩
      · exact hmem
      · rw [hpc] at hpc'
        cases hpc'
    -- the copy goes to bytes above all that is stored
    have hbelow := h.copying idx off k hpc ins hmem
    rw [harena, ByteMemory.Holds, ByteMemory.read_write_of_le]
    · exact hbefore.2
    · change ins.keyOffset + ins.key.len ≤ _
      omega

/-- An occupied slot refers to the key of an insertion into it. -/
theorem Coherent.occupied_write (h : s.Coherent) {j : ℕ} (hj : j < s.table.numSlots)
    (hocc : (s.write.table.slots j).flags = .occupied) : s.write.Inserted j (s.write.table.slots j) := by
  obtain ⟨hacc, -⟩ := h.access
  have hstore : ∀ off field, s.pc = .store j off field → (s.table.slots j).flags = .inserting :=
    fun off field hpc => (h.writer.inserting j hj).mpr (by rw [hpc]; rfl)
  rcases occupied_access hacc hocc with hbefore | ⟨off, hpc⟩
  · obtain ⟨ins, hins, hslot, hkey⟩ := h.occupied j hj hbefore
    refine ⟨ins, write_insertions s hins, hslot, (keyRef_access hacc fun off field hpc => ?_).trans hkey⟩
    rw [hstore off field hpc] at hbefore
    cases hbefore
  · have hplaced := (h.writer.placed j off (by rw [hpc]; rfl)).fields
    have hsame := keyRef_access hacc (j := j) (fun off field => by rw [hpc]; nofun)
    rw [hpc] at hplaced
    refine ⟨_, write_insertions s (h.current j off (by rw [hpc]; rfl)), rfl, hsame.trans ?_⟩
    have hhash := hplaced .keyHash (Nat.lt_of_sub_eq_succ rfl)
    have hoff := hplaced .keyOffset (Nat.lt_of_sub_eq_succ rfl)
    have hlen := hplaced .keyLen (Nat.lt_of_sub_eq_succ rfl)
    simp only [SlotField.Holds] at hhash hoff hlen
    simp only [Slot.keyRef, Insertion.keyRef, hhash, hoff, hlen]

/-- The sequence numbers follow the sections. -/
theorem Coherent.seqlocks_write (h : s.Coherent) (g : ℕ) :
    Seqlock.Tracks (s.write.table.seqlocks g) (s.write.sections g)
      (decide (s.write.pc.group = some g)) := by
  have hg := h.seqlocks g
  rcases group_access h.access.1 with ⟨g', hbegins, hgroup, hgroup', hseq⟩ |
    ⟨g', hbegins, hgroup, hgroup', hseq⟩ | ⟨hbegins, hgroup', hseq⟩
  · rw [hseq, write_sections_of_begins hbegins, hgroup']
    by_cases heq : g = g'
    · subst heq
      rw [hgroup] at hg
      simpa using hg.opened
    · have hne : some g' ≠ some g := fun h => heq (Option.some.inj h).symm
      rw [hgroup] at hg
      simpa [heq, hne] using hg
  · rw [hseq, write_sections_of_not hbegins, hgroup']
    by_cases heq : g = g'
    · subst heq
      rw [hgroup, decide_eq_true rfl] at hg
      simpa using hg.closed
    · have hne : some g' ≠ some g := fun h => heq (Option.some.inj h).symm
      rw [hgroup] at hg
      simpa [heq, hne] using hg
  · rw [hseq, write_sections_of_not hbegins, hgroup']
    exact hg

/-- What the reader holds stays true when the writer steps. -/
theorem Coherent.reader_write (h : s.Coherent) : s.write.ReaderHolds s.write.reader := by
  have hacc := h.access.1
  have hn : s.write.table.numSlots = s.table.numSlots := congrArg Prod.fst (shape_access hacc)
  refine h.reader.mono hn (write_insertions s) (fun g => ?_) fun g hsec hgroup => ⟨?_, ?_⟩
  · cases hbegins : s.pc.begins with
    | none => rw [write_sections_of_not hbegins]
    | some g' =>
      rw [write_sections_of_begins hbegins, Function.update_apply]
      split
      · rename_i heq
        rw [heq]
        exact Nat.le_succ _
      · exact le_rfl
  · rcases group_access hacc with ⟨g', hbegins, -, hgroup', -⟩ | ⟨g', -, -, hgroup', -⟩ | ⟨-, hgroup', -⟩
    · rw [hgroup']
      rintro heq
      obtain rfl := Option.some.inj heq
      rw [write_sections_of_begins hbegins, Function.update_self] at hsec
      omega
    · rw [hgroup']
      nofun
    · rwa [hgroup']
  · intro j hj
    refine keyRef_access hacc fun off field hpc => hgroup ?_
    rw [hpc, ← hj]
    rfl

/-- A step of the writer. -/
theorem Coherent.write (h : s.Coherent) : s.write.Coherent := by
  obtain ⟨hacc, -⟩ := h.access
  have hshape := shape_access hacc
  have hn : s.write.table.numSlots = s.table.numSlots := congrArg Prod.fst hshape
  have hcap : s.write.table.keyArenaCapacity = s.table.keyArenaCapacity := congrArg (·.2.2.1) hshape
  refine { writer := h.writer.access h.fits, capacity := hcap ▸ h.capacity, stored := h.stored_write,
           copying := ?_, current := ?_, occupied := fun j hj => h.occupied_write (hn ▸ hj),
           seqlocks := h.seqlocks_write, reader := h.reader_write }
  · intro idx off k hcopy ins hins
    rcases copying_access hacc hcopy with ⟨k', hpc⟩ | ⟨hpc, rfl⟩
    · rcases mem_write_insertions hins with hmem | ⟨idx', off', hpc', -⟩
      · exact h.copying idx off k' hpc ins hmem
      · rw [hpc] at hpc'
        cases hpc'
    · rcases mem_write_insertions hins with hmem | ⟨idx', off', hpc', -⟩
      · have hstored := (h.stored ins hmem).1
        rwa [hpc] at hstored
      · rw [hpc] at hpc'
        cases hpc'
  · intro idx off hwritten
    rcases written_access hacc hwritten with hbefore | hpc
    · exact write_insertions s (h.current idx off hbefore)
    · simp only [LiveTable.write, hpc]
      exact List.mem_cons_self

/-- The writer starts a call. -/
theorem Coherent.call (h : s.Coherent) {ok : Bool} (hpc : s.pc = .returned ok) (c : UpdateCall) :
    ({ s with call := c, pc := s.table.start } : LiveTable).Coherent := by
  have hwriter := h.writer
  rw [hpc] at hwriter
  -- no section is open when a call returns, nor when the next one starts
  have hgroup : s.table.start.group = none := by rw [Pc.group, looksOn_start.writing]; rfl
  have hbusy : s.pc.group = none := by rw [hpc]; rfl
  refine { writer := hwriter.settled.soleWriter c, capacity := h.capacity, stored := ?_, copying := ?_,
           current := ?_, occupied := h.occupied, seqlocks := ?_, reader := ?_ }
  · have hstored := h.stored
    rw [hpc] at hstored
    change ∀ ins ∈ s.insertions, _ ≤ settledUsed c s.table s.table.start ∧ _
    rw [settledUsed_of_looking looksOn_start.looking]
    exact hstored
  · intro idx off k hcopy
    have hplaced := (looksOn_start (t := s.table)).looking.placed_eq
    change s.table.start = _ at hcopy
    rw [hcopy] at hplaced
    cases hplaced
  · intro idx off hwritten
    have hclaimed := (looksOn_start (t := s.table)).looking.claimed_eq
    change s.table.start.written = _ at hwritten
    cases hnext : s.table.start <;> rw [hnext] at hwritten hclaimed <;> cases hwritten <;>
      cases hclaimed
  · intro g
    have hseq := h.seqlocks g
    rw [hbusy] at hseq
    change Seqlock.Tracks _ _ (decide (s.table.start.group = some g))
    rw [hgroup]
    exact hseq
  · refine h.reader.mono rfl (List.Subset.refl _) (fun _ => le_rfl) fun g _ _ => ⟨?_, fun _ _ => rfl⟩
    change s.table.start.group ≠ some g
    rw [hgroup]
    nofun

/-! ### The reader -/

/-- A step of the reader changes nothing else. -/
theorem Coherent.withReader (h : s.Coherent) {r : Reader} (hr : s.ReaderHolds r) :
    ({ s with reader := r } : LiveTable).Coherent where
  writer := h.writer
  capacity := h.capacity
  stored := h.stored
  copying := h.copying
  current := h.current
  occupied := h.occupied
  seqlocks := h.seqlocks
  reader := hr.mono rfl (List.Subset.refl _) (fun _ => le_rfl) fun _ _ hgroup => ⟨hgroup, fun _ _ => rfl⟩

/-- Starting to read a slot keeps the state coherent. -/
theorem Coherent.read (h : s.Coherent) (index : ℕ) (out : Slot) : (s.read index out).Coherent := by
  have hcall : s.ReaderHolds
      (if index ≥ s.table.numSlots then .returned index false out 0 else .attempt index 0 out) := by
    split
    · exact nofun
    · rename_i hlt
      exact Nat.lt_of_not_le hlt
  rw [LiveTable.read]
  split
  · exact h.withReader hcall
  · exact h.withReader hcall
  · exact h

/-- An attempt starts with nothing copied. -/
theorem Coherent.attempt (h : s.Coherent) {index n : ℕ} {out : Slot} (hindex : index < s.table.numSlots) :
    s.ReaderHolds (.copying index n (s.table.seqlocks (index / slotsPerGroup)) out CopyField.all
      (s.sections (index / slotsPerGroup))) := by
  have htracks := h.seqlocks (index / slotsPerGroup)
  refine ⟨hindex, le_rfl, ⟨_, htracks⟩, fun heven _ => ⟨?_, ?_⟩⟩
  · exact of_decide_eq_false (htracks.closed_of_even heven)
  · constructor <;> exact fun hleft => absurd (by simp [CopyField.all]) hleft

/-- An attempt that succeeds has copied the key of one insertion. -/
theorem Coherent.accept (h : s.Coherent) {index n begun : ℕ} {seq : UInt32} {out : Slot}
    (hr : s.ReaderHolds (.copying index n seq out [] begun))
    (hretry : seqlockReadRetry (s.table.seqlocks (index / slotsPerGroup)) seq = false) :
    s.ReaderHolds (.returned index true out (s.sections (index / slotsPerGroup) - begun)) := by
  obtain ⟨hindex, hbegun, ⟨isOpen, htracks⟩, hcopy⟩ := hr
  intro _ hfew hocc
  simp only [seqlockReadRetry, Bool.or_eq_false_iff, decide_eq_false_iff_not, not_not] at hretry
  obtain ⟨heven, hseq⟩ := hretry
  have hnow := h.seqlocks (index / slotsPerGroup)
  rw [hseq] at hnow
  obtain ⟨-, hholds⟩ := hcopy heven (htracks.unchanged hnow heven hbegun hfew)
  obtain ⟨ins, hins, hslot, hkey⟩ := hholds.flags List.not_mem_nil hocc
  refine ⟨ins, hins, hslot, Eq.trans ?_ hkey⟩
  rw [Slot.keyRef, Slot.keyRef, hholds.keyHash List.not_mem_nil, hholds.keyOffset List.not_mem_nil,
    hholds.keyLen List.not_mem_nil]

/-- Loading a sequence number keeps the state coherent. -/
theorem Coherent.loadSeq (h : s.Coherent) : s.loadSeq.Coherent := by
  have hr := h.reader
  rw [LiveTable.loadSeq]
  split
  · rename_i index n out hreader
    rw [hreader] at hr
    exact h.withReader (h.attempt hr)
  · rename_i index n seq out begun hreader
    rw [hreader] at hr
    simp only
    split
    · refine h.withReader ?_
      split
      · exact hr.1
      · exact nofun
    · rename_i hretry
      exact h.withReader (h.accept hr (Bool.eq_false_iff.mpr hretry))
  · exact h

/-- A field is copied from the slot as it is. -/
theorem CopyHolds.copy {index : ℕ} {out : Slot} {left : List CopyField}
    (hholds : s.CopyHolds index out left)
    (hslot : (s.table.slots index).flags = .occupied → s.Inserted index (s.table.slots index))
    (field : CopyField) :
    s.CopyHolds index (out.copyField (s.table.slots index) field) (left.erase field) := by
  have hleft : ∀ f, f ∉ left.erase field → f ≠ field → f ∉ left :=
    fun f hf hne hmem => hf ((List.mem_erase_of_ne hne).mpr hmem)
  refine ⟨fun hf => ?_, fun hf => ?_, fun hf => ?_, fun hf => ?_⟩
  · have hbefore := fun hne => hholds.keyHash (hleft _ hf hne)
    cases field <;> first | rfl | exact hbefore nofun
  · have hbefore := fun hne => hholds.keyOffset (hleft _ hf hne)
    cases field <;> first | rfl | exact hbefore nofun
  · have hbefore := fun hne => hholds.keyLen (hleft _ hf hne)
    cases field <;> first | rfl | exact hbefore nofun
  · have hbefore := fun hne => hholds.flags (hleft _ hf hne)
    cases field <;> first | exact hslot | exact hbefore nofun

/-- Copying a field keeps the state coherent. -/
theorem Coherent.copy (h : s.Coherent) (field : CopyField) : (s.copy field).Coherent := by
  have hr := h.reader
  rw [LiveTable.copy]
  split
  · rename_i index n seq out left begun hreader
    rw [hreader] at hr
    obtain ⟨hindex, hbegun, htracks, hcopy⟩ := hr
    split
    · refine h.withReader ⟨hindex, hbegun, htracks, fun heven hsec => ?_⟩
      obtain ⟨hgroup, hholds⟩ := hcopy heven hsec
      exact ⟨hgroup, hholds.copy (h.occupied index hindex) field⟩
    · exact h
  · exact h

/-! ### Runs -/

/-- Every event keeps the state coherent. -/
theorem Coherent.step (h : s.Coherent) (e : LiveEvent) : (s.step e).Coherent := by
  cases e with
  | call c =>
    rw [LiveTable.step]
    split
    · rename_i ok hpc
      exact h.call hpc c
    · exact h
  | write => exact h.write
  | read index out => exact h.read index out
  | loadSeq => exact h.loadSeq
  | copy field => exact h.copy field

/-- The sequence numbers of a new table are zero. -/
theorem seqlocks_of_create {maxKeys width : ℕ} {alloc : Alloc} {t : CounterTable}
    (h : counterTableCreate maxKeys width alloc = some t) (g : ℕ) : t.seqlocks g = 0 := by
  rw [counterTableCreate] at h
  split at h
  · cases h
  simp only at h
  split at h
  · cases h
  split at h
  · cases h
  split at h
  · cases h
    rfl
  · cases h

/-- A new table is coherent with nothing inserted. -/
theorem coherent_of_create {maxKeys width : ℕ} {alloc : Alloc} {t : CounterTable}
    (hkeys : maxKeys ≤ 2 ^ 24) (hwidth : width ≤ 64)
    (h : counterTableCreate maxKeys width alloc = some t) : (ofTable t).Coherent := by
  have hsized := sized_of_create hkeys hwidth h
  obtain ⟨-, -, -, -, hfresh, -⟩ := counterTableCreate_some h
  refine { writer := hsized.toSettled.returned _ _, capacity := hsized.capacity_le, stored := nofun,
           copying := nofun, current := nofun, occupied := fun j _ hocc => ?_, seqlocks := fun g => ?_,
           reader := trivial }
  · change (t.slots j).flags = .occupied at hocc
    rw [hfresh.slots j] at hocc
    cases hocc
  · change Seqlock.Tracks (t.seqlocks g) 0 false
    rw [seqlocks_of_create h]
    exact Seqlock.tracks_zero

/-- `infmon_counter_table_key` finds the key of the insertion that a copy refers to. -/
theorem Coherent.key (h : s.Coherent) {index : ℕ} {out : Slot} (hocc : out.flags = .occupied)
    (hinserted : s.Inserted index out) :
    ∃ ins ∈ s.insertions, ins.slot = index ∧ out.keyHash = ins.keyHash ∧
      out.keyOffset = ins.keyOffset ∧ out.keyLen = ins.key.len ∧
      s.table.key out = some ins.key.bytes := by
  obtain ⟨ins, hins, hslot, hkey⟩ := hinserted
  obtain ⟨hhash, hoff, hlen⟩ : out.keyHash = ins.keyHash ∧ out.keyOffset = ins.keyOffset ∧
      out.keyLen = ins.key.len := by
    simpa only [Slot.keyRef, Insertion.keyRef, Prod.mk.injEq] using hkey
  obtain ⟨hend, hholds⟩ := h.stored ins hins
  have hcap := hend.trans h.writer.used_le
  refine ⟨ins, hins, hslot, hhash, hoff, hlen, ?_⟩
  rw [CounterTable.key, if_neg (not_not.mpr hocc), hoff, hlen,
    u32_of_le (hcap.trans h.writer.capacity), if_neg (Nat.not_lt.mpr hcap)]
  exact congrArg some hholds

/-- A copy of an occupied slot that `infmon_counter_table_read_slot` returns as consistent refers to the
key of one insertion into that slot, hash, offset and length, and `infmon_counter_table_key` finds the
bytes of that key. This holds for every interleaving of the reader with the calls of the writer in which
fewer than `2 ^ 31` write sections were begun during the attempt. -/
theorem read_slot_not_torn {maxKeys width : ℕ} {alloc : Alloc} {t : CounterTable}
    (hkeys : maxKeys ≤ 2 ^ 24) (hwidth : width ≤ 64)
    (h : counterTableCreate maxKeys width alloc = some t) (events : List LiveEvent)
    {index sections : ℕ} {out : Slot}
    (hread : (Runs.run step (ofTable t) events).reader = .returned index true out sections)
    (hfew : sections < 2 ^ 31) (hocc : out.flags = .occupied) :
    ∃ ins ∈ (Runs.run step (ofTable t) events).insertions, ins.slot = index ∧
      out.keyHash = ins.keyHash ∧ out.keyOffset = ins.keyOffset ∧ out.keyLen = ins.key.len ∧
      (Runs.run step (ofTable t) events).table.key out = some ins.key.bytes := by
  have hcoherent : (Runs.run step (ofTable t) events).Coherent :=
    Runs.always (coherent_of_create hkeys hwidth h) (fun s e hs => hs.step e) events
  have hreader := hcoherent.reader
  rw [hread] at hreader
  exact hcoherent.key hocc (hreader rfl hfew hocc)

/-- A read that starts while a key is stored: its first attempt fails, the second one succeeds once the
key is stored. -/
def overlappingRead : List LiveEvent :=
  .call ⟨7, .one 1, 60, 1⟩ :: List.replicate 8 .write ++
    .read 0 Slot.zero :: .loadSeq :: CopyField.all.map .copy ++ .loadSeq :: List.replicate 8 .write ++
    .loadSeq :: CopyField.all.reverse.map .copy ++ [.loadSeq]

/-- A slot that is read while a key is stored in it has the bytes of this key. -/
theorem read_slot_not_torn_overlapping : ∃ t, counterTableCreate 1 1 ⟨true, fun _ => 0⟩ = some t ∧
    ∃ ins ∈ (Runs.run step (ofTable t) overlappingRead).insertions, ins.slot = 0 ∧
      (Runs.run step (ofTable t) overlappingRead).table.key ⟨7, 1, 60, 0, 1, .occupied, 1⟩ =
        some ins.key.bytes := by
  refine ⟨_, rfl, ?_⟩
  obtain ⟨ins, hins, hslot, -, -, -, hkey⟩ := @read_slot_not_torn 1 1 ⟨true, fun _ => 0⟩ _ (by decide)
    (by decide) rfl overlappingRead 0 0 ⟨7, 1, 60, 0, 1, .occupied, 1⟩ rfl (by decide) rfl
  exact ⟨ins, hins, hslot, hkey⟩

end LiveTable

end InFMon
