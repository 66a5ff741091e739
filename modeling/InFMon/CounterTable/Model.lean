import InFMon.Foundations.ByteMemory
import InFMon.Foundations.MachineWord
import InFMon.Foundations.OpenAddressing

/-! # The counter table

The per-worker counter table of `counter_table.c`: a power-of-two slot array with linear probing, a
bump-allocated key arena and a seqlock for each group of slots. A table has one writer (each worker
updates its own tables), so the atomic operations of the update path run one after another here. -/

namespace InFMon

open MachineWord OpenAddressing

/-! ### Constants -/

/-- `INFMON_SLOTS_PER_GROUP`. -/
def slotsPerGroup : ℕ := 8

/-- `INFMON_INSERT_RETRY`. -/
def insertRetry : ℕ := 4

/-! ### Data -/

/-- The slot flags `INFMON_SLOT_FREE`, `_OCCUPIED`, `_TOMBSTONE` and `_INSERTING`. -/
inductive SlotFlags where
  | free
  | occupied
  | tombstone
  | inserting
  deriving DecidableEq, Repr

/-- A key blob. Its length is passed around as a `uint16_t`. -/
@[ext] structure Key where
  bytes : List UInt8
  length_lt : bytes.length < 2 ^ 16
  deriving DecidableEq

/-- A blob of one byte. -/
def Key.one (byte : UInt8) : Key := ⟨[byte], by simp⟩

/-- No blob. -/
def Key.empty : Key := ⟨[], by decide⟩

/-- `key_len`. -/
def Key.len (key : Key) : ℕ := key.bytes.length

/-- A length is a number of 32 bits. -/
theorem key_len_le (key : Key) : key.len ≤ max32 := by
  have hlen := key.length_lt
  rw [Key.len, max32]
  omega

/-- `infmon_slot_t`. -/
structure Slot where
  keyHash : UInt64
  packets : UInt64
  bytes : UInt64
  keyOffset : ℕ
  keyLen : ℕ
  flags : SlotFlags
  lastUpdate : UInt64
  deriving DecidableEq, Repr

/-- A slot as `memset` leaves it. -/
def Slot.zero : Slot where
  keyHash := 0
  packets := 0
  bytes := 0
  keyOffset := 0
  keyLen := 0
  flags := .free
  lastUpdate := 0

/-- `infmon_counter_table_t`. -/
structure CounterTable where
  slots : ℕ → Slot
  numSlots : ℕ
  slotMask : ℕ
  keyArena : ByteMemory
  keyArenaCapacity : ℕ
  keyArenaUsed : ℕ
  seqlocks : ℕ → UInt32
  numGroups : ℕ
  generation : UInt64
  epochNs : UInt64
  insertFailed : UInt64
  tableFull : UInt64
  occupiedCount : ℕ

/-- What the allocator answers to `infmon_counter_table_create`: whether the table, its slots, its
arena and its seqlocks could be allocated, and the bytes `malloc` left in the arena. -/
structure Alloc where
  ok : Bool
  arena : ByteMemory

/-! ### Lifecycle -/

/-- `infmon_next_pow2`. -/
def nextPow2 (v : ℕ) : ℕ :=
  if v = 0 then 1
  else if v > 0x80000000 then 0
  else
    -- copy the highest bit to all bits below it
    let v := v - 1
    let v := v ||| v >>> 1
    let v := v ||| v >>> 2
    let v := v ||| v >>> 4
    let v := v ||| v >>> 8
    let v := v ||| v >>> 16
    u32 (v + 1)

/-- `infmon_counter_table_create`. -/
def counterTableCreate (maxKeys maxKeyWidth : ℕ) (alloc : Alloc) : Option CounterTable :=
  if maxKeys = 0 ∨ maxKeyWidth = 0 then none
  else
    let numSlots := nextPow2 maxKeys
    -- no power of two of 32 bits is large enough
    if numSlots < maxKeys ∨ numSlots = 0 then none
    else
      let numGroups := if numSlots / slotsPerGroup = 0 then 1 else numSlots / slotsPerGroup
      let arenaCap := numSlots * maxKeyWidth
      -- offsets into the arena have 32 bits
      if arenaCap > max32 then none
      else if alloc.ok then
        some
          { slots := fun _ => Slot.zero
            numSlots := numSlots
            slotMask := numSlots - 1
            keyArena := alloc.arena
            keyArenaCapacity := arenaCap
            keyArenaUsed := 0
            seqlocks := fun _ => 0
            numGroups := numGroups
            generation := 0
            epochNs := 0
            insertFailed := 0
            tableFull := 0
            occupiedCount := 0 }
      else none

namespace CounterTable

/-! ### Slots and seqlocks -/

/-- The slot index `(start + i) & slot_mask`. -/
def probeIdx (t : CounterTable) (start i : ℕ) : ℕ := (start + i) &&& t.slotMask

/-- The home slot of a hash, `key_hash & slot_mask`. -/
def homeSlot (t : CounterTable) (keyHash : UInt64) : ℕ := keyHash.toNat &&& t.slotMask

/-- Change one slot in place. -/
def modifySlot (t : CounterTable) (idx : ℕ) (f : Slot → Slot) : CounterTable :=
  { t with slots := Function.update t.slots idx (f (t.slots idx)) }

/-- Store the flags of one slot. -/
def setFlags (t : CounterTable) (idx : ℕ) (flags : SlotFlags) : CounterTable :=
  t.modifySlot idx fun slot => { slot with flags := flags }

/-- Compare-and-swap on the flags of one slot. -/
def casFlags (t : CounterTable) (idx : ℕ) (expected desired : SlotFlags) : Bool × CounterTable :=
  if (t.slots idx).flags = expected then (true, t.setFlags idx desired) else (false, t)

/-- `seqlock_write_begin` and `seqlock_write_end`: either one raises the sequence number. -/
def seqlockBump (t : CounterTable) (group : ℕ) : CounterTable :=
  { t with seqlocks := Function.update t.seqlocks group (t.seqlocks group + 1) }

/-- Count a packet in a slot: add to `packets` and `bytes`, store `last_update`. -/
def bumpSlot (t : CounterTable) (idx : ℕ) (pktBytes tick : UInt64) : CounterTable :=
  t.modifySlot idx fun slot =>
    { slot with packets := slot.packets + 1, bytes := slot.bytes + pktBytes, lastUpdate := tick }

/-- Raise `insert_failed`. -/
def failInsert (t : CounterTable) : CounterTable := { t with insertFailed := t.insertFailed + 1 }

/-- Raise `table_full`. -/
def noteFull (t : CounterTable) : CounterTable := { t with tableFull := t.tableFull + 1 }

/-! ### Arena and key comparison -/

/-- `arena_alloc`: the new key's offset, or `UINT32_MAX` when the arena is exhausted. -/
def arenaAlloc (t : CounterTable) (key : Key) : ℕ × CounterTable :=
  let offset := t.keyArenaUsed
  let used := u32 (offset + key.len)
  if used > t.keyArenaCapacity then
    -- the addition is rolled back
    (max32, { t with keyArenaUsed := sub32 used key.len })
  else
    (offset, { t with keyArenaUsed := used, keyArena := t.keyArena.write offset key.bytes })

/-- `key_matches`. -/
def keyMatches (t : CounterTable) (slot : Slot) (keyHash : UInt64) (key : Key) : Bool :=
  -- bytes are compared only where the hashes and the lengths agree
  if slot.keyHash ≠ keyHash then false
  else if slot.keyLen ≠ key.len then false
  else if u32 (slot.keyOffset + key.len) > t.keyArenaCapacity then false
  else decide (t.keyArena.read slot.keyOffset key.len = key.bytes)

/-- `infmon_counter_table_key`. -/
def key (t : CounterTable) (slot : Slot) : Option (List UInt8) :=
  if slot.flags ≠ .occupied then none
  else if u32 (slot.keyOffset + slot.keyLen) > t.keyArenaCapacity then none
  else some (t.keyArena.read slot.keyOffset slot.keyLen)

/-! ### Eviction -/

/-- The slots that eviction looks at: `min(num_slots, 32)` of them. -/
def evictWindow (t : CounterTable) : ℕ := if t.numSlots < 32 then t.numSlots else 32

/-- One step of the victim scan: keep the occupied slot with the smallest `last_update`. -/
def victimStep (t : CounterTable) (probeStart : ℕ) (acc : Option ℕ × UInt64) (i : ℕ) :
    Option ℕ × UInt64 :=
  let idx := t.probeIdx probeStart i
  if (t.slots idx).flags = .occupied then
    let lu := (t.slots idx).lastUpdate
    -- of slots with the same stamp the first stays the victim
    if lu < acc.2 then (some idx, lu) else acc
  else acc

/-- The victim scan of `evict_lru`. -/
def lruVictim (t : CounterTable) (probeStart : ℕ) : Option ℕ :=
  ((List.range t.evictWindow).foldl (t.victimStep probeStart) (none, 0xFFFFFFFFFFFFFFFF)).1

/-- `evict_lru`. -/
def evictLru (t : CounterTable) (probeStart : ℕ) : Bool × CounterTable :=
  match t.lruVictim probeStart with
  | none => (false, t)
  | some victim =>
    let group := victim / slotsPerGroup
    let t := t.seqlockBump group
    -- checked again under the seqlock
    if (t.slots victim).flags ≠ .occupied then (false, t.seqlockBump group)
    else
      -- the arena keeps the bytes of the victim's key
      let t := t.setFlags victim .tombstone
      let t := { t with occupiedCount := sub32 t.occupiedCount 1 }
      (true, t.seqlockBump group)

/-! ### The update -/

/-- Phase 1 of the update: search for the key, tracking the first reusable slot. -/
def searchSlot (t : CounterTable) (start : ℕ) (keyHash : UInt64) (key : Key) :
    ℕ → ℕ → Option ℕ → Found
  | 0, _, candidate => .miss candidate
  | fuel + 1, i, candidate =>
    let idx := t.probeIdx start i
    match (t.slots idx).flags with
    | .occupied =>
      if t.keyMatches (t.slots idx) keyHash key then .hit idx
      else searchSlot t start keyHash key fuel (i + 1) candidate
    | .inserting => searchSlot t start keyHash key fuel (i + 1) candidate
    | .tombstone =>
      -- keep probing: the key may exist past the tombstone
      searchSlot t start keyHash key fuel (i + 1) (candidate.or (some idx))
    -- no key lies behind a free slot of its path
    | .free => .miss (candidate.or (some idx))

/-- How the compare-and-swap loop on a candidate slot ends. -/
inductive Claim where
  | claimed (t : CounterTable)
  | counted (t : CounterTable)
  | exhausted

/-- The compare-and-swap loop on the candidate slot, whose flags were loaded as `f`. -/
def claimSlot (t : CounterTable) (idx : ℕ) (f : SlotFlags) (keyHash : UInt64) (key : Key)
    (pktBytes tick : UInt64) : ℕ → Claim
  | 0 => .exhausted
  | retry + 1 =>
    match t.casFlags idx f .inserting with
    | (true, t') => .claimed t'
    | (false, t') =>
      if (t'.slots idx).flags = .occupied ∧ t'.keyMatches (t'.slots idx) keyHash key then
        .counted (t'.bumpSlot idx pktBytes tick)
      else claimSlot t idx f keyHash key pktBytes tick retry

/-- Fill a slot that was claimed: copy the key into the arena, write the slot, publish it. When the
arena is exhausted the slot goes back to `FREE`. -/
def fillSlot (t : CounterTable) (idx : ℕ) (keyHash : UInt64) (key : Key) (pktBytes tick : UInt64) :
    Bool × CounterTable :=
  let (keyOff, t) := t.arenaAlloc key
  -- nothing that was done before is undone: an evicted key stays evicted
  if keyOff = max32 then (false, (t.setFlags idx .free).failInsert)
  else
    let group := idx / slotsPerGroup
    let t := t.seqlockBump group
    let t := t.modifySlot idx fun slot =>
      { slot with
        keyHash := keyHash
        packets := 1
        bytes := pktBytes
        keyOffset := keyOff
        keyLen := key.len
        lastUpdate := tick }
    let t := t.seqlockBump group
    let t := t.setFlags idx .occupied
    (true, { t with occupiedCount := u32 (t.occupiedCount + 1) })

/-- The single retry after an eviction: scan again for the newly freed slot. -/
def retryScan (t : CounterTable) (start : ℕ) (keyHash : UInt64) (key : Key)
    (pktBytes tick : UInt64) : ℕ → ℕ → Bool × CounterTable
  -- the slot that was evicted has been taken in the meantime
  | 0, _ => (false, t.failInsert)
  | fuel + 1, i =>
    let idx := t.probeIdx start i
    let f := (t.slots idx).flags
    match f with
    | .occupied =>
      if t.keyMatches (t.slots idx) keyHash key then (true, t.bumpSlot idx pktBytes tick)
      else retryScan t start keyHash key pktBytes tick fuel (i + 1)
    | .inserting => retryScan t start keyHash key pktBytes tick fuel (i + 1)
    | .free | .tombstone =>
      match t.casFlags idx f .inserting with
      | (true, t') => t'.fillSlot idx keyHash key pktBytes tick
      | (false, t') => retryScan t' start keyHash key pktBytes tick fuel (i + 1)

/-- The end of the update when no candidate slot could be used: evict, then retry once. -/
def evictAndRetry (t : CounterTable) (start : ℕ) (keyHash : UInt64) (key : Key)
    (pktBytes tick : UInt64) : Bool × CounterTable :=
  let t := t.noteFull
  match t.evictLru start with
  | (false, t) => (false, t.failInsert)
  | (true, t) => t.retryScan start keyHash key pktBytes tick t.numSlots 0

/-- `infmon_counter_table_update`. -/
def update (t : CounterTable) (keyHash : UInt64) (key : Key) (pktBytes tick : UInt64) :
    Bool × CounterTable :=
  let start := t.homeSlot keyHash
  match t.searchSlot start keyHash key t.numSlots 0 none with
  | .hit idx => (true, t.bumpSlot idx pktBytes tick)
  -- every slot is occupied, or another writer is filling it
  | .miss none => t.evictAndRetry start keyHash key pktBytes tick
  | .miss (some idx) =>
    let f := (t.slots idx).flags
    if f = .free ∨ f = .tombstone then
      match t.claimSlot idx f keyHash key pktBytes tick insertRetry with
      | .counted t => (true, t)
      | .exhausted => (false, t.failInsert)
      | .claimed t => t.fillSlot idx keyHash key pktBytes tick
    else t.evictAndRetry start keyHash key pktBytes tick

end CounterTable

/-- The arguments of one `infmon_counter_table_update` call, the hash apart. -/
structure UpdateOp where
  key : Key
  pktBytes : UInt64
  tick : UInt64

namespace CounterTable

/-- One update of a run, with `hash` as the hash of every key. -/
def updateOp (hash : Key → UInt64) (t : CounterTable) (op : UpdateOp) : Bool × CounterTable :=
  t.update (hash op.key) op.key op.pktBytes op.tick

/-- A run of updates by the table's writer. -/
def run (hash : Key → UInt64) (t : CounterTable) (ops : List UpdateOp) : CounterTable :=
  ops.foldl (fun t op => (t.updateOp hash op).2) t

/-- No updates leave the table. -/
@[simp] theorem run_nil (hash : Key → UInt64) (t : CounterTable) : t.run hash [] = t := rfl

/-- Updates behind others. -/
@[simp] theorem run_append (hash : Key → UInt64) (t : CounterTable) (ops ops' : List UpdateOp) :
    t.run hash (ops ++ ops') = (t.run hash ops).run hash ops' :=
  List.foldl_append

/-- One update. -/
@[simp] theorem run_singleton (hash : Key → UInt64) (t : CounterTable) (op : UpdateOp) :
    t.run hash [op] = (t.updateOp hash op).2 := rfl

end CounterTable

end InFMon
