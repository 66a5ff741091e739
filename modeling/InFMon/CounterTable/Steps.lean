import InFMon.CounterTable.Accounting
import InFMon.Foundations.SmallStep

/-! # The update, one access at a time

`infmon_counter_table_update` as a machine: every load, store, compare-and-swap and fetch-and-add of a
field of the table is a step of its own, so that other accesses can come in between. What the code
computes from values that it has already loaded belongs to the step that loaded the last of them. -/

namespace InFMon

open MachineWord

/-! ### Where an update is -/

/-- The three places that call `key_matches`, with what they go on with when the key does not match. -/
inductive Site where
  | scan (i : ℕ) (candidate : Option ℕ)
  | claim (f : SlotFlags) (retry : ℕ)
  | rescan (i : ℕ)
  deriving DecidableEq, Repr

/-- The loads of `key_matches`, in the order of the code. -/
inductive MatchLoad where
  | keyHash
  | keyLen
  | keyOffset
  | keyBytes
  deriving DecidableEq, Repr

/-- The fields of a slot that an insertion stores, in the order of the code. -/
inductive SlotField where
  | keyHash
  | packets
  | bytes
  | keyOffset
  | keyLen
  | lastUpdate
  deriving DecidableEq, Repr

/-- The field that is stored after a field. -/
def SlotField.next : SlotField → Option SlotField
  | .keyHash => some .packets
  | .packets => some .bytes
  | .bytes => some .keyOffset
  | .keyOffset => some .keyLen
  | .keyLen => some .lastUpdate
  | .lastUpdate => none

/-- One field of a slot is stored by an insertion. -/
def Slot.storeField (slot : Slot) (c : UpdateCall) (off : ℕ) : SlotField → Slot
  | .keyHash => { slot with keyHash := c.keyHash }
  | .packets => { slot with packets := 1 }
  | .bytes => { slot with bytes := c.pktBytes }
  | .keyOffset => { slot with keyOffset := off }
  | .keyLen => { slot with keyLen := c.key.len }
  | .lastUpdate => { slot with lastUpdate := c.tick }

/-- The next access of an update, with the local variables that it needs. -/
inductive Pc where
  /-- Load the flags of the slot of round `i` of phase 1. -/
  | scan (i : ℕ) (candidate : Option ℕ)
  /-- A load of `key_matches` on slot `idx`. -/
  | compare (site : Site) (idx : ℕ) (load : MatchLoad)
  /-- Load the flags of the candidate slot. -/
  | reload (idx : ℕ)
  /-- Compare-and-swap on the flags of the candidate slot. -/
  | claim (idx : ℕ) (f : SlotFlags) (retry : ℕ)
  | countPacket (idx : ℕ)
  | countBytes (idx : ℕ)
  | stamp (idx : ℕ)
  /-- Raise `key_arena_used`. -/
  | alloc (idx : ℕ)
  /-- Roll `key_arena_used` back. -/
  | unalloc (idx : ℕ)
  /-- Store `FREE` in a claimed slot. -/
  | unclaim (idx : ℕ)
  /-- Copy byte `k` of the key into the arena. -/
  | copy (idx off k : ℕ)
  | beginWrite (idx off : ℕ)
  | store (idx off : ℕ) (field : SlotField)
  | endWrite (idx off : ℕ)
  /-- Store `OCCUPIED` in a claimed slot. -/
  | publish (idx off : ℕ)
  /-- Raise `occupied_count`. -/
  | countSlot
  /-- Raise `insert_failed`. -/
  | fail
  /-- Raise `table_full`. -/
  | noteFull
  /-- Load the flags of the slot of round `i` of the victim scan. -/
  | inspect (i : ℕ) (victim : Option ℕ) (minTick : UInt64)
  /-- Load its `last_update`. -/
  | age (i : ℕ) (victim : Option ℕ) (minTick : UInt64)
  | beginEvict (victim : ℕ)
  /-- Load the flags of the victim again. -/
  | recheck (victim : ℕ)
  /-- Store `TOMBSTONE` in the victim. -/
  | bury (victim : ℕ)
  /-- Lower `occupied_count`. -/
  | uncount (victim : ℕ)
  | endEvict (victim : ℕ) (ok : Bool)
  /-- Load the flags of the slot of round `i` of the retry. -/
  | rescan (i : ℕ)
  /-- Compare-and-swap on the flags of the slot of round `i` of the retry. -/
  | reclaim (i : ℕ) (f : SlotFlags)
  | returned (ok : Bool)
  deriving DecidableEq, Repr

namespace CounterTable

/-! ### Between two accesses -/

/-- After the loop of phase 1. -/
def afterScan : Option ℕ → Pc
  | some idx => .reload idx
  | none => .noteFull

/-- The next round of phase 1. -/
def nextScan (t : CounterTable) (i : ℕ) (candidate : Option ℕ) : Pc :=
  if i < t.numSlots then .scan i candidate else afterScan candidate

/-- The next round of the compare-and-swap loop. -/
def nextClaim (idx : ℕ) (f : SlotFlags) (retry : ℕ) : Pc :=
  if retry < insertRetry then .claim idx f retry else .fail

/-- The next round of the retry. -/
def nextRescan (t : CounterTable) (i : ℕ) : Pc := if i < t.numSlots then .rescan i else .fail

/-- The next round of the victim scan. -/
def nextInspect (t : CounterTable) (i : ℕ) (victim : Option ℕ) (minTick : UInt64) : Pc :=
  if i < t.evictWindow then .inspect i victim minTick
  else
    match victim with
    | some v => .beginEvict v
    | none => .fail

/-- The next byte of the key. An offset that `arena_alloc` returns is a failure when it is
`UINT32_MAX`, however it came about. -/
def nextCopy (key : Key) (idx off k : ℕ) : Pc :=
  if k < key.len then .copy idx off k
  else if off = max32 then .unclaim idx
  else .beginWrite idx off

/-- The next field of the slot. -/
def nextStore (idx off : ℕ) (field : SlotField) : Pc :=
  match field.next with
  | some next => .store idx off next
  | none => .endWrite idx off

/-- Where an update goes on after `key_matches` has answered no. -/
def mismatch (t : CounterTable) (idx : ℕ) : Site → Pc
  | .scan i candidate => t.nextScan (i + 1) candidate
  | .claim f retry => nextClaim idx f (retry + 1)
  | .rescan i => t.nextRescan (i + 1)

/-! ### Steps -/

/-- One load of `key_matches`. -/
def stepCompare (c : UpdateCall) (t : CounterTable) (site : Site) (idx : ℕ) : MatchLoad → Pc
  | .keyHash =>
    if (t.slots idx).keyHash ≠ c.keyHash then t.mismatch idx site else .compare site idx .keyLen
  | .keyLen =>
    if (t.slots idx).keyLen ≠ c.key.len then t.mismatch idx site else .compare site idx .keyOffset
  | .keyOffset =>
    if u32 ((t.slots idx).keyOffset + c.key.len) > t.keyArenaCapacity then t.mismatch idx site
    else .compare site idx .keyBytes
  | .keyBytes =>
    if t.keyArena.read (t.slots idx).keyOffset c.key.len = c.key.bytes then .countPacket idx
    else t.mismatch idx site

/-- One access of an update. -/
def step (c : UpdateCall) : CounterTable × Pc → CounterTable × Pc
  | (t, .scan i candidate) =>
    let idx := t.probeIdx (t.homeSlot c.keyHash) i
    match (t.slots idx).flags with
    | .occupied => (t, .compare (.scan i candidate) idx .keyHash)
    | .inserting => (t, t.nextScan (i + 1) candidate)
    | .tombstone => (t, t.nextScan (i + 1) (candidate.or (some idx)))
    | .free => (t, afterScan (candidate.or (some idx)))
  | (t, .compare site idx load) => (t, stepCompare c t site idx load)
  | (t, .countPacket idx) =>
    (t.modifySlot idx fun slot => { slot with packets := slot.packets + 1 }, .countBytes idx)
  | (t, .countBytes idx) =>
    (t.modifySlot idx fun slot => { slot with bytes := slot.bytes + c.pktBytes }, .stamp idx)
  | (t, .stamp idx) =>
    (t.modifySlot idx fun slot => { slot with lastUpdate := c.tick }, .returned true)
  | (t, .reload idx) =>
    let f := (t.slots idx).flags
    (t, if f = .free ∨ f = .tombstone then .claim idx f 0 else .noteFull)
  | (t, .claim idx f retry) =>
    match t.casFlags idx f .inserting with
    | (true, t') => (t', .alloc idx)
    | (false, t') =>
      (t', if (t'.slots idx).flags = .occupied then .compare (.claim f retry) idx .keyHash
        else nextClaim idx f (retry + 1))
  | (t, .alloc idx) =>
    let offset := t.keyArenaUsed
    let used := u32 (offset + c.key.len)
    ({ t with keyArenaUsed := used },
      if used > t.keyArenaCapacity then .unalloc idx else nextCopy c.key idx offset 0)
  | (t, .unalloc idx) =>
    ({ t with keyArenaUsed := sub32 t.keyArenaUsed c.key.len }, .unclaim idx)
  | (t, .unclaim idx) => (t.setFlags idx .free, .fail)
  | (t, .copy idx off k) =>
    ({ t with keyArena := t.keyArena.write (off + k) [c.key.bytes.getD k 0] },
      nextCopy c.key idx off (k + 1))
  | (t, .beginWrite idx off) => (t.seqlockBump (idx / slotsPerGroup), .store idx off .keyHash)
  | (t, .store idx off field) =>
    (t.modifySlot idx fun slot => slot.storeField c off field, nextStore idx off field)
  | (t, .endWrite idx off) => (t.seqlockBump (idx / slotsPerGroup), .publish idx off)
  | (t, .publish idx _) => (t.setFlags idx .occupied, .countSlot)
  | (t, .countSlot) => ({ t with occupiedCount := u32 (t.occupiedCount + 1) }, .returned true)
  | (t, .fail) => (t.failInsert, .returned false)
  | (t, .noteFull) => (t.noteFull, t.nextInspect 0 none 0xFFFFFFFFFFFFFFFF)
  | (t, .inspect i victim minTick) =>
    if (t.slots (t.probeIdx (t.homeSlot c.keyHash) i)).flags = .occupied then
      (t, .age i victim minTick)
    else (t, t.nextInspect (i + 1) victim minTick)
  | (t, .age i victim minTick) =>
    let idx := t.probeIdx (t.homeSlot c.keyHash) i
    let lu := (t.slots idx).lastUpdate
    (t, if lu < minTick then t.nextInspect (i + 1) (some idx) lu
      else t.nextInspect (i + 1) victim minTick)
  | (t, .beginEvict victim) => (t.seqlockBump (victim / slotsPerGroup), .recheck victim)
  | (t, .recheck victim) =>
    (t, if (t.slots victim).flags ≠ .occupied then .endEvict victim false else .bury victim)
  | (t, .bury victim) => (t.setFlags victim .tombstone, .uncount victim)
  | (t, .uncount victim) =>
    ({ t with occupiedCount := sub32 t.occupiedCount 1 }, .endEvict victim true)
  | (t, .endEvict victim ok) =>
    (t.seqlockBump (victim / slotsPerGroup), if ok then t.nextRescan 0 else .fail)
  | (t, .rescan i) =>
    let idx := t.probeIdx (t.homeSlot c.keyHash) i
    let f := (t.slots idx).flags
    match f with
    | .occupied => (t, .compare (.rescan i) idx .keyHash)
    | .inserting => (t, t.nextRescan (i + 1))
    | .free | .tombstone => (t, .reclaim i f)
  | (t, .reclaim i f) =>
    let idx := t.probeIdx (t.homeSlot c.keyHash) i
    match t.casFlags idx f .inserting with
    | (true, t') => (t', .alloc idx)
    | (false, t') => (t', t'.nextRescan (i + 1))
  | (t, .returned ok) => (t, .returned ok)

/-- Where every update starts. -/
def start (t : CounterTable) : Pc := t.nextScan 0 none

end CounterTable

end InFMon
