import InFMon.Foundations.KeyedMerge
import InFMon.Frontend.Model

/-! # The poller's decoder

`ipc/stats_client.rs` and `decode_snapshot` of `poller.rs`: the raw slots of each flow rule are merged by
key bytes, because every worker has counted on its own, and the keys are decoded. -/

namespace InFMon.Frontend

/-! ### Raw snapshots -/

/-- `RawSlot`. -/
structure RawSlot where
  keyHash : UInt64
  packets : UInt64
  bytes : UInt64
  keyOffset : UInt32
  keyLen : UInt16
  flags : UInt16
  lastUpdate : UInt64
  deriving DecidableEq, Repr

/-- `RawDescriptor`. -/
structure RawDescriptor where
  flowRuleId : FlowRuleId
  flowRuleIndex : UInt32
  generation : UInt64
  epochNs : UInt64
  slots : List RawSlot
  keyArena : List UInt8
  insertFailed : UInt64
  tableFull : UInt64
  deriving DecidableEq, Repr

/-- `RawSnapshot`. -/
structure RawSnapshot where
  descriptors : List RawDescriptor

/-! ### Merging -/

/-- `saturating_add` on `u64`. -/
def satAdd64 (a b : UInt64) : UInt64 :=
  if a.toNat + b.toNat < 2 ^ 64 then a + b else 0xFFFFFFFFFFFFFFFF

/-- `saturating_sub` on `u64`. -/
def satSub64 (a b : UInt64) : UInt64 := if b ≤ a then a - b else 0

/-- `MergedSlot`. -/
structure MergedSlot where
  packets : UInt64
  bytes : UInt64
  lastUpdate : UInt64
  deriving DecidableEq, Repr

/-- What a slot adds to the slots with its key so far. -/
def MergedSlot.add (m slot : MergedSlot) : MergedSlot where
  packets := satAdd64 m.packets slot.packets
  bytes := satAdd64 m.bytes slot.bytes
  lastUpdate := max m.lastUpdate slot.lastUpdate

/-- The key bytes of a slot, none for a slot without a key or with one that extends past the arena. -/
def slotKey (arena : List UInt8) (slot : RawSlot) : Option (List UInt8) :=
  if slot.keyLen = 0 then none
  else if slot.keyOffset.toNat + slot.keyLen.toNat > arena.length then none
  else some ((arena.drop slot.keyOffset.toNat).take slot.keyLen.toNat)

/-- The counts of a slot. -/
def slotCounts (slot : RawSlot) : MergedSlot := ⟨slot.packets, slot.bytes, slot.lastUpdate⟩

/-- The slots that the loop merges, with their keys. -/
def keyedSlots (desc : RawDescriptor) : List (List UInt8 × MergedSlot) :=
  desc.slots.filterMap fun slot =>
    (slotKey desc.keyArena slot).map fun key => (key, slotCounts slot)

/-- The `HashMap` behind the loop, as a list of its entries. -/
def mergedSlots (desc : RawDescriptor) : List (List UInt8 × MergedSlot) :=
  KeyedMerge.mergeAll MergedSlot.add (keyedSlots desc)

/-- The order in which a `HashMap` yields its entries. -/
structure HashOrder (α : Type) where
  order : List α → List α
  perm : ∀ l, (order l).Perm l

/-! ### Decoding -/

/-- The flow of a merged slot, if its key can be decoded. -/
def decodeFlow (fields : List FieldId) (entry : List UInt8 × MergedSlot) : Option FlowStats :=
  match decodeKey fields entry.1 with
  | .error _ => none
  | .ok key =>
    some
      { key := key
        counters :=
          { packets := entry.2.packets
            bytes := entry.2.bytes
            firstSeenNs := 0
            lastSeenNs := entry.2.lastUpdate } }

/-- The statistics of a descriptor under a list of fields. -/
def decodeDescriptor (hash : HashOrder (List UInt8 × MergedSlot)) (fields : List FieldId)
    (desc : RawDescriptor) : FlowRuleStats where
  name := desc.flowRuleId.display
  fields := fields
  maxKeys := 0xFFFFFFFF
  evictionPolicy := .lruDrop
  flows := (hash.order (mergedSlots desc)).filterMap (decodeFlow fields)
  counters := { evictions := 0, drops := desc.insertFailed, packets := 0, bytes := 0 }

/-- `decode_snapshot`. -/
def decodeSnapshot (hash : HashOrder (List UInt8 × MergedSlot)) (raw : RawSnapshot)
    (tickId wall mono prevMono : UInt64) : FlowStatsSnapshot where
  tickId := tickId
  wallClockNs := wall
  monotonicNs := mono
  intervalNs := if tickId = 1 ∨ prevMono = 0 then 0 else satSub64 mono prevMono
  flowRules := raw.descriptors.map fun desc =>
    -- the descriptor does not say which fields its rule has
    let fields : List FieldId := []
    decodeDescriptor hash fields desc

/-! ### What the flows of a descriptor should be -/

/-- The sum of counters, at most `u64::MAX`. -/
def saturatingSum (counts : List UInt64) : UInt64 :=
  UInt64.ofNat (min (counts.map UInt64.toNat).sum (2 ^ 64 - 1))

/-- The largest of some time stamps. -/
def maximum (stamps : List UInt64) : UInt64 := stamps.foldl max 0

/-- The slots of a descriptor with a key. -/
def slotsWith (desc : RawDescriptor) (key : List UInt8) : List RawSlot :=
  desc.slots.filter fun slot => slotKey desc.keyArena slot = some key

/-- The distinct keys of a descriptor. -/
def distinctKeys (desc : RawDescriptor) : List (List UInt8) :=
  (desc.slots.filterMap (slotKey desc.keyArena)).dedup

/-- The values of a key under a list of fields. -/
def decodedKey (fields : List FieldId) (key : List UInt8) : List FieldValue :=
  match decodeKey fields key with
  | .ok values => values
  | .error _ => []

/-- The flow of a key: its values, the saturating sums over its slots and their last time stamp. -/
def flowOf (fields : List FieldId) (desc : RawDescriptor) (key : List UInt8) : FlowStats where
  key := decodedKey fields key
  counters :=
    { packets := saturatingSum ((slotsWith desc key).map RawSlot.packets)
      bytes := saturatingSum ((slotsWith desc key).map RawSlot.bytes)
      firstSeenNs := 0
      lastSeenNs := maximum ((slotsWith desc key).map RawSlot.lastUpdate) }

/-- Every slot with a key lies in the arena, and its key encodes the fields. -/
def Encodes (fields : List FieldId) (desc : RawDescriptor) : Prop :=
  ∀ slot ∈ desc.slots, slot.keyLen ≠ 0 → ∃ key values,
    slotKey desc.keyArena slot = some key ∧ decodeKey fields key = .ok values

/-! ### Merged counters -/

/-- A sum that saturates is the sum, or the largest number. -/
theorem toNat_satAdd64 (a b : UInt64) :
    (satAdd64 a b).toNat = min (a.toNat + b.toNat) (2 ^ 64 - 1) := by
  rw [satAdd64]
  split
  · rename_i h
    rw [UInt64.toNat_add, Nat.mod_eq_of_lt h]
    omega
  · have hmax : (0xFFFFFFFFFFFFFFFF : UInt64).toNat = 2 ^ 64 - 1 := by decide
    rw [hmax]
    omega

/-- Counters added up from the first to the last are their saturating sum. -/
theorem foldl_satAdd64 (counts : List UInt64) (a : UInt64) :
    counts.foldl satAdd64 a = saturatingSum (a :: counts) := by
  have hfold : (counts.foldl satAdd64 a).toNat =
      min (a.toNat + (counts.map UInt64.toNat).sum) (2 ^ 64 - 1) := by
    induction counts generalizing a with
    | nil =>
      have hlt := a.toNat_lt
      rw [List.foldl_nil, List.map_nil, List.sum_nil]
      omega
    | cons b counts ih =>
      rw [List.foldl_cons, ih, toNat_satAdd64, List.map_cons, List.sum_cons]
      omega
  rw [← UInt64.toNat_inj, hfold, saturatingSum, List.map_cons, List.sum_cons,
    UInt64.toNat_ofNat_of_lt']
  exact Nat.lt_of_le_of_lt (Nat.min_le_right _ _) (by decide)

/-- The loop keeps the maximum. -/
theorem foldl_max (stamps : List UInt64) (a : UInt64) :
    stamps.foldl max a = maximum (a :: stamps) := by
  have hzero : max 0 a = a := if_pos UInt64.zero_le
  rw [maximum, List.foldl_cons, hzero]

/-- The slots of one key merge into their saturating sums and their last time stamp. -/
theorem total_slots (slots : List RawSlot) (hne : slots ≠ []) :
    KeyedMerge.total MergedSlot.add (slots.map slotCounts) =
      some ⟨saturatingSum (slots.map RawSlot.packets), saturatingSum (slots.map RawSlot.bytes),
        maximum (slots.map RawSlot.lastUpdate)⟩ := by
  cases slots with
  | nil => exact absurd rfl hne
  | cons first slots =>
    rw [List.map_cons, List.map_cons, List.map_cons, List.map_cons, KeyedMerge.total,
      ← foldl_satAdd64, ← foldl_satAdd64, ← foldl_max]
    refine congrArg some ?_
    have hfold : ∀ m : MergedSlot, (slots.map slotCounts).foldl MergedSlot.add m =
        ⟨(slots.map RawSlot.packets).foldl satAdd64 m.packets,
          (slots.map RawSlot.bytes).foldl satAdd64 m.bytes,
          (slots.map RawSlot.lastUpdate).foldl max m.lastUpdate⟩ := by
      induction slots with
      | nil => exact fun _ => rfl
      | cons slot slots ih => exact fun m => ih (by simp) (m.add (slotCounts slot))
    exact hfold (slotCounts first)

end InFMon.Frontend
