import InFMon.Api.Handler
import InFMon.Foundations.Runs
import InFMon.Foundations.SparseArray

/-! # The stats segment

`stats_segment.c`: a registry of descriptors through which a reader finds the counter tables in shared
memory. The registry is an array with slots that are reused, and it counts the active ones apart. The
pointer to it is not NULL here. -/

namespace InFMon

open CountedLoop MachineWord

/-- `infmon_stats_result_t`. -/
inductive StatsResult where
  | ok
  | errRegistryFull
  | errNotFound
  | errNullTable
  | errInvalidArg
  deriving DecidableEq, Repr

/-- `INFMON_STATS_MAX_DESCRIPTORS`. -/
def statsMaxDescriptors : ℕ := 128

/-- `infmon_stats_descriptor_t` with the byte offsets into the segment. -/
structure SegmentDescriptor extends StatsDescriptor where
  slotsOffset : UInt64
  keyArenaOffset : UInt64

/-- A counter table, and where its slots and its arena lie. -/
structure SegmentTable where
  table : CounterTable
  slotsAddr : UInt64
  keyArenaAddr : UInt64

/-- `infmon_stats_offset_of`. Without its assertions it wraps around for an address below the base. -/
def statsOffsetOf (segmentBase ptr : UInt64) : UInt64 := ptr - segmentBase

/-- `infmon_stats_registry_t`. -/
structure StatsRegistry where
  descriptors : ℕ → SegmentDescriptor
  count : ℕ
  segmentBase : UInt64
  segmentSize : UInt64

namespace SegmentDescriptor

/-- A descriptor as `memset` leaves it. -/
def zero : SegmentDescriptor where
  flowRuleId := .zero
  flowRuleIndex := 0
  generation := 0
  epochNs := 0
  slotsLen := 0
  keyArenaCapacity := 0
  keyArenaUsed := 0
  insertFailed := 0
  tableFull := 0
  active := false
  slotsOffset := 0
  keyArenaOffset := 0

/-- The descriptor that is published for a table. -/
def ofTable (segmentBase : UInt64) (t : SegmentTable) (flowRuleId : FlowRuleId)
    (flowRuleIndex : ℕ) : SegmentDescriptor where
  flowRuleId := flowRuleId
  flowRuleIndex := flowRuleIndex
  generation := t.table.generation
  epochNs := t.table.epochNs
  slotsOffset := statsOffsetOf segmentBase t.slotsAddr
  slotsLen := t.table.numSlots
  keyArenaOffset := statsOffsetOf segmentBase t.keyArenaAddr
  keyArenaCapacity := t.table.keyArenaCapacity
  keyArenaUsed := t.table.keyArenaUsed
  insertFailed := t.table.insertFailed
  tableFull := t.table.tableFull
  active := true

/-- An active descriptor. -/
def isActive (d : SegmentDescriptor) : Bool := d.active

/-- An active descriptor of a rule. -/
def isOf (d : SegmentDescriptor) (flowRuleId : FlowRuleId) : Bool :=
  d.active && d.flowRuleId.eq flowRuleId

/-- An active descriptor of a rule and a generation. -/
def isAt (d : SegmentDescriptor) (flowRuleId : FlowRuleId) (generation : UInt64) : Bool :=
  d.active && d.flowRuleId.eq flowRuleId && d.generation == generation

/-- The fields that a refresh writes. -/
def refreshed (d : SegmentDescriptor) (t : SegmentTable) : SegmentDescriptor :=
  { d with
    keyArenaUsed := t.table.keyArenaUsed
    insertFailed := t.table.insertFailed
    tableFull := t.table.tableFull }

end SegmentDescriptor

namespace StatsRegistry

/-! ### Lifecycle -/

/-- `infmon_stats_registry_init`. -/
def init (segmentBase : UInt64) : StatsRegistry where
  descriptors := fun _ => .zero
  count := 0
  segmentBase := segmentBase
  segmentSize := 0

/-- `infmon_stats_registry_destroy`. -/
def destroy (reg : StatsRegistry) : StatsRegistry :=
  { reg with
    descriptors := fun i =>
      if i < statsMaxDescriptors then { reg.descriptors i with active := false }
      else reg.descriptors i
    count := 0 }

/-- Write a descriptor. -/
def setDescriptor (reg : StatsRegistry) (i : ℕ) (d : SegmentDescriptor) : StatsRegistry :=
  { reg with descriptors := Function.update reg.descriptors i d }

/-! ### Publish -/

/-- The first slot that is not active. -/
def freeSlot (reg : StatsRegistry) : Option ℕ :=
  (List.range statsMaxDescriptors).find? fun i => !(reg.descriptors i).active

/-- `infmon_stats_publish`. -/
def publish (reg : StatsRegistry) (table : Option SegmentTable) (flowRuleId : FlowRuleId)
    (flowRuleIndex : ℕ) : StatsResult × StatsRegistry :=
  match table with
  | none => (.errNullTable, reg)
  | some t =>
    if reg.count ≥ statsMaxDescriptors then (.errRegistryFull, reg)
    else
      match reg.freeSlot with
      | some i =>
        let reg := reg.setDescriptor i (.ofTable reg.segmentBase t flowRuleId flowRuleIndex)
        (.ok, { reg with count := u32 (reg.count + 1) })
      -- should be unreachable given the count
      | none => (.errRegistryFull, reg)

/-! ### Queries -/

/-- `infmon_stats_find`, as an index. -/
def find (reg : StatsRegistry) (flowRuleId : FlowRuleId) (generation : UInt64) : Option ℕ :=
  (List.range statsMaxDescriptors).find? fun i => (reg.descriptors i).isAt flowRuleId generation

/-- One iteration of `infmon_stats_find_latest`. -/
def latestStep (reg : StatsRegistry) (flowRuleId : FlowRuleId) (i : ℕ) (best : Option ℕ) :
    Option ℕ :=
  if (reg.descriptors i).isOf flowRuleId then
    match best with
    | none => some i
    | some b =>
      if (reg.descriptors i).generation > (reg.descriptors b).generation then some i else some b
  else best

/-- `infmon_stats_find_latest`, as an index. -/
def findLatest (reg : StatsRegistry) (flowRuleId : FlowRuleId) : Option ℕ :=
  forUpTo statsMaxDescriptors (reg.latestStep flowRuleId) none

/-- `infmon_stats_get`, as an index. -/
def get (reg : StatsRegistry) (index : ℕ) : Option ℕ :=
  SparseArray.scan SegmentDescriptor.isActive reg.descriptors index (List.range statsMaxDescriptors) 0

/-! ### Unpublish -/

/-- Clear the flag of an active descriptor. -/
def deactivate (reg : StatsRegistry) (i : ℕ) : StatsRegistry :=
  let reg := reg.setDescriptor i { reg.descriptors i with active := false }
  { reg with count := sub32 reg.count 1 }

/-- `infmon_stats_unpublish`. -/
def unpublish (reg : StatsRegistry) (flowRuleId : FlowRuleId) (generation : UInt64) :
    StatsResult × StatsRegistry :=
  -- the loop is the one of `infmon_stats_find`
  match reg.find flowRuleId generation with
  | some i => (.ok, reg.deactivate i)
  | none => (.errNotFound, reg)

/-- One iteration of `infmon_stats_unpublish_all`, with the number of descriptors removed. -/
def unpublishStep (flowRuleId : FlowRuleId) (i : ℕ) (s : ℕ × StatsRegistry) : ℕ × StatsRegistry :=
  if (s.2.descriptors i).isOf flowRuleId then (s.1 + 1, s.2.deactivate i) else s

/-- `infmon_stats_unpublish_all`. -/
def unpublishAll (reg : StatsRegistry) (flowRuleId : FlowRuleId) : ℕ × StatsRegistry :=
  forUpTo statsMaxDescriptors (unpublishStep flowRuleId) (0, reg)

/-! ### Refresh -/

/-- `infmon_stats_refresh`. -/
def refresh (reg : StatsRegistry) (flowRuleId : FlowRuleId) (generation : UInt64)
    (table : Option SegmentTable) : StatsResult × StatsRegistry :=
  match table with
  | none => (.errInvalidArg, reg)
  | some t =>
    match reg.find flowRuleId generation with
    | some i => (.ok, reg.setDescriptor i ((reg.descriptors i).refreshed t))
    | none => (.errNotFound, reg)

end StatsRegistry

/-! ### Runs -/

/-- The calls that change a registry. -/
inductive RegistryOp where
  | publish (table : Option SegmentTable) (flowRuleId : FlowRuleId) (flowRuleIndex : ℕ)
  | unpublish (flowRuleId : FlowRuleId) (generation : UInt64)
  | unpublishAll (flowRuleId : FlowRuleId)
  | refresh (flowRuleId : FlowRuleId) (generation : UInt64) (table : Option SegmentTable)
  | destroy

/-- One call. -/
def StatsRegistry.step (reg : StatsRegistry) : RegistryOp → StatsRegistry
  | .publish table id index => (reg.publish table id index).2
  | .unpublish id generation => (reg.unpublish id generation).2
  | .unpublishAll id => (reg.unpublishAll id).2
  | .refresh id generation table => (reg.refresh id generation table).2
  | .destroy => reg.destroy

end InFMon
