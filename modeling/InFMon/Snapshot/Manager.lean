import InFMon.CounterTable.Heap
import InFMon.Foundations.CountedLoop

/-! # The snapshot manager

The swap of one flow rule's counter tables and the retirement of the old ones, from `snapshot.c`. The
control thread replaces the tables of all workers by empty ones and keeps the old tables in a ring of
retired entries until every worker's epoch has passed the epoch of the swap and the grace period is
over. The `tables` array is the row of each worker, indexed by flow rule. -/

namespace InFMon

open CountedLoop MachineWord

/-! ### Data -/

/-- `INFMON_MAX_WORKERS`. -/
def maxWorkers : ℕ := 32

/-- `INFMON_MAX_RETIRED`. -/
def maxRetired : ℕ := 16

/-- The table pointers, by worker and flow rule. -/
abbrev Tables := ℕ → ℕ → Option ℕ

/-- Write one table pointer. -/
def setTable (tables : Tables) (w i : ℕ) (ptr : Option ℕ) : Tables :=
  Function.update tables w (Function.update (tables w) i ptr)

/-- `infmon_retired_table_t`. -/
structure RetiredTable where
  tables : ℕ → Option ℕ
  numTables : ℕ
  swapEpoch : UInt64
  swapTimestampNs : UInt64
  flowRuleIndex : ℕ
  pending : Bool

/-- An entry as `memset` leaves it. -/
def RetiredTable.zero : RetiredTable where
  tables := fun _ => none
  numTables := 0
  swapEpoch := 0
  swapTimestampNs := 0
  flowRuleIndex := 0
  pending := false

/-- `infmon_snapshot_mgr_t`, apart from the clock: its readings are passed to the operations. -/
structure SnapshotMgr where
  workerEpochs : ℕ → UInt64
  numWorkers : ℕ
  globalEpoch : UInt64
  retired : ℕ → RetiredTable
  retiredCount : ℕ
  graceNs : UInt64

/-- `infmon_snap_result_t`. -/
inductive SnapResult where
  | ok
  | allocFailed
  | tooManyRetired
  | invalidIndex
  | nullTable
  deriving DecidableEq, Repr

/-- `infmon_snap_reply_t`. -/
structure SnapReply where
  result : SnapResult
  retiredTables : ℕ → Option ℕ
  numRetired : ℕ
  retiredGeneration : UInt64

/-- A reply that carries an error only. -/
def SnapReply.error (result : SnapResult) : SnapReply where
  result := result
  retiredTables := fun _ => none
  numRetired := 0
  retiredGeneration := 0

namespace SnapshotMgr

/-! ### Lifecycle and epochs -/

/-- `infmon_snapshot_mgr_init`. -/
def init (numWorkers : ℕ) (graceNs : UInt64) : SnapshotMgr where
  workerEpochs := fun _ => 0
  numWorkers := numWorkers
  globalEpoch := 0
  retired := fun _ => RetiredTable.zero
  retiredCount := 0
  graceNs := graceNs

/-- `infmon_worker_epoch_bump`. -/
def workerEpochBump (mgr : SnapshotMgr) (worker : ℕ) : SnapshotMgr :=
  { mgr with workerEpochs := Function.update mgr.workerEpochs worker (mgr.workerEpochs worker + 1) }

/-- `infmon_all_workers_past`. -/
def allWorkersPast (mgr : SnapshotMgr) (epoch : UInt64) : Bool :=
  (List.range mgr.numWorkers).all fun i => !decide (mgr.workerEpochs i ≤ epoch)

/-- Destroy table `w` of ring entry `i` and forget the pointer. -/
def destroyRetired (i w : ℕ) (s : SnapshotMgr × Heap) : SnapshotMgr × Heap :=
  let entry := s.1.retired i
  match entry.tables w with
  | none => s
  | some id =>
    let entry := { entry with tables := Function.update entry.tables w none }
    ({ s.1 with retired := Function.update s.1.retired i entry }, s.2.destroy (some id))

/-- Mark ring entry `i` as free. -/
def clearPending (mgr : SnapshotMgr) (i : ℕ) : SnapshotMgr :=
  { mgr with retired := Function.update mgr.retired i { mgr.retired i with pending := false } }

/-- Destroy the tables of ring entry `i` and free the entry. -/
def releaseEntry (i : ℕ) (s : SnapshotMgr × Heap) : SnapshotMgr × Heap :=
  let s := forUpTo (s.1.retired i).numTables (destroyRetired i) s
  (s.1.clearPending i, s.2)

/-- `infmon_snapshot_mgr_destroy`. -/
def destroy (mgr : SnapshotMgr) (heap : Heap) : SnapshotMgr × Heap :=
  let s := forUpTo maxRetired
    (fun i s => if (s.1.retired i).pending then releaseEntry i s else s) (mgr, heap)
  ({ s.1 with retiredCount := 0 }, s.2)

end SnapshotMgr

/-! ### Snapshot and clear -/

/-- What the allocation pass has collected: the heap and the new and old table of each worker. -/
structure AllocPass where
  heap : Heap
  newTables : ℕ → Option ℕ
  oldTables : ℕ → Option ℕ

/-- Destroy the tables allocated for the workers below `w`. -/
def cleanupNew (newTables : ℕ → Option ℕ) (w : ℕ) (heap : Heap) : Heap :=
  forUpTo w (fun cw heap => heap.destroy (newTables cw)) heap

/-- The allocation pass for worker `w`. It ends with the heap after the cleanup if no table could be
created. -/
def allocStep (tables : Tables) (flowRuleIndex maxKeyWidth : ℕ) (allocs : ℕ → Alloc) (w : ℕ)
    (p : AllocPass) : Except Heap AllocPass :=
  let oldW := tables w flowRuleIndex
  let p := { p with oldTables := Function.update p.oldTables w oldW }
  match oldW with
  -- a worker without a table gets none
  | none => .ok p
  | some old =>
    -- the limit of the new table is the number of slots of the old one
    match p.heap.create (p.heap.table old).numSlots maxKeyWidth (allocs w) with
    | (none, heap) => .error (cleanupNew p.newTables w heap)
    | (some new, heap) =>
      .ok { p with heap := heap, newTables := Function.update p.newTables w (some new) }

/-- What the swap pass works on. -/
structure SwapPass where
  heap : Heap
  tables : Tables
  gen : UInt64
  genSet : Bool

/-- The swap pass for worker `w`. -/
def swapStep (flowRuleIndex : ℕ) (oldTables newTables : ℕ → Option ℕ) (now : UInt64) (w : ℕ)
    (p : SwapPass) : SwapPass :=
  match oldTables w, newTables w with
  | some old, some new =>
    -- the new table is labelled before its pointer is stored
    let oldGen := (p.heap.table old).generation
    { heap := p.heap.modify new fun t => { t with generation := oldGen + 1, epochNs := now }
      tables := setTable p.tables w flowRuleIndex (some new)
      -- the reply has the generation of the first table that was replaced
      gen := if p.genSet then p.gen else oldGen
      genSet := true }
  | _, _ => p

namespace SnapshotMgr

/-- The first ring entry that is not pending. -/
def freeEntry (mgr : SnapshotMgr) : Option ℕ :=
  (List.range maxRetired).find? fun i => !(mgr.retired i).pending

/-- Enqueue a retired entry in the first free place of the ring. -/
def enqueue (mgr : SnapshotMgr) (entry : RetiredTable) : SnapshotMgr :=
  match mgr.freeEntry with
  -- the caller has made sure that there is a free place
  | none => mgr
  | some i =>
    { mgr with
      retired := Function.update mgr.retired i entry
      retiredCount := mgr.retiredCount + 1 }

end SnapshotMgr

/-- The state that a snapshot leaves, and its reply. -/
structure SnapOutcome where
  reply : SnapReply
  mgr : SnapshotMgr
  tables : Tables
  heap : Heap

/-- The number of workers served, `num_workers > 0 ? num_workers : 1`. -/
def workersServed (numWorkers : ℕ) : ℕ := if numWorkers > 0 then numWorkers else 1

/-- `infmon_snapshot_and_clear`, with `allocs` for what the allocator answers for each worker and
`now` for the reading of the clock. -/
def snapshotAndClear (mgr : SnapshotMgr) (tables : Tables) (heap : Heap)
    (numWorkers flowRuleIndex maxFlowRules maxKeyWidth : ℕ) (allocs : ℕ → Alloc) (now : UInt64) :
    SnapOutcome :=
  if flowRuleIndex ≥ maxFlowRules then
    { reply := .error .invalidIndex, mgr := mgr, tables := tables, heap := heap }
  else
    let nw := workersServed numWorkers
    -- the table of worker 0 decides whether the rule has tables
    if tables 0 flowRuleIndex = none then
      { reply := .error .nullTable, mgr := mgr, tables := tables, heap := heap }
    else if mgr.retiredCount ≥ maxRetired then
      { reply := .error .tooManyRetired, mgr := mgr, tables := tables, heap := heap }
    else
      match forUpToExcept nw (allocStep tables flowRuleIndex maxKeyWidth allocs)
          { heap := heap, newTables := fun _ => none, oldTables := fun _ => none } with
      | .error heap => { reply := .error .allocFailed, mgr := mgr, tables := tables, heap := heap }
      | .ok p =>
        -- from here on nothing fails
        let swapEpoch := mgr.globalEpoch + 1
        let mgr := { mgr with globalEpoch := swapEpoch }
        let q := forUpTo nw (swapStep flowRuleIndex p.oldTables p.newTables now)
          { heap := p.heap, tables := tables, gen := 0, genSet := false }
        { reply :=
            { result := .ok
              retiredTables := p.oldTables
              numRetired := nw
              retiredGeneration := q.gen }
          mgr := mgr.enqueue
            { tables := p.oldTables
              numTables := nw
              swapEpoch := swapEpoch
              swapTimestampNs := now
              flowRuleIndex := flowRuleIndex
              pending := true }
          tables := q.tables
          heap := q.heap }

/-! ### Retire poll -/

namespace SnapshotMgr

/-- Whether the tables of an entry may be freed: all workers are past the epoch of the swap, and the
grace period is over. -/
def reclaimable (mgr : SnapshotMgr) (entry : RetiredTable) (now : UInt64) : Bool :=
  mgr.allWorkersPast entry.swapEpoch &&
    -- a clock that went back frees nothing
    !(decide (now ≤ entry.swapTimestampNs) || decide (now - entry.swapTimestampNs < mgr.graceNs))

/-- The poll of ring entry `i`. -/
def pollEntry (now : UInt64) (i : ℕ) (s : ℕ × SnapshotMgr × Heap) : ℕ × SnapshotMgr × Heap :=
  let (freed, mgr, heap) := s
  if (mgr.retired i).pending = false then s
  else if mgr.reclaimable (mgr.retired i) now = false then s
  else
    let (mgr, heap) := releaseEntry i (mgr, heap)
    (freed + 1, { mgr with retiredCount := sub32 mgr.retiredCount 1 }, heap)

/-- `infmon_retire_poll`: the number of entries freed, with `now` for the reading of the clock. -/
def retirePoll (mgr : SnapshotMgr) (heap : Heap) (now : UInt64) : ℕ × SnapshotMgr × Heap :=
  forUpTo maxRetired (pollEntry now) (0, mgr, heap)

end SnapshotMgr

end InFMon
