import InFMon.FlowRule.Model
import InFMon.Snapshot.Manager

/-! # The API handler

`api_handler.c`: flow rules are added and deleted together with their counter tables, one for each
worker, and snapshots are taken by flow rule id. The tables and the ids are arrays parallel to the
rule set. Pointers to the context and its arguments are not NULL here; the two optional parts of the
context are a flag each. -/

namespace InFMon

open CountedLoop

/-! ### Data -/

/-- `infmon_api_result_t`. -/
inductive ApiResult where
  | ok
  | errInvalidRule
  | errNameExists
  | errNotFound
  | errBudgetExceeded
  | errSetFull
  | errStatsPublish
  | errInternal
  | errAllocFailed
  | errTooManyRetired
  | errNullTable
  | errNoSnapshotMgr
  deriving DecidableEq, Repr

/-- `infmon_flow_rule_id_t`. -/
@[ext] structure FlowRuleId where
  hi : UInt64
  lo : UInt64
  deriving DecidableEq, Repr

/-- The id that stands for no id. -/
def FlowRuleId.zero : FlowRuleId := ⟨0, 0⟩

/-- `infmon_flow_rule_id_is_zero`. -/
def FlowRuleId.isZero (id : FlowRuleId) : Bool := id.hi == 0 && id.lo == 0

/-- `infmon_flow_rule_id_eq`. -/
def FlowRuleId.eq (a b : FlowRuleId) : Bool := a.hi == b.hi && a.lo == b.lo

/-- `infmon_api_ctx_t`. -/
structure ApiCtx where
  tables : Tables
  flowRuleIds : ℕ → FlowRuleId
  workerCount : ℕ
  hasStatsReg : Bool
  hasSnapMgr : Bool

/-- The context and what it points to. -/
structure ApiState where
  ctx : ApiCtx
  ruleSet : FlowRuleSet
  mgr : SnapshotMgr
  heap : Heap

/-- `infmon_stats_descriptor_t`, without the byte offsets into the stats segment. -/
structure StatsDescriptor where
  flowRuleId : FlowRuleId
  flowRuleIndex : ℕ
  generation : UInt64
  epochNs : UInt64
  slotsLen : ℕ
  keyArenaCapacity : ℕ
  keyArenaUsed : ℕ
  insertFailed : UInt64
  tableFull : UInt64
  active : Bool

/-- `infmon_api_snap_reply_t`. The descriptor is there on success only. -/
structure ApiSnapReply where
  result : ApiResult
  descriptor : Option StatsDescriptor
  retiredTables : ℕ → Option ℕ
  numRetired : ℕ

/-- A reply that carries an error only. -/
def ApiSnapReply.error (result : ApiResult) : ApiSnapReply where
  result := result
  descriptor := none
  retiredTables := fun _ => none
  numRetired := 0

/-! ### Result codes -/

/-- `map_rule_result`. -/
def mapRuleResult : FlowRuleResult → ApiResult
  | .ok => .ok
  | .errNameExists => .errNameExists
  | .errNotFound => .errNotFound
  | .errInvalidSpec => .errInvalidRule
  | .errBudgetExceeded => .errBudgetExceeded
  | .errSetFull => .errSetFull
  | .errInternal => .errInternal

/-- `map_snap_result`. -/
def mapSnapResult : SnapResult → ApiResult
  | .ok => .ok
  | .allocFailed => .errAllocFailed
  | .tooManyRetired => .errTooManyRetired
  | .invalidIndex => .errNotFound
  | .nullTable => .errNullTable

namespace ApiState

/-! ### Lifecycle -/

/-- `infmon_api_ctx_init`, with the rule set, the worker count and the two optional parts that its
caller puts in. -/
def init (ruleSet : FlowRuleSet) (mgr : SnapshotMgr) (workerCount : ℕ)
    (hasStatsReg hasSnapMgr : Bool) : ApiState where
  ctx :=
    { tables := fun _ _ => none
      flowRuleIds := fun _ => .zero
      workerCount := workerCount
      hasStatsReg := hasStatsReg
      hasSnapMgr := hasSnapMgr }
  ruleSet := ruleSet
  mgr := mgr
  heap := .empty

/-- The number of workers served. -/
def nw (st : ApiState) : ℕ := workersServed st.ctx.workerCount

end ApiState

/-- Destroy the table in one cell and clear the cell. -/
def destroyCell (idx w : ℕ) (s : Tables × Heap) : Tables × Heap :=
  (setTable s.1 w idx none, s.2.destroy (s.1 w idx))

namespace ApiState

/-- `infmon_api_ctx_destroy`. -/
def ctxDestroy (st : ApiState) : ApiState :=
  let s := forUpTo maxWorkers
    (fun w s => forUpTo flowRuleSetMax (fun i s => destroyCell i w s) s) (st.ctx.tables, st.heap)
  { st with
    ctx :=
      { tables := fun _ _ => none
        flowRuleIds := fun _ => .zero
        workerCount := 0
        hasStatsReg := false
        hasSnapMgr := false }
    heap := s.2 }

/-! ### Adding and deleting rules -/

/-- `find_rule_index`. -/
def findRuleIndex (st : ApiState) (name : List UInt8) : Option ℕ := st.ruleSet.indexOf name

/-- `find_rule_index_by_id`. -/
def findRuleIndexById (st : ApiState) (id : FlowRuleId) : Option ℕ :=
  (List.range st.ruleSet.count).find? fun i => (st.ctx.flowRuleIds i).eq id

end ApiState

/-- Create the counter table of a new rule for worker `w`. If that fails, the tables of the workers
before are destroyed. -/
def addTable (idx : ℕ) (inserted : FlowRule) (allocs : ℕ → Alloc) (w : ℕ) (s : Tables × Heap) :
    Except (Tables × Heap) (Tables × Heap) :=
  match s.2.create inserted.maxKeys inserted.keyWidth (allocs w) with
  | (none, heap) => .error (forUpTo w (destroyCell idx) (s.1, heap))
  | (some id, heap) => .ok (setTable s.1 w idx (some id), heap)

/-- Move the table pointers of all workers from index `i + 1` to index `i`. -/
def moveTables (nw i : ℕ) (tables : Tables) : Tables :=
  forUpTo nw (fun w tables => setTable tables w i (tables w (i + 1))) tables

namespace ApiState

/-- `flow_rule_add_internal`: `infmon_api_flow_rule_add` without an id and
`infmon_api_flow_rule_add_with_id` with one. -/
def flowRuleAdd (st : ApiState) (rule : FlowRule) (id : Option FlowRuleId) (allocs : ℕ → Alloc) :
    ApiResult × ApiState :=
  match st.ruleSet.add rule with
  | (.ok, ruleSet) =>
    let st := { st with ruleSet := ruleSet }
    -- the rule that was just added is not found, which should not happen
    let undo : ApiResult × ApiState :=
      (.errInternal, { st with ruleSet := (ruleSet.rm rule.name).2 })
    match st.findRuleIndex rule.name with
    | none => undo
    | some idx =>
      match ruleSet.get idx with
      | none => undo
      | some inserted =>
        match forUpToExcept st.nw (addTable idx inserted allocs) (st.ctx.tables, st.heap) with
        -- the tables are destroyed already; the rule goes too
        | .error (tables, heap) =>
          (.errInternal,
            { st with
              ctx := { st.ctx with tables := tables }
              ruleSet := (ruleSet.rm rule.name).2
              heap := heap })
        | .ok (tables, heap) =>
          (.ok,
            { st with
              ctx := { st.ctx with
                tables := tables
                -- without an id the place is cleared, so that no stale id stays behind
                flowRuleIds := Function.update st.ctx.flowRuleIds idx (id.getD .zero) }
              heap := heap })
  | (result, _) => (mapRuleResult result, st)

/-- `infmon_api_flow_rule_del`. -/
def flowRuleDel (st : ApiState) (name : List UInt8) : ApiResult × ApiState :=
  match st.findRuleIndex name with
  | none => (.errNotFound, st)
  | some idx =>
    match st.ruleSet.rm name with
    -- the rule goes first: if that fails, it still has its tables
    | (.ok, ruleSet) =>
      let nw := st.nw
      let s := forUpTo nw (destroyCell idx) (st.ctx.tables, st.heap)
      -- compact both arrays, as the rule set was compacted
      let count := ruleSet.count
      let c := forUpTo (count - idx)
        (fun m (c : Tables × (ℕ → FlowRuleId)) =>
          (moveTables nw (idx + m) c.1,
            Function.update c.2 (idx + m) (c.2 (idx + m + 1)))) (s.1, st.ctx.flowRuleIds)
      let tables := forUpTo nw (fun w tables => setTable tables w count none) c.1
      (.ok,
        { st with
          ctx := { st.ctx with
            tables := tables
            flowRuleIds := Function.update c.2 count .zero }
          ruleSet := ruleSet
          heap := s.2 })
    | (result, _) => (mapRuleResult result, st)

/-! ### Snapshots -/

/-- The sums over the retired tables that the descriptor reports. -/
def aggregate (heap : Heap) (retired : ℕ → Option ℕ) (numRetired : ℕ) : UInt64 × UInt64 :=
  forUpTo numRetired
    (fun w acc =>
      match retired w with
      | none => acc
      -- one counter is summed up, of the other the bits are taken together
      | some id => (acc.1 + (heap.table id).insertFailed, acc.2 ||| (heap.table id).tableFull))
    (0, 0)

/-- `infmon_api_snapshot_and_clear`. -/
def snapshotAndClear (st : ApiState) (flowRuleId : FlowRuleId) (allocs : ℕ → Alloc)
    (now : UInt64) : ApiSnapReply × ApiState :=
  if st.ctx.hasSnapMgr = false then (.error .errNoSnapshotMgr, st)
  -- a zero id stands for no id, and rules may have been added without one
  else if flowRuleId.isZero then (.error .errNotFound, st)
  else
    match st.findRuleIndexById flowRuleId with
    | none => (.error .errNotFound, st)
    | some idx =>
      -- no table is retired that could not be described
      if st.ctx.hasStatsReg = false then (.error .errInternal, st)
      else
        match st.ruleSet.get idx with
        | none => (.error .errInternal, st)
        | some rule =>
          let out := InFMon.snapshotAndClear st.mgr st.ctx.tables st.heap st.nw idx flowRuleSetMax
            rule.keyWidth allocs now
          let st := { st with
            ctx := { st.ctx with tables := out.tables }
            mgr := out.mgr
            heap := out.heap }
          if out.reply.result ≠ .ok then (.error (mapSnapResult out.reply.result), st)
          else
            -- worker 0 had a table, or the snapshot would have failed
            let retired := out.heap.table ((out.reply.retiredTables 0).getD 0)
            let sums := aggregate out.heap out.reply.retiredTables out.reply.numRetired
            ({ result := .ok
               descriptor := some
                 { flowRuleId := flowRuleId
                   flowRuleIndex := idx
                   generation := out.reply.retiredGeneration
                   epochNs := retired.epochNs
                   slotsLen := retired.numSlots
                   keyArenaCapacity := retired.keyArenaCapacity
                   keyArenaUsed := retired.keyArenaUsed
                   insertFailed := sums.1
                   tableFull := sums.2
                   active := true }
               retiredTables := out.reply.retiredTables
               numRetired := out.reply.numRetired }, st)

end ApiState

/-! ### Runs -/

/-- The operations on a context, and what the workers do in between: `epochs` is any change of their
epochs, `update` counts a packet in a table. -/
inductive ApiOp where
  | add (rule : FlowRule) (id : Option FlowRuleId) (allocs : ℕ → Alloc)
  | del (name : List UInt8)
  | snapshot (id : FlowRuleId) (allocs : ℕ → Alloc) (now : UInt64)
  | poll (now : UInt64)
  | epochs (workerEpochs : ℕ → UInt64)
  | update (table : ℕ) (keyHash : UInt64) (key : Key) (pktBytes tick : UInt64)

namespace ApiState

/-- One operation, and its result. -/
def step (st : ApiState) : ApiOp → ApiResult × ApiState
  | .add rule id allocs => st.flowRuleAdd rule id allocs
  | .del name => st.flowRuleDel name
  | .snapshot id allocs now =>
    let (reply, st) := st.snapshotAndClear id allocs now
    (reply.result, st)
  | .poll now =>
    let (_, mgr, heap) := st.mgr.retirePoll st.heap now
    (.ok, { st with mgr := mgr, heap := heap })
  | .epochs workerEpochs => (.ok, { st with mgr := { st.mgr with workerEpochs := workerEpochs } })
  | .update table keyHash key pktBytes tick =>
    (.ok, { st with heap := st.heap.modify table fun t => (t.update keyHash key pktBytes tick).2 })

/-- A run. -/
def run (st : ApiState) (ops : List ApiOp) : ApiState := ops.foldl (fun st op => (st.step op).2) st

/-- The operations of a run and their results. -/
def log (st : ApiState) : List ApiOp → List (ApiOp × ApiResult)
  | [] => []
  | op :: ops => (op, (st.step op).1) :: (st.step op).2.log ops

/-- One operation more. -/
theorem run_concat (st : ApiState) (ops : List ApiOp) (op : ApiOp) :
    st.run (ops ++ [op]) = ((st.run ops).step op).2 :=
  List.foldl_concat ..

/-- One result more. -/
theorem log_concat (st : ApiState) (ops : List ApiOp) (op : ApiOp) :
    st.log (ops ++ [op]) = st.log ops ++ [(op, ((st.run ops).step op).1)] := by
  induction ops generalizing st with
  | nil => rfl
  | cons first ops ih => rw [List.cons_append, log, log, ih, List.cons_append, run, run, List.foldl]

end ApiState

end InFMon
