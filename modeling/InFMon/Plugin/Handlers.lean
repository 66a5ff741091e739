import InFMon.Plugin.State

/-! # The binary-API handlers

`infmon_api_handlers.c`: the messages of the plugin's binary API, without the routing fields and the
byte order of the wire, and their handlers. A handler sets up the context on first use, calls the API
operation and, if that succeeded, publishes the rules. -/

namespace InFMon

/-! ### Messages -/

/-- The error codes of VPP that the handlers answer with. -/
inductive VnetApiError where
  | unspecified
  | invalidValue
  | entryAlreadyExists
  | noSuchEntry
  | exceededNumberOfRangesCapacity
  | tableTooBig
  | initFailed
  deriving DecidableEq, Repr

/-- `infmon_api_result_to_retval`: `none` for 0. -/
def apiResultToRetval : ApiResult → Option VnetApiError
  | .ok => none
  | .errInvalidRule => some .invalidValue
  | .errNameExists => some .entryAlreadyExists
  | .errNotFound => some .noSuchEntry
  | .errBudgetExceeded => some .exceededNumberOfRangesCapacity
  | .errSetFull => some .tableTooBig
  | .errAllocFailed => some .initFailed
  | _ => some .unspecified

/-- `vl_api_infmon_flow_rule_add_t`. -/
structure FlowRuleAddMsg where
  name : Vector UInt8 32
  fieldCount : UInt32
  fields : Vector UInt8 8
  maxKeys : UInt32
  evictionPolicy : UInt8
  deriving DecidableEq

/-- `vl_api_infmon_flow_rule_add_reply_t`. -/
structure FlowRuleAddReply where
  retval : Option VnetApiError
  flowRuleId : FlowRuleId
  deriving DecidableEq

/-- `vl_api_infmon_snapshot_and_clear_reply_t`. -/
structure SnapshotReply where
  retval : Option VnetApiError
  descriptor : Option StatsDescriptor

/-- `vl_api_infmon_snapshot_inline_details_t`. -/
structure InlineDetails where
  flowRuleId : FlowRuleId
  generation : UInt64
  epochNs : UInt64
  insertFailed : UInt64
  tableFull : UInt64
  keyHash : UInt64
  packets : UInt64
  bytes : UInt64
  lastUpdate : UInt64
  keyData : List UInt8
  deriving DecidableEq

/-- A message without slot data, so that the client does not hang. -/
def InlineDetails.empty (flowRuleId : FlowRuleId) : InlineDetails where
  flowRuleId := flowRuleId
  generation := 0
  epochNs := 0
  insertFailed := 0
  tableFull := 0
  keyHash := 0
  packets := 0
  bytes := 0
  lastUpdate := 0
  keyData := []

/-- What the environment contributes to one request: whether the rule set can be allocated, the
answers of the allocator, the two readings of the CPU clock for a rule id, the index of the client and
the clock of the snapshot manager. -/
structure ApiEnv where
  memory : Bool
  allocs : ℕ → Alloc
  cpuTimeHi : UInt64
  cpuTimeLo : UInt64
  clientIndex : UInt32
  now : UInt64

namespace Plugin

/-! ### Rules -/

/-- The rule that a message asks for: the name up to its NUL, at most 7 fields, and 65536 keys where
none are asked for. -/
def messageRule (mp : FlowRuleAddMsg) : FlowRule where
  name := (mp.name.toList.take flowRuleNameMax).takeWhile (· ≠ 0)
  fields :=
    let fieldCount :=
      if mp.fieldCount.toNat > flowRuleFieldsMax then flowRuleFieldsMax else mp.fieldCount.toNat
    (mp.fields.toList.take fieldCount).map UInt8.toNat
  maxKeys := if mp.maxKeys = 0 then 65536 else mp.maxKeys.toNat
  evictionPolicy := mp.evictionPolicy.toNat
  keyWidth := 0

/-- The id of a new rule. -/
def newRuleId (env : ApiEnv) (seq : UInt64) : FlowRuleId where
  hi := env.cpuTimeHi ^^^ (env.clientIndex.toUInt64 <<< 32 ||| seq)
  lo := env.cpuTimeLo ^^^ 0xdeadbeefcafebabe ^^^ (seq * 0x9e3779b97f4a7c15)

/-- Publish the rules if the operation succeeded. -/
def publishIf (result : ApiResult) (p : Plugin) : Plugin :=
  if result = .ok then p.publishRules else p

/-- `vl_api_infmon_flow_rule_add_t_handler`. -/
def flowRuleAddHandler (env : ApiEnv) (mp : FlowRuleAddMsg) (p : Plugin) :
    FlowRuleAddReply × Plugin :=
  let p := p.apiCtxEnsure env.memory
  let id := newRuleId env p.idSeq
  -- a refused rule uses up a number too
  let p := { p with idSeq := p.idSeq + 1 }
  let out :=
    if p.ready then p.api.flowRuleAdd (messageRule mp) (some id) env.allocs
    else (.errInternal, p.api)
  ({ retval := apiResultToRetval out.1
     flowRuleId := if out.1 = .ok then id else .zero },
    { p with api := out.2 }.publishIf out.1)

/-- The name of the rule with an id, as the deletion handler looks it up in all places of the id
array. -/
def nameOfId (p : Plugin) (id : FlowRuleId) : Option (List UInt8) :=
  match (List.range flowRuleSetMax).find? fun i => (p.api.ctx.flowRuleIds i).eq id with
  | none => none
  | some i => (p.api.ruleSet.get i).map FlowRule.name

/-- `vl_api_infmon_flow_rule_del_t_handler`. -/
def flowRuleDelHandler (env : ApiEnv) (id : FlowRuleId) (p : Plugin) :
    Option VnetApiError × Plugin :=
  let p := p.apiCtxEnsure env.memory
  if id.isZero then (some .invalidValue, p)
  else
    match p.nameOfId id with
    | none => (some .noSuchEntry, p)
    | some name =>
      let out := p.api.flowRuleDel name
      (apiResultToRetval out.1, { p with api := out.2 }.publishIf out.1)

/-! ### Snapshots -/

/-- The swap that both snapshot handlers start with, and the publication behind it. -/
def snapshotRequest (env : ApiEnv) (id : FlowRuleId) (p : Plugin) : ApiSnapReply × Plugin :=
  let p := p.apiCtxEnsure env.memory
  let out := p.api.snapshotAndClear id env.allocs env.now
  (out.1, { p with api := out.2 }.publishIf out.1.result)

/-- `vl_api_infmon_snapshot_and_clear_t_handler`. -/
def snapshotAndClearHandler (env : ApiEnv) (id : FlowRuleId) (p : Plugin) :
    SnapshotReply × Plugin :=
  let out := p.snapshotRequest env id
  ({ retval := apiResultToRetval out.1.result, descriptor := out.1.descriptor }, out.2)

/-- The message for slot `i` of a retired table, if the slot is occupied. -/
def slotDetails (desc : StatsDescriptor) (t : CounterTable) (i : ℕ) : Option InlineDetails :=
  if (t.slots i).flags ≠ .occupied then none
  else
    some
      { flowRuleId := desc.flowRuleId
        generation := desc.generation
        epochNs := desc.epochNs
        insertFailed := desc.insertFailed
        tableFull := desc.tableFull
        keyHash := (t.slots i).keyHash
        packets := (t.slots i).packets
        bytes := (t.slots i).bytes
        lastUpdate := (t.slots i).lastUpdate
        keyData := (t.key (t.slots i)).getD [] }

/-- The messages for the retired table of one worker. -/
def tableDetails (desc : StatsDescriptor) (heap : Heap) : Option ℕ → List InlineDetails
  | none => []
  | some id =>
    (List.range (heap.table id).numSlots).filterMap (slotDetails desc (heap.table id))

/-- `vl_api_infmon_snapshot_inline_dump_t_handler` for a client that is registered. -/
def snapshotInlineDumpHandler (env : ApiEnv) (id : FlowRuleId) (p : Plugin) :
    List InlineDetails × Plugin :=
  let out := p.snapshotRequest env id
  match out.1.descriptor with
  | none => ([.empty id], out.2)
  | some desc =>
    -- a client that gets no message would wait for one
    if out.1.result ≠ .ok ∨ out.1.numRetired = 0 then ([.empty id], out.2)
    else
      ((List.range out.1.numRetired).flatMap fun w =>
        tableDetails desc out.2.heap (out.1.retiredTables w), out.2)

/-! ### Requests -/

/-- The requests that change rules or tables. -/
inductive Request where
  | flowRuleAdd (env : ApiEnv) (mp : FlowRuleAddMsg)
  | flowRuleDel (env : ApiEnv) (id : FlowRuleId)
  | snapshotAndClear (env : ApiEnv) (id : FlowRuleId)
  | snapshotInlineDump (env : ApiEnv) (id : FlowRuleId)

/-- The state after a request. -/
def serve (p : Plugin) : Request → Plugin
  | .flowRuleAdd env mp => (p.flowRuleAddHandler env mp).2
  | .flowRuleDel env id => (p.flowRuleDelHandler env id).2
  | .snapshotAndClear env id => (p.snapshotAndClearHandler env id).2
  | .snapshotInlineDump env id => (p.snapshotInlineDumpHandler env id).2

/-- Both snapshot handlers leave the state of the swap and the publication. -/
theorem snapshotInlineDumpHandler_snd (env : ApiEnv) (id : FlowRuleId) (p : Plugin) :
    (p.snapshotInlineDumpHandler env id).2 = (p.snapshotRequest env id).2 := by
  unfold snapshotInlineDumpHandler
  dsimp only
  split
  · rfl
  · split
    · rfl
    · rfl

end Plugin

end InFMon
