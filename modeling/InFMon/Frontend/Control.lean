import InFMon.Frontend.VapiClient
import Mathlib.Logic.Function.Basic

/-! # The control server

`control.rs` and `ipc/protocol.rs`: the requests of the command-line tool, the state that the server
keeps, and one handler for each request. The control client is there or not for the whole life of the
server; the answer of the poller to a pull is an input. -/

namespace InFMon.Frontend

/-! ### The protocol -/

/-- `FlowRuleAddParams`. -/
structure FlowRuleAddParams where
  name : String
  fields : List Field
  maxKeys : UInt32
  evictionPolicy : EvictionPolicy

/-- `Request`, with the parameters of each. -/
inductive Request where
  | flowRuleAdd (params : FlowRuleAddParams)
  | flowRuleRm (name : String)
  | flowRuleList
  | flowRuleShow (name : String)
  | statsShow (name : Option String)
  | statsPull

/-- `FlowRuleData`. -/
structure FlowRuleData where
  name : String
  fields : List Field
  maxKeys : UInt32
  evictionPolicy : EvictionPolicy
  deriving DecidableEq, Repr

/-- `FlowRuleCountersData`. -/
structure FlowRuleCountersData where
  packets : UInt64
  bytes : UInt64
  evictions : UInt64
  drops : UInt64
  deriving DecidableEq, Repr

/-- `FlowEntryData`. -/
structure FlowEntryData where
  key : List String
  packets : UInt64
  bytes : UInt64
  firstSeenNs : UInt64
  lastSeenNs : UInt64
  deriving DecidableEq, Repr

/-- `FlowRuleDetailData`. -/
structure FlowRuleDetailData where
  name : String
  fields : List Field
  maxKeys : UInt32
  evictionPolicy : EvictionPolicy
  counters : FlowRuleCountersData
  flows : List FlowEntryData
  deriving DecidableEq, Repr

/-- `FlowRuleStatsData`. -/
structure FlowRuleStatsData where
  name : String
  packets : UInt64
  bytes : UInt64
  evictions : UInt64
  drops : UInt64
  activeFlows : UInt64
  deriving DecidableEq, Repr

/-- `ResponseData`. -/
inductive ResponseData where
  | flowRuleId (id : String)
  | flowRuleList (rules : List FlowRuleData)
  | flowRuleDetail (data : FlowRuleDetailData)
  | statsShow (flowRules : List FlowRuleStatsData)
  | statsPull (tickId wallClockNs : UInt64) (flowRules : List FlowRuleStatsData)
  deriving DecidableEq, Repr

/-- `ErrorData`. -/
structure ErrorData where
  code : ℤ
  message : String
  deriving DecidableEq, Repr

/-- `Response`. -/
structure Response where
  ok : Bool
  data : Option ResponseData
  error : Option ErrorData
  deriving DecidableEq, Repr

namespace Response

/-- `Response::ok`. -/
def okData (data : ResponseData) : Response := ⟨true, some data, none⟩

/-- `Response::ok_empty`. -/
def okEmpty : Response := ⟨true, none, none⟩

/-- `Response::err`. -/
def err (code : ℤ) (message : String) : Response := ⟨false, none, some ⟨code, message⟩⟩

end Response

/-! ### The state -/

/-- `ControlState`, without the client and the channel to the poller. -/
structure ControlState where
  flowRules : List FlowRule
  latestSnapshot : Option FlowStatsSnapshot
  nextRuleId : UInt64
  ruleIdMap : String → Option FlowRuleId

/-- Why a pull fails: there is no poller, its queue is full, it is gone, or it does not answer in
time. -/
inductive PullError where
  | notConnected
  | full
  | disconnected
  | timedOut
  deriving DecidableEq, Repr

namespace ControlState

/-- `ControlState::new` and `ControlState::with_vapi`. -/
def new (initialRules : List FlowRule) : ControlState where
  flowRules := initialRules
  latestSnapshot := none
  nextRuleId := UInt64.ofNat initialRules.length + 1
  ruleIdMap := fun _ => none

/-- `ControlState::update_snapshot`. -/
def updateSnapshot (state : ControlState) (snapshot : FlowStatsSnapshot) : ControlState :=
  { state with latestSnapshot := some snapshot }

/-! ### Adding and removing -/

variable {β : Type}

/-- `handle_flow_rule_add`. -/
def handleFlowRuleAdd (vapi : Option (Vapi β)) (params : FlowRuleAddParams) (state : ControlState)
    (b : β) : Response × ControlState × β :=
  let rule : FlowRule :=
    { name := params.name
      fields := params.fields
      maxKeys := params.maxKeys
      evictionPolicy := params.evictionPolicy }
  if state.flowRules.any fun r => r.name == rule.name then
    (.err 6 ("flow rule '" ++ rule.name ++ "' already exists"), state, b)
  else
    match vapi with
    | some vapi =>
      -- the backend is asked first, and what it refuses is not kept
      let out := clientFlowRuleAdd vapi rule.name rule.fields rule.maxKeys rule.evictionPolicy b
      match out.1 with
      | .ok id =>
        (.okData (.flowRuleId id.display),
          { state with
            flowRules := state.flowRules ++ [rule]
            ruleIdMap := Function.update state.ruleIdMap rule.name (some id) },
          out.2)
      | .error e =>
        (.err 7 ("backend rejected flow rule '" ++ params.name ++ "': " ++ e.display), state, out.2)
    | none =>
      -- without a client the rule is kept locally only
      (.okData (.flowRuleId (FlowRuleId.display ⟨state.nextRuleId, 0⟩)),
        { state with
          flowRules := state.flowRules ++ [rule]
          nextRuleId := state.nextRuleId + 1 },
        b)

/-- The local half of a removal. -/
def removeLocally (state : ControlState) (name : String) : ControlState :=
  { state with
    flowRules := state.flowRules.filter fun r => r.name != name
    ruleIdMap := Function.update state.ruleIdMap name none }

/-- `handle_flow_rule_rm`. -/
def handleFlowRuleRm (vapi : Option (Vapi β)) (name : String) (state : ControlState) (b : β) :
    Response × ControlState × β :=
  if state.flowRules.any fun r => r.name == name then
    match vapi with
    | none => (.okEmpty, state.removeLocally name, b)
    | some vapi =>
      match state.ruleIdMap name with
      -- the rule may not have been added over VAPI
      | none => (.okEmpty, state.removeLocally name, b)
      | some ruleId =>
        let out := clientFlowRuleDel vapi ruleId b
        match out.1 with
        -- the rule is kept, as the backend may still have it
        | .error e =>
          (.err 7 ("backend failed to delete flow rule '" ++ name ++ "': " ++ e.display), state,
            out.2)
        | .ok () => (.okEmpty, state.removeLocally name, out.2)
  else (.err 3 ("flow rule '" ++ name ++ "' not found"), state, b)

/-! ### Showing -/

/-- `handle_flow_rule_list`. -/
def handleFlowRuleList (state : ControlState) : Response :=
  .okData (.flowRuleList (state.flowRules.map fun r =>
    { name := r.name, fields := r.fields, maxKeys := r.maxKeys, evictionPolicy := r.evictionPolicy }))

/-- The statistics that the latest snapshot has under a name. -/
def statsOf (state : ControlState) (name : String) : Option FlowRuleStats :=
  match state.latestSnapshot with
  | none => none
  | some snap => snap.flowRules.find? fun fr => fr.name == name

/-- The counters of a rule, or zeros when the snapshot has none. -/
def countersData : Option FlowRuleStats → FlowRuleCountersData
  | some frs =>
    { packets := frs.counters.packets
      bytes := frs.counters.bytes
      evictions := frs.counters.evictions
      drops := frs.counters.drops }
  | none => { packets := 0, bytes := 0, evictions := 0, drops := 0 }

/-- The flows of a rule, or none when the snapshot has none. -/
def flowsData : Option FlowRuleStats → List FlowEntryData
  | some frs => frs.flows.map fun f =>
    { key := f.key.map fieldValueDebug
      packets := f.counters.packets
      bytes := f.counters.bytes
      firstSeenNs := f.counters.firstSeenNs
      lastSeenNs := f.counters.lastSeenNs }
  | none => []

/-- `handle_flow_rule_show`. -/
def handleFlowRuleShow (name : String) (state : ControlState) : Response :=
  match state.flowRules.find? fun r => r.name == name with
  | none => .err 3 ("flow rule '" ++ name ++ "' not found")
  | some rule =>
    .okData (.flowRuleDetail
      { name := rule.name
        fields := rule.fields
        maxKeys := rule.maxKeys
        evictionPolicy := rule.evictionPolicy
        counters := countersData (state.statsOf name)
        flows := flowsData (state.statsOf name) })

/-- The row of statistics under a name, zeros when there are none. -/
def statsRow (name : String) : Option FlowRuleStats → FlowRuleStatsData
  | some frs =>
    { name := name
      packets := frs.counters.packets
      bytes := frs.counters.bytes
      evictions := frs.counters.evictions
      drops := frs.counters.drops
      activeFlows := UInt64.ofNat frs.flows.length }
  | none => { name := name, packets := 0, bytes := 0, evictions := 0, drops := 0, activeFlows := 0 }

/-- `handle_stats_show`. -/
def handleStatsShow (name : Option String) (state : ControlState) : Response :=
  let shown := state.flowRules.filter fun rule =>
    match name with
    -- without a filter every rule is shown
    | none => true
    | some nameFilter => rule.name == nameFilter
  .okData (.statsShow (shown.map fun rule => statsRow rule.name (state.statsOf rule.name)))

/-- `handle_stats_pull`. -/
def handleStatsPull (outcome : Except PullError FlowStatsSnapshot) (state : ControlState) :
    Response × ControlState :=
  match outcome with
  | .error .notConnected => (.err 8 "stats pull not available (no poller connected)", state)
  | .error .full => (.err 9 "poller busy, try again later", state)
  | .error .disconnected => (.err 9 "poller not running", state)
  | .error .timedOut => (.err 10 "pull timed out waiting for poller", state)
  | .ok snapshot =>
    (.okData (.statsPull snapshot.tickId snapshot.wallClockNs
        (snapshot.flowRules.map fun frs => statsRow frs.name (some frs))),
      state.updateSnapshot snapshot)

/-! ### Requests -/

/-- `handle_request`. -/
def handleRequest (vapi : Option (Vapi β)) (outcome : Except PullError FlowStatsSnapshot)
    (req : Request) (state : ControlState) (b : β) : Response × ControlState × β :=
  match req with
  | .flowRuleAdd params => state.handleFlowRuleAdd vapi params b
  | .flowRuleRm name => state.handleFlowRuleRm vapi name b
  | .flowRuleList => (state.handleFlowRuleList, state, b)
  | .flowRuleShow name => (state.handleFlowRuleShow name, state, b)
  | .statsShow name => (state.handleStatsShow name, state, b)
  | .statsPull =>
    let out := state.handleStatsPull outcome
    (out.1, out.2, b)

/-! ### What a request can do to the rules -/

/-- A rule added over VAPI is appended under an id that the client has answered with, or the server's
state stays as it is. -/
theorem handleFlowRuleAdd_cases (vapi : Vapi β) (params : FlowRuleAddParams) (state : ControlState)
    (b : β) :
    ((state.handleFlowRuleAdd (some vapi) params b).1.ok = false ∧
      (state.handleFlowRuleAdd (some vapi) params b).2.1 = state) ∨
    ∃ id, (state.handleFlowRuleAdd (some vapi) params b).1 = .okData (.flowRuleId id.display) ∧
      params.name ∉ state.flowRules.map FlowRule.name ∧
      clientFlowRuleAdd vapi params.name params.fields params.maxKeys params.evictionPolicy b =
        (.ok id, (state.handleFlowRuleAdd (some vapi) params b).2.2) ∧
      (state.handleFlowRuleAdd (some vapi) params b).2.1 =
        { state with
          flowRules := state.flowRules ++
            [⟨params.name, params.fields, params.maxKeys, params.evictionPolicy⟩]
          ruleIdMap := Function.update state.ruleIdMap params.name (some id) } := by
  unfold handleFlowRuleAdd
  dsimp only
  split
  · exact Or.inl ⟨rfl, rfl⟩
  rename_i hfree
  cases hout : (clientFlowRuleAdd vapi params.name params.fields params.maxKeys
    params.evictionPolicy b).1 with
  | error e => exact Or.inl ⟨rfl, rfl⟩
  | ok id =>
    refine Or.inr ⟨id, rfl, ?_, Prod.ext hout rfl, rfl⟩
    simpa using hfree

end ControlState

end InFMon.Frontend
