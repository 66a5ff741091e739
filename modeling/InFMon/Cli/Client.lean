import InFMon.Cli.Spec
import InFMon.Frontend.ControlWire
import InFMon.Frontend.RuleIds

/-! # The control client of the command line

`control_client.rs` and the flow-rule and stats commands of `main.rs`: one request over the control socket
for each command, and the exit code for what comes back. The other side of the socket is a parameter with
a state of its own, and so is the course that the connection takes: each of its three calls can fail or
run out of time. -/

namespace InFMon.Cli

open Frontend

/-! ### Exit codes -/

/-- `EXIT_SUCCESS`. -/
def exitSuccess : ℤ := 0

/-- `EXIT_FAILURE`. -/
def exitFailure : ℤ := 1

/-- `EXIT_USAGE`. -/
def exitUsage : ℤ := 2

/-- `EXIT_NOT_FOUND`. -/
def exitNotFound : ℤ := 3

/-- `EXIT_FRONTEND_UNREACHABLE`. -/
def exitFrontendUnreachable : ℤ := 4

/-- `EXIT_CONFLICT`. -/
def exitConflict : ℤ := 6

/-- `EXIT_PERMISSION_DENIED`. -/
def exitPermissionDenied : ℤ := 13

/-- `CtlError`, with the texts of I/O errors left out. -/
inductive CtlError where
  | connect
  | request (message : String)
  | backend (code : ℤ) (message : String)
  | io
  | protocol (message : String)
  deriving DecidableEq, Repr

/-- `ctl_error_to_exit_code`. -/
def ctlErrorToExitCode : CtlError → ℤ
  | .connect => exitFrontendUnreachable
  | .backend code _ =>
    if code = 3 then exitNotFound
    else if code = 6 then exitConflict
    else exitFailure
  | _ => exitFailure

/-! ### The client -/

variable {σ : Type}

/-- The course of a connection: it is not made, or not in time; writing fails or runs out of time when `n`
bytes of the request are out; the request is out, but reading the reply fails or runs out of time; or the
connection lasts until the reply is read. -/
inductive Course where
  | refused
  | cut (n : ℕ)
  | unanswered
  | answered
  deriving DecidableEq, Repr

/-- The control socket: the course of the connection, and the other side, which takes the bytes that it
gets and replies. -/
structure Link (σ : Type) where
  course : Course
  serve : List UInt8 → σ → List UInt8 × σ

/-- The error of a connection that does not break. -/
def CtlError.ofRpc : RpcError → CtlError
  | .io => .io
  | .protocol message => .protocol message

/-- `rpc`, with the state behind the socket. -/
def rpcAt (serde : SerdeJson) (link : Link σ) (request : Request) (s : σ) :
    Except CtlError Response × σ :=
  if link.course = .refused then (.error .connect, s)
  else
    match serde.requestText request with
    | .error e => (.error (.protocol ("serialize request: " ++ e)), s)
    | .ok line =>
      let bytes := utf8Bytes (line ++ "\n")
      match link.course with
      -- the other side serves what it got, also when nobody waits for the reply any more
      | .cut n => (.error .io, (link.serve (bytes.take n) s).2)
      | .unanswered => (.error .io, (link.serve bytes s).2)
      | _ =>
        let out := link.serve bytes s
        match readResponse serde out.1 with
        | .ok response => (.ok response, out.2)
        | .error e => (.error (.ofRpc e), out.2)

/-- Without its reply a request fails, but the other side has served it. -/
theorem rpcAt_unanswered (serde : SerdeJson) (serve : List UInt8 → σ → List UInt8 × σ)
    (request : Request) (s : σ) :
    (∃ err, (rpcAt serde ⟨.unanswered, serve⟩ request s).1 = .error err ∧
      ctlErrorToExitCode err = exitFailure) ∧
    (rpcAt serde ⟨.unanswered, serve⟩ request s).2 =
      (rpcAt serde ⟨.answered, serve⟩ request s).2 := by
  simp only [rpcAt, reduceCtorEq, if_false]
  cases serde.requestText request with
  | error e => exact ⟨⟨_, rfl, rfl⟩, rfl⟩
  | ok line =>
    refine ⟨⟨_, rfl, rfl⟩, ?_⟩
    dsimp only
    split
    · rfl
    · rfl

/-- The end of `rpc_ok`: a reply that reports an error is one. -/
def checkResponse (resp : Response) : Except CtlError (Option ResponseData) :=
  if resp.ok then .ok resp.data
  else
    let err := resp.error.getD ⟨-1, "unknown error"⟩
    .error (.backend err.code err.message)

/-- `rpc_ok`. -/
def rpcOk (serde : SerdeJson) (link : Link σ) (request : Request) (s : σ) :
    Except CtlError (Option ResponseData) × σ :=
  let out := rpcAt serde link request s
  match out.1 with
  | .error e => (.error e, out.2)
  | .ok resp => (checkResponse resp, out.2)

/-- Looking into the reply does nothing to the other side. -/
theorem rpcOk_snd (serde : SerdeJson) (link : Link σ) (request : Request) (s : σ) :
    (rpcOk serde link request s).2 = (rpcAt serde link request s).2 := by
  unfold rpcOk
  dsimp only
  split
  · rfl
  · rfl

/-- The error for data that does not belong to the request. -/
def unexpectedData : CtlError := .protocol "unexpected response data"

/-- The request of `flow_rule_add`. -/
def addRequestOf (rule : Frontend.FlowRule) : Request :=
  .flowRuleAdd ⟨rule.name, rule.fields, rule.maxKeys, rule.evictionPolicy⟩

/-- What `flow_rule_add` makes of the data. -/
def idOfData : Option ResponseData → Except CtlError FlowRuleId
  | some (.flowRuleId id) =>
    match FlowRuleId.fromStr id with
    | .ok id => .ok id
    | .error e => .error (.protocol ("invalid FlowRuleId: " ++ e))
  | _ => .error unexpectedData

/-- What `flow_rule_list` makes of the data. -/
def rulesOfData : Option ResponseData → Except CtlError (List Frontend.FlowRule)
  | some (.flowRuleList rules) =>
    .ok (rules.map fun r => ⟨r.name, r.fields, r.maxKeys, r.evictionPolicy⟩)
  | _ => .error unexpectedData

/-- `field_to_field_id`. -/
def fieldToFieldId : Field → FieldId
  | .srcIp => .srcIp
  | .dstIp => .dstIp
  | .ipProto => .ipProto
  | .dscp => .dscp
  | .mirrorSrcIp => .mirrorSrcIp
  | .srcPort => .srcPort
  | .dstPort => .dstPort

/-- What `flow_rule_show` makes of the data. The keys of the flows get lost: each of their values becomes
the protocol 0. -/
def statsOfData : Option ResponseData → Except CtlError FlowRuleStats
  | some (.flowRuleDetail detail) =>
    .ok
      { name := detail.name
        fields := detail.fields.map fieldToFieldId
        maxKeys := detail.maxKeys
        evictionPolicy := detail.evictionPolicy
        flows := detail.flows.map fun f =>
          { key := f.key.map fun _ => .proto 0
            counters :=
              { packets := f.packets
                bytes := f.bytes
                firstSeenNs := f.firstSeenNs
                lastSeenNs := f.lastSeenNs } }
        counters :=
          { packets := detail.counters.packets
            bytes := detail.counters.bytes
            evictions := detail.counters.evictions
            drops := detail.counters.drops } }
  | _ => .error unexpectedData

/-- What `stats_show` makes of the data. -/
def showOfData : Option ResponseData → Except CtlError (List FlowRuleStatsData)
  | some (.statsShow flowRules) => .ok flowRules
  | _ => .error unexpectedData

/-- What `stats_pull` makes of the data. -/
def pullOfData : Option ResponseData → Except CtlError (UInt64 × UInt64 × List FlowRuleStatsData)
  | some (.statsPull tickId wallClockNs flowRules) => .ok (tickId, wallClockNs, flowRules)
  | _ => .error unexpectedData

/-! ### The commands -/

/-- The commands of `FlowRuleCommands` and `StatsCommands` that talk to the front end. -/
inductive Command where
  | flowRuleAdd (spec : List String)
  | flowRuleRm (target : String) (all : Bool)
  | flowRuleList
  | flowRuleShow (target : String)
  | statsShow (name : Option String)
  | statsPull
  deriving DecidableEq, Repr

/-- What a command prints: a complaint, the error of its call, or the data in one of the two formats. -/
inductive Printed where
  | complaint (message : String)
  | failed (e : CtlError)
  | added (name : String) (id : FlowRuleId)
  | removed (target : String)
  | rules (rules : List FlowRuleData)
  | detail (data : FlowRuleDetailData)
  | stats (flowRules : List FlowRuleStatsData)
  | pulled (tickId wallClockNs : UInt64) (flowRules : List FlowRuleStatsData)
  deriving DecidableEq, Repr

/-- The exit code and the print of a call that has returned. -/
def finish {α : Type} (print : α → Printed) : Except CtlError α → ℤ × Printed
  | .ok a => (exitSuccess, print a)
  | .error e => (ctlErrorToExitCode e, .failed e)

/-- The data of a rule as it is printed. -/
def ruleData (r : Frontend.FlowRule) : FlowRuleData :=
  { name := r.name, fields := r.fields, maxKeys := r.maxKeys, evictionPolicy := r.evictionPolicy }

/-- `field_id_to_field`. -/
def fieldIdToField : FieldId → Field
  | .srcIp => .srcIp
  | .dstIp => .dstIp
  | .ipProto => .ipProto
  | .dscp => .dscp
  | .mirrorSrcIp => .mirrorSrcIp
  | .srcPort => .srcPort
  | .dstPort => .dstPort

/-- The details of a rule as they are printed. -/
def detailData (stats : FlowRuleStats) : FlowRuleDetailData where
  name := stats.name
  fields := stats.fields.map fieldIdToField
  maxKeys := stats.maxKeys
  evictionPolicy := stats.evictionPolicy
  counters :=
    { packets := stats.counters.packets
      bytes := stats.counters.bytes
      evictions := stats.counters.evictions
      drops := stats.counters.drops }
  flows := stats.flows.map fun f =>
    { key := f.key.map fieldValueDebug
      packets := f.counters.packets
      bytes := f.counters.bytes
      firstSeenNs := f.counters.firstSeenNs
      lastSeenNs := f.counters.lastSeenNs }

/-- A command up to its call: it ends with an exit code, or it has a request and prints what comes back. -/
def prepare (isRoot : Bool) :
    Command → Except (ℤ × Printed) (Request × (Except CtlError (Option ResponseData) → ℤ × Printed))
  | .flowRuleAdd spec =>
    if isRoot = false then
      .error (exitPermissionDenied, .complaint "flow-rule add requires root privileges")
    else
      match parseSpec spec with
      | .error e => .error (exitUsage, .complaint e)
      | .ok rule => .ok (addRequestOf rule, fun r => finish (.added rule.name) (r.bind idOfData))
  | .flowRuleRm target all =>
    if isRoot = false then
      .error (exitPermissionDenied, .complaint "flow-rule rm requires root privileges")
    else if all then .error (exitFailure, .complaint "flow-rule rm --all: not yet implemented")
    else .ok (.flowRuleRm target, finish fun _ => .removed target)
  | .flowRuleList =>
    .ok (.flowRuleList, fun r =>
      finish (fun rules => .rules (rules.map ruleData)) (r.bind rulesOfData))
  | .flowRuleShow target =>
    .ok (.flowRuleShow target, fun r => finish (fun s => .detail (detailData s)) (r.bind statsOfData))
  | .statsShow name => .ok (.statsShow name, fun r => finish .stats (r.bind showOfData))
  | .statsPull =>
    .ok (.statsPull, fun r => finish (fun d => .pulled d.1 d.2.1 d.2.2) (r.bind pullOfData))

/-- `run_flow_rule` and `run_stats`: the exit code, what is printed, and the state behind the socket. -/
def runCommand (serde : SerdeJson) (link : Link σ) (isRoot : Bool) (command : Command) (s : σ) :
    (ℤ × Printed) × σ :=
  match prepare isRoot command with
  | .error out => (out, s)
  | .ok (request, print) =>
    let out := rpcOk serde link request s
    (print out.1, out.2)

end InFMon.Cli
