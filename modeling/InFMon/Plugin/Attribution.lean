import InFMon.Plugin.SharedRules

/-! # Which table counts a packet

The main thread serves requests, assignment by assignment and store by store, while frames of the
workers match packets against the rules in memory and count them in the tables they find. As long as
no frame overlaps the deletion of a rule, every key is counted in a table that was made for the rule
that encoded it, and every frame works with the rules of one version. -/

namespace InFMon

open DenseArray

/-! ### Frames -/

/-- A frame in `infmon-flow-match`: the pointer it has loaded, the rules pointer and the count behind
it as far as they are read, and the scratch vector. `encodedBy` says for every entry which rule encoded
it, and `read` which rules were read where. -/
structure MatchFrame where
  source : Option RuleSource
  rules : Option Bool
  count : Option ℕ
  pass : FlowMatchPass
  encodedBy : List MarkedRule
  read : List (ℕ × MarkedRule)

/-- What a worker is doing: nothing, a frame in `infmon-flow-match`, or a frame in `infmon-counter`
that loads the table pointers or counts the entries left. -/
inductive WorkerStage where
  | idle
  | matching (frame : MatchFrame)
  | loading (row : ℕ → Option ℕ) (loaded : ℕ) (todo : List (ScratchEntry × MarkedRule))
  | counting (row : ℕ → Option ℕ) (tick : UInt64) (todo : List (ScratchEntry × MarkedRule))

/-- A frame that has loaded the pointer to the rules. -/
def MatchFrame.start (source : Option RuleSource) (keyBuf : ByteMemory) : MatchFrame where
  source := source
  rules := none
  count := none
  pass := { matched := 0, scratch := .reset, keyBuf := keyBuf }
  encodedBy := []
  read := []

/-- Match a packet against the rule that is read at index `i`. -/
def MatchFrame.matchRule (frame : MatchFrame) (i : ℕ) (rule : MarkedRule) (fields : FlowFields)
    (pktBytes : UInt64) : MatchFrame :=
  let pass := flowMatchRule rule.rule fields pktBytes i frame.pass
  { frame with
    pass := pass
    encodedBy := frame.encodedBy ++
      List.replicate (pass.scratch.entries.length - frame.pass.scratch.entries.length) rule
    read := frame.read ++ [(i, rule)] }

/-! ### The system -/

/-- The plugin and its workers. `rules` is the array of rules in memory; `writes` and `stores` are what
the main thread still has to do for its request. The rest is a record of the run: whether the request
deletes a rule, how many requests there were, the rule that each table was made for, the pairs of the
rule that encoded an entry and the rule of the table that counted it, and the lists of rules that there
have been. -/
structure Attribution where
  plugin : Plugin
  rules : ℕ → MarkedRule
  writes : List RuleWrite
  stores : List MainStep
  workers : ℕ → WorkerStage
  deleting : Bool
  requests : ℕ
  madeFor : ℕ → MarkedRule
  applied : List (MarkedRule × MarkedRule)
  versions : List (List MarkedRule)

/-- What can happen next: the main thread takes up a request, or makes its next assignment or store; a
worker starts a frame, reads the rules pointer or the count, matches a packet against a rule, ends the
frame or hands it over, loads the next table pointer, takes the tick, or counts an entry. -/
inductive AttributionEvent where
  | request (request : Plugin.Request)
  | main
  | loadRuleSet (w : ℕ) (keyBuf : ByteMemory)
  | readRules (w : ℕ)
  | readCount (w : ℕ)
  | matchRule (w i : ℕ) (fields : FlowFields) (pktBytes : UInt64)
  | endFrame (w : ℕ)
  | handOver (w : ℕ)
  | loadTable (w : ℕ)
  | takeTick (w : ℕ)
  | update (w : ℕ)

namespace Plugin

/-- The assignments to the array of rules that a request makes. -/
def ruleWrites (q : Plugin) (mark : ℕ) : Request → List RuleWrite
  | .flowRuleAdd env mp =>
    if q.ready ∧ (q.api.ruleSet.add (messageRule mp)).1 = .ok then
      q.api.ruleSet.addWrites (messageRule mp) mark ++
        if (q.outcome (.flowRuleAdd env mp)).1 = .ok then []
        else (q.api.ruleSet.add (messageRule mp)).2.rmWrites (messageRule mp).name
    else []
  | .flowRuleDel _ id =>
    if id.isZero then []
    else
      match q.nameOfId id with
      | none => []
      | some name => q.api.ruleSet.rmWrites name
  | .snapshotAndClear _ _ | .snapshotInlineDump _ _ => []

/-- The rule that a request makes tables for. -/
def tablesFor (q : Plugin) (rules : ℕ → MarkedRule) (mark : ℕ) : Request → MarkedRule
  | .flowRuleAdd _ mp => ⟨(messageRule mp).register, mark⟩
  | .flowRuleDel _ _ => .zero
  | .snapshotAndClear _ id | .snapshotInlineDump _ id =>
    match q.api.findRuleIndexById id with
    | none => .zero
    | some i => rules i

/-- Whether a request is to delete a rule. -/
def Request.isDel : Request → Bool
  | .flowRuleDel _ _ => true
  | _ => false

end Plugin

namespace Attribution

/-- The system as the plugin is loaded. -/
def start (vlibNumWorkers : ℕ) : Attribution where
  plugin := .start vlibNumWorkers
  rules := fun _ => .zero
  writes := []
  stores := []
  workers := fun _ => .idle
  deleting := false
  requests := 0
  madeFor := fun _ => .zero
  applied := []
  versions := [[]]

/-- Another stage for one worker. -/
def setWorker (s : Attribution) (w : ℕ) (stage : WorkerStage) : Attribution :=
  { s with workers := Function.update s.workers w stage }

/-- The main thread takes up a request. -/
def serve (s : Attribution) (request : Plugin.Request) : Attribution :=
  let q := s.plugin.apiCtxEnsure request.env.memory
  let out := s.plugin.operate request
  let mark := s.requests + 1
  let writes := q.ruleWrites mark request
  { s with
    plugin := out.1
    writes := writes
    stores := out.2
    deleting := request.isDel
    requests := mark
    -- the tables that are new were made by this request
    madeFor := fun t =>
      if t < s.plugin.heap.next then s.madeFor t else q.tablesFor s.rules mark request
    versions := s.versions ++
      [(List.range out.1.api.ruleSet.count).map (RuleWrite.applyAll s.rules writes)] }

/-- Count the first of the entries left. -/
def countEntry (s : Attribution) (w : ℕ) (row : ℕ → Option ℕ) (tick : UInt64) (e : ScratchEntry)
    (rule : MarkedRule) (todo : List (ScratchEntry × MarkedRule)) : Attribution :=
  { s with
    plugin := { s.plugin with api := { s.plugin.api with
      heap := counterUpdateEntry row tick s.plugin.heap e } }
    workers := Function.update s.workers w (.counting row tick todo)
    applied := s.applied ++
      if e.flowRuleIndex < maxActiveFlowRules ∧ e.keyData.len ≠ 0 then
        ((row e.flowRuleIndex).map fun t => (rule, s.madeFor t)).toList
      else [] }

/-- One event. A request waits until the one before is done, and a worker takes its steps in order. -/
def step (s : Attribution) : AttributionEvent → Attribution
  | .request request => if s.writes = [] ∧ s.stores.isEmpty then s.serve request else s
  | .main =>
    match s.writes, s.stores with
    | write :: writes, _ => { s with rules := write.apply s.rules, writes := writes }
    | [], next :: stores => { s with plugin := s.plugin.store next, stores := stores }
    | [], [] => s
  | .loadRuleSet w keyBuf =>
    match s.workers w with
    | .idle => s.setWorker w (.matching (.start s.plugin.main.flowRuleSet keyBuf))
    | _ => s
  | .readRules w =>
    match s.workers w with
    | .matching frame =>
      let rules := frame.source.elim false fun source => (s.plugin.refOf source).rules
      if frame.rules = none then s.setWorker w (.matching { frame with rules := some rules }) else s
    | _ => s
  | .readCount w =>
    match s.workers w with
    | .matching frame =>
      let count := frame.source.elim 0 fun source => (s.plugin.refOf source).count
      if frame.rules ≠ none ∧ frame.count = none then
        s.setWorker w (.matching { frame with count := some count })
      else s
    | _ => s
  | .matchRule w i fields pktBytes =>
    match s.workers w with
    | .matching frame =>
      if frame.rules = some true ∧ i < min (frame.count.getD 0) maxActiveFlowRules then
        s.setWorker w (.matching (frame.matchRule i (s.rules i) fields pktBytes))
      else s
    | _ => s
  | .endFrame w =>
    match s.workers w with
    | .matching _ => s.setWorker w .idle
    | _ => s
  | .handOver w =>
    match s.workers w with
    | .matching frame =>
      if w ≥ maxWorkers then s.setWorker w .idle
      else
        s.setWorker w
          (.loading (fun _ => none) 0 (frame.pass.scratch.entries.zip frame.encodedBy))
    | _ => s
  | .loadTable w =>
    match s.workers w with
    | .loading row loaded todo =>
      if loaded < maxActiveFlowRules then
        s.setWorker w
          (.loading (Function.update row loaded (s.plugin.main.tables w loaded)) (loaded + 1) todo)
      else s
    | _ => s
  | .takeTick w =>
    match s.workers w with
    | .loading row loaded todo =>
      if loaded < maxActiveFlowRules then s
      else
        { s with
          plugin := { s.plugin with main := { s.plugin.main with tick := s.plugin.main.tick + 1 } }
          workers := Function.update s.workers w (.counting row s.plugin.main.tick todo) }
    | _ => s
  | .update w =>
    match s.workers w with
    | .counting row tick ((e, rule) :: todo) => s.countEntry w row tick e rule todo
    | .counting _ _ [] => s.setWorker w .idle
    | _ => s

/-! ### The property and the condition -/

/-- Every entry was counted in a table that was made for the rule that encoded it, and what a
flow-match frame has of the rules is of one version: the list of rules before or after a request. -/
structure Attributed (s : Attribution) : Prop where
  counted : ∀ pair ∈ s.applied, pair.1 = pair.2
  whole : ∀ w frame, s.workers w = .matching frame → ∃ version ∈ s.versions,
    (frame.rules = some true → ∀ n, frame.count = some n → n = version.length) ∧
      ∀ pair ∈ frame.read, version[pair.1]? = some pair.2

/-- A rule is deleted only while no frame is under way, and no frame starts before the deletion is
published. -/
def Undisturbed (s : Attribution) : AttributionEvent → Prop
  | .request (.flowRuleDel _ id) => s.writes = [] → s.stores = [] → id.isZero = false →
      s.plugin.HasRule id → ∀ w, s.workers w = .idle
  | .loadRuleSet _ _ => s.deleting = true → s.writes = [] ∧ s.stores = []
  | _ => True

end Attribution

end InFMon
