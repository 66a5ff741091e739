import InFMon.Foundations.Runs
import InFMon.Frontend.Control
import InFMon.Frontend.DecodedFlows
import InFMon.Frontend.RuleTransfer

/-! # Joining statistics to rules

The control server looks statistics up by the name of the rule. The poller names them by the id that
the back end has given the rule, which is longer than any name that the back end takes. -/

namespace InFMon.Frontend

/-! ### The server along a run -/

/-- What the poller decodes: a raw snapshot with its tick and clocks, and the order of the map. -/
structure Polled where
  hash : HashOrder (List UInt8 × MergedSlot)
  raw : RawSnapshot
  tickId : UInt64
  wall : UInt64
  mono : UInt64
  prevMono : UInt64

/-- The decoded snapshot. -/
def Polled.snapshot (polled : Polled) : FlowStatsSnapshot :=
  decodeSnapshot polled.hash polled.raw polled.tickId polled.wall polled.mono polled.prevMono

/-- What happens to the server: a request, with the control client and the back end as they are then
and the answer of the poller in case it is a pull, or a snapshot from the poller. -/
inductive ControlEvent (β : Type) where
  | request (vapi : Option (Vapi β)) (b : β) (req : Request) (answer : Except PullError Polled)
  | snapshot (polled : Polled)

namespace ControlState

variable {β : Type}

/-- The state behind an event. -/
def step (state : ControlState) : ControlEvent β → ControlState
  | .request vapi b req answer =>
    (state.handleRequest vapi (answer.map Polled.snapshot) req b).2.1
  | .snapshot polled => state.updateSnapshot polled.snapshot

/-- The rule is there. -/
def HasRule (name : String) (state : ControlState) : Prop :=
  name ∈ state.flowRules.map FlowRule.name

/-- The event is a request that adds the rule in the back end under the id. -/
def AddsRule (state : ControlState) (name : String) (id : FlowRuleId) (e : ControlEvent β) : Prop :=
  ∃ vapi b params answer, e = .request (some vapi) b (.flowRuleAdd params) answer ∧
    params.name = name ∧
    (state.handleFlowRuleAdd (some vapi) params b).1 = .okData (.flowRuleId id.display)

/-- The rule was added under the id in the run and has been there since. -/
def AddedAs (initialRules : List FlowRule) (events : List (ControlEvent β)) (name : String)
    (id : FlowRuleId) : Prop :=
  ∃ pre e post, events = pre ++ e :: post ∧
    (Runs.run step (new initialRules) pre).AddsRule name id e ∧
    Runs.Throughout step (HasRule name) (Runs.run step (new initialRules) (pre ++ [e])) post

/-- The replies for a rule report the statistics of its descriptor: the rule is shown with their
counters and flows, its rows have their counters, and a pull that brings the same snapshot lists a row
under the rule's name. -/
structure Joined (state : ControlState) (polled : Polled) (name : String)
    (stats : FlowRuleStats) : Prop where
  shown : ∃ detail, state.handleFlowRuleShow name = .okData (.flowRuleDetail detail) ∧
    detail.counters = countersData (some stats) ∧ detail.flows = flowsData (some stats)
  row : ∃ rows, state.handleStatsShow (some name) = .okData (.statsShow rows) ∧ rows ≠ [] ∧
    ∀ row ∈ rows, row = statsRow name (some stats)
  pulled : ∃ tickId wall rows,
    (state.handleStatsPull (.ok polled.snapshot)).1 = .okData (.statsPull tickId wall rows) ∧
    ∃ row ∈ rows, row.name = name

/-- What the replies report instead: the rule is shown with zeros and without flows, its rows have
zeros, and the pull lists the statistics under the id and nothing under the name. -/
structure Unjoined (state : ControlState) (polled : Polled) (name : String) (id : FlowRuleId)
    (stats : FlowRuleStats) : Prop where
  shown : ∃ detail, state.handleFlowRuleShow name = .okData (.flowRuleDetail detail) ∧
    detail.name = name ∧ detail.counters = countersData none ∧ detail.flows = []
  row : ∃ rows, state.handleStatsShow (some name) = .okData (.statsShow rows) ∧ rows ≠ [] ∧
    ∀ row ∈ rows, row = statsRow name none
  pulled : ∃ tickId wall rows,
    (state.handleStatsPull (.ok polled.snapshot)).1 = .okData (.statsPull tickId wall rows) ∧
    statsRow id.display (some stats) ∈ rows ∧ ∀ row ∈ rows, row.name ≠ name

/-! ### Names and ids -/

/-- A rule that was added in the back end has a name shorter than every id. -/
theorem length_name_of_addsRule {state : ControlState} {name : String} {id : FlowRuleId}
    {e : ControlEvent β} (h : state.AddsRule name id e) : name.length ≤ 31 := by
  obtain ⟨vapi, b, params, answer, -, rfl, hreply⟩ := h
  rcases state.handleFlowRuleAdd_cases vapi params b with ⟨hfail, -⟩ | ⟨id', -, -, hclient, -⟩
  · rw [hreply] at hfail
    cases hfail
  · exact (length_le_utf8Bytes _).trans (clientFlowRuleAdd_ok (congrArg Prod.fst hclient)).2.1

/-- The statistics of a snapshot go by ids. -/
theorem display_of_mem_snapshot {polled : Polled} {stats : FlowRuleStats}
    (h : stats ∈ polled.snapshot.flowRules) :
    ∃ desc ∈ polled.raw.descriptors, stats.name = desc.flowRuleId.display := by
  obtain ⟨desc, hdesc, rfl⟩ := List.mem_map.mp h
  exact ⟨desc, hdesc, rfl⟩

/-- No statistics of a snapshot go by the name of a rule in the back end. -/
theorem name_ne_of_mem_snapshot {polled : Polled} {stats : FlowRuleStats} {name : String}
    (hname : name.length ≤ 31) (h : stats ∈ polled.snapshot.flowRules) : stats.name ≠ name := by
  obtain ⟨desc, -, hdisplay⟩ := display_of_mem_snapshot h
  rintro rfl
  rw [hdisplay, length_display] at hname
  omega

/-! ### The replies -/

variable {state : ControlState} {polled : Polled} {name : String}

/-- The lookup by name finds nothing. -/
theorem statsOf_eq_none (hname : name.length ≤ 31)
    (hlatest : state.latestSnapshot = some polled.snapshot) : state.statsOf name = none := by
  rw [statsOf, hlatest]
  refine List.find?_eq_none.mpr fun stats hstats => ?_
  simpa using name_ne_of_mem_snapshot hname hstats

/-- A rule of the back end is shown with zeros and without flows, whatever the snapshot has for it. -/
theorem handleFlowRuleShow_zero (hname : name.length ≤ 31)
    (hlatest : state.latestSnapshot = some polled.snapshot) (hrule : state.HasRule name) :
    ∃ detail, state.handleFlowRuleShow name = .okData (.flowRuleDetail detail) ∧
      detail.name = name ∧ detail.counters = countersData none ∧ detail.flows = [] := by
  obtain ⟨rule, hmem, rfl⟩ := List.mem_map.mp hrule
  rw [handleFlowRuleShow, statsOf_eq_none hname hlatest]
  cases hfind : state.flowRules.find? fun r => r.name == rule.name with
  | none =>
    have hnot := List.find?_eq_none.mp hfind rule hmem
    exact absurd (beq_self_eq_true rule.name) hnot
  | some found =>
    have hfound := List.find?_some hfind
    exact ⟨_, rfl, by simpa using hfound, rfl, rfl⟩

/-- The rows of a rule of the back end have zeros. -/
theorem handleStatsShow_zero (hname : name.length ≤ 31)
    (hlatest : state.latestSnapshot = some polled.snapshot) (hrule : state.HasRule name) :
    ∃ rows, state.handleStatsShow (some name) = .okData (.statsShow rows) ∧ rows ≠ [] ∧
      ∀ row ∈ rows, row = statsRow name none := by
  refine ⟨_, rfl, ?_, ?_⟩
  · obtain ⟨rule, hmem, hrname⟩ := List.mem_map.mp hrule
    refine List.ne_nil_of_mem (List.mem_map.mpr ⟨rule, List.mem_filter.mpr ⟨hmem, ?_⟩, rfl⟩)
    exact beq_iff_eq.mpr hrname
  · intro row hrow
    obtain ⟨rule, hmem, rfl⟩ := List.mem_map.mp hrow
    obtain rfl : rule.name = name := beq_iff_eq.mp (List.mem_filter.mp hmem).2
    rw [statsOf_eq_none hname hlatest]

/-- The rows of a pull. -/
theorem handleStatsPull_rows (state : ControlState) (polled : Polled) :
    (state.handleStatsPull (.ok polled.snapshot)).1 =
      .okData (.statsPull polled.tickId polled.wall
        (polled.snapshot.flowRules.map fun stats => statsRow stats.name (some stats))) := rfl

/-- A pull lists no row under the name of a rule of the back end. -/
theorem row_name_ne (hname : name.length ≤ 31) {row : FlowRuleStatsData}
    (h : row ∈ polled.snapshot.flowRules.map fun stats => statsRow stats.name (some stats)) :
    row.name ≠ name := by
  obtain ⟨stats, hstats, rfl⟩ := List.mem_map.mp h
  exact name_ne_of_mem_snapshot hname hstats

end ControlState

open ControlState

/-- In no run are the statistics of a descriptor joined to the rule that was added under its id and is
still there: the rule is reported with zeros, and the statistics are listed under the id. -/
theorem never_joined {β : Type} (initialRules : List FlowRule) (events : List (ControlEvent β))
    (polled : Polled) (name : String) (id : FlowRuleId) (desc : RawDescriptor)
    (hadded : AddedAs initialRules events name id)
    (hlatest : (Runs.run step (new initialRules) events).latestSnapshot = some polled.snapshot)
    (hdesc : desc ∈ polled.raw.descriptors) (hid : desc.flowRuleId = id) :
    ¬ (Runs.run step (new initialRules) events).Joined polled name
        (decodeDescriptor polled.hash [] desc) ∧
      (Runs.run step (new initialRules) events).Unjoined polled name id
        (decodeDescriptor polled.hash [] desc) := by
  obtain ⟨pre, e, post, rfl, hadds, hkept⟩ := hadded
  have hname := length_name_of_addsRule hadds
  have hrule := hkept post [] (List.append_nil post).symm
  rw [← Runs.run_append, List.append_assoc, List.singleton_append] at hrule
  generalize Runs.run step (new initialRules) (pre ++ e :: post) = state at hlatest hrule ⊢
  constructor
  · rintro ⟨-, -, tickId, wall, rows, hreply, row, hrow, heq⟩
    rw [handleStatsPull_rows] at hreply
    obtain ⟨-, -, rfl⟩ := ResponseData.statsPull.inj
      (Option.some.inj (congrArg Response.data hreply))
    exact row_name_ne hname hrow heq
  · refine
      { shown := handleFlowRuleShow_zero hname hlatest hrule
        row := handleStatsShow_zero hname hlatest hrule
        pulled := ⟨_, _, _, handleStatsPull_rows state polled, ?_, fun row => row_name_ne hname⟩ }
    refine List.mem_map.mpr ⟨decodeDescriptor polled.hash [] desc, ?_, ?_⟩
    · exact List.mem_map.mpr ⟨desc, hdesc, rfl⟩
    · rw [← hid]
      rfl

/-! ### One rule and one snapshot -/

/-- The poller's snapshot of a rule with the id of the first rule: one flow, and seven drops. -/
def polledDrops : Polled where
  hash := insertionOrder _
  raw := ⟨[⟨protoRuleId, 0, 1, 0, [udpSlot], [17], 7, 0⟩]⟩
  tickId := 1
  wall := 0
  mono := 0
  prevMono := 0

/-- A rule `ab` is added in front of a plugin that has just been loaded. -/
def addEvent : ControlEvent Plugin :=
  .request (some (pluginVapi minusOne (envAt 0) (some zeroMsg) true)) (.start 0)
    (.flowRuleAdd (protoParams 2)) (.error .notConnected)

/-- The rule is added, then the poller has a snapshot. -/
def addThenPoll : List (ControlEvent Plugin) := [addEvent, .snapshot polledDrops]

/-- The first event adds the rule under its id. -/
theorem addThenPoll_addedAs : AddedAs [] addThenPoll "ab" protoRuleId := by
  refine ⟨[], addEvent, [.snapshot polledDrops], rfl,
    ⟨_, _, _, _, rfl, rfl, by decide +kernel⟩, fun pre post hsplit => ?_⟩
  have hadd : HasRule "ab" (Runs.run step (new []) [addEvent]) := by
    unfold HasRule
    decide +kernel
  -- a snapshot leaves the rules alone
  cases pre with
  | nil => exact hadd
  | cons e pre =>
    obtain ⟨rfl, hrest⟩ := List.cons.inj hsplit
    obtain ⟨rfl, -⟩ := List.append_eq_nil_iff.mp hrest.symm
    exact hadd

/-- The drops of the descriptor are shown as none, and the pull does not list the name. -/
theorem seven_drops_unjoined :
    AddedAs [] addThenPoll "ab" protoRuleId ∧
    (Runs.run step (new []) addThenPoll).latestSnapshot = some polledDrops.snapshot ∧
    polledDrops.snapshot.flowRules.map (fun stats => stats.counters.drops) = [7] ∧
    (Runs.run step (new []) addThenPoll).handleFlowRuleShow "ab" =
      .okData (.flowRuleDetail ⟨"ab", [.ipProto], 2, .lruDrop, ⟨0, 0, 0, 0⟩, []⟩) ∧
    ((Runs.run step (new []) addThenPoll).handleStatsPull (.ok polledDrops.snapshot)).1 =
      .okData (.statsPull 1 0 [⟨"0000000000000001-0000000000000000", 0, 0, 0, 7, 0⟩]) ∧
    ∀ desc ∈ polledDrops.raw.descriptors, ¬ (Runs.run step (new []) addThenPoll).Joined polledDrops
      "ab" (decodeDescriptor polledDrops.hash [] desc) := by
  have hshow : (Runs.run step (new []) addThenPoll).handleFlowRuleShow "ab" =
      .okData (.flowRuleDetail ⟨"ab", [.ipProto], 2, .lruDrop, ⟨0, 0, 0, 0⟩, []⟩) := by
    decide +kernel
  refine ⟨addThenPoll_addedAs, rfl, by decide +kernel, hshow, by decide +kernel, ?_⟩
  intro desc hdesc hjoined
  obtain rfl := List.mem_singleton.mp hdesc
  obtain ⟨detail, hreply, hcounters, -⟩ := hjoined.shown
  rw [hshow] at hreply
  obtain rfl := ResponseData.flowRuleDetail.inj (Option.some.inj (congrArg Response.data hreply))
  exact absurd hcounters (by decide +kernel)

/-- The statistics of the rule are not joined to it. -/
theorem ab_never_joined :
    (Runs.run step (new []) addThenPoll).Unjoined polledDrops "ab" protoRuleId
      (decodeDescriptor polledDrops.hash [] ⟨protoRuleId, 0, 1, 0, [udpSlot], [17], 7, 0⟩) :=
  (never_joined [] addThenPoll polledDrops "ab" protoRuleId
    ⟨protoRuleId, 0, 1, 0, [udpSlot], [17], 7, 0⟩ addThenPoll_addedAs rfl List.mem_cons_self
    rfl).2

end InFMon.Frontend
