import InFMon.Frontend.StatsJoin
import InFMon.Otlp.Request

/-! # Cumulative sums

What the requests of decoded snapshots say in their cumulative monotonic sums. A decoded snapshot has no
flows, and of the counters of its rules only the drops are not constant. -/

namespace InFMon.Otlp

open Frontend (FlowCounters FlowRuleStats FlowStats FlowStatsSnapshot flows_nil)

/-! ### The series of a sum -/

/-- The cumulative monotonic sums of flows and rules. -/
def sumNames : List String :=
  ["infmon.flow.packets", "infmon.flow.bytes", "infmon.flow-rule.evictions",
    "infmon.flow-rule.drops", "infmon.flow-rule.packets", "infmon.flow-rule.bytes"]

/-- The data points of a cumulative monotonic sum. -/
def Metric.sumPoints (m : Metric) : List NumberDataPoint :=
  match m.data with
  | some (.sum dataPoints .cumulative true) => dataPoints
  | _ => []

/-- The data points under a name in some metrics. -/
def sumPoints (name : String) (metrics : List Metric) : List NumberDataPoint :=
  (metrics.filter fun m => m.name = name).flatMap Metric.sumPoints

/-- The metrics of a request. -/
def ExportMetricsServiceRequest.metrics (request : ExportMetricsServiceRequest) : List Metric :=
  (request.resourceMetrics.flatMap ResourceMetrics.scopeMetrics).flatMap ScopeMetrics.metrics

/-- A data point does not exceed a later one with its attributes and its start. -/
def NumberDataPoint.NotAbove (p later : NumberDataPoint) : Prop :=
  p.attributes = later.attributes → p.startTimeUnixNano = later.startTimeUnixNano →
    ∀ m n, p.value = some (.asInt m) → later.value = some (.asInt n) → m ≤ n

/-- No sum of a request exceeds that of a later request. -/
def ExportMetricsServiceRequest.NotAbove (request later : ExportMetricsServiceRequest) : Prop :=
  ∀ name ∈ sumNames, ∀ p ∈ sumPoints name request.metrics, ∀ q ∈ sumPoints name later.metrics,
    p.NotAbove q

/-- The sums of a sequence of requests never go backwards. -/
def SumsNeverBack (requests : List ExportMetricsServiceRequest) : Prop :=
  requests.Pairwise ExportMetricsServiceRequest.NotAbove

/-! ### The sums of a request -/

/-- The metrics of the exporter itself. -/
def exporterNames : List String :=
  ["infmon.exporter.ticks_dropped", "infmon.exporter.batches_sent",
    "infmon.exporter.batches_dropped", "infmon.exporter.batches_failed",
    "infmon.exporter.points_emitted", "infmon.exporter.points_dropped",
    "infmon.exporter.attrs_truncated", "infmon.exporter.export_duration",
    "infmon.exporter.queue_depth"]

/-- What `of` reads of the metrics under a name. -/
def pointsUnder (of : Metric → List NumberDataPoint) (name : String) (metrics : List Metric) :
    List NumberDataPoint :=
  (metrics.filter fun m => m.name = name).flatMap of

section
variable (of : Metric → List NumberDataPoint)

/-- The points under a name of both lists. -/
theorem pointsUnder_append (name : String) (l l' : List Metric) :
    pointsUnder of name (l ++ l') = pointsUnder of name l ++ pointsUnder of name l' := by
  rw [pointsUnder, List.filter_append, List.flatMap_append]
  rfl

variable {of}

/-- A metric with data points, or none. -/
theorem pointsUnder_of_data {metrics : List Metric} {metric : Metric}
    {dataPoints : List NumberDataPoint} (name : String)
    (hmetrics : metrics = if dataPoints = [] then [] else [metric])
    (hdata : of metric = dataPoints) :
    pointsUnder of name metrics = if metric.name = name then dataPoints else [] := by
  by_cases hnil : dataPoints = []
  · rw [hmetrics, if_pos hnil, hnil, ite_self]
    rfl
  · rw [hmetrics, if_neg hnil]
    by_cases hname : metric.name = name
    · rw [if_pos hname, pointsUnder, List.filter_cons_of_pos (by simpa using hname)]
      simp [hdata]
    · rw [if_neg hname, pointsUnder, List.filter_cons_of_neg (by simpa using hname)]
      rfl

end

/-- The metrics of the exporter itself have its names. -/
theorem name_of_mem_selfMetrics (m : ExporterMetrics) (wall : UInt64) {metric : Metric}
    (h : metric ∈ m.selfMetrics wall) : metric.name ∈ exporterNames :=
  List.mem_map_of_mem (f := Metric.name) h

/-- The exporter itself has no points under the names of flows and rules. -/
theorem pointsUnder_selfMetrics (of : Metric → List NumberDataPoint) {name : String}
    (h : name ∉ exporterNames) (m : ExporterMetrics) (wall : UInt64) :
    pointsUnder of name (m.selfMetrics wall) = [] := by
  have hnone : ((m.selfMetrics wall).filter fun metric => metric.name = name) = [] := by
    refine List.filter_eq_nil_iff.mpr fun metric hmetric heq => h ?_
    rw [← of_decide_eq_true heq]
    exact name_of_mem_selfMetrics m wall hmetric
  rw [pointsUnder, hnone]
  rfl

/-- The points of the sums of both lists. -/
theorem sumPoints_append (name : String) (l l' : List Metric) :
    sumPoints name (l ++ l') = sumPoints name l ++ sumPoints name l' :=
  pointsUnder_append Metric.sumPoints name l l'

/-- A sum has its data points under its own name only. -/
theorem sumPoints_sumMetric (name name' description unit : String)
    (dataPoints : List NumberDataPoint) :
    sumPoints name (sumMetric name' description unit dataPoints) =
      if name' = name then dataPoints else [] :=
  pointsUnder_of_data name rfl rfl

/-- A gauge is no sum. -/
theorem sumPoints_gaugeMetric (name name' description unit : String)
    (dataPoints : List NumberDataPoint) :
    sumPoints name (gaugeMetric name' description unit dataPoints) = [] := by
  refine List.flatMap_eq_nil_iff.mpr fun m hm => ?_
  have hgauge := (List.mem_filter.mp hm).1
  rw [gaugeMetric] at hgauge
  split at hgauge
  · cases hgauge
  · rw [List.mem_singleton.mp hgauge]
    rfl

/-- The metrics of the exporter itself have other names. -/
theorem sumPoints_selfMetrics {name : String} (hname : name ∈ sumNames) (m : ExporterMetrics)
    (wall : UInt64) : sumPoints name (m.selfMetrics wall) = [] := by
  have hnames : ∀ name ∈ sumNames, name ∉ exporterNames := by decide +kernel
  exact pointsUnder_selfMetrics Metric.sumPoints (hnames name hname) m wall

/-- The metrics of a request: those of the snapshot and those of the exporter. -/
theorem metrics_buildRequest (e : OtlpExporter) (snap : FlowStatsSnapshot) (m : ExporterMetrics) :
    (e.buildRequest snap m).1.metrics = (e.collect snap).metrics ++
      (e.buildRequest snap m).2.2.selfMetrics snap.wallClockNs := by
  rw [ExportMetricsServiceRequest.metrics]
  simp only [OtlpExporter.buildRequest, OtlpExporter.requestOf, List.flatMap_cons,
    List.flatMap_nil, List.append_nil]

/-- The points that are collected under each name. -/
def Points.sums (p : Points) : List (String × List NumberDataPoint) :=
  sumNames.zip [p.flowPackets, p.flowBytes, p.frEvictions, p.frDrops, p.frPackets, p.frBytes]

/-- A request has the points that were collected. -/
theorem sumPoints_buildRequest (e : OtlpExporter) (snap : FlowStatsSnapshot) (m : ExporterMetrics) :
    ∀ s ∈ (e.collect snap).sums, sumPoints s.1 (e.buildRequest snap m).1.metrics = s.2 := by
  intro s hs
  have hname : s.1 ∈ sumNames := (List.of_mem_zip hs).1
  rw [metrics_buildRequest, sumPoints_append, sumPoints_selfMetrics hname, List.append_nil, Points.metrics]
  simp only [sumPoints_append, sumPoints_sumMetric, sumPoints_gaugeMetric]
  rw [Points.sums, sumNames] at hs
  simp only [List.zip_cons_cons, List.zip_nil_right, List.mem_cons, List.not_mem_nil,
    or_false] at hs
  rcases hs with rfl | rfl | rfl | rfl | rfl | rfl <;> simp

/-! ### Points of flows and rules -/

/-- The numbers of flows of the rules. -/
def flowCounts (rules : List FlowRuleStats) : List ℕ := rules.map fun fr => fr.flows.length

/-- The point of a rule with a counter. -/
def rulePoint (wall : UInt64) (fr : FlowRuleStats) (value : UInt64) : NumberDataPoint :=
  intPoint [kvString "flow-rule" fr.name] 0 wall value.toNat

/-- The point of a rule with its drops. -/
def dropsPoint (wall : UInt64) (fr : FlowRuleStats) : NumberDataPoint :=
  intPoint [kvString "flow-rule" fr.name, kvString "reason" "eviction_failed"] 0 wall
    fr.counters.drops.toNat

/-- The flows of some rules that are exported, with the number of flows of each rule. -/
def exportedFlows (rules : List FlowRuleStats) (emitted : List ℕ) :
    List (FlowRuleStats × FlowStats) :=
  (rules.zip emitted).flatMap fun rule => (rule.1.flows.take rule.2).map fun flow => (rule.1, flow)

/-- A point of a flow. -/
def flowPoint (wall : UInt64) (start value : FlowCounters → UInt64)
    (f : FlowRuleStats × FlowStats) : NumberDataPoint :=
  intPoint (buildFlowAttributes f.1 f.2 f.1.fields).1 (start f.2.counters) wall
    (value f.2.counters).toNat

/-- The point of a rule with the number of its flows. -/
def flowsPoint (wall : UInt64) (fr : FlowRuleStats) : NumberDataPoint :=
  intPoint [kvString "flow-rule" fr.name] 0 wall fr.flows.length

/-- The three points of every flow. -/
theorem foldl_addFlow (wall : UInt64) (fr : FlowRuleStats) (flows : List FlowStats) (p : Points) :
    ∃ truncated, flows.foldl (addFlow wall fr) p =
      { p with
        flowPackets := p.flowPackets ++
          flows.map fun flow => flowPoint wall FlowCounters.firstSeenNs FlowCounters.packets (fr, flow)
        flowBytes := p.flowBytes ++
          flows.map fun flow => flowPoint wall FlowCounters.firstSeenNs FlowCounters.bytes (fr, flow)
        flowLastSeen := p.flowLastSeen ++
          flows.map fun flow => flowPoint wall (fun _ => 0) FlowCounters.lastSeenNs (fr, flow)
        truncated := truncated } := by
  induction flows generalizing p with
  | nil => exact ⟨p.truncated, by simp⟩
  | cons flow flows ih =>
    obtain ⟨truncated, htruncated⟩ := ih (addFlow wall fr p flow)
    refine ⟨truncated, ?_⟩
    rw [List.foldl_cons, htruncated]
    simp only [addFlow, List.append_assoc, List.map_cons, List.singleton_append]
    rfl

/-- The points of a rule. -/
theorem addRule_points (wall : UInt64) (p : Points) (rule : FlowRuleStats × ℕ) :
    ∃ truncated, addRule wall p rule =
      { flowPackets := p.flowPackets ++ (exportedFlows [rule.1] [rule.2]).map
          (flowPoint wall FlowCounters.firstSeenNs FlowCounters.packets)
        flowBytes := p.flowBytes ++ (exportedFlows [rule.1] [rule.2]).map
          (flowPoint wall FlowCounters.firstSeenNs FlowCounters.bytes)
        flowLastSeen := p.flowLastSeen ++ (exportedFlows [rule.1] [rule.2]).map
          (flowPoint wall (fun _ => 0) FlowCounters.lastSeenNs)
        frFlows := p.frFlows ++ [flowsPoint wall rule.1]
        frEvictions := p.frEvictions ++ [rulePoint wall rule.1 rule.1.counters.evictions]
        frDrops := p.frDrops ++ [dropsPoint wall rule.1]
        frPackets := p.frPackets ++ [rulePoint wall rule.1 rule.1.counters.packets]
        frBytes := p.frBytes ++ [rulePoint wall rule.1 rule.1.counters.bytes]
        dropped := p.dropped + (rule.1.flows.length - min rule.2 rule.1.flows.length) * pointsPerFlow
        truncated := truncated } := by
  have htake : rule.1.flows.take (min rule.2 rule.1.flows.length) = rule.1.flows.take rule.2 := by
    rw [← List.take_take, List.take_length]
  obtain ⟨truncated, htruncated⟩ := foldl_addFlow wall rule.1 (rule.1.flows.take rule.2)
    { p with
      dropped := p.dropped +
        (rule.1.flows.length - min rule.2 rule.1.flows.length) * pointsPerFlow }
  refine ⟨truncated, ?_⟩
  simp only [addRule, htake, htruncated, exportedFlows, List.zip_cons_cons, List.zip_nil_right,
    List.flatMap_cons, List.flatMap_nil, List.append_nil, List.map_map]
  rfl

/-- The flows of the first rule, and of the others. -/
theorem exportedFlows_cons (fr : FlowRuleStats) (rules : List FlowRuleStats) (n : ℕ)
    (emitted : List ℕ) : exportedFlows (fr :: rules) (n :: emitted) =
      exportedFlows [fr] [n] ++ exportedFlows rules emitted := by
  simp [exportedFlows]

/-- The points of all rules. -/
theorem foldl_addRule_points (wall : UInt64) (rules : List FlowRuleStats) (budgets : List ℕ)
    (hlength : budgets.length = rules.length) (p : Points) :
    ∃ truncated, (rules.zip budgets).foldl (addRule wall) p =
      { flowPackets := p.flowPackets ++ (exportedFlows rules budgets).map
          (flowPoint wall FlowCounters.firstSeenNs FlowCounters.packets)
        flowBytes := p.flowBytes ++ (exportedFlows rules budgets).map
          (flowPoint wall FlowCounters.firstSeenNs FlowCounters.bytes)
        flowLastSeen := p.flowLastSeen ++ (exportedFlows rules budgets).map
          (flowPoint wall (fun _ => 0) FlowCounters.lastSeenNs)
        frFlows := p.frFlows ++ rules.map (flowsPoint wall)
        frEvictions := p.frEvictions ++
          rules.map fun fr => rulePoint wall fr fr.counters.evictions
        frDrops := p.frDrops ++ rules.map (dropsPoint wall)
        frPackets := p.frPackets ++ rules.map fun fr => rulePoint wall fr fr.counters.packets
        frBytes := p.frBytes ++ rules.map fun fr => rulePoint wall fr fr.counters.bytes
        dropped := p.dropped +
          (List.zipWith (fun b n => n - min b n) budgets (flowCounts rules)).sum * pointsPerFlow
        truncated := truncated } := by
  induction rules generalizing budgets p with
  | nil =>
    obtain rfl := List.length_eq_zero_iff.mp hlength
    exact ⟨p.truncated, by simp [exportedFlows]⟩
  | cons fr rules ih =>
    cases budgets with
    | nil => cases hlength
    | cons budget budgets =>
      -- the first rule appends its points, the other rules append theirs behind
      obtain ⟨_, hrule⟩ := addRule_points wall p (fr, budget)
      obtain ⟨truncated, hrules⟩ :=
        ih budgets (Nat.succ_injective hlength) (addRule wall p (fr, budget))
      refine ⟨truncated, ?_⟩
      rw [List.zip_cons_cons, List.foldl_cons, hrules, hrule]
      simp only [exportedFlows_cons fr rules, List.map_append, List.append_assoc, List.map_cons,
        List.singleton_append, flowCounts, List.zipWith_cons_cons, List.sum_cons, Nat.add_mul,
        Nat.add_assoc]

/-! ### Snapshots without flows -/

/-- Without flows none is exported. -/
theorem exportedFlows_of_no_flows {rules : List FlowRuleStats} (h : ∀ fr ∈ rules, fr.flows = [])
    (emitted : List ℕ) : exportedFlows rules emitted = [] := by
  refine List.flatMap_eq_nil_iff.mpr fun rule hrule => ?_
  rw [h rule.1 (List.of_mem_zip hrule).1, List.take_nil, List.map_nil]

/-- The points of a snapshot without flows. -/
theorem sums_of_no_flows (e : OtlpExporter) {snap : FlowStatsSnapshot}
    (h : ∀ fr ∈ snap.flowRules, fr.flows = []) :
    (e.collect snap).sums = sumNames.zip
      [[], [],
        snap.flowRules.map fun fr => rulePoint snap.wallClockNs fr fr.counters.evictions,
        snap.flowRules.map fun fr => dropsPoint snap.wallClockNs fr,
        snap.flowRules.map fun fr => rulePoint snap.wallClockNs fr fr.counters.packets,
        snap.flowRules.map fun fr => rulePoint snap.wallClockNs fr fr.counters.bytes] := by
  have hbudgets : e.flowBudgets snap.flowRules = snap.flowRules.map fun fr => fr.flows.length := by
    have hzero : (snap.flowRules.map fun fr => fr.flows.length).sum = 0 := by
      refine List.sum_eq_zero fun n hn => ?_
      obtain ⟨fr, hfr, rfl⟩ := List.mem_map.mp hn
      rw [h fr hfr]
      rfl
    rw [OtlpExporter.flowBudgets]
    exact if_pos (Or.inl hzero)
  have hlength : (e.flowBudgets snap.flowRules).length = snap.flowRules.length := by
    rw [hbudgets, List.length_map]
  obtain ⟨truncated, hpoints⟩ :=
    foldl_addRule_points snap.wallClockNs snap.flowRules (e.flowBudgets snap.flowRules) hlength .none
  rw [Points.sums, OtlpExporter.collect, hpoints, exportedFlows_of_no_flows h]
  rfl

/-! ### Decoded snapshots -/

/-- The text of an id is short enough for an attribute. -/
theorem kvString_display (key : String) (id : FlowRuleId) :
    kvString key id.display = ⟨key, .stringValue id.display⟩ := by
  have hlen := length_utf8Bytes_le id.display
  rw [length_display] at hlen
  rw [kvString, kvStringCounted_of_le]
  rw [attributeLengthCap]
  omega

/-- The drops of two descriptors have the same attributes when the rules have the same id. -/
theorem dropsPoint_attributes (wall wall' : UInt64) {fr fr' : FlowRuleStats} {id id' : FlowRuleId}
    (h : fr.name = id.display) (h' : fr'.name = id'.display) :
    (dropsPoint wall fr).attributes = (dropsPoint wall' fr').attributes ↔ id = id' := by
  rw [dropsPoint, dropsPoint, intPoint, intPoint, h, h', kvString_display, kvString_display]
  constructor
  · intro heq
    have hname := (KeyValue.mk.inj (List.cons.inj heq).1).2
    exact display_injective (AnyValue.stringValue.inj hname)
  · rintro rfl
    rfl

/-- Two points of drops compare by the counters when they are of one rule. -/
theorem dropsPoint_notAbove_iff (wall wall' : UInt64) {fr fr' : FlowRuleStats} {id id' : FlowRuleId}
    (h : fr.name = id.display) (h' : fr'.name = id'.display) :
    (dropsPoint wall fr).NotAbove (dropsPoint wall' fr') ↔
      (id = id' → saturatingI64 fr.counters.drops.toNat ≤
        saturatingI64 fr'.counters.drops.toNat) := by
  rw [NumberDataPoint.NotAbove, dropsPoint_attributes wall wall' h h']
  constructor
  · exact fun hle hid => hle hid rfl (saturatingI64 _) (saturatingI64 _) rfl rfl
  · rintro hle hid - m n ⟨⟩ ⟨⟩
    exact hle hid

/-- Points with the same value do not exceed one another. -/
theorem rulePoint_notAbove (wall wall' : UInt64) (fr fr' : FlowRuleStats) (value : UInt64) :
    (rulePoint wall fr value).NotAbove (rulePoint wall' fr' value) := by
  rintro - - m n ⟨⟩ ⟨⟩
  exact le_rfl

/-- The sums of the request of a decoded snapshot do not exceed those of a later one exactly when no rule
has fewer failed inserts in the later one. -/
theorem request_notAbove_iff (e : OtlpExporter) (polled later : Frontend.Polled) (m m' : ExporterMetrics) :
    (e.buildRequest polled.snapshot m).1.NotAbove (e.buildRequest later.snapshot m').1 ↔
      ∀ desc ∈ polled.raw.descriptors, ∀ desc' ∈ later.raw.descriptors,
        desc.flowRuleId = desc'.flowRuleId →
          saturatingI64 desc.insertFailed.toNat ≤ saturatingI64 desc'.insertFailed.toNat := by
  have hnoFlows : ∀ polled : Frontend.Polled, ∀ fr ∈ polled.snapshot.flowRules, fr.flows = [] := by
    intro polled fr hfr
    obtain ⟨desc, -, rfl⟩ := List.mem_map.mp hfr
    exact flows_nil _ desc
  have hsums := sumPoints_buildRequest e polled.snapshot m
  have hsums' := sumPoints_buildRequest e later.snapshot m'
  rw [sums_of_no_flows e (hnoFlows _)] at hsums hsums'
  simp only [sumNames, List.zip_cons_cons, List.zip_nil_right, List.forall_mem_cons] at hsums hsums'
  obtain ⟨hpackets, hbytes, hevictions, hdrops, hrulePackets, hruleBytes, -⟩ := hsums
  obtain ⟨hpackets', hbytes', hevictions', hdrops', hrulePackets', hruleBytes', -⟩ := hsums'
  rw [ExportMetricsServiceRequest.NotAbove, sumNames]
  simp only [List.forall_mem_cons, hpackets, hbytes, hevictions, hdrops, hrulePackets, hruleBytes,
    hevictions', hdrops', hrulePackets', hruleBytes']
  have hmem : ∀ {polled : Frontend.Polled} {desc}, desc ∈ polled.raw.descriptors →
      Frontend.decodeDescriptor polled.hash [] desc ∈ polled.snapshot.flowRules :=
    fun h => List.mem_map_of_mem h
  -- the counters other than the drops are zero
  have hconstant : ∀ counter : Frontend.FlowRuleCounters → UInt64,
      (∀ drops, counter ⟨0, drops, 0, 0⟩ = 0) →
      ∀ p ∈ polled.snapshot.flowRules.map fun fr =>
        rulePoint polled.snapshot.wallClockNs fr (counter fr.counters),
      ∀ q ∈ later.snapshot.flowRules.map fun fr =>
        rulePoint later.snapshot.wallClockNs fr (counter fr.counters), p.NotAbove q := by
    intro counter hcounter p hp q hq
    obtain ⟨fr, hfr, rfl⟩ := List.mem_map.mp hp
    obtain ⟨fr', hfr', rfl⟩ := List.mem_map.mp hq
    obtain ⟨desc, -, rfl⟩ := List.mem_map.mp hfr
    obtain ⟨desc', -, rfl⟩ := List.mem_map.mp hfr'
    dsimp only [Frontend.decodeDescriptor]
    rw [hcounter, hcounter]
    exact rulePoint_notAbove _ _ _ _ 0
  constructor
  · rintro ⟨-, -, -, h, -⟩ desc hdesc desc' hdesc' hid
    have hdesc := h _ (List.mem_map_of_mem (hmem hdesc)) _ (List.mem_map_of_mem (hmem hdesc'))
    exact (dropsPoint_notAbove_iff _ _ rfl rfl).mp hdesc hid
  · intro h
    refine ⟨?_, ?_, hconstant Frontend.FlowRuleCounters.evictions fun _ => rfl, ?_,
      hconstant Frontend.FlowRuleCounters.packets fun _ => rfl,
      hconstant Frontend.FlowRuleCounters.bytes fun _ => rfl, ?_⟩
    · exact fun p hp => absurd hp List.not_mem_nil
    · exact fun p hp => absurd hp List.not_mem_nil
    · intro p hp q hq
      obtain ⟨fr, hfr, rfl⟩ := List.mem_map.mp hp
      obtain ⟨fr', hfr', rfl⟩ := List.mem_map.mp hq
      obtain ⟨desc, hdesc, rfl⟩ := List.mem_map.mp hfr
      obtain ⟨desc', hdesc', rfl⟩ := List.mem_map.mp hfr'
      exact (dropsPoint_notAbove_iff _ _ rfl rfl).mpr (h desc hdesc desc' hdesc')
    · exact fun name hname => absurd hname List.not_mem_nil

end InFMon.Otlp
