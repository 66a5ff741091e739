import InFMon.Otlp.ExportCap

/-! # What a request conveys

The data points of a request by metric: the flows that are exported, each with its three points, and the
five points of every rule. Their number stays under the cap, but the cap is not always used. -/

namespace InFMon.Otlp

open Apportionment (share leftover)
open Frontend (FlowCounters FlowRuleStats FlowStats FlowStatsSnapshot)

/-! ### Points by name -/

/-- The data points of a metric. -/
def Metric.dataPoints (m : Metric) : List NumberDataPoint :=
  match m.data with
  | some (.sum dataPoints _ _) => dataPoints
  | some (.gauge dataPoints) => dataPoints
  | _ => []

/-- The data points under a name in some metrics. -/
def pointsNamed (name : String) (metrics : List Metric) : List NumberDataPoint :=
  (metrics.filter fun m => m.name = name).flatMap Metric.dataPoints

/-- The number of data points of flows and rules in some metrics. -/
def exportedPoints (metrics : List Metric) : ℕ :=
  ((metrics.filter fun m => m.name ∉ exporterNames).map countMetricDataPoints).sum

/-- The points under a name of both lists. -/
theorem pointsNamed_append (name : String) (l l' : List Metric) :
    pointsNamed name (l ++ l') = pointsNamed name l ++ pointsNamed name l' :=
  pointsUnder_append Metric.dataPoints name l l'

/-- The exported points of both lists. -/
theorem exportedPoints_append (l l' : List Metric) :
    exportedPoints (l ++ l') = exportedPoints l + exportedPoints l' := by
  rw [exportedPoints, List.filter_append, List.map_append, List.sum_append]
  rfl

/-- A metric that is there when it has data has its data points. -/
theorem exportedPoints_of_data {metrics : List Metric} {metric : Metric}
    {dataPoints : List NumberDataPoint} (hname : metric.name ∉ exporterNames)
    (hmetrics : metrics = if dataPoints = [] then [] else [metric])
    (hcount : countMetricDataPoints metric = dataPoints.length) :
    exportedPoints metrics = dataPoints.length := by
  by_cases hnil : dataPoints = []
  · rw [hmetrics, if_pos hnil, hnil]
    rfl
  · rw [hmetrics, if_neg hnil, exportedPoints, List.filter_cons_of_pos (by simpa using hname)]
    simp [hcount]

section
variable (name name' description unit : String) (dataPoints : List NumberDataPoint)

/-- A sum has its data points under its own name only. -/
theorem pointsNamed_sumMetric :
    pointsNamed name (sumMetric name' description unit dataPoints) =
      if name' = name then dataPoints else [] :=
  pointsUnder_of_data name rfl rfl

/-- A gauge has its data points under its own name only. -/
theorem pointsNamed_gaugeMetric :
    pointsNamed name (gaugeMetric name' description unit dataPoints) =
      if name' = name then dataPoints else [] :=
  pointsUnder_of_data name rfl rfl

variable {name}

/-- The data points of a sum are exported. -/
theorem exportedPoints_sumMetric (hname : name ∉ exporterNames) :
    exportedPoints (sumMetric name description unit dataPoints) = dataPoints.length :=
  exportedPoints_of_data hname rfl rfl

/-- The data points of a gauge are exported. -/
theorem exportedPoints_gaugeMetric (hname : name ∉ exporterNames) :
    exportedPoints (gaugeMetric name description unit dataPoints) = dataPoints.length :=
  exportedPoints_of_data hname rfl rfl

end

section
variable (m : ExporterMetrics) (wall : UInt64)

/-- The metrics of the exporter itself are not counted. -/
theorem exportedPoints_selfMetrics : exportedPoints (m.selfMetrics wall) = 0 := by
  have hnone : ((m.selfMetrics wall).filter fun metric => metric.name ∉ exporterNames) = [] :=
    List.filter_eq_nil_iff.mpr fun metric hmetric => by
      simpa using name_of_mem_selfMetrics m wall hmetric
  rw [exportedPoints, hnone]
  rfl

/-- The metrics of the exporter itself have names of their own. -/
theorem pointsNamed_selfMetrics {name : String} (h : name ∉ exporterNames) :
    pointsNamed name (m.selfMetrics wall) = [] :=
  pointsUnder_selfMetrics Metric.dataPoints h m wall

end

/-! ### Points of a request -/

section
variable (e : OtlpExporter) (snap : FlowStatsSnapshot) (m : ExporterMetrics)

/-- The names of the metrics of flows and rules, with the points that are collected for each. -/
def Points.named (p : Points) : List (String × List NumberDataPoint) :=
  [("infmon.flow.packets", p.flowPackets), ("infmon.flow.bytes", p.flowBytes),
    ("infmon.flow.last_seen", p.flowLastSeen), ("infmon.flow-rule.flows", p.frFlows),
    ("infmon.flow-rule.evictions", p.frEvictions), ("infmon.flow-rule.drops", p.frDrops),
    ("infmon.flow-rule.packets", p.frPackets), ("infmon.flow-rule.bytes", p.frBytes)]

/-- A request has the points that were collected. -/
theorem pointsNamed_buildRequest :
    ∀ s ∈ (e.collect snap).named,
      pointsNamed s.1 (e.buildRequest snap m).1.metrics = s.2 := by
  intro s hs
  have hnames : ∀ name ∈ ["infmon.flow.packets", "infmon.flow.bytes", "infmon.flow.last_seen",
      "infmon.flow-rule.flows", "infmon.flow-rule.evictions", "infmon.flow-rule.drops",
      "infmon.flow-rule.packets", "infmon.flow-rule.bytes"], name ∉ exporterNames := by
    decide +kernel
  have hother : s.1 ∉ exporterNames := hnames s.1 (List.mem_map_of_mem (f := Prod.fst) hs)
  rw [metrics_buildRequest, pointsNamed_append, pointsNamed_selfMetrics _ _ hother,
    List.append_nil, Points.metrics]
  simp only [pointsNamed_append, pointsNamed_sumMetric, pointsNamed_gaugeMetric]
  simp only [Points.named, List.mem_cons, List.not_mem_nil, or_false] at hs
  -- every name is that of one metric only
  rcases hs with rfl | rfl | rfl | rfl | rfl | rfl | rfl | rfl <;> simp

/-- The returned number is that of the points of flows and rules in the request. -/
theorem exportedPoints_buildRequest :
    exportedPoints (e.buildRequest snap m).1.metrics = (e.buildRequest snap m).2.1 := by
  rw [metrics_buildRequest, exportedPoints_append, exportedPoints_selfMetrics, Nat.add_zero,
    Points.metrics]
  simp only [exportedPoints_append]
  repeat rw [exportedPoints_sumMetric _ _ _ (by decide +kernel)]
  repeat rw [exportedPoints_gaugeMetric _ _ _ (by decide +kernel)]
  rfl

end

/-! ### Exported and dropped flows -/

section
variable {e : OtlpExporter} {rules : List FlowRuleStats}

/-- A rule exports no more flows than it has. -/
theorem flowsToEmit_le (e : OtlpExporter) (rules : List FlowRuleStats) :
    List.Forall₂ (fun fr j => j ≤ fr.flows.length) rules (e.flowsToEmit rules) := by
  have hlength := length_flowBudgets e rules
  rw [OtlpExporter.flowsToEmit, flowCounts]
  generalize e.flowBudgets rules = budgets at hlength
  induction rules generalizing budgets with
  | nil =>
    obtain rfl := List.length_eq_zero_iff.mp hlength
    exact .nil
  | cons fr rules ih =>
    cases budgets with
    | nil => cases hlength
    | cons budget budgets =>
      exact .cons (Nat.min_le_right _ _) (ih budgets (Nat.succ_injective hlength))

/-- A budget that a rule cannot use up makes no difference. -/
theorem exportedFlows_flowsToEmit (e : OtlpExporter) (rules : List FlowRuleStats) :
    exportedFlows rules (e.flowsToEmit rules) = exportedFlows rules (e.flowBudgets rules) := by
  rw [OtlpExporter.flowsToEmit, flowCounts]
  generalize e.flowBudgets rules = budgets
  induction rules generalizing budgets with
  | nil => rfl
  | cons fr rules ih =>
    cases budgets with
    | nil => rfl
    | cons budget budgets =>
      rw [List.map_cons, List.zipWith_cons_cons, exportedFlows_cons, ih, exportedFlows_cons fr rules]
      congr 1
      simp only [exportedFlows, List.zip_cons_cons, List.zip_nil_right, List.flatMap_cons,
        List.flatMap_nil]
      rw [← List.take_take, List.take_length]

/-- The number of exported flows. -/
theorem length_exportedFlows {emitted : List ℕ}
    (h : List.Forall₂ (fun fr j => j ≤ fr.flows.length) rules emitted) :
    (exportedFlows rules emitted).length = emitted.sum := by
  induction h with
  | nil => rfl
  | @cons fr j rules emitted hle _ ih =>
    rw [exportedFlows_cons, List.length_append, ih, List.sum_cons]
    simp [exportedFlows, Nat.min_eq_left hle]

/-- A flow is exported or dropped. -/
theorem sum_dropped (budgets counts : List ℕ) (hlength : budgets.length = counts.length) :
    (List.zipWith (fun b n => n - min b n) budgets counts).sum +
      (List.zipWith min budgets counts).sum = counts.sum := by
  induction counts generalizing budgets with
  | nil =>
    obtain rfl := List.length_eq_zero_iff.mp hlength
    rfl
  | cons n counts ih =>
    cases budgets with
    | nil => cases hlength
    | cons budget budgets =>
      have := ih budgets (Nat.succ_injective hlength)
      simp only [List.zipWith_cons_cons, List.sum_cons]
      omega

end

/-- The data points of a request are those of some flows of each rule and of all rules. -/
structure Conveys (request : ExportMetricsServiceRequest) (snap : FlowStatsSnapshot)
    (emitted : List ℕ) : Prop where
  first : List.Forall₂ (fun fr j => j ≤ fr.flows.length) snap.flowRules emitted
  flowPackets : pointsNamed "infmon.flow.packets" request.metrics =
    (exportedFlows snap.flowRules emitted).map
      (flowPoint snap.wallClockNs FlowCounters.firstSeenNs FlowCounters.packets)
  flowBytes : pointsNamed "infmon.flow.bytes" request.metrics =
    (exportedFlows snap.flowRules emitted).map
      (flowPoint snap.wallClockNs FlowCounters.firstSeenNs FlowCounters.bytes)
  flowLastSeen : pointsNamed "infmon.flow.last_seen" request.metrics =
    (exportedFlows snap.flowRules emitted).map
      (flowPoint snap.wallClockNs (fun _ => 0) FlowCounters.lastSeenNs)
  frFlows : pointsNamed "infmon.flow-rule.flows" request.metrics =
    snap.flowRules.map (flowsPoint snap.wallClockNs)
  frEvictions : pointsNamed "infmon.flow-rule.evictions" request.metrics =
    snap.flowRules.map fun fr => rulePoint snap.wallClockNs fr fr.counters.evictions
  frDrops : pointsNamed "infmon.flow-rule.drops" request.metrics =
    snap.flowRules.map (dropsPoint snap.wallClockNs)
  frPackets : pointsNamed "infmon.flow-rule.packets" request.metrics =
    snap.flowRules.map fun fr => rulePoint snap.wallClockNs fr fr.counters.packets
  frBytes : pointsNamed "infmon.flow-rule.bytes" request.metrics =
    snap.flowRules.map fun fr => rulePoint snap.wallClockNs fr fr.counters.bytes

section
variable (e : OtlpExporter) (snap : FlowStatsSnapshot) (m : ExporterMetrics)

/-- What is collected of a snapshot. -/
theorem collect_points : ∃ truncated, e.collect snap =
      { flowPackets := (exportedFlows snap.flowRules (e.flowsToEmit snap.flowRules)).map
          (flowPoint snap.wallClockNs FlowCounters.firstSeenNs FlowCounters.packets)
        flowBytes := (exportedFlows snap.flowRules (e.flowsToEmit snap.flowRules)).map
          (flowPoint snap.wallClockNs FlowCounters.firstSeenNs FlowCounters.bytes)
        flowLastSeen := (exportedFlows snap.flowRules (e.flowsToEmit snap.flowRules)).map
          (flowPoint snap.wallClockNs (fun _ => 0) FlowCounters.lastSeenNs)
        frFlows := snap.flowRules.map (flowsPoint snap.wallClockNs)
        frEvictions := snap.flowRules.map fun fr =>
          rulePoint snap.wallClockNs fr fr.counters.evictions
        frDrops := snap.flowRules.map (dropsPoint snap.wallClockNs)
        frPackets := snap.flowRules.map fun fr => rulePoint snap.wallClockNs fr fr.counters.packets
        frBytes := snap.flowRules.map fun fr => rulePoint snap.wallClockNs fr fr.counters.bytes
        dropped := pointsPerFlow *
          ((flowCounts snap.flowRules).sum - (e.flowsToEmit snap.flowRules).sum)
        truncated := truncated } := by
  obtain ⟨truncated, hrules⟩ := foldl_addRule_points snap.wallClockNs snap.flowRules
    (e.flowBudgets snap.flowRules) (length_flowBudgets e snap.flowRules) .none
  have hdropped := sum_dropped (e.flowBudgets snap.flowRules) (flowCounts snap.flowRules)
    (by rw [length_flowBudgets, flowCounts, List.length_map])
  refine ⟨truncated, ?_⟩
  -- the flows that a budget cuts off are the ones counted as dropped
  rw [OtlpExporter.collect, hrules, exportedFlows_flowsToEmit]
  simp only [Points.none, List.nil_append, Nat.zero_add, Points.mk.injEq, true_and, and_true]
  rw [Nat.mul_comm, OtlpExporter.flowsToEmit]
  congr 1
  omega

/-- The request conveys the flows within the budgets, and every rule. -/
theorem conveys_buildRequest :
    Conveys (e.buildRequest snap m).1 snap (e.flowsToEmit snap.flowRules) := by
  obtain ⟨truncated, hcollect⟩ := collect_points e snap
  have hnamed := pointsNamed_buildRequest e snap m
  rw [hcollect] at hnamed
  simp only [Points.named, List.mem_cons, List.not_mem_nil, or_false, forall_eq_or_imp,
    forall_eq] at hnamed
  obtain ⟨hpackets, hbytes, hseen, hflows, hevictions, hdrops, hrulePackets, hruleBytes⟩ := hnamed
  exact
    { first := flowsToEmit_le e snap.flowRules
      flowPackets := hpackets
      flowBytes := hbytes
      flowLastSeen := hseen
      frFlows := hflows
      frEvictions := hevictions
      frDrops := hdrops
      frPackets := hrulePackets
      frBytes := hruleBytes }

/-- The returned number in terms of flows and rules. -/
theorem count_buildRequest : (e.buildRequest snap m).2.1 =
    pointsPerFlow * (e.flowsToEmit snap.flowRules).sum +
      pointsPerFlowRule * snap.flowRules.length := by
  obtain ⟨truncated, hcollect⟩ := collect_points e snap
  have hlength := length_exportedFlows (flowsToEmit_le e snap.flowRules)
  have hcount : (e.buildRequest snap m).2.1 = (e.collect snap).count := rfl
  rw [hcount, hcollect, Points.count]
  simp only [List.length_map, hlength, pointsPerFlow, pointsPerFlowRule]
  omega

/-- What is added to the points dropped is three for each flow that is left out. -/
theorem pointsDropped_buildRequest : (e.buildRequest snap m).2.2.pointsDropped =
    m.pointsDropped + pointsPerFlow *
      ((flowCounts snap.flowRules).sum - (e.flowsToEmit snap.flowRules).sum) := by
  obtain ⟨truncated, hcollect⟩ := collect_points e snap
  have hdropped : (e.buildRequest snap m).2.2.pointsDropped =
      m.pointsDropped + (e.collect snap).dropped := rfl
  rw [hdropped, hcollect]

/-- **The cap on points holds.** If there is room for the points of the rules, the request has at most as
many points of flows and rules as the cap allows: all three points of the first flows of each rule and
none of the others, and all five points of every rule. The points of the other flows are counted as
dropped, and those of the request are returned. -/
theorem buildRequest_within_cap
    (hcap : 5 * snap.flowRules.length ≤ e.maxExportPointsPerTick) :
    exportedPoints (e.buildRequest snap m).1.metrics ≤ e.maxExportPointsPerTick ∧
      Conveys (e.buildRequest snap m).1 snap (e.flowsToEmit snap.flowRules) ∧
      (e.buildRequest snap m).2.2.pointsDropped = m.pointsDropped +
        3 * ((flowCounts snap.flowRules).sum - (e.flowsToEmit snap.flowRules).sum) ∧
      (e.buildRequest snap m).2.1 = exportedPoints (e.buildRequest snap m).1.metrics := by
  refine ⟨?_, conveys_buildRequest e snap m, pointsDropped_buildRequest e snap m,
    (exportedPoints_buildRequest e snap m).symm⟩
  -- the flows share what the points of the rules leave of the cap
  have hemitted : (e.flowsToEmit snap.flowRules).sum * 3 ≤
      e.maxExportPointsPerTick - snap.flowRules.length * 5 :=
    calc (e.flowsToEmit snap.flowRules).sum * 3
        ≤ e.effectiveCap snap.flowRules.length * 3 := Nat.mul_le_mul_right 3 sum_flowsToEmit_le
      _ ≤ e.maxExportPointsPerTick - snap.flowRules.length * 5 := Nat.div_mul_le_self _ 3
  rw [exportedPoints_buildRequest, count_buildRequest, pointsPerFlow, pointsPerFlowRule]
  omega

/-- A snapshot of some rules, each with one flow for each of the given classes. -/
def flowsOfClasses (rules : List (List UInt8)) : FlowStatsSnapshot where
  tickId := 0
  wallClockNs := 0
  monotonicNs := 0
  intervalNs := 0
  flowRules := rules.map fun dscps =>
    { name := "by-class"
      fields := [.dscp]
      maxKeys := 16
      evictionPolicy := .lruDrop
      flows := dscps.map fun n =>
        { key := [.dscp n]
          counters := { packets := 1, bytes := 64, firstSeenNs := 0, lastSeenNs := 0 } }
      counters := { evictions := 0, drops := 0, packets := 1, bytes := 64 } }

/-- Room for two of four flows: both are of the first rule, and six points are dropped. -/
theorem buildRequest_within_cap_two :
    let e := { defaultExporter with maxExportPointsPerTick := 16 }
    let snap := flowsOfClasses [[1, 2, 3], [4]]
    let built := e.buildRequest snap .zero
    e.flowsToEmit snap.flowRules = [2, 0] ∧ exportedPoints built.1.metrics ≤ 16 ∧
      Conveys built.1 snap [2, 0] ∧ built.2.2.pointsDropped = 6 ∧
      built.2.1 = exportedPoints built.1.metrics := by
  have hemitted : { defaultExporter with maxExportPointsPerTick := 16 }.flowsToEmit
      (flowsOfClasses [[1, 2, 3], [4]]).flowRules = [2, 0] := by
    decide
  obtain ⟨hcap, hconveys, hdropped, hcount⟩ :=
    buildRequest_within_cap { defaultExporter with maxExportPointsPerTick := 16 }
      (flowsOfClasses [[1, 2, 3], [4]]) .zero (by decide)
  rw [hemitted] at hconveys hdropped
  exact ⟨hemitted, hcap, hconveys, hdropped, hcount⟩

/-- Some snapshot in which only the first rule has no flow, and each other rule has one. -/
def flowsAfterNone : FlowStatsSnapshot := flowsOfClasses [[], [1], [2]]

/-- The number of exported flows is that of the points in the request. -/
theorem Conveys.length_flowPackets {request : ExportMetricsServiceRequest} {emitted : List ℕ}
    (h : Conveys request snap emitted) :
    (pointsNamed "infmon.flow.packets" request.metrics).length = emitted.sum := by
  rw [h.flowPackets, List.length_map, length_exportedFlows h.first]

/-- The cap is fully used, and fairly. -/
structure CapUsed (cap : ℕ) (request : ExportMetricsServiceRequest) (snap : FlowStatsSnapshot)
    (emitted : List ℕ) : Prop where
  conveys : Conveys request snap emitted
  fully : emitted.sum = min (flowCounts snap.flowRules).sum cap
  fairly : cap < (flowCounts snap.flowRules).sum →
    List.Forall₂ (fun n j => j = cap * n / (flowCounts snap.flowRules).sum ∨
      j = cap * n / (flowCounts snap.flowRules).sum + 1) (flowCounts snap.flowRules) emitted

/-- **When the cap is fully and fairly used.** As many flows as the cap allows are exported exactly if it
allows all flows, or if each of the first rules, as many as there are flows left over from rounding, has
flows. -/
theorem capUsed_iff :
    (∃ emitted, CapUsed (e.effectiveCap snap.flowRules.length) (e.buildRequest snap m).1 snap
        emitted) ↔
      (flowCounts snap.flowRules).sum ≤ e.effectiveCap snap.flowRules.length ∨
        ∀ n ∈ (flowCounts snap.flowRules).take
          (leftover (e.effectiveCap snap.flowRules.length) (flowCounts snap.flowRules)), 0 < n := by
  have hconveys := conveys_buildRequest e snap m
  rw [← sum_flowsToEmit_eq_iff]
  constructor
  -- the request itself shows how many flows are in it
  · rintro ⟨emitted, hused⟩
    rw [← hused.fully, ← hconveys.length_flowPackets, hused.conveys.length_flowPackets]
  · exact fun h => ⟨e.flowsToEmit snap.flowRules, hconveys, h, flowsToEmit_fair⟩

/-- The first rule gets the only flow and has none. -/
theorem not_capUsed_flowsAfterNone :
    let e := { defaultExporter with maxExportPointsPerTick := 18 }
    ¬∃ emitted, CapUsed (e.effectiveCap 3) (e.buildRequest flowsAfterNone .zero).1 flowsAfterNone
      emitted := by
  rintro e ⟨emitted, hused⟩
  -- the left over flow goes to the rule without flows
  have hnone : (e.flowsToEmit flowsAfterNone.flowRules).sum = 0 := by decide
  have hone : min (flowCounts flowsAfterNone.flowRules).sum (e.effectiveCap 3) = 1 := by decide
  have hsum := (conveys_buildRequest e flowsAfterNone .zero).length_flowPackets
  rw [hused.conveys.length_flowPackets, hused.fully, hone, hnone] at hsum
  cases hsum

end

end InFMon.Otlp
