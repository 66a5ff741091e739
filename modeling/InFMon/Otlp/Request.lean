import InFMon.Otlp.Model

/-! # The request of a snapshot

`OtlpExporter::build_request`: the data points of the flows, as far as the cap on points allows, of the
flow rules and of the exporter itself, one metric for each name. -/

namespace InFMon.Otlp

open Frontend (FlowRuleStats FlowStats FlowStatsSnapshot)

/-! ### The exporter -/

/-- `ExporterMetrics`. Its counters have 64 bits, and no process lives until one of them wraps around: they
are natural numbers here. -/
structure ExporterMetrics where
  ticksDropped : ℕ
  batchesSent : ℕ
  batchesDropped : ℕ
  batchesFailedNonRetryable : ℕ
  batchesFailedTransient : ℕ
  pointsEmitted : ℕ
  pointsDropped : ℕ
  attrsTruncated : ℕ
  exportDurationBits : UInt64
  queueDepth : ℕ
  deriving DecidableEq, Repr

/-- `ExporterMetrics::default`. -/
def ExporterMetrics.zero : ExporterMetrics where
  ticksDropped := 0
  batchesSent := 0
  batchesDropped := 0
  batchesFailedNonRetryable := 0
  batchesFailedTransient := 0
  pointsEmitted := 0
  pointsDropped := 0
  attrsTruncated := 0
  exportDurationBits := 0
  queueDepth := 0

/-- What `OtlpExporter` is configured with, and the version of its crate. -/
structure OtlpExporter where
  maxExportPointsPerTick : ℕ
  maxBatchPoints : ℕ
  resourceAttrs : List KeyValue
  version : String

/-- `DEFAULT_MAX_EXPORT_POINTS_PER_TICK`. -/
def defaultMaxExportPointsPerTick : ℕ := 2000000

/-- `DEFAULT_MAX_BATCH_POINTS`. -/
def defaultMaxBatchPoints : ℕ := 8192

/-- An exporter with the defaults. -/
def defaultExporter : OtlpExporter where
  maxExportPointsPerTick := defaultMaxExportPointsPerTick
  maxBatchPoints := defaultMaxBatchPoints
  resourceAttrs := []
  version := "0.0.0"

/-- `POINTS_PER_FLOW`. -/
def pointsPerFlow : ℕ := 3

/-- `POINTS_PER_FLOW_RULE`. -/
def pointsPerFlowRule : ℕ := 5

/-! ### Budgets -/

/-- The pass that hands out what rounding has left over, one flow to each rule from the first on. -/
def distribute : (remainder : ℕ) → List ℕ → List ℕ
  | _, [] => []
  | 0, budgets => budgets
  | remainder + 1, b :: budgets => (b + 1) :: distribute remainder budgets

/-- The number of flows that may be exported. -/
def OtlpExporter.effectiveCap (e : OtlpExporter) (rules : ℕ) : ℕ :=
  (e.maxExportPointsPerTick - rules * pointsPerFlowRule) / max pointsPerFlow 1

/-- The budgets of the rules. -/
def OtlpExporter.flowBudgets (e : OtlpExporter) (rules : List FlowRuleStats) : List ℕ :=
  let flows := rules.map fun fr => fr.flows.length
  let totalFlows := flows.sum
  let effectiveCap := e.effectiveCap rules.length
  if totalFlows = 0 ∨ totalFlows ≤ effectiveCap then flows
  else
    -- every exact share, rounded down
    let budgets := flows.map fun n => effectiveCap * n / totalFlows
    distribute (effectiveCap - budgets.sum) budgets

/-! ### Data points -/

/-- The vectors of data points by metric, and what the counters grow by. -/
structure Points where
  flowPackets : List NumberDataPoint
  flowBytes : List NumberDataPoint
  flowLastSeen : List NumberDataPoint
  frFlows : List NumberDataPoint
  frEvictions : List NumberDataPoint
  frDrops : List NumberDataPoint
  frPackets : List NumberDataPoint
  frBytes : List NumberDataPoint
  dropped : ℕ
  truncated : ℕ
  deriving DecidableEq

/-- No data points. -/
def Points.none : Points where
  flowPackets := []
  flowBytes := []
  flowLastSeen := []
  frFlows := []
  frEvictions := []
  frDrops := []
  frPackets := []
  frBytes := []
  dropped := 0
  truncated := 0

/-- A data point with an integer. -/
def intPoint (attributes : List KeyValue) (start wall : UInt64) (value : ℕ) : NumberDataPoint where
  attributes := attributes
  startTimeUnixNano := start
  timeUnixNano := wall
  value := some (.asInt (saturatingI64 value))

/-- The three data points of a flow. -/
def addFlow (wall : UInt64) (fr : FlowRuleStats) (p : Points) (flow : FlowStats) : Points :=
  let attrs := buildFlowAttributes fr flow fr.fields
  { p with
    flowPackets := p.flowPackets ++
      [intPoint attrs.1 flow.counters.firstSeenNs wall flow.counters.packets.toNat]
    flowBytes := p.flowBytes ++
      [intPoint attrs.1 flow.counters.firstSeenNs wall flow.counters.bytes.toNat]
    flowLastSeen := p.flowLastSeen ++ [intPoint attrs.1 0 wall flow.counters.lastSeenNs.toNat]
    truncated := p.truncated + attrs.2 }

/-- The five data points of a rule. -/
def addRulePoints (wall : UInt64) (fr : FlowRuleStats) (p : Points) : Points :=
  let attrs := [kvString "flow-rule" fr.name]
  { p with
    frFlows := p.frFlows ++ [intPoint attrs 0 wall fr.flows.length]
    frEvictions := p.frEvictions ++ [intPoint attrs 0 wall fr.counters.evictions.toNat]
    frDrops := p.frDrops ++
      [intPoint (attrs ++ [kvString "reason" "eviction_failed"]) 0 wall fr.counters.drops.toNat]
    frPackets := p.frPackets ++ [intPoint attrs 0 wall fr.counters.packets.toNat]
    frBytes := p.frBytes ++ [intPoint attrs 0 wall fr.counters.bytes.toNat] }

/-- One iteration of the loop over the rules, with the budget of the rule. -/
def addRule (wall : UInt64) (p : Points) (rule : FlowRuleStats × ℕ) : Points :=
  -- a budget with something left over may exceed the flows of its rule
  let flowsToEmit := min rule.2 rule.1.flows.length
  let flowsDropped := rule.1.flows.length - flowsToEmit
  let p := { p with dropped := p.dropped + flowsDropped * pointsPerFlow }
  addRulePoints wall rule.1 ((rule.1.flows.take flowsToEmit).foldl (addFlow wall rule.1) p)

/-- The data points of a snapshot. -/
def OtlpExporter.collect (e : OtlpExporter) (snap : FlowStatsSnapshot) : Points :=
  (snap.flowRules.zip (e.flowBudgets snap.flowRules)).foldl (addRule snap.wallClockNs) .none

/-- The number of data points of flows and rules. -/
def Points.count (p : Points) : ℕ :=
  p.flowPackets.length + p.flowBytes.length + p.flowLastSeen.length + p.frFlows.length +
    p.frEvictions.length + p.frDrops.length + p.frPackets.length + p.frBytes.length

/-! ### Metrics -/

/-- A cumulative monotonic sum, if it has data points. -/
def sumMetric (name description unit : String) (dataPoints : List NumberDataPoint) : List Metric :=
  if dataPoints = [] then []
  else
    [{ name := name
       description := description
       unit := unit
       metadata := []
       data := some (.sum dataPoints .cumulative true) }]

/-- A gauge, if it has data points. -/
def gaugeMetric (name description unit : String) (dataPoints : List NumberDataPoint) :
    List Metric :=
  if dataPoints = [] then []
  else
    [{ name := name
       description := description
       unit := unit
       metadata := []
       data := some (.gauge dataPoints) }]

/-- The metrics of flows and rules. -/
def Points.metrics (p : Points) : List Metric :=
  sumMetric "infmon.flow.packets" "Total packets attributed to this flow" "\x7bpackets\x7d"
    p.flowPackets ++
  sumMetric "infmon.flow.bytes" "Total bytes attributed to this flow" "By" p.flowBytes ++
  gaugeMetric "infmon.flow.last_seen" "Wall-clock ns of the most recent packet" "ns"
    p.flowLastSeen ++
  gaugeMetric "infmon.flow-rule.flows" "Number of live flows in this flow-rule" "\x7bflows\x7d"
    p.frFlows ++
  sumMetric "infmon.flow-rule.evictions" "Total evictions for this flow-rule" "\x7bevictions\x7d"
    p.frEvictions ++
  sumMetric "infmon.flow-rule.drops" "Total drops for this flow-rule" "\x7bdrops\x7d" p.frDrops ++
  sumMetric "infmon.flow-rule.packets" "Total packets for this flow-rule" "\x7bpackets\x7d"
    p.frPackets ++
  sumMetric "infmon.flow-rule.bytes" "Total bytes for this flow-rule" "By" p.frBytes

/-- `make_sum_metric`. -/
def makeSumMetric (name unit : String) (value : ℕ) (attrs : List KeyValue) (wall : UInt64) :
    Metric where
  name := name
  description := ""
  unit := unit
  metadata := []
  data := some (.sum [intPoint attrs 0 wall value] .cumulative true)

/-- `make_gauge_metric`. -/
def makeGaugeMetric (name unit : String) (value : Double) (wall : UInt64) : Metric where
  name := name
  description := ""
  unit := unit
  metadata := []
  data := some (.gauge
    [{ attributes := []
       startTimeUnixNano := 0
       timeUnixNano := wall
       value := some (.asDouble value) }])

/-- The metrics of the exporter itself. -/
def ExporterMetrics.selfMetrics (m : ExporterMetrics) (wall : UInt64) : List Metric :=
  [makeSumMetric "infmon.exporter.ticks_dropped" "\x7bticks\x7d" m.ticksDropped [] wall,
    makeSumMetric "infmon.exporter.batches_sent" "\x7bbatches\x7d" m.batchesSent [] wall,
    makeSumMetric "infmon.exporter.batches_dropped" "\x7bbatches\x7d" m.batchesDropped [] wall,
    { name := "infmon.exporter.batches_failed"
      description := ""
      unit := "\x7bbatches\x7d"
      metadata := []
      data := some (.sum
        [intPoint [kvString "reason" "non_retryable"] 0 wall m.batchesFailedNonRetryable,
          intPoint [kvString "reason" "transient"] 0 wall m.batchesFailedTransient]
        .cumulative true) },
    makeSumMetric "infmon.exporter.points_emitted" "\x7bpoints\x7d" m.pointsEmitted [] wall,
    makeSumMetric "infmon.exporter.points_dropped" "\x7bpoints\x7d" m.pointsDropped
      [kvString "reason" "export_cap"] wall,
    makeSumMetric "infmon.exporter.attrs_truncated" "\x7battrs\x7d" m.attrsTruncated [] wall,
    makeGaugeMetric "infmon.exporter.export_duration" "s" (.ofBits m.exportDurationBits) wall,
    makeGaugeMetric "infmon.exporter.queue_depth" "\x7bbatches\x7d" (.ofNat m.queueDepth) wall]

/-! ### The request -/

/-- The outer messages of a request. -/
def OtlpExporter.requestOf (e : OtlpExporter) (metrics : List Metric) :
    ExportMetricsServiceRequest where
  resourceMetrics :=
    [{ resource := some { attributes := e.resourceAttrs }
       scopeMetrics :=
        [{ scope := some { name := "infmon", version := e.version }
           metrics := metrics
           schemaUrl := "" }]
       schemaUrl := "" }]

/-- `OtlpExporter::build_request`: the request, the number of points of flows and rules in it, and the
counters. -/
def OtlpExporter.buildRequest (e : OtlpExporter) (snap : FlowStatsSnapshot) (m : ExporterMetrics) :
    ExportMetricsServiceRequest × ℕ × ExporterMetrics :=
  let p := e.collect snap
  let m := { m with
    attrsTruncated := m.attrsTruncated + p.truncated
    pointsDropped := m.pointsDropped + p.dropped }
  -- the metrics of the exporter include what this snapshot has dropped and truncated
  (e.requestOf (p.metrics ++ m.selfMetrics snap.wallClockNs), p.count, m)

end InFMon.Otlp
