import InFMon.Otlp.Request

/-! # The batches of a request

`OtlpExporter::slice_into_batches`: a request with too many data points is packed greedily into batches,
and a metric with too many is split. -/

namespace InFMon.Otlp

/-- `wrap_batch`. -/
def wrapBatch (resource : Option Resource) (scope : Option InstrumentationScope)
    (schemaUrlRm schemaUrlSm : String) (metrics : List Metric) : ExportMetricsServiceRequest where
  resourceMetrics :=
    [{ resource := resource
       scopeMetrics := [{ scope := scope, metrics := metrics, schemaUrl := schemaUrlSm }]
       schemaUrl := schemaUrlRm }]

/-- The batches so far, the metrics of the current one and their points. -/
structure Packing where
  batches : List ExportMetricsServiceRequest
  currentMetrics : List Metric
  currentPoints : ℕ

namespace Packing

/-- The current batch is finished. -/
def flush (wrap : List Metric → ExportMetricsServiceRequest) (p : Packing) : Packing :=
  { p with batches := p.batches ++ [wrap p.currentMetrics], currentMetrics := [] }

/-- The current batch is finished if it has metrics. -/
def flushMetrics (wrap : List Metric → ExportMetricsServiceRequest) (p : Packing) : Packing :=
  if p.currentMetrics = [] then p else p.flush wrap

/-- A metric goes to the current batch. -/
def push (metric : Metric) (points : ℕ) (p : Packing) : Packing :=
  { p with currentMetrics := p.currentMetrics ++ [metric], currentPoints := points }

/-- A part of a split metric. -/
def packPart (wrap : List Metric → ExportMetricsServiceRequest) (maxPoints : ℕ) (p : Packing)
    (part : Metric × ℕ) : Packing :=
  if p.currentPoints + part.2 ≤ maxPoints then p.push part.1 (p.currentPoints + part.2)
  else (p.flushMetrics wrap).push part.1 part.2

/-- One iteration of the loop over the metrics. -/
def pack (wrap : List Metric → ExportMetricsServiceRequest) (maxPoints : ℕ) (p : Packing)
    (metric : Metric) : Packing :=
  let pts := countMetricDataPoints metric
  -- a metric without points takes no room
  if pts = 0 then p.push metric p.currentPoints
  else if p.currentPoints + pts ≤ maxPoints then p.push metric (p.currentPoints + pts)
  else if pts ≤ maxPoints ∧ p.currentPoints > 0 then (p.flush wrap).push metric pts
  else
    -- the metric is larger than a batch
    let p := if p.currentMetrics = [] then p else { p.flush wrap with currentPoints := 0 }
    (splitMetricDataPoints metric maxPoints).foldl (packPart wrap maxPoints) p

end Packing

/-- `OtlpExporter::slice_into_batches`. -/
def OtlpExporter.sliceIntoBatches (e : OtlpExporter) (request : ExportMetricsServiceRequest) :
    List ExportMetricsServiceRequest :=
  if e.maxBatchPoints = 0 then [request]
  else
    match request.resourceMetrics with
    -- nothing to take the outer messages from
    | [] => [request]
    | rm :: _ =>
      match rm.scopeMetrics with
      | [] => [request]
      | sm :: _ =>
        if request.points ≤ e.maxBatchPoints then [request]
        else
          let wrap := wrapBatch rm.resource sm.scope rm.schemaUrl sm.schemaUrl
          let allMetrics :=
            (request.resourceMetrics.flatMap ResourceMetrics.scopeMetrics).flatMap
              ScopeMetrics.metrics
          let p := allMetrics.foldl (Packing.pack wrap e.maxBatchPoints) ⟨[], [], 0⟩
          let p := p.flushMetrics wrap
          -- not reached, as more points than fit in one batch leave a batch behind
          if p.batches = [] then [{ resourceMetrics := [] }] else p.batches

end InFMon.Otlp
