import InFMon.Frontend.Model
import Mathlib.Data.List.Sort

/-! # OTLP metrics

The parts of `opentelemetry_proto` that the exporter of `otlp.rs` builds, and its helpers for attributes
and data points. -/

namespace InFMon.Otlp

open Frontend (FlowRuleStats FlowStats ipv4Text ipText)

/-! ### Messages -/

/-- `AnyValue` with a value. -/
inductive AnyValue where
  | stringValue (s : String)
  | intValue (n : ℤ)
  deriving DecidableEq, Repr

/-- `KeyValue`. -/
structure KeyValue where
  key : String
  value : AnyValue
  deriving DecidableEq, Repr

/-- An `f64`, as its bits or as the integer that it is converted from. -/
inductive Double where
  | ofBits (bits : UInt64)
  | ofNat (n : ℕ)
  deriving DecidableEq, Repr

/-- `number_data_point::Value`. -/
inductive PointValue where
  | asInt (n : ℤ)
  | asDouble (d : Double)
  deriving DecidableEq, Repr

/-- `NumberDataPoint`, without the fields that are always empty. -/
structure NumberDataPoint where
  attributes : List KeyValue
  startTimeUnixNano : UInt64
  timeUnixNano : UInt64
  value : Option PointValue
  deriving DecidableEq, Repr

/-- `AggregationTemporality`. -/
inductive AggregationTemporality where
  | unspecified
  | delta
  | cumulative
  deriving DecidableEq, Repr

/-- `metric::Data`; the exporter builds no histogram and no summary. -/
inductive MetricData where
  | gauge (dataPoints : List NumberDataPoint)
  | sum (dataPoints : List NumberDataPoint) (aggregationTemporality : AggregationTemporality)
      (isMonotonic : Bool)
  | other
  deriving DecidableEq, Repr

/-- `Metric`. -/
structure Metric where
  name : String
  description : String
  unit : String
  metadata : List KeyValue
  data : Option MetricData
  deriving DecidableEq, Repr

/-- `InstrumentationScope`, without the fields that are always empty. -/
structure InstrumentationScope where
  name : String
  version : String
  deriving DecidableEq, Repr

/-- `ScopeMetrics`. -/
structure ScopeMetrics where
  scope : Option InstrumentationScope
  metrics : List Metric
  schemaUrl : String
  deriving DecidableEq, Repr

/-- `Resource`. -/
structure Resource where
  attributes : List KeyValue
  deriving DecidableEq, Repr

/-- `ResourceMetrics`. -/
structure ResourceMetrics where
  resource : Option Resource
  scopeMetrics : List ScopeMetrics
  schemaUrl : String
  deriving DecidableEq, Repr

/-- `ExportMetricsServiceRequest`. -/
structure ExportMetricsServiceRequest where
  resourceMetrics : List ResourceMetrics
  deriving DecidableEq, Repr

/-! ### Data points -/

/-- `count_metric_data_points`. -/
def countMetricDataPoints (m : Metric) : ℕ :=
  match m.data with
  | some (.sum dataPoints _ _) => dataPoints.length
  | some (.gauge dataPoints) => dataPoints.length
  | _ => 0

/-- The number of data points of a request. -/
def ExportMetricsServiceRequest.points (request : ExportMetricsServiceRequest) : ℕ :=
  (((request.resourceMetrics.flatMap ResourceMetrics.scopeMetrics).flatMap
    ScopeMetrics.metrics).map countMetricDataPoints).sum

/-- `chunks`, for a positive length. -/
def chunks {α : Type} (n : ℕ) (l : List α) : List (List α) :=
  (List.range ((l.length + n - 1) / n)).map fun i => (l.drop (i * n)).take n

/-- `split_metric_data_points`. -/
def splitMetricDataPoints (m : Metric) (maxPoints : ℕ) : List (Metric × ℕ) :=
  let maxPoints := max maxPoints 1
  match m.data with
  | some (.sum dataPoints aggregationTemporality isMonotonic) =>
    (chunks maxPoints dataPoints).map fun dp =>
      ({ m with data := some (.sum dp aggregationTemporality isMonotonic) }, dp.length)
  | some (.gauge dataPoints) =>
    (chunks maxPoints dataPoints).map fun dp => ({ m with data := some (.gauge dp) }, dp.length)
  | _ => [(m, 0)]

/-- `saturating_i64`. -/
def saturatingI64 (v : ℕ) : ℤ := if v < 2 ^ 63 then v else 2 ^ 63 - 1

/-! ### Strings -/

/-- `is_char_boundary`: no continuation byte is at the index. -/
def isCharBoundary (bytes : List UInt8) (i : ℕ) : Bool :=
  match bytes[i]? with
  | some b => i = 0 || b < 0x80 || 0xC0 ≤ b
  | none => i == bytes.length

/-- The loop that backs up to a boundary. -/
def backUp (bytes : List UInt8) : ℕ → ℕ
  | 0 => 0
  | n + 1 => if isCharBoundary bytes (n + 1) then n + 1 else backUp bytes n

/-- The characters in the first `n` bytes, `&s[..n]` where `n` is a boundary. -/
def charsUpTo (n : ℕ) : List Char → List Char
  | [] => []
  | c :: cs => if c.utf8Size ≤ n then c :: charsUpTo (n - c.utf8Size) cs else []

/-- `truncate_utf8_counted`, with what it adds to the counter. -/
def truncateUtf8Counted (s : String) (maxBytes : ℕ) : String × ℕ :=
  let bytes := utf8Bytes s
  if bytes.length ≤ maxBytes then (s, 0)
  else
    -- room for the three bytes of the ellipsis
    let limit := maxBytes - 3
    (String.ofList (charsUpTo (backUp bytes limit) s.toList ++ ['…']), 1)

/-- `ATTRIBUTE_LENGTH_CAP`. -/
def attributeLengthCap : ℕ := 256

/-- `kv_string_counted`, with what it adds to the counter. -/
def kvStringCounted (key value : String) : KeyValue × ℕ :=
  let truncated := truncateUtf8Counted value attributeLengthCap
  (⟨key, .stringValue truncated.1⟩, truncated.2)

/-- A short text is not truncated. -/
theorem kvStringCounted_of_le (key : String) {value : String}
    (h : (utf8Bytes value).length ≤ attributeLengthCap) :
    kvStringCounted key value = (⟨key, .stringValue value⟩, 0) := by
  rw [kvStringCounted, truncateUtf8Counted]
  dsimp only
  rw [if_pos h]

/-- `kv_string`. -/
def kvString (key value : String) : KeyValue := (kvStringCounted key value).1

/-- `kv_int`. -/
def kvInt (key : String) (value : ℤ) : KeyValue := ⟨key, .intValue value⟩

/-! ### Attributes -/

/-- `render_ip`. -/
def renderIp (addr : IpAddr) : String :=
  match addr with
  | .v4 _ => ipText addr
  | .v6 octets =>
    -- an IPv4 address in its mapped form is shown as such
    if octets.bytes.take 12 = mappedPrefix then
      ipv4Text (Vector.ofFn fun i => octets.bytes.getD (12 + i) 0)
    else ipText addr

/-- The attribute of a field with its value, if their types match. -/
def fieldAttribute : FieldId → FieldValue → Option (KeyValue × ℕ)
  | .srcIp, .ip addr => some (kvStringCounted "flow.src_ip" (renderIp addr))
  | .dstIp, .ip addr => some (kvStringCounted "flow.dst_ip" (renderIp addr))
  | .mirrorSrcIp, .ip addr => some (kvStringCounted "flow.mirror_src_ip" (renderIp addr))
  | .ipProto, .proto p => some (kvInt "flow.ip_proto" p.toNat, 0)
  | .dscp, .dscp d => some (kvInt "flow.dscp" d.toNat, 0)
  | .srcPort, .port p => some (kvInt "flow.src_port" p.toNat, 0)
  | .dstPort, .port p => some (kvInt "flow.dst_port" p.toNat, 0)
  | _, _ => none

/-- `build_flow_attributes`, with what it adds to the counter of truncations. -/
def buildFlowAttributes (fr : FlowRuleStats) (flow : FlowStats) (fields : List FieldId) :
    List KeyValue × ℕ :=
  let attrs := kvStringCounted "flow-rule" fr.name ::
    (fields.zip flow.key).filterMap fun fv => fieldAttribute fv.1 fv.2
  -- in the order of the keys
  ((attrs.map Prod.fst).insertionSort fun a b => a.key ≤ b.key, (attrs.map Prod.snd).sum)

end InFMon.Otlp
