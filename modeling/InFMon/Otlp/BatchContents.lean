import InFMon.Otlp.Batches

/-! # What the batches hold

No batch of `slice_into_batches` has more data points than allowed, and the batches together have the data
points of the request, in its order and with the labels of its metrics. -/

namespace InFMon.Otlp

/-! ### Chunks -/

/-- The first chunks are the first elements. -/
theorem flatMap_range_take {α : Type} (n : ℕ) (l : List α) (k : ℕ) :
    ((List.range k).flatMap fun i => (l.drop (i * n)).take n) = l.take (k * n) := by
  induction k with
  | zero => simp
  | succ k ih =>
    rw [List.range_succ, List.flatMap_append, ih, List.flatMap_singleton, Nat.succ_mul,
      List.take_add]

/-- Chunks behind one another are the list. -/
theorem flatten_chunks {α : Type} {n : ℕ} (h : 0 < n) (l : List α) : (chunks n l).flatten = l := by
  -- the last chunk reaches to the end of the list
  have hcover : l.length ≤ (l.length + n - 1) / n * n := by
    have := Nat.div_add_mod (l.length + n - 1) n
    have := Nat.mod_lt (l.length + n - 1) h
    rw [Nat.mul_comm]
    omega
  rw [chunks, ← List.flatMap_def, flatMap_range_take, List.take_of_length_le hcover]

/-- A chunk has at most the given length. -/
theorem length_le_of_mem_chunks {α : Type} {n : ℕ} {l c : List α} (h : c ∈ chunks n l) :
    c.length ≤ n := by
  obtain ⟨i, -, rfl⟩ := List.mem_map.mp h
  exact List.length_take_le _ _

/-! ### Labelled points -/

/-- The kind of a metric, with the temporality and the monotonicity of a sum. -/
inductive MetricKind where
  | gauge
  | sum (aggregationTemporality : AggregationTemporality) (isMonotonic : Bool)
  deriving DecidableEq, Repr

/-- A data point with what its metric says about it. -/
structure LabelledPoint where
  name : String
  unit : String
  description : String
  metadata : List KeyValue
  kind : MetricKind
  point : NumberDataPoint
  deriving DecidableEq, Repr

namespace Metric

/-- A data point of the metric. -/
def label (m : Metric) (kind : MetricKind) (point : NumberDataPoint) : LabelledPoint where
  name := m.name
  unit := m.unit
  description := m.description
  metadata := m.metadata
  kind := kind
  point := point

/-- The data points of a metric. -/
def labelled (m : Metric) : List LabelledPoint :=
  match m.data with
  | some (.sum dataPoints aggregationTemporality isMonotonic) =>
    dataPoints.map (m.label (.sum aggregationTemporality isMonotonic))
  | some (.gauge dataPoints) => dataPoints.map (m.label .gauge)
  | _ => []

/-- A metric has as many labelled points as points. -/
@[simp]
theorem length_labelled (m : Metric) : m.labelled.length = countMetricDataPoints m := by
  unfold labelled countMetricDataPoints
  split <;> simp_all

end Metric

/-- The data points of a request. -/
def ExportMetricsServiceRequest.labelled (request : ExportMetricsServiceRequest) :
    List LabelledPoint :=
  ((request.resourceMetrics.flatMap ResourceMetrics.scopeMetrics).flatMap
    ScopeMetrics.metrics).flatMap Metric.labelled

/-- A request has as many labelled points as points. -/
theorem ExportMetricsServiceRequest.length_labelled (request : ExportMetricsServiceRequest) :
    request.labelled.length = request.points := by
  simp only [labelled, points, List.length_flatMap, Metric.length_labelled]

/-! ### Parts of a metric -/

section
variable {m : Metric} {n : ℕ}

/-- The parts of a split metric have its data points. -/
theorem labelled_split :
    ((splitMetricDataPoints m n).flatMap fun part => part.1.labelled) = m.labelled := by
  have hchunks (dataPoints : List NumberDataPoint) (f : NumberDataPoint → LabelledPoint) :
      ((chunks (max n 1) dataPoints).flatMap fun dp => dp.map f) = dataPoints.map f := by
    rw [List.flatMap_def, ← List.map_flatten, flatten_chunks (by omega : 0 < max n 1)]
  unfold splitMetricDataPoints
  split
  case h_1 dataPoints aggregationTemporality isMonotonic hdata =>
    have hm : m.labelled = dataPoints.map (m.label (.sum aggregationTemporality isMonotonic)) := by
      simp only [Metric.labelled, hdata]
    rw [hm, List.flatMap_map]
    exact hchunks dataPoints (m.label (.sum aggregationTemporality isMonotonic))
  case h_2 dataPoints hdata =>
    have hm : m.labelled = dataPoints.map (m.label .gauge) := by
      simp only [Metric.labelled, hdata]
    rw [hm, List.flatMap_map]
    exact hchunks dataPoints (m.label .gauge)
  case h_3 => simp only [List.flatMap_cons, List.flatMap_nil, List.append_nil]

/-- A part of a split metric comes with the number of its data points, which is small enough. -/
theorem count_of_mem_split {part : Metric × ℕ} (h : 0 < n)
    (hpart : part ∈ splitMetricDataPoints m n) :
    part.2 = countMetricDataPoints part.1 ∧ part.2 ≤ n := by
  have hmax : max n 1 = n := by omega
  unfold splitMetricDataPoints at hpart
  split at hpart
  · obtain ⟨dp, hdp, rfl⟩ := List.mem_map.mp hpart
    exact ⟨rfl, hmax ▸ length_le_of_mem_chunks hdp⟩
  · obtain ⟨dp, hdp, rfl⟩ := List.mem_map.mp hpart
    exact ⟨rfl, hmax ▸ length_le_of_mem_chunks hdp⟩
  case h_3 hsum hgauge =>
    -- neither a sum nor a gauge, so there is nothing to count
    obtain rfl : part = (m, 0) := List.mem_singleton.mp hpart
    refine ⟨?_, Nat.zero_le n⟩
    unfold countMetricDataPoints
    split
    · exact absurd ‹_› (hsum _ _ _)
    · exact absurd ‹_› (hgauge _)
    · rfl

end

/-! ### Packing -/

section
variable {resource : Option Resource} {scope : Option InstrumentationScope}
variable {schemaUrlRm schemaUrlSm : String}

/-- The envelope adds no points. -/
theorem labelled_wrapBatch (metrics : List Metric) :
    (wrapBatch resource scope schemaUrlRm schemaUrlSm metrics).labelled =
      metrics.flatMap Metric.labelled := by
  simp [wrapBatch, ExportMetricsServiceRequest.labelled]

/-- The points of a batch are those of its metrics. -/
theorem points_wrapBatch (metrics : List Metric) :
    (wrapBatch resource scope schemaUrlRm schemaUrlSm metrics).points =
      (metrics.map countMetricDataPoints).sum := by
  simp [wrapBatch, ExportMetricsServiceRequest.points]

namespace Packing

/-- The data points packed so far. -/
def labelled (p : Packing) : List LabelledPoint :=
  p.batches.flatMap ExportMetricsServiceRequest.labelled ++ p.currentMetrics.flatMap Metric.labelled

/-- A part is packed behind what is there. -/
@[simp]
theorem labelled_push (p : Packing) (metric : Metric) (points : ℕ) :
    (p.push metric points).labelled = p.labelled ++ metric.labelled := by
  simp [push, labelled]

/-- Closing a batch loses nothing. -/
@[simp]
theorem labelled_flush (p : Packing) :
    (p.flush (wrapBatch resource scope schemaUrlRm schemaUrlSm)).labelled = p.labelled := by
  simp [flush, labelled, labelled_wrapBatch]

/-- Closing a batch, where there is one, loses nothing. -/
@[simp]
theorem labelled_flushMetrics (p : Packing) :
    (p.flushMetrics (wrapBatch resource scope schemaUrlRm schemaUrlSm)).labelled = p.labelled := by
  unfold flushMetrics
  split
  · rfl
  · exact labelled_flush p

/-- Every batch is wrapped and small enough, and the points of the current one are counted. -/
structure Bounded (wrap : List Metric → ExportMetricsServiceRequest) (maxPoints : ℕ)
    (p : Packing) : Prop where
  batches : ∀ batch ∈ p.batches, batch.points ≤ maxPoints ∧ ∃ metrics, batch = wrap metrics
  counted : p.currentPoints = (p.currentMetrics.map countMetricDataPoints).sum
  current : p.currentPoints ≤ maxPoints

variable {maxPoints : ℕ} {p : Packing}

/-- A part that fits keeps the batches bounded. -/
theorem Bounded.push {wrap : List Metric → ExportMetricsServiceRequest}
    (h : p.Bounded wrap maxPoints) {metric : Metric} {points : ℕ}
    (hpoints : points = p.currentPoints + countMetricDataPoints metric) (hle : points ≤ maxPoints) :
    (p.push metric points).Bounded wrap maxPoints where
  batches := h.batches
  counted := by simp [Packing.push, hpoints, h.counted]
  current := hle

/-- A finished batch leaves an empty one. -/
theorem Bounded.flush (h : p.Bounded (wrapBatch resource scope schemaUrlRm schemaUrlSm) maxPoints) :
    ({ p.flush (wrapBatch resource scope schemaUrlRm schemaUrlSm) with currentPoints := 0 } :
      Packing).Bounded (wrapBatch resource scope schemaUrlRm schemaUrlSm) maxPoints where
  batches := by
    intro batch hbatch
    rcases List.mem_append.mp hbatch with hbatch | hbatch
    · exact h.batches batch hbatch
    · obtain rfl := List.mem_singleton.mp hbatch
      exact ⟨by rw [points_wrapBatch, ← h.counted]; exact h.current, _, rfl⟩
  counted := rfl
  current := Nat.zero_le maxPoints

/-- A metric that fits into a batch of its own starts one. -/
theorem Bounded.flush_push
    (h : p.Bounded (wrapBatch resource scope schemaUrlRm schemaUrlSm) maxPoints) {metric : Metric}
    {points : ℕ} (hpoints : points = countMetricDataPoints metric) (hle : points ≤ maxPoints) :
    ((p.flush (wrapBatch resource scope schemaUrlRm schemaUrlSm)).push metric points).Bounded
      (wrapBatch resource scope schemaUrlRm schemaUrlSm) maxPoints :=
  -- `push` overwrites the number of points
  h.flush.push (by simp [hpoints]) hle

/-- One part of a split metric. -/
theorem Bounded.packPart
    (h : p.Bounded (wrapBatch resource scope schemaUrlRm schemaUrlSm) maxPoints)
    {part : Metric × ℕ} (hcount : part.2 = countMetricDataPoints part.1)
    (hle : part.2 ≤ maxPoints) :
    (p.packPart (wrapBatch resource scope schemaUrlRm schemaUrlSm) maxPoints part).Bounded
      (wrapBatch resource scope schemaUrlRm schemaUrlSm) maxPoints := by
  unfold Packing.packPart
  split
  · exact h.push (by rw [hcount]) ‹_›
  · unfold flushMetrics
    split
    case isTrue hempty =>
      -- nothing to finish, so nothing was counted
      have hzero : p.currentPoints = 0 := by rw [h.counted, hempty]; rfl
      exact h.push (by rw [hzero, hcount, Nat.zero_add]) hle
    case isFalse => exact h.flush_push hcount hle

/-- A part is packed behind what is there, in this batch or the next. -/
theorem labelled_packPart (p : Packing) (maxPoints : ℕ) (part : Metric × ℕ) :
    (p.packPart (wrapBatch resource scope schemaUrlRm schemaUrlSm) maxPoints part).labelled =
      p.labelled ++ part.1.labelled := by
  unfold Packing.packPart
  split <;> simp

/-- The parts of a split metric, one after another. -/
theorem Bounded.packParts {parts : List (Metric × ℕ)}
    (hparts : ∀ part ∈ parts, part.2 = countMetricDataPoints part.1 ∧ part.2 ≤ maxPoints)
    (h : p.Bounded (wrapBatch resource scope schemaUrlRm schemaUrlSm) maxPoints) :
    (parts.foldl (Packing.packPart (wrapBatch resource scope schemaUrlRm schemaUrlSm) maxPoints)
      p).Bounded (wrapBatch resource scope schemaUrlRm schemaUrlSm) maxPoints := by
  induction parts generalizing p with
  | nil => exact h
  | cons part parts ih =>
    have hpart := hparts part List.mem_cons_self
    exact ih (fun q hq => hparts q (List.mem_cons_of_mem _ hq)) (h.packPart hpart.1 hpart.2)

/-- Parts are packed one behind the other. -/
theorem labelled_packParts (p : Packing) (maxPoints : ℕ) (parts : List (Metric × ℕ)) :
    (parts.foldl (Packing.packPart (wrapBatch resource scope schemaUrlRm schemaUrlSm) maxPoints)
      p).labelled = p.labelled ++ parts.flatMap fun part => part.1.labelled := by
  induction parts generalizing p with
  | nil => simp
  | cons part parts ih =>
    rw [List.foldl_cons, ih, labelled_packPart, List.append_assoc, List.flatMap_cons]

/-- One metric. -/
theorem Bounded.pack
    (h : p.Bounded (wrapBatch resource scope schemaUrlRm schemaUrlSm) maxPoints)
    (hmax : 0 < maxPoints) (metric : Metric) :
    (p.pack (wrapBatch resource scope schemaUrlRm schemaUrlSm) maxPoints metric).Bounded
      (wrapBatch resource scope schemaUrlRm schemaUrlSm) maxPoints := by
  have hparts : ∀ part ∈ splitMetricDataPoints metric maxPoints,
      part.2 = countMetricDataPoints part.1 ∧ part.2 ≤ maxPoints :=
    fun part hpart => count_of_mem_split hmax hpart
  unfold Packing.pack
  dsimp only
  split
  case isTrue hzero => exact h.push (by omega) h.current
  split
  case isTrue hfits => exact h.push rfl hfits
  split
  case isTrue hown => exact h.flush_push rfl hown.1
  case isFalse =>
    split
    · exact h.packParts hparts
    · exact h.flush.packParts hparts

/-- A metric is packed behind what is there, in one part or more. -/
theorem labelled_pack (p : Packing) (maxPoints : ℕ) (metric : Metric) :
    (p.pack (wrapBatch resource scope schemaUrlRm schemaUrlSm) maxPoints metric).labelled =
      p.labelled ++ metric.labelled := by
  have hrestart : ({ p.flush (wrapBatch resource scope schemaUrlRm schemaUrlSm) with
      currentPoints := 0 } : Packing).labelled = p.labelled := labelled_flush p
  unfold Packing.pack
  dsimp only
  split
  · exact labelled_push ..
  split
  · exact labelled_push ..
  split
  · rw [labelled_push, labelled_flush]
  · split
    · rw [labelled_packParts, labelled_split]
    · rw [labelled_packParts, labelled_split, hrestart]

/-- All metrics, one after another. -/
theorem packs (metrics : List Metric)
    (h : p.Bounded (wrapBatch resource scope schemaUrlRm schemaUrlSm) maxPoints)
    (hmax : 0 < maxPoints) :
    (metrics.foldl (Packing.pack (wrapBatch resource scope schemaUrlRm schemaUrlSm) maxPoints)
        p).Bounded (wrapBatch resource scope schemaUrlRm schemaUrlSm) maxPoints ∧
      (metrics.foldl (Packing.pack (wrapBatch resource scope schemaUrlRm schemaUrlSm) maxPoints)
        p).labelled = p.labelled ++ metrics.flatMap Metric.labelled := by
  induction metrics generalizing p with
  | nil => exact ⟨h, by simp⟩
  | cons metric metrics ih =>
    obtain ⟨hbounded, hlabelled⟩ := ih (h.pack hmax metric)
    refine ⟨hbounded, ?_⟩
    rw [List.foldl_cons, hlabelled, labelled_pack p, List.append_assoc, List.flatMap_cons]

/-- The last batch is finished. -/
theorem Bounded.flushMetrics
    (h : p.Bounded (wrapBatch resource scope schemaUrlRm schemaUrlSm) maxPoints) :
    (p.flushMetrics (wrapBatch resource scope schemaUrlRm schemaUrlSm)).currentMetrics = [] ∧
      ∀ batch ∈ (p.flushMetrics (wrapBatch resource scope schemaUrlRm schemaUrlSm)).batches,
        batch.points ≤ maxPoints ∧
          ∃ metrics, batch = wrapBatch resource scope schemaUrlRm schemaUrlSm metrics := by
  unfold Packing.flushMetrics
  split
  case isTrue hempty => exact ⟨hempty, h.batches⟩
  case isFalse => exact ⟨rfl, h.flush.batches⟩

end Packing
end

/-! ### Batches -/

/-- **Slicing is lossless and bounded.** The batches have at most as many data points as allowed, the
outer messages of the request, and together its data points in its order; a request that is small enough
is a batch. -/
theorem sliceIntoBatches_lossless (e : OtlpExporter) (hmax : 0 < e.maxBatchPoints)
    (resource : Option Resource) (scope : Option InstrumentationScope)
    (schemaUrlRm schemaUrlSm : String) (metrics : List Metric) :
    let wrap := wrapBatch resource scope schemaUrlRm schemaUrlSm
    let batches := e.sliceIntoBatches (wrap metrics)
    batches ≠ [] ∧
      (∀ batch ∈ batches,
        batch.points ≤ e.maxBatchPoints ∧ ∃ metrics', batch = wrap metrics') ∧
      batches.flatMap ExportMetricsServiceRequest.labelled = (wrap metrics).labelled ∧
      ((wrap metrics).points ≤ e.maxBatchPoints → batches = [wrap metrics]) := by
  intro wrap batches
  have hbatches : batches = e.sliceIntoBatches (wrap metrics) := rfl
  have hzero : e.maxBatchPoints ≠ 0 := by omega
  by_cases hfits : (wrap metrics).points ≤ e.maxBatchPoints
  · have hone : batches = [wrap metrics] := by
      rw [hbatches, OtlpExporter.sliceIntoBatches, if_neg hzero]
      exact if_pos hfits
    rw [hone]
    refine ⟨by simp, ?_, by simp, fun _ => rfl⟩
    rintro batch hbatch
    obtain rfl := List.mem_singleton.mp hbatch
    exact ⟨hfits, metrics, rfl⟩
  · have hstart : Packing.Bounded wrap e.maxBatchPoints ⟨[], [], 0⟩ :=
      ⟨by simp, rfl, Nat.zero_le _⟩
    obtain ⟨hbounded, hlabelled⟩ := Packing.packs metrics hstart hmax
    obtain ⟨hcurrent, hall⟩ := hbounded.flushMetrics
    set p := (metrics.foldl (Packing.pack wrap e.maxBatchPoints) ⟨[], [], 0⟩).flushMetrics wrap
      with hp
    have hkept : p.batches.flatMap ExportMetricsServiceRequest.labelled = (wrap metrics).labelled := by
      have hflush : p.labelled = (wrap metrics).labelled := by
        rw [hp, Packing.labelled_flushMetrics, hlabelled, labelled_wrapBatch]
        rfl
      rw [← hflush, Packing.labelled, hcurrent, List.flatMap_nil, List.append_nil]
    -- there are points to pack, so there is a batch
    have hne : p.batches ≠ [] := by
      intro hnil
      rw [hnil, List.flatMap_nil] at hkept
      have := (wrap metrics).length_labelled
      rw [← hkept, List.length_nil] at this
      omega
    have hmany : batches = p.batches := by
      have hflat : (((wrap metrics).resourceMetrics.flatMap ResourceMetrics.scopeMetrics).flatMap
          ScopeMetrics.metrics) = metrics := by simp [wrap, wrapBatch]
      rw [hbatches, OtlpExporter.sliceIntoBatches, if_neg hzero]
      refine (if_neg hfits).trans ?_
      simp only [hflat]
      exact if_neg hne
    rw [hmany]
    exact ⟨hne, hall, hkept, fun h => absurd h hfits⟩

/-- A gauge with three data points in batches of two. -/
theorem sliceIntoBatches_lossless_three :
    let e : OtlpExporter := { defaultExporter with maxBatchPoints := 2 }
    let points := List.replicate 3 (intPoint [] 0 0 1)
    let request := e.requestOf (gaugeMetric "infmon.flow-rule.flows" "" "" points)
    (e.sliceIntoBatches request).flatMap ExportMetricsServiceRequest.labelled = request.labelled :=
  (sliceIntoBatches_lossless { defaultExporter with maxBatchPoints := 2 } (by decide)
    (some { attributes := [] }) (some { name := "infmon", version := "0.0.0" }) "" ""
    (gaugeMetric "infmon.flow-rule.flows" "" "" (List.replicate 3 (intPoint [] 0 0 1)))).2.2.1

end InFMon.Otlp
