import InFMon.Otlp.BatchContents
import InFMon.Otlp.BatchFates
import InFMon.Otlp.Emission

/-! # The points that count as emitted

Where all batches are delivered, `export` counts the points of flows and rules that `build_request` has
counted. Where some fail it counts all points of the delivered batches, those of the exporter itself among
them, and where it is cancelled it counts none. So the count is exact only if these agree. -/

namespace InFMon.Otlp

open Frontend (FlowStatsSnapshot)

/-! ### Points of a batch -/

namespace ExportMetricsServiceRequest

/-- The number of data points of flows and rules. -/
def snapshotPoints (request : ExportMetricsServiceRequest) : ℕ := exportedPoints request.metrics

/-- The number of data points of the exporter itself. -/
def selfPoints (request : ExportMetricsServiceRequest) : ℕ :=
  ((request.metrics.filter fun m => m.name ∈ exporterNames).map countMetricDataPoints).sum

/-- Every data point is of a flow or a rule, or of the exporter itself. -/
theorem points_eq_add (request : ExportMetricsServiceRequest) :
    request.points = request.snapshotPoints + request.selfPoints := by
  rw [points, snapshotPoints, selfPoints, exportedPoints, ← metrics]
  induction request.metrics with
  | nil => rfl
  | cons m metrics ih =>
    rw [List.map_cons, List.sum_cons, ih]
    by_cases hself : m.name ∈ exporterNames
    · rw [List.filter_cons_of_neg (by simpa using hself),
        List.filter_cons_of_pos (by simpa using hself), List.map_cons, List.sum_cons]
      omega
    · rw [List.filter_cons_of_pos (by simpa using hself),
        List.filter_cons_of_neg (by simpa using hself), List.map_cons, List.sum_cons]
      omega

/-- The data points of flows and rules, by their labels. -/
theorem snapshotPoints_eq_length (request : ExportMetricsServiceRequest) :
    request.snapshotPoints = (request.labelled.filter fun p => p.name ∉ exporterNames).length := by
  rw [snapshotPoints, exportedPoints, labelled, ← metrics]
  induction request.metrics with
  | nil => rfl
  | cons m metrics ih =>
    -- a point is labelled with the name of its metric
    have hname : ∀ p ∈ m.labelled, p.name = m.name := by
      intro p hp
      unfold Metric.labelled at hp
      split at hp
      · obtain ⟨point, -, rfl⟩ := List.mem_map.mp hp
        rfl
      · obtain ⟨point, -, rfl⟩ := List.mem_map.mp hp
        rfl
      · cases hp
    rw [List.flatMap_cons, List.filter_append, List.length_append, ← ih]
    by_cases hself : m.name ∈ exporterNames
    · have hnone : (m.labelled.filter fun p => p.name ∉ exporterNames) = [] :=
        List.filter_eq_nil_iff.mpr fun p hp => by simpa [hname p hp] using hself
      rw [List.filter_cons_of_neg (by simpa using hself), hnone, List.length_nil, Nat.zero_add]
    · have hall : (m.labelled.filter fun p => p.name ∉ exporterNames) = m.labelled :=
        List.filter_eq_self.mpr fun p hp => by simpa [hname p hp] using hself
      rw [List.filter_cons_of_pos (by simpa using hself), hall, Metric.length_labelled,
        List.map_cons, List.sum_cons]

end ExportMetricsServiceRequest

/-- The batches have the data points of flows and rules that `build_request` has counted. -/
theorem sum_snapshotPoints_batchesOf (e : OtlpExporter) (snap : FlowStatsSnapshot)
    (m : ExporterMetrics) :
    ((e.batchesOf snap m).map ExportMetricsServiceRequest.snapshotPoints).sum =
      (e.buildRequest snap m).2.1 := by
  have hkept : (e.batchesOf snap m).flatMap ExportMetricsServiceRequest.labelled =
      (e.buildRequest snap m).1.labelled := by
    rw [OtlpExporter.batchesOf]
    by_cases hmax : e.maxBatchPoints = 0
    · rw [OtlpExporter.sliceIntoBatches, if_pos hmax, List.flatMap_singleton]
    · exact (sliceIntoBatches_lossless e (by omega) (some { attributes := e.resourceAttrs })
        (some { name := "infmon", version := e.version }) "" "" _).2.2.1
  rw [← exportedPoints_buildRequest, ← ExportMetricsServiceRequest.snapshotPoints,
    ExportMetricsServiceRequest.snapshotPoints_eq_length, ← hkept]
  generalize e.batchesOf snap m = batches
  induction batches with
  | nil => rfl
  | cons batch batches ih =>
    rw [List.map_cons, List.sum_cons, ih, batch.snapshotPoints_eq_length, List.flatMap_cons,
      List.filter_append, List.length_append]

/-! ### Delivered batches -/

/-- What belongs to a batch that was delivered. -/
def delivered {α : Type} (batches : List α) (fates : List Fate) : List α :=
  ((batches.zip fates).filter fun batch => batch.2 = .delivered).map Prod.fst

section
variable {α : Type} (batch : α) (batches : List α) (fate : Fate) (fates : List Fate)

/-- The first batch counts if it is delivered. -/
theorem delivered_cons : delivered (batch :: batches) (fate :: fates) =
    if fate = .delivered then batch :: delivered batches fates else delivered batches fates := by
  unfold delivered
  rw [List.zip_cons_cons]
  split
  · rw [List.filter_cons_of_pos (by simpa), List.map_cons]
  · rw [List.filter_cons_of_neg (by simpa)]

/-- A batch is among the delivered ones when this is its fate. -/
theorem mem_delivered_iff {batch : α} {batches : List α} {fates : List Fate} :
    batch ∈ delivered batches fates ↔
      ∃ k : ℕ, batches[k]? = some batch ∧ fates[k]? = some .delivered := by
  simp only [delivered, List.mem_map, List.mem_filter, decide_eq_true_eq]
  constructor
  · rintro ⟨⟨batch', fate⟩, ⟨hmem, rfl⟩, rfl⟩
    obtain ⟨k, hk⟩ := List.mem_iff_getElem?.mp hmem
    exact ⟨k, List.getElem?_zip_eq_some.mp hk⟩
  · rintro ⟨k, hbatch, hfate⟩
    have hk : (batches.zip fates)[k]? = some (batch, .delivered) :=
      List.getElem?_zip_eq_some.mpr ⟨hbatch, hfate⟩
    exact ⟨(batch, .delivered), ⟨List.mem_iff_getElem?.mpr ⟨k, hk⟩, rfl⟩, rfl⟩

/-- What is delivered of the images are the images of what is delivered. -/
theorem map_delivered {β : Type} (f : α → β) :
    (delivered batches fates).map f = delivered (batches.map f) fates := by
  simp only [delivered, List.zip_map_left, List.filter_map, List.map_map]
  rfl

/-- If all batches are delivered, so is what belongs to them. -/
theorem delivered_eq_self {batches : List α} {fates : List Fate}
    (h : ∀ k < batches.length, fates[k]? = some .delivered) : delivered batches fates = batches := by
  induction batches generalizing fates with
  | nil => rfl
  | cons batch batches ih =>
    cases fates with
    | nil => simpa using h 0 (by simp)
    | cons fate fates =>
      have hfate : fate = .delivered := by simpa using h 0 (by simp)
      rw [delivered_cons, if_pos hfate, ih fun k hk => by simpa using h (k + 1) (by simpa using hk)]

end

/-- The more batches are delivered, the more points are. -/
theorem sum_delivered_mono (points : List ℕ) {fates fates' : List Fate}
    (h : ∀ k : ℕ, fates[k]? = some .delivered → fates'[k]? = some .delivered) :
    (delivered points fates).sum ≤ (delivered points fates').sum := by
  induction points generalizing fates fates' with
  | nil => exact le_refl 0
  | cons n points ih =>
    cases fates with
    | nil => exact Nat.zero_le _
    | cons fate fates =>
      have hfirst := h 0
      cases fates' with
      | nil =>
        -- nothing is delivered
        have hnone : ∀ k : ℕ, fates[k]? ≠ some .delivered := fun k hk => by simpa using h (k + 1) hk
        have hrest : (delivered points fates).sum ≤ (delivered points []).sum :=
          ih fun k hk => absurd hk (hnone k)
        rw [delivered_cons, if_neg fun hfate => by simp [hfate] at hfirst]
        simpa [delivered] using hrest
      | cons fate' fates' =>
        have hrest : (delivered points fates).sum ≤ (delivered points fates').sum :=
          ih fun k hk => by simpa using h (k + 1) hk
        rw [delivered_cons, delivered_cons]
        split
        · rw [if_pos (by simpa [*] using hfirst)]
          simpa using hrest
        · split
          · rw [List.sum_cons]
            omega
          · exact hrest

/-- No more points are delivered than there are. -/
theorem sum_delivered_le (points : List ℕ) (fates : List Fate) :
    (delivered points fates).sum ≤ points.sum := by
  induction points generalizing fates with
  | nil => exact le_refl 0
  | cons n points ih =>
    cases fates with
    | nil => exact Nat.zero_le _
    | cons fate fates =>
      have hrest := ih fates
      rw [delivered_cons, List.sum_cons]
      split
      · rw [List.sum_cons]
        omega
      · omega

/-! ### One export -/

/-- No batch before `i` has failed permanently or was pending at the deadline. -/
def Reached (env : ExportEnv) (connected : Bool) (i : ℕ) : Prop :=
  ∀ j < i, env.deadline ≠ some j ∧ batchFate env.attempts connected j ≠ .permanent

/-- Batch `i` is delivered. -/
def Delivers (env : ExportEnv) (connected : Bool) (i : ℕ) : Prop :=
  Reached env connected i ∧ env.deadline ≠ some i ∧
    batchFate env.attempts connected i = .delivered

/-- One of `n` batches is pending at the deadline. -/
def CutOff (env : ExportEnv) (connected : Bool) (n : ℕ) : Prop :=
  ∃ i < n, Reached env connected i ∧ env.deadline = some i

/-- All batches are delivered; or none is cut off, and no delivered one has points of the exporter itself;
or one is cut off, and no delivered one has points of flows and rules. -/
def CountsDelivered (env : ExportEnv) (connected : Bool)
    (batches : List ExportMetricsServiceRequest) : Prop :=
  (∀ i < batches.length, Delivers env connected i) ∨
  (¬ CutOff env connected batches.length ∧
    ∀ i batch, batches[i]? = some batch → Delivers env connected i → batch.selfPoints = 0) ∨
  CutOff env connected batches.length ∧
    ∀ i batch, batches[i]? = some batch → Delivers env connected i → batch.snapshotPoints = 0

/-- What `export` adds to `points_emitted` by how it ends. -/
def emittedAt (built counted : ℕ) : ExportEnd → ℕ
  | .done (.ok ()) => built
  | .done (.error _) => counted
  | .cancelled => 0

/-- What the loop adds to the points emitted. -/
theorem exportLoop_pointsEmitted (env : ExportEnv) (built : ℕ) (batchPoints : List ℕ) (i : ℕ)
    (failed : Bool) (emitted : ℕ) (s : ExporterState) :
    let out := exportLoop env built batchPoints i failed emitted s
    out.2.2.metrics.pointsEmitted = s.metrics.pointsEmitted +
      emittedAt built (emitted + (delivered batchPoints out.2.1).sum) out.1 := by
  induction batchPoints generalizing i failed emitted s with
  | nil =>
    rw [exportLoop]
    cases failed with
    | false => rfl
    | true => rfl
  | cons points batchPoints ih =>
    rw [exportLoop]
    split
    · rfl
    · dsimp only
      split
      · rw [ih, delivered_cons, if_pos rfl, List.sum_cons, Nat.add_assoc]
      · -- the batch itself does not count
        rw [delivered_cons, if_neg (by decide)]
        simp [emittedAt, delivered]
      · rw [ih, delivered_cons, if_neg (by decide)]

/-- The first batches are passed when the next one is reached. -/
theorem passed_zero_iff {env : ExportEnv} {connected : Bool} {i : ℕ} :
    Passed env connected 0 i ↔ Reached env connected i := by
  simp only [Passed, Reached, Nat.zero_add]

/-- A batch that is tried and recorded as delivered is. -/
theorem delivered_eq_triedFate_iff {env : ExportEnv} {connected : Bool} {i : ℕ} :
    .delivered = triedFate env connected i ↔
      env.deadline ≠ some i ∧ batchFate env.attempts connected i = .delivered := by
  rw [triedFate]
  split
  · exact iff_of_false (by decide) fun h => h.1 ‹_›
  · exact ⟨fun h => ⟨‹_›, h.symm⟩, fun h => h.2.symm⟩

section
variable (e : OtlpExporter) (env : ExportEnv) (snap : FlowStatsSnapshot) (s : ExporterState)

/-- How `export` ends, what it delivers and what it adds to `points_emitted`. -/
theorem export_emits :
    let out := e.export env snap s
    let batches := e.batchesOf snap s.metrics
    (∀ k, out.2.1[k]? = some .delivered ↔ k < batches.length ∧ Delivers env s.connected k) ∧
    (out.1 = .cancelled ↔ CutOff env s.connected batches.length) ∧
    (out.1 = .done (.ok ()) ↔ ∀ k < batches.length, Delivers env s.connected k) ∧
    out.2.2.metrics.pointsEmitted = s.metrics.pointsEmitted +
      emittedAt (e.buildRequest snap s.metrics).2.1
        ((delivered batches out.2.1).map ExportMetricsServiceRequest.points).sum out.1 := by
  -- the fates of the batches say which are delivered, and the sum runs over those
  have hfates := e.export_fates env snap s
  have hemitted := exportLoop_pointsEmitted env (e.buildRequest snap s.metrics).2.1
    ((e.batchesOf snap s.metrics).map ExportMetricsServiceRequest.points) 0 false 0
    { s with metrics := (e.buildRequest snap s.metrics).2.2 }
  dsimp only at hemitted
  rw [Nat.zero_add] at hemitted
  intro out batches
  refine ⟨fun k => ?_, ?_, hfates.ok.trans ?_, ?_⟩
  · rw [hfates.fates, Nat.zero_add, passed_zero_iff, delivered_eq_triedFate_iff]
    rfl
  · rw [hfates.cancelled]
    simp only [Nat.zero_add, passed_zero_iff]
    rfl
  · simp only [Nat.zero_add]
    constructor
    · rintro ⟨-, hall⟩ k hk
      refine ⟨fun j hj => ?_, hall k hk⟩
      obtain ⟨hdeadline, hdelivered⟩ := hall j (hj.trans hk)
      exact ⟨hdeadline, by rw [hdelivered]; decide⟩
    · exact fun hall => ⟨trivial, fun j hj => (hall j hj).2⟩
  · rw [map_delivered]
    exact hemitted

/-- `points_emitted` grows by the points of flows and rules in the batches that are delivered. -/
def OtlpExporter.EmitsDelivered : Prop :=
  (e.export env snap s).2.2.metrics.pointsEmitted = s.metrics.pointsEmitted +
    ((delivered (e.batchesOf snap s.metrics) (e.export env snap s).2.1).map
      ExportMetricsServiceRequest.snapshotPoints).sum

end

/-- A sum grows with its terms only if they do. -/
theorem sum_map_eq_iff {α : Type} (l : List α) (f g : α → ℕ) :
    (l.map fun a => f a + g a).sum = (l.map f).sum ↔ ∀ a ∈ l, g a = 0 := by
  rw [List.sum_map_add, Nat.add_eq_left, List.sum_eq_zero_iff]
  simp

/-- The exporter counts right when its loop over the batches does. -/
theorem emitsDelivered_iff (e : OtlpExporter) (env : ExportEnv) (snap : FlowStatsSnapshot)
    (s : ExporterState) : e.EmitsDelivered env snap s ↔
      CountsDelivered env s.connected (e.batchesOf snap s.metrics) := by
  obtain ⟨hdelivers, hcancelled, hok, hemitted⟩ := export_emits e env snap s
  have hbuilt := sum_snapshotPoints_batchesOf e snap s.metrics
  rw [OtlpExporter.EmitsDelivered, hemitted, Nat.add_left_cancel_iff, CountsDelivered, ← hok,
    ← hcancelled]
  -- what is said of the delivered batches
  have hforall (P : ExportMetricsServiceRequest → Prop) :
      (∀ i batch, (e.batchesOf snap s.metrics)[i]? = some batch → Delivers env s.connected i →
        P batch) ↔
      ∀ batch ∈ delivered (e.batchesOf snap s.metrics) (e.export env snap s).2.1, P batch := by
    constructor
    · intro h batch hbatch
      obtain ⟨k, hk, hfate⟩ := mem_delivered_iff.mp hbatch
      exact h k batch hk ((hdelivers k).mp hfate).2
    · intro h i batch hi hdelivered
      refine h batch (mem_delivered_iff.mpr ⟨i, hi, (hdelivers i).mpr ⟨?_, hdelivered⟩⟩)
      exact (List.getElem?_eq_some_iff.mp hi).1
  rw [hforall, hforall]
  cases hout : (e.export env snap s).1 with
  | cancelled =>
    -- nothing is counted
    rw [emittedAt, eq_comm, List.sum_eq_zero_iff]
    simp
  | done result =>
    cases result with
    | ok =>
      -- everything is delivered, and everything counted
      have hall : delivered (e.batchesOf snap s.metrics) (e.export env snap s).2.1 =
          e.batchesOf snap s.metrics :=
        delivered_eq_self fun k hk => (hdelivers k).mpr ⟨hk, hok.mp hout k hk⟩
      refine iff_of_true ?_ (Or.inl rfl)
      rw [emittedAt, hall, hbuilt]
    | error err =>
      -- the points of the exporter itself are counted with the others
      rw [emittedAt, funext ExportMetricsServiceRequest.points_eq_add, sum_map_eq_iff]
      simp

/-- **What `points_emitted` counts.** It grows by the points of flows and rules that were delivered
exactly when all batches are, when no delivered batch has points of the exporter itself, or when the
deadline passes and none has points of flows and rules. Then it grows by no more than what
`build_request` has counted, and by no less when more batches are delivered. -/
theorem pointsEmitted_delivered_iff (e : OtlpExporter) (snap : FlowStatsSnapshot)
    (s : ExporterState) :
    (∀ env, e.EmitsDelivered env snap s ↔
      CountsDelivered env s.connected (e.batchesOf snap s.metrics)) ∧
    (∀ env, CountsDelivered env s.connected (e.batchesOf snap s.metrics) →
      (e.export env snap s).2.2.metrics.pointsEmitted ≤
        s.metrics.pointsEmitted + (e.buildRequest snap s.metrics).2.1) ∧
    ∀ env env', CountsDelivered env s.connected (e.batchesOf snap s.metrics) →
      CountsDelivered env' s.connected (e.batchesOf snap s.metrics) →
      (∀ i : ℕ, (e.export env snap s).2.1[i]? = some .delivered →
        (e.export env' snap s).2.1[i]? = some .delivered) →
      (e.export env snap s).2.2.metrics.pointsEmitted ≤
        (e.export env' snap s).2.2.metrics.pointsEmitted := by
  refine ⟨fun env => emitsDelivered_iff e env snap s, fun env h => ?_, fun env env' h h' hmore => ?_⟩
  · have hemits : e.EmitsDelivered env snap s := (emitsDelivered_iff e env snap s).mpr h
    rw [OtlpExporter.EmitsDelivered] at hemits
    rw [hemits, ← sum_snapshotPoints_batchesOf, map_delivered]
    exact Nat.add_le_add_left (sum_delivered_le _ _) _
  · have hemits : e.EmitsDelivered env snap s := (emitsDelivered_iff e env snap s).mpr h
    have hemits' : e.EmitsDelivered env' snap s := (emitsDelivered_iff e env' snap s).mpr h'
    rw [OtlpExporter.EmitsDelivered, map_delivered] at hemits hemits'
    rw [hemits, hemits']
    exact Nat.add_le_add_left (sum_delivered_mono _ hmore) _

/-! ### Points that count too many -/

/-- An exporter with a limit to its batches. -/
def inBatchesOf (maxBatchPoints : ℕ) : OtlpExporter :=
  { defaultExporter with maxBatchPoints := maxBatchPoints }

/-- The exporter before its first connection. -/
def notConnected : ExporterState where
  metrics := .zero
  connected := false

/-- The first batch is delivered, and the attempts at the others end with a code. -/
def failingBehindFirst (code : Code) : ExportEnv where
  attempts := fun i _ => ⟨true, some (if i = 0 then .ok () else .error code)⟩
  deadline := none
  clientLeft := false
  durationBits := 0

/-- Behind the first batch no batch is delivered. -/
theorem not_delivers_failingBehindFirst (connected : Bool) (i : ℕ) :
    ¬ Delivers (failingBehindFirst .unavailable) connected (i + 1) := by
  rintro ⟨-, -, hfate⟩
  rw [batchFate] at hfate
  generalize connectedBefore (failingBehindFirst .unavailable).attempts connected (i + 1) = now at hfate
  have hfails : fateOf (exportBatchWithRetry
      ((failingBehindFirst .unavailable).attempts (i + 1)) now).1 = .transient := by
    cases now with
    | false => rfl
    | true => rfl
  rw [hfails] at hfate
  cases hfate

/-- A snapshot of a rule without flows. -/
def idleSnapshot : FlowStatsSnapshot where
  tickId := 1
  wallClockNs := 0
  monotonicNs := 0
  intervalNs := 0
  flowRules :=
    [{ name := "r"
       fields := [.srcIp]
       maxKeys := 1
       evictionPolicy := .lruDrop
       flows := []
       counters := .zero }]

/-- The first of three batches has the five points of a rule, and is the only one that is delivered. -/
theorem pointsEmitted_delivered_idle :
    ((inBatchesOf 5).export (failingBehindFirst .unavailable) idleSnapshot notConnected).2.1 =
      [.delivered, .transient, .transient] ∧
    ((inBatchesOf 5).export (failingBehindFirst .unavailable) idleSnapshot
      notConnected).2.2.metrics.pointsEmitted = 5 ∧
    ((inBatchesOf 5).export (failingBehindFirst .unavailable) idleSnapshot
      notConnected).2.2.metrics.pointsEmitted ≤ notConnected.metrics.pointsEmitted +
        ((inBatchesOf 5).buildRequest idleSnapshot notConnected.metrics).2.1 := by
  have hself : (((inBatchesOf 5).batchesOf idleSnapshot notConnected.metrics)[0]?.map
      ExportMetricsServiceRequest.selfPoints) = some 0 := by decide +kernel
  have hcounts : CountsDelivered (failingBehindFirst .unavailable) notConnected.connected
      ((inBatchesOf 5).batchesOf idleSnapshot notConnected.metrics) := by
    refine Or.inr (Or.inl ⟨?_, fun i batch hi hdelivers => ?_⟩)
    · rintro ⟨i, -, -, hdeadline⟩
      cases hdeadline
    · cases i with
      | zero =>
        rw [hi] at hself
        exact Option.some.inj hself
      | succ i => exact absurd hdelivers (not_delivers_failingBehindFirst notConnected.connected i)
  exact ⟨by decide +kernel, by decide +kernel,
    (pointsEmitted_delivered_iff (inBatchesOf 5) idleSnapshot notConnected).2.1
      (failingBehindFirst .unavailable) hcounts⟩

/-- A snapshot without rules has no points of flows and rules. The first of its two batches is delivered,
and the eight points of the exporter in it count as emitted. -/
theorem own_points_counted_as_emitted :
    ((inBatchesOf 8).buildRequest emptySnapshot notConnected.metrics).2.1 = 0 ∧
    ((inBatchesOf 8).export (failingBehindFirst .unavailable) emptySnapshot notConnected).2.1 =
      [.delivered, .transient] ∧
    ((inBatchesOf 8).export (failingBehindFirst .unavailable) emptySnapshot
      notConnected).2.2.metrics.pointsEmitted = notConnected.metrics.pointsEmitted + 8 ∧
    ¬ (inBatchesOf 8).EmitsDelivered (failingBehindFirst .unavailable) emptySnapshot
      notConnected := by
  have hcount : ((inBatchesOf 8).export (failingBehindFirst .unavailable) emptySnapshot
      notConnected).2.2.metrics.pointsEmitted = notConnected.metrics.pointsEmitted + 8 := by
    decide +kernel
  have hpoints : ((delivered ((inBatchesOf 8).batchesOf emptySnapshot notConnected.metrics)
      ((inBatchesOf 8).export (failingBehindFirst .unavailable) emptySnapshot notConnected).2.1).map
        ExportMetricsServiceRequest.snapshotPoints).sum = 0 := by decide +kernel
  refine ⟨by decide +kernel, by decide +kernel, hcount, fun h => ?_⟩
  rw [OtlpExporter.EmitsDelivered, hcount, hpoints] at h
  omega

end InFMon.Otlp
