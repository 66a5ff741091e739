import InFMon.Otlp.Batches

/-! # Exporting a snapshot

`OtlpExporter::export` with its retries, and the thread that `spawn_exporter_thread` starts around it. What
the collector and the clock do is given with every call; the batches that were tried are recorded with
what became of them. -/

namespace InFMon.Otlp

open Frontend (FlowStatsSnapshot)

/-! ### One batch -/

/-- `tonic::Code`. -/
inductive Code where
  | ok
  | cancelled
  | unknown
  | invalidArgument
  | deadlineExceeded
  | notFound
  | alreadyExists
  | permissionDenied
  | resourceExhausted
  | failedPrecondition
  | aborted
  | outOfRange
  | unimplemented
  | internal
  | unavailable
  | dataLoss
  | unauthenticated
  deriving DecidableEq, Repr

/-- The codes after which a batch is tried again. -/
def Code.isRetryable : Code → Bool
  | .unavailable | .deadlineExceeded | .resourceExhausted | .aborted => true
  | _ => false

/-- `ExporterError`, without the cause. -/
inductive ExporterError where
  | transient
  | permanent
  | timeout
  deriving DecidableEq, Repr

/-- What happens at one attempt: whether a connection can be made, should there be none, and how the
call ends on it, in time or not. -/
structure Attempt where
  connects : Bool
  outcome : Option (Except Code Unit)

/-- `MAX_RETRIES`. -/
def maxRetries : ℕ := 3

/-- The loop over the attempts, with `n` attempts left and `connected` for whether there is a client. -/
def retryLoop : (n : ℕ) → (attempts : ℕ → Attempt) → (connected : Bool) → ExporterError →
    Except ExporterError Unit × Bool
  | 0, _, connected, lastErr => (.error lastErr, connected)
  | n + 1, attempts, connected, _ =>
    let attempt := attempts 0
    let next := fun i => attempts (i + 1)
    -- no connection, so the batch is not sent
    if connected = false ∧ attempt.connects = false then retryLoop n next false .transient
    else
      match attempt.outcome with
      | some (.ok ()) => (.ok (), true)
      | some (.error code) =>
        -- the client is dropped before the next attempt
        if code.isRetryable then retryLoop n next false .transient else (.error .permanent, true)
      | none => retryLoop n next false .timeout

/-- `export_batch_with_retry`. -/
def exportBatchWithRetry (attempts : ℕ → Attempt) (connected : Bool) :
    Except ExporterError Unit × Bool :=
  retryLoop (maxRetries + 1) attempts connected .timeout

/-! ### The batches of a snapshot -/

/-- What became of a batch. -/
inductive Fate where
  | delivered
  | transient
  | permanent
  deriving DecidableEq, Repr

/-- The fate of a batch by the result of its export. -/
def fateOf : Except ExporterError Unit → Fate
  | .ok () => .delivered
  | .error .permanent => .permanent
  | .error _ => .transient

/-- What `export` depends on: the attempts for each batch, the batch that is pending when the deadline
of the framework passes, if it does, with whether there is a client then, and the measured duration. -/
structure ExportEnv where
  attempts : ℕ → ℕ → Attempt
  deadline : Option ℕ
  clientLeft : Bool
  durationBits : UInt64

/-- The state of the exporter: its counters and whether it has a client. -/
structure ExporterState where
  metrics : ExporterMetrics
  connected : Bool

/-- How `export` ends: with a result, or cancelled at the deadline. -/
inductive ExportEnd where
  | done (result : Except ExporterError Unit)
  | cancelled
  deriving DecidableEq

/-- The loop over the batches from number `i` on, with the points of each. `failed` and `emitted` are the
local variables, and `built` is what `build_request` has counted. -/
def exportLoop (env : ExportEnv) (built : ℕ) : (batchPoints : List ℕ) → (i : ℕ) → (failed : Bool) →
    (emitted : ℕ) → ExporterState → ExportEnd × List Fate × ExporterState
  | [], _, failed, emitted, s =>
    let m := { s.metrics with exportDurationBits := env.durationBits }
    if failed then
      (.done (.error .transient), [],
        { s with metrics := { m with pointsEmitted := m.pointsEmitted + emitted } })
    else
      (.done (.ok ()), [],
        { s with metrics := { m with pointsEmitted := m.pointsEmitted + built } })
  | points :: batchPoints, i, failed, emitted, s =>
    if env.deadline = some i then
      -- what is pending is dropped, and the local variables with it
      (.cancelled, [.transient], { s with connected := env.clientLeft })
    else
      let out := exportBatchWithRetry (env.attempts i) s.connected
      let m := s.metrics
      match fateOf out.1 with
      | .delivered =>
        let rest := exportLoop env built batchPoints (i + 1) failed (emitted + points)
          { metrics := { m with batchesSent := m.batchesSent + 1 }, connected := out.2 }
        (rest.1, .delivered :: rest.2.1, rest.2.2)
      | .permanent =>
        (.done (.error .permanent), [.permanent],
          { metrics :=
              { m with
                batchesFailedNonRetryable := m.batchesFailedNonRetryable + 1
                pointsEmitted := m.pointsEmitted + emitted
                exportDurationBits := env.durationBits }
            connected := out.2 })
      | .transient =>
        let rest := exportLoop env built batchPoints (i + 1) true emitted
          { metrics := { m with batchesFailedTransient := m.batchesFailedTransient + 1 }
            connected := out.2 }
        (rest.1, .transient :: rest.2.1, rest.2.2)

/-- The batches of a snapshot. -/
def OtlpExporter.batchesOf (e : OtlpExporter) (snap : FlowStatsSnapshot) (m : ExporterMetrics) :
    List ExportMetricsServiceRequest :=
  e.sliceIntoBatches (e.buildRequest snap m).1

/-- `OtlpExporter::export`. -/
def OtlpExporter.export (e : OtlpExporter) (env : ExportEnv) (snap : FlowStatsSnapshot)
    (s : ExporterState) : ExportEnd × List Fate × ExporterState :=
  let built := e.buildRequest snap s.metrics
  exportLoop env built.2.1
    ((e.sliceIntoBatches built.1).map ExportMetricsServiceRequest.points) 0 false 0
    { s with metrics := built.2.2 }

/-! ### The thread -/

/-- The state of the thread: `produced` counts the batches of the snapshots so far, and `fates` are those
of the batches that were tried. -/
structure ExporterThread where
  exporter : ExporterState
  running : Bool
  backoffMs : ℕ
  produced : ℕ
  fates : List Fate

/-- The thread before the first snapshot. -/
def ExporterThread.start : ExporterThread where
  exporter := { metrics := .zero, connected := false }
  running := true
  backoffMs := 100
  produced := 0
  fates := []

/-- The next backoff. -/
def nextBackoff (backoffMs : ℕ) : ℕ := min (backoffMs * 2) 30000

/-- One iteration of the loop of `spawn_exporter_thread`: a snapshot is received and exported. After a
permanent error the loop has ended. -/
def OtlpExporter.receive (e : OtlpExporter) (t : ExporterThread)
    (event : FlowStatsSnapshot × ExportEnv) : ExporterThread :=
  if t.running then
    let out := e.export event.2 event.1 t.exporter
    let t :=
      { t with
        exporter := out.2.2
        produced := t.produced + (e.batchesOf event.1 t.exporter.metrics).length
        fates := t.fates ++ out.2.1 }
    let m := t.exporter.metrics
    match out.1 with
    | .done (.ok ()) => { t with backoffMs := 100 }
    | .done (.error .timeout) | .cancelled | .done (.error .transient) =>
      { t with
        exporter :=
          { t.exporter with
            metrics := { m with batchesFailedTransient := m.batchesFailedTransient + 1 } }
        backoffMs := nextBackoff t.backoffMs }
    | .done (.error .permanent) =>
      { t with
        exporter :=
          { metrics := { m with batchesFailedNonRetryable := m.batchesFailedNonRetryable + 1 }
            -- `shutdown` drops the client
            connected := false }
        running := false }
  else t

end InFMon.Otlp
