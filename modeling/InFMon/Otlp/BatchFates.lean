import InFMon.Foundations.Runs
import InFMon.Otlp.Export

/-! # The fates of the batches

Both `export` and the thread around it count a failure, and a batch behind a permanent failure or the
deadline is not tried. So every batch is counted once, for what became of it, exactly in the runs in
which no failure is reported to the thread but a deadline at the last batch. -/

namespace InFMon.Otlp

open Frontend (FlowStatsSnapshot)

/-! ### The account -/

/-- Every batch was tried, and is counted once for what became of it. -/
structure ExporterThread.Accounted (t : ExporterThread) : Prop where
  tried : t.fates.length = t.produced
  sent : t.exporter.metrics.batchesSent = t.fates.count .delivered
  transient : t.exporter.metrics.batchesFailedTransient = t.fates.count .transient
  nonRetryable : t.exporter.metrics.batchesFailedNonRetryable = t.fates.count .permanent
  total : t.produced = t.exporter.metrics.batchesSent +
    t.exporter.metrics.batchesFailedTransient + t.exporter.metrics.batchesFailedNonRetryable

/-- Whether there is a client in front of batch `i`, when the batches before were tried. -/
def connectedBefore (attempts : ℕ → ℕ → Attempt) (connected : Bool) : ℕ → Bool
  | 0 => connected
  | i + 1 => (exportBatchWithRetry (attempts i) (connectedBefore attempts connected i)).2

/-- What becomes of batch `i` when the batches before were tried. -/
def batchFate (attempts : ℕ → ℕ → Attempt) (connected : Bool) (i : ℕ) : Fate :=
  fateOf (exportBatchWithRetry (attempts i) (connectedBefore attempts connected i)).1

/-- All `n` batches are delivered before the deadline, or it passes at the last one and none before has
failed permanently. -/
def Undisturbed (env : ExportEnv) (connected : Bool) (n : ℕ) : Prop :=
  (∀ i < n, env.deadline ≠ some i ∧ batchFate env.attempts connected i = .delivered) ∨
  ∃ i, i + 1 = n ∧ env.deadline = some i ∧ ∀ j < i, batchFate env.attempts connected j ≠ .permanent

/-- The thread has ended, or the export of the snapshot is undisturbed. -/
def OtlpExporter.Undisturbed (e : OtlpExporter) (t : ExporterThread)
    (event : FlowStatsSnapshot × ExportEnv) : Prop :=
  t.running = true → Otlp.Undisturbed event.2 t.exporter.connected
    (e.batchesOf event.1 t.exporter.metrics).length

/-- Every batch has one fate. -/
theorem length_fates (fates : List Fate) : fates.length =
    fates.count .delivered + fates.count .transient + fates.count .permanent := by
  induction fates with
  | nil => rfl
  | cons fate fates ih =>
    rw [List.length_cons, ih, List.count_cons, List.count_cons, List.count_cons]
    cases fate with
    | delivered => simp; omega
    | transient => simp; omega
    | permanent => simp; omega

/-! ### One export -/

/-- `export` counts every batch that was tried for what became of it, but for one that was pending at
the deadline. -/
theorem exportLoop_counts (env : ExportEnv) (built : ℕ) (batchPoints : List ℕ) (i : ℕ) (failed : Bool)
    (emitted : ℕ) (s : ExporterState) :
    let out := exportLoop env built batchPoints i failed emitted s
    out.2.2.metrics.batchesSent = s.metrics.batchesSent + out.2.1.count .delivered ∧
    out.2.2.metrics.batchesFailedTransient + (if out.1 = .cancelled then 1 else 0) =
      s.metrics.batchesFailedTransient + out.2.1.count .transient ∧
    out.2.2.metrics.batchesFailedNonRetryable =
      s.metrics.batchesFailedNonRetryable + out.2.1.count .permanent := by
  induction batchPoints generalizing i failed emitted s with
  | nil =>
    rw [exportLoop]
    split <;> exact ⟨rfl, rfl, rfl⟩
  | cons points batchPoints ih =>
    rw [exportLoop]
    split
    · exact ⟨rfl, rfl, rfl⟩
    · dsimp only
      split
      · obtain ⟨hsent, htransient, hperm⟩ := ih (i + 1) failed (emitted + points)
          { metrics := { s.metrics with batchesSent := s.metrics.batchesSent + 1 }
            connected := (exportBatchWithRetry (env.attempts i) s.connected).2 }
        refine ⟨hsent.trans ?_, htransient.trans ?_, hperm.trans ?_⟩
        · simp; omega
        · simp
        · simp
      · exact ⟨rfl, rfl, rfl⟩
      · obtain ⟨hsent, htransient, hperm⟩ := ih (i + 1) true emitted
          { metrics :=
              { s.metrics with
                batchesFailedTransient := s.metrics.batchesFailedTransient + 1 }
            connected := (exportBatchWithRetry (env.attempts i) s.connected).2 }
        refine ⟨hsent.trans ?_, htransient.trans ?_, hperm.trans ?_⟩
        · simp
        · simp; omega
        · simp

/-- The attempts at a batch on the connection that the batches before it have left. -/
theorem attempt_of_connected {attempts : ℕ → ℕ → Attempt} {connected now : Bool} {i : ℕ}
    (hs : now = connectedBefore attempts connected i) :
    fateOf (exportBatchWithRetry (attempts i) now).1 = batchFate attempts connected i ∧
      (exportBatchWithRetry (attempts i) now).2 = connectedBefore attempts connected (i + 1) := by
  rw [batchFate, connectedBefore, hs]
  exact ⟨rfl, rfl⟩

/-- The loop goes on behind `k` batches from `i` on. -/
def Passed (env : ExportEnv) (connected : Bool) (i k : ℕ) : Prop :=
  ∀ j < k, env.deadline ≠ some (i + j) ∧ batchFate env.attempts connected (i + j) ≠ .permanent

/-- What is recorded of batch `i` when it is tried; if it is pending at the deadline, a failure. -/
def triedFate (env : ExportEnv) (connected : Bool) (i : ℕ) : Fate :=
  if env.deadline = some i then .transient else batchFate env.attempts connected i

/-- What the loop records of `n` batches from `i` on, and how it ends. -/
structure FatesFrom (env : ExportEnv) (connected : Bool) (i n : ℕ) (failed : Bool)
    (out : ExportEnd × List Fate × ExporterState) : Prop where
  fates : ∀ k fate, out.2.1[k]? = some fate ↔
    k < n ∧ Passed env connected i k ∧ fate = triedFate env connected (i + k)
  cancelled : out.1 = .cancelled ↔
    ∃ k < n, Passed env connected i k ∧ env.deadline = some (i + k)
  ok : out.1 = .done (.ok ()) ↔ failed = false ∧ ∀ k < n,
    env.deadline ≠ some (i + k) ∧ batchFate env.attempts connected (i + k) = .delivered

section
variable {env : ExportEnv} {connected : Bool} {i n : ℕ}

/-- What holds of the batches from `i` on holds of batch `i` and of those behind it. -/
theorem forall_batches_succ_iff {P : ℕ → Prop} :
    (∀ k < n + 1, P (i + k)) ↔ P i ∧ ∀ k < n, P (i + 1 + k) := by
  rw [Nat.forall_lt_succ_left]
  refine and_congr_right fun _ => forall₂_congr fun k _ => ?_
  rw [Nat.add_right_comm, Nat.add_assoc]

/-- No batch need be passed. -/
theorem passed_zero (env : ExportEnv) (connected : Bool) (i : ℕ) : Passed env connected i 0 :=
  fun j hj => absurd hj (Nat.not_lt_zero j)

/-- The first batch is passed, and the others. -/
theorem passed_succ_iff {k : ℕ} : Passed env connected i (k + 1) ↔
    (env.deadline ≠ some i ∧ batchFate env.attempts connected i ≠ .permanent) ∧
      Passed env connected (i + 1) k :=
  forall_batches_succ_iff (P := fun j =>
    env.deadline ≠ some j ∧ batchFate env.attempts connected j ≠ .permanent)

/-- Fates are recorded in the order of the batches. -/
theorem fates_cons_iff {fates : List Fate}
    (hrest : ∀ k fate, fates[k]? = some fate ↔
      k < n ∧ Passed env connected i (k + 1) ∧ fate = triedFate env connected (i + 1 + k))
    (k : ℕ) (fate : Fate) : (triedFate env connected i :: fates)[k]? = some fate ↔
      k < n + 1 ∧ Passed env connected i k ∧ fate = triedFate env connected (i + k) := by
  cases k with
  | zero =>
    rw [List.getElem?_cons_zero, Option.some.injEq]
    exact ⟨fun h => ⟨Nat.succ_pos n, passed_zero env connected i, h.symm⟩, fun h => h.2.2.symm⟩
  | succ k =>
    rw [List.getElem?_cons_succ, hrest, Nat.succ_lt_succ_iff, Nat.add_right_comm, Nat.add_assoc]

/-- The loop ends at batch `i`. -/
theorem FatesFrom.last {failed : Bool} {out : ExportEnd × List Fate × ExporterState}
    (hstop : ¬ Passed env connected i 1) (hfates : out.2.1 = [triedFate env connected i])
    (hcancelled : out.1 = .cancelled ↔ env.deadline = some i) (hok : out.1 ≠ .done (.ok ())) :
    FatesFrom env connected i (n + 1) failed out where
  fates := by
    have hnone : ∀ k, ¬ Passed env connected i (k + 1) := fun k h =>
      hstop fun j hj => h j (by omega)
    rw [hfates]
    refine fates_cons_iff fun k fate => iff_of_false (by simp) fun h => hnone k h.2.1
  cancelled := by
    rw [hcancelled]
    constructor
    · exact fun h => ⟨0, Nat.succ_pos n, passed_zero env connected i, h⟩
    · rintro ⟨k, -, hpassed, hdeadline⟩
      cases k with
      | zero => exact hdeadline
      | succ k => exact absurd (fun j hj => hpassed j (by omega)) hstop
  ok := by
    refine iff_of_false hok fun h => hstop fun j hj => ?_
    obtain ⟨hdeadline, hdelivered⟩ := h.2 0 (Nat.succ_pos n)
    obtain rfl : j = 0 := by omega
    exact ⟨hdeadline, by rw [hdelivered]; decide⟩

/-- The loop goes on behind batch `i`. -/
theorem FatesFrom.cons {failed failed' : Bool} {rest : ExportEnd × List Fate × ExporterState}
    (h : FatesFrom env connected (i + 1) n failed' rest) (hdeadline : env.deadline ≠ some i)
    (hne : batchFate env.attempts connected i ≠ .permanent)
    (hfailed : failed' = false ↔
      failed = false ∧ batchFate env.attempts connected i = .delivered) :
    FatesFrom env connected i (n + 1) failed
      (rest.1, batchFate env.attempts connected i :: rest.2.1, rest.2.2) where
  fates := by
    -- the batch was not pending, and what became of it is recorded
    have htried : triedFate env connected i = batchFate env.attempts connected i := if_neg hdeadline
    rw [← htried]
    refine fates_cons_iff fun k fate => ?_
    rw [passed_succ_iff, and_iff_right (And.intro hdeadline hne)]
    exact h.fates k fate
  cancelled := by
    refine h.cancelled.trans ⟨?_, ?_⟩
    · rintro ⟨k, hk, hpassed, hcut⟩
      rw [Nat.add_right_comm, Nat.add_assoc] at hcut
      exact ⟨k + 1, by omega, passed_succ_iff.mpr ⟨⟨hdeadline, hne⟩, hpassed⟩, hcut⟩
    · rintro ⟨k, hk, hpassed, hcut⟩
      cases k with
      | zero => exact absurd hcut hdeadline
      | succ k =>
        rw [← Nat.add_assoc, Nat.add_right_comm] at hcut
        exact ⟨k, by omega, (passed_succ_iff.mp hpassed).2, hcut⟩
  ok := by
    have hall := forall_batches_succ_iff (i := i) (n := n) (P := fun j =>
      env.deadline ≠ some j ∧ batchFate env.attempts connected j = .delivered)
    rw [hall, and_iff_right hdeadline, ← and_assoc, ← hfailed]
    exact h.ok

end

/-- `export` records the fate of every batch that it gets to, is cancelled when such a batch is pending
at the deadline, and succeeds when every batch is delivered before. -/
theorem exportLoop_fates (env : ExportEnv) (connected : Bool) (built : ℕ) (batchPoints : List ℕ)
    (i : ℕ) (failed : Bool) (emitted : ℕ) (s : ExporterState)
    (hs : s.connected = connectedBefore env.attempts connected i) :
    FatesFrom env connected i batchPoints.length failed
      (exportLoop env built batchPoints i failed emitted s) := by
  induction batchPoints generalizing i failed emitted s with
  | nil =>
    rw [exportLoop]
    cases failed with
    | false => exact ⟨by simp, by simp, by simp⟩
    | true => exact ⟨by simp, by simp, by simp⟩
  | cons points batchPoints ih =>
    -- the attempt at this batch has the fate that the connection before it gives
    obtain ⟨hfate, hnext⟩ := attempt_of_connected hs
    rw [List.length_cons, exportLoop]
    split
    case isTrue hdeadline =>
      refine .last (fun h => (h 0 Nat.one_pos).1 hdeadline) ?_ (iff_of_true rfl hdeadline) (by simp)
      rw [triedFate, if_pos hdeadline]
    case isFalse hdeadline =>
      dsimp only
      rw [hfate]
      cases hi : batchFate env.attempts connected i with
      | delivered =>
        have hrest := ih (i + 1) failed (emitted + points)
          { metrics := { s.metrics with batchesSent := s.metrics.batchesSent + 1 }
            connected := (exportBatchWithRetry (env.attempts i) s.connected).2 } hnext
        have hcons : FatesFrom env connected i (batchPoints.length + 1) failed _ :=
          hrest.cons hdeadline (by rw [hi]; decide) (by rw [hi]; simp)
        rwa [hi] at hcons
      | permanent =>
        refine .last (fun h => (h 0 Nat.one_pos).2 hi) ?_ (iff_of_false (by simp) hdeadline) (by simp)
        rw [triedFate, if_neg hdeadline, hi]
      | transient =>
        have hrest := ih (i + 1) true emitted
          { metrics :=
              { s.metrics with
                batchesFailedTransient := s.metrics.batchesFailedTransient + 1 }
            connected := (exportBatchWithRetry (env.attempts i) s.connected).2 } hnext
        have hcons : FatesFrom env connected i (batchPoints.length + 1) failed _ :=
          hrest.cons hdeadline (by rw [hi]; decide) (by rw [hi]; simp)
        rwa [hi] at hcons

/-- The deadline passes at the last batch of those from `i` on, and none before has failed
permanently. -/
def CancelledAtLast (env : ExportEnv) (connected : Bool) (i n : ℕ) : Prop :=
  ∃ k, k + 1 = i + n ∧ i ≤ k ∧ env.deadline = some k ∧
    ∀ j, i ≤ j → j < k → batchFate env.attempts connected j ≠ .permanent

section
variable {env : ExportEnv} {connected : Bool} {i n : ℕ} {failed : Bool}
  {out : ExportEnd × List Fate × ExporterState}

/-- Every batch is tried when the loop gets to the last one. -/
theorem FatesFrom.length_eq_iff (h : FatesFrom env connected i n failed out) :
    out.2.1.length = n ↔ ∀ k < n, Passed env connected i k := by
  have hle : out.2.1.length ≤ n := by
    by_contra hlt
    have hfate := List.getElem?_eq_getElem (Nat.lt_of_not_le hlt)
    exact absurd ((h.fates n _).mp hfate).1 (Nat.lt_irrefl n)
  constructor
  · intro hlength k hk
    exact ((h.fates k _).mp (List.getElem?_eq_getElem (hlength ▸ hk))).2.1
  · intro hpassed
    refine Nat.le_antisymm hle (Nat.le_of_not_lt fun hlt => ?_)
    have hfate := (h.fates out.2.1.length _).mpr ⟨hlt, hpassed _ hlt, rfl⟩
    rw [List.getElem?_eq_none (Nat.le_refl _)] at hfate
    cases hfate

/-- An `export` that succeeds has tried every batch. -/
theorem FatesFrom.length_of_ok (h : FatesFrom env connected i n failed out)
    (hok : out.1 = .done (.ok ())) : out.2.1.length = n := by
  refine h.length_eq_iff.mpr fun k hk j hj => ?_
  obtain ⟨hdeadline, hdelivered⟩ := (h.ok.mp hok).2 j (hj.trans hk)
  exact ⟨hdeadline, by rw [hdelivered]; decide⟩

/-- `export` is cancelled with every batch tried exactly when the deadline passes at the last one and none
before has failed permanently. -/
theorem FatesFrom.cancelledAtLast_iff (h : FatesFrom env connected i n failed out) :
    out.1 = .cancelled ∧ out.2.1.length = n ↔ CancelledAtLast env connected i n := by
  rw [h.cancelled, h.length_eq_iff]
  constructor
  · rintro ⟨⟨k, hk, hpassed, hdeadline⟩, hall⟩
    obtain hlast | hlast : k + 1 = n ∨ k < n - 1 := by omega
    · -- the batch at the deadline is the last one
      refine ⟨i + k, by omega, by omega, hdeadline, fun j hij hj => ?_⟩
      obtain ⟨l, rfl⟩ := Nat.exists_eq_add_of_le hij
      exact (hpassed l (by omega)).2
    · -- the last batch was reached, so the deadline was not before it
      exact absurd hdeadline (hall (n - 1) (by omega) k hlast).1
  · rintro ⟨k, hk, hik, hdeadline, hbefore⟩
    obtain ⟨l, rfl⟩ := Nat.exists_eq_add_of_le hik
    have hpassed : ∀ k < n, Passed env connected i k := by
      intro k hk j hj
      refine ⟨fun hj' => ?_, hbefore (i + j) (by omega) (by omega)⟩
      have heq := Option.some.inj (hdeadline.symm.trans hj')
      omega
    exact ⟨⟨l, by omega, hpassed l (by omega), hdeadline⟩, hpassed⟩

end

/-- Every batch of an export has one of the known fates. -/
theorem OtlpExporter.export_fates (e : OtlpExporter) (env : ExportEnv) (snap : FlowStatsSnapshot)
    (s : ExporterState) : FatesFrom env s.connected 0 (e.batchesOf snap s.metrics).length false
      (e.export env snap s) := by
  have hfates := exportLoop_fates env s.connected (e.buildRequest snap s.metrics).2.1
    ((e.batchesOf snap s.metrics).map ExportMetricsServiceRequest.points) 0 false 0
    { s with metrics := (e.buildRequest snap s.metrics).2.2 } rfl
  rw [List.length_map] at hfates
  exact hfates

/-- What `export` counts and tries, and when it is undisturbed. -/
theorem export_spec (e : OtlpExporter) (env : ExportEnv) (snap : FlowStatsSnapshot)
    (s : ExporterState) :
    let out := e.export env snap s
    let n := (e.batchesOf snap s.metrics).length
    (out.2.2.metrics.batchesSent = s.metrics.batchesSent + out.2.1.count .delivered ∧
      out.2.2.metrics.batchesFailedTransient + (if out.1 = .cancelled then 1 else 0) =
        s.metrics.batchesFailedTransient + out.2.1.count .transient ∧
      out.2.2.metrics.batchesFailedNonRetryable =
        s.metrics.batchesFailedNonRetryable + out.2.1.count .permanent) ∧
    (out.1 = .done (.ok ()) → out.2.1.length = n) ∧
    (Undisturbed env s.connected n ↔
      out.1 = .done (.ok ()) ∨ out.1 = .cancelled ∧ out.2.1.length = n) := by
  have hlen : ((e.sliceIntoBatches (e.buildRequest snap s.metrics).1).map
      ExportMetricsServiceRequest.points).length = (e.batchesOf snap s.metrics).length :=
    List.length_map _
  have hcounts := exportLoop_counts env (e.buildRequest snap s.metrics).2.1
    ((e.sliceIntoBatches (e.buildRequest snap s.metrics).1).map ExportMetricsServiceRequest.points)
    0 false 0 { s with metrics := (e.buildRequest snap s.metrics).2.2 }
  have hfates := e.export_fates env snap s
  dsimp only at hcounts ⊢
  refine ⟨hcounts, hfates.length_of_ok, ?_⟩
  rw [hfates.ok, hfates.cancelledAtLast_iff, Undisturbed, CancelledAtLast]
  simp

/-! ### The thread -/

variable {e : OtlpExporter} {t : ExporterThread}

/-- An export that is counted exactly keeps the account if it has tried every batch. -/
theorem accounted_iff_tried (h : t.Accounted) {t' : ExporterThread} {fates : List Fate} {n : ℕ}
    (hfates : t'.fates = t.fates ++ fates) (hproduced : t'.produced = t.produced + n)
    (hsent : t'.exporter.metrics.batchesSent =
      t.exporter.metrics.batchesSent + fates.count .delivered)
    (htransient : t'.exporter.metrics.batchesFailedTransient =
      t.exporter.metrics.batchesFailedTransient + fates.count .transient)
    (hperm : t'.exporter.metrics.batchesFailedNonRetryable =
      t.exporter.metrics.batchesFailedNonRetryable + fates.count .permanent) :
    t'.Accounted ↔ fates.length = n := by
  have htried := h.tried
  constructor
  · intro h'
    have htried' := h'.tried
    rw [hfates, hproduced, List.length_append] at htried'
    omega
  · intro hall
    have hcount : ∀ fate, t'.fates.count fate = t.fates.count fate + fates.count fate :=
      fun fate => by rw [hfates, List.count_append]
    have htried' : t'.fates.length = t'.produced := by
      rw [hfates, hproduced, List.length_append, htried, hall]
    have hsent' : t'.exporter.metrics.batchesSent = t'.fates.count .delivered := by
      rw [hsent, hcount, h.sent]
    have htransient' : t'.exporter.metrics.batchesFailedTransient = t'.fates.count .transient := by
      rw [htransient, hcount, h.transient]
    have hperm' : t'.exporter.metrics.batchesFailedNonRetryable = t'.fates.count .permanent := by
      rw [hperm, hcount, h.nonRetryable]
    refine ⟨htried', hsent', htransient', hperm', ?_⟩
    rw [hsent', htransient', hperm', ← htried']
    exact length_fates _

/-- A snapshot keeps the account exactly when its export is undisturbed. -/
theorem accounted_receive (h : t.Accounted) (event : FlowStatsSnapshot × ExportEnv) :
    (e.receive t event).Accounted ↔ e.Undisturbed t event := by
  obtain ⟨snap, env⟩ := event
  unfold OtlpExporter.receive OtlpExporter.Undisturbed
  cases hrunning : t.running with
  | false =>
    rw [if_neg Bool.false_ne_true]
    exact iff_of_true h fun hf => by cases hf
  | true =>
    rw [if_pos rfl, forall_prop_of_true rfl]
    obtain ⟨⟨hsent, htransient, hperm⟩, hlen, hiff⟩ := export_spec e env snap t.exporter
    rw [hiff]
    dsimp only
    generalize e.export env snap t.exporter = out at hsent htransient hperm hlen ⊢
    obtain ⟨result, fates, s⟩ := out
    dsimp only at hsent htransient hperm hlen ⊢
    cases result with
    | cancelled =>
      -- the thread counts what was pending at the deadline
      refine (accounted_iff_tried h rfl rfl hsent htransient hperm).trans ?_
      simp
    | done r =>
      cases r with
      | ok =>
        refine (accounted_iff_tried h rfl rfl hsent htransient hperm).trans ?_
        exact iff_of_true (hlen rfl) (Or.inl rfl)
      | error err =>
        refine iff_of_false (fun h' => ?_) (by simp)
        have htransient₀ := h.transient
        have hperm₀ := h.nonRetryable
        -- the thread has counted a failure that `export` has counted
        cases err with
        | permanent =>
          have hcounted : s.metrics.batchesFailedNonRetryable + 1 =
            (t.fates ++ fates).count .permanent := h'.nonRetryable
          rw [List.count_append] at hcounted
          omega
        | transient | timeout =>
          have hcounted : s.metrics.batchesFailedTransient + 1 =
            (t.fates ++ fates).count .transient := h'.transient
          rw [if_neg (by simp)] at htransient
          rw [List.count_append] at hcounted
          omega

/-- The account of the thread is right throughout a run exactly when every export is undisturbed: all
batches are delivered, or the deadline passes at the last one with no permanent failure before. -/
theorem accounted_throughout_iff (e : OtlpExporter)
    (events : List (FlowStatsSnapshot × ExportEnv)) :
    Runs.Throughout e.receive ExporterThread.Accounted .start events ↔
      Runs.Meets e.receive e.Undisturbed .start events := by
  have hstart : ExporterThread.start.Accounted := ⟨rfl, rfl, rfl, rfl, rfl⟩
  exact Runs.throughout_iff_meets hstart (fun t event h => (accounted_receive h event).mpr)
    (fun _ h => h) fun t event h hnot hacc => hnot ((accounted_receive h event).mp hacc)

/-! ### Failures that are counted twice -/

/-- A snapshot without rules. -/
def emptySnapshot : FlowStatsSnapshot where
  tickId := 1
  wallClockNs := 0
  monotonicNs := 0
  intervalNs := 0
  flowRules := []

/-- Every attempt ends with a code. -/
def failingWith (code : Code) : ExportEnv where
  attempts := fun _ _ => ⟨true, some (.error code)⟩
  deadline := none
  clientLeft := false
  durationBits := 0

/-- The one batch of a snapshot fails, and is counted as two. Of the two batches of another one the
first is rejected and counted twice, and the second is not tried. -/
theorem failed_batch_counted_twice :
    let t := defaultExporter.receive .start (emptySnapshot, failingWith .unavailable)
    let e : OtlpExporter := { defaultExporter with maxBatchPoints := 8 }
    let t' := e.receive .start (emptySnapshot, failingWith .unauthenticated)
    (t.produced = 1 ∧ t.fates = [.transient] ∧ t.exporter.metrics.batchesFailedTransient = 2) ∧
    (t'.produced = 2 ∧ t'.fates = [.permanent] ∧
      t'.exporter.metrics.batchesFailedNonRetryable = 2) ∧
    ¬ Runs.Throughout defaultExporter.receive ExporterThread.Accounted .start
      [(emptySnapshot, failingWith .unavailable)] := by
  intro t e t'
  have ht : t.produced = 1 ∧ t.fates = [.transient] ∧
      t.exporter.metrics.batchesFailedTransient = 2 := by decide +kernel
  have ht' : t'.produced = 2 ∧ t'.fates = [.permanent] ∧
      t'.exporter.metrics.batchesFailedNonRetryable = 2 := by decide +kernel
  refine ⟨ht, ht', fun h => ?_⟩
  have hacc : t.Accounted := h [(emptySnapshot, failingWith .unavailable)] [] rfl
  have hcount := hacc.transient
  rw [ht.2.2, ht.2.1] at hcount
  exact absurd hcount (by decide)

end InFMon.Otlp
