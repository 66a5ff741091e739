import InFMon.Foundations.Runs
import InFMon.Frontend.FailedInserts
import InFMon.Otlp.Sums

/-! # The requests of a run

The poller takes snapshots by ticks and for pulls while frames and other clients go on in the back end,
and the exporter builds a request from each of them. Every snapshot resets the failed inserts, which the
requests report as a cumulative sum that always has the same start. -/

namespace InFMon.Otlp

open Frontend (DumpCall HashOrder MergedSlot RuleDump decodeSnapshot dumpAt insertionOrder statsDumps
  statsDumps_spec statsSnapshotAndClear hashing_statsSnapshotAndClear)

/-! ### The system -/

/-- What a call of `snapshot_and_clear` and the decoding of its result depend on. -/
structure PollCall where
  memory : Bool
  setMemory : Bool
  calls : ℕ → DumpCall
  hash : HashOrder (List UInt8 × MergedSlot)
  wall : UInt64
  mono : UInt64

/-- The dumps of a snapshot. -/
def PollCall.dumps (call : PollCall) (backEnd : PluginSystem) : List RuleDump :=
  statsDumps call.memory call.setMemory call.calls backEnd

/-- A request, and the dumps that it is based on. -/
structure Exported where
  dumps : List RuleDump
  request : ExportMetricsServiceRequest

/-- The back end, the variables of the poller, the counters of the exporter and what it has built. -/
structure ExportRun where
  backEnd : PluginSystem
  connected : Bool
  tickId : UInt64
  prevMono : UInt64
  metrics : ExporterMetrics
  exported : List Exported

/-- What can happen: something in the back end, the first or the second part of an iteration of the
poller, or a change of the exporter's counters while it sends. -/
inductive ExportEvent where
  | backEnd (e : PluginEvent)
  | tick (connects : Bool) (call : PollCall)
  | pull (call : PollCall)
  | send (metrics : ExporterMetrics)

namespace ExportRun

/-- The poller and the exporter start. -/
def start (backEnd : PluginSystem) : ExportRun where
  backEnd := backEnd
  connected := false
  tickId := 0
  prevMono := 0
  metrics := .zero
  exported := []

/-- A snapshot is taken, decoded and exported. The flag tells whether that succeeded. -/
def poll (e : OtlpExporter) (call : PollCall) (s : ExportRun) : Bool × ExportRun :=
  let out := statsSnapshotAndClear call.memory call.setMemory call.calls s.backEnd
  match out.1 with
  | .error _ => (false, { s with backEnd := out.2 })
  | .ok raw =>
    let tickId := s.tickId + 1
    let snap := decodeSnapshot call.hash raw tickId call.wall call.mono s.prevMono
    let built := e.buildRequest snap s.metrics
    (true,
      { s with
        backEnd := out.2
        tickId := tickId
        prevMono := call.mono
        metrics := built.2.2
        exported := s.exported ++ [⟨call.dumps s.backEnd, built.1⟩] })

/-- A new connection forgets the clock of the last snapshot. -/
def connect (s : ExportRun) : ExportRun :=
  if s.connected then s else { s with connected := true, prevMono := 0 }

/-- The first part of an iteration of `run_loop`. A poll that fails ends the connection. -/
def tick (e : OtlpExporter) (connects : Bool) (call : PollCall) (s : ExportRun) : ExportRun :=
  if s.connected = false ∧ connects = false then s
  else
    let out := s.connect.poll e call
    if out.1 then out.2 else { out.2 with connected := false }

/-- The second part of an iteration, with pull requests. -/
def pull (e : OtlpExporter) (call : PollCall) (s : ExportRun) : ExportRun :=
  if s.connected then (s.poll e call).2 else s

/-- One event. -/
def step (e : OtlpExporter) (s : ExportRun) : ExportEvent → ExportRun
  | .backEnd event => { s with backEnd := s.backEnd.step event }
  | .tick connects call => s.tick e connects call
  | .pull call => s.pull e call
  | .send metrics => { s with metrics := metrics }

/-- The requests that were built. -/
def requests (s : ExportRun) : List ExportMetricsServiceRequest := s.exported.map Exported.request

end ExportRun

/-! ### Requests and dumps -/

/-- No rule that both snapshots report has fewer failed inserts in the tables that the later one
retires. -/
def Exported.NoFewer (x later : Exported) : Prop :=
  ∀ d ∈ x.dumps, ∀ d' ∈ later.dumps, d.Reported → d'.Reported → d.frid = d'.frid →
    saturatingI64 d.failures.toNat ≤ saturatingI64 d'.failures.toNat

/-- The request is built from a snapshot with the failed inserts of the dumps. -/
structure Exported.Built (e : OtlpExporter) (x : Exported) (polled : Frontend.Polled) : Prop where
  request : ∃ m, x.request = (e.buildRequest polled.snapshot m).1
  failures : ∀ id failed,
    (∃ desc ∈ polled.raw.descriptors, desc.flowRuleId = id ∧ desc.insertFailed = failed) ↔
      ∃ d ∈ x.dumps, d.Reported ∧ d.frid = id ∧ d.failures = failed

/-- What the sums of two requests say of each other is what the dumps say. -/
theorem Exported.Built.notAbove_iff {e : OtlpExporter} {x y : Exported}
    {polled later : Frontend.Polled} (hx : x.Built e polled) (hy : y.Built e later) :
    x.request.NotAbove y.request ↔ x.NoFewer y := by
  obtain ⟨m, hrequest⟩ := hx.request
  obtain ⟨m', hrequest'⟩ := hy.request
  rw [hrequest, hrequest', request_notAbove_iff]
  constructor
  · intro h d hd d' hd' hreported hreported' hfrid
    obtain ⟨desc, hdesc, hid, hfailed⟩ := (hx.failures _ _).mpr ⟨d, hd, hreported, rfl, rfl⟩
    obtain ⟨desc', hdesc', hid', hfailed'⟩ := (hy.failures _ _).mpr ⟨d', hd', hreported', rfl, rfl⟩
    rw [← hfailed, ← hfailed']
    exact h desc hdesc desc' hdesc' (by rw [hid, hid', hfrid])
  · intro h desc hdesc desc' hdesc' hid
    obtain ⟨d, hd, hreported, hfrid, hfailed⟩ := (hx.failures _ _).mp ⟨desc, hdesc, rfl, rfl⟩
    obtain ⟨d', hd', hreported', hfrid', hfailed'⟩ :=
      (hy.failures _ _).mp ⟨desc', hdesc', rfl, rfl⟩
    rw [← hfailed, ← hfailed']
    exact h d hd d' hd' hreported hreported' (by rw [hfrid, hfrid', hid])

namespace ExportRun

variable {e : OtlpExporter} {s : ExportRun}

/-- The back end has its keys under their hash, and every request is built from its dumps. -/
structure Traced (e : OtlpExporter) (s : ExportRun) : Prop where
  hashing : s.backEnd.Hashing
  built : ∀ x ∈ s.exported, ∃ polled, x.Built e polled

/-- At the start nothing has been exported. -/
theorem traced_start {backEnd : PluginSystem} (h : backEnd.Hashing) : (start backEnd).Traced e where
  hashing := h
  built _ hx := absurd hx List.not_mem_nil

/-- A snapshot that succeeds adds a request that is built from its dumps. -/
theorem Traced.poll (h : s.Traced e) (call : PollCall) : (s.poll e call).2.Traced e := by
  obtain ⟨hraw, hdumps⟩ := statsDumps_spec h.hashing call.memory call.setMemory call.calls
  have hhashing := hashing_statsSnapshotAndClear h.hashing call.memory call.setMemory call.calls
  unfold ExportRun.poll
  dsimp only
  split
  · exact ⟨hhashing, h.built⟩
  · rename_i raw hok
    refine ⟨hhashing, fun x hx => ?_⟩
    rcases List.mem_append.mp hx with hx | hx
    · exact h.built x hx
    · rw [List.mem_singleton.mp hx]
      refine ⟨⟨call.hash, raw, s.tickId + 1, call.wall, call.mono, s.prevMono⟩, ⟨s.metrics, rfl⟩,
        fun id failed => ?_⟩
      have hdescs := (hraw raw hok).1
      constructor
      · rintro ⟨desc, hdesc, hid, hfailed⟩
        rw [hdescs] at hdesc
        obtain ⟨d, hd, hsome⟩ := List.mem_filterMap.mp hdesc
        obtain ⟨⟨es, hs, -⟩, hcall⟩ := hdumps d hd
        exact ⟨d, hd, (RuleDump.descriptor_iff hs hcall).mp ⟨desc, hsome, hid, hfailed⟩⟩
      · rintro ⟨d, hd, hreported⟩
        obtain ⟨⟨es, hs, -⟩, hcall⟩ := hdumps d hd
        obtain ⟨desc, hsome, hdesc⟩ := (RuleDump.descriptor_iff hs hcall).mpr hreported
        refine ⟨desc, ?_, hdesc⟩
        rw [hdescs]
        exact List.mem_filterMap.mpr ⟨d, hd, hsome⟩

/-- Every event keeps the trace. -/
theorem Traced.step (h : s.Traced e) (event : ExportEvent) : (s.step e event).Traced e := by
  cases event with
  | backEnd event => exact ⟨h.hashing.step event, h.built⟩
  | send metrics => exact ⟨h.hashing, h.built⟩
  | pull call =>
    rw [ExportRun.step, pull]
    split
    · exact h.poll call
    · exact h
  | tick connects call =>
    rw [ExportRun.step, tick]
    split
    · exact h
    · -- a connection changes nothing that was built
      have hconnected : s.connect.Traced e := by
        rw [connect]
        split
        · exact h
        · exact ⟨h.hashing, h.built⟩
      have hpoll := hconnected.poll call
      dsimp only
      split
      · exact hpoll
      · exact ⟨hpoll.hashing, hpoll.built⟩

end ExportRun

/-- In every run of the poller, with whatever happens in the back end before and in between, the sums of
the requests never go backwards exactly when no two snapshots find fewer failed inserts of a rule in the
later one. -/
theorem sums_neverBack_iff (e : OtlpExporter) (vlibNumWorkers : ℕ) (before : List PluginEvent)
    (events : List ExportEvent) :
    let s := Runs.run (ExportRun.step e)
      (.start (Runs.run PluginSystem.step (.start vlibNumWorkers) before)) events
    SumsNeverBack s.requests ↔ s.exported.Pairwise Exported.NoFewer := by
  intro s
  have htraced : s.Traced e :=
    Runs.always (ExportRun.traced_start ((PluginSystem.hashing_start vlibNumWorkers).run before))
      (fun _ event h => h.step event) events
  rw [SumsNeverBack, ExportRun.requests, List.pairwise_map]
  refine List.Pairwise.iff_of_mem fun {x y} hx hy => ?_
  obtain ⟨polled, hbuilt⟩ := htraced.built x hx
  obtain ⟨later, hbuilt'⟩ := htraced.built y hy
  exact hbuilt.notAbove_iff hbuilt'

/-! ### Drops that go back -/

/-- A packet with a frame of a protocol. -/
def packetOf (protocol : UInt8) : Buffer :=
  { udpPacket 0x30 0x39 with data := Function.update (udpPacket 0x30 0x39).data 73 protocol }

/-- A rule with two keys meets three protocols, and the last of them is dropped. -/
def threeProtocols : List PluginEvent :=
  [.request (.flowRuleAdd (envAt 0) protoRuleMsg), .frame 0 [packetOf 17, packetOf 6, packetOf 1]]

/-- A snapshot that nothing comes in between. -/
def pollAt (now : UInt64) : PollCall where
  memory := true
  setMemory := true
  calls := fun _ => dumpAt now
  hash := insertionOrder _
  wall := now
  mono := now

/-- The drops of the rule in a request. -/
def protoDrops (wall : UInt64) (value : ℕ) : NumberDataPoint :=
  intPoint [kvString "flow-rule" protoRuleId.display, kvString "reason" "eviction_failed"] 0 wall value

/-- A back end has dropped a packet before the poller starts. The first tick exports one drop. Then the
flow that is left gets a packet, nothing is evicted, and the second tick exports no drop, with the same
start. -/
theorem drops_go_back :
    let s := Runs.run (ExportRun.step defaultExporter)
      (.start (Runs.run PluginSystem.step (.start 0) threeProtocols))
      [.tick true (pollAt 1), .backEnd (.frame 0 [packetOf 6]), .tick true (pollAt 2)]
    s.requests.map (fun request => sumPoints "infmon.flow-rule.drops" request.metrics) =
      [[protoDrops 1 1], [protoDrops 2 0]] ∧
    ¬ SumsNeverBack s.requests := by
  intro s
  have hpoints : s.requests.map (fun request =>
      sumPoints "infmon.flow-rule.drops" request.metrics) =
        [[protoDrops 1 1], [protoDrops 2 0]] := by
    decide +kernel
  refine ⟨hpoints, fun hnever => ?_⟩
  obtain ⟨first, rest, hrequests, hfirst, hrest⟩ := List.map_eq_cons_iff.mp hpoints
  obtain ⟨second, tail, rfl, hsecond, -⟩ := List.map_eq_cons_iff.mp hrest
  rw [SumsNeverBack, hrequests] at hnever
  have hle := (List.pairwise_cons.mp hnever).1 second List.mem_cons_self "infmon.flow-rule.drops"
    (by decide +kernel) (protoDrops 1 1) (by rw [hfirst]; exact List.mem_cons_self)
    (protoDrops 2 0) (by rw [hsecond]; exact List.mem_cons_self) rfl rfl 1 0 (by decide +kernel)
    (by decide +kernel)
  exact absurd hle (by decide)

end InFMon.Otlp
