import InFMon.Frontend.FailedInserts

/-! # Packets that were lost

A packet that finds no place in a table is counted as a failed insert, and the drops that a snapshot
reports are these. They travel in the messages for the occupied slots, so a table that has lost packets
and has no flow left reports none of them. -/

namespace InFMon.Frontend

namespace RuleDump

/-- The failed inserts of the tables that the call has retired, all together. -/
def lost (d : RuleDump) : ℕ :=
  (ApiState.tableCounts CounterTable.insertFailed d.swap.2.heap d.swap.1.retiredTables
    d.swap.1.numRetired).sum

/-- A snapshot has the statistics that the call has led to, and their drops are the packets lost. -/
def LossReported (d : RuleDump) (hash : HashOrder (List UInt8 × MergedSlot))
    (snapshot : FlowStatsSnapshot) : Prop :=
  ∃ desc, d.descriptor = some desc ∧
    ∃ rule ∈ snapshot.flowRules, rule = decodeDescriptor hash [] desc ∧
      rule.name = d.frid.display ∧ rule.counters.drops.toNat = d.lost

variable {d : RuleDump} {es : List RuleEntry}

/-- What a call would report, by the packets lost. -/
theorem failures_eq_lost (hs : d.found.Sound es) (hswapped : d.Swapped) :
    d.failures.toNat = d.lost % 2 ^ 64 := by
  have hadmits := (Plugin.snapshotRequest_ok_iff_admits hs).mp hswapped.2
  obtain ⟨i, hfind, hnum, hretired, hheap, -⟩ := Plugin.snapshotRequest_tables hs hadmits
  have hlost : d.lost = (ApiState.tableCounts CounterTable.insertFailed d.found.heap
      (fun w => d.found.api.ctx.tables w i) d.found.api.nw).sum := by
    rw [lost, swap, hnum]
    exact congrArg List.sum (ApiState.tableCounts_congr hretired fun w _ t ht => hheap w t ht)
  rw [hlost, ← (ApiState.toNat_aggregate _ _ _).1, failures, if_pos hadmits, Plugin.failedInserts,
    hfind]

end RuleDump

/-- In every run of the back end, the drops of a rule whose tables are swapped for a snapshot are
reported exactly when some slot of the retired tables is occupied, as long as their number has 64 bits. -/
theorem losses_reported_iff (vlibNumWorkers : ℕ) (events : List PluginEvent) (memory setMemory : Bool)
    (calls : ℕ → DumpCall) {raw : RawSnapshot}
    (hraw : (statsSnapshotAndClear memory setMemory calls
      (Runs.run PluginSystem.step (.start vlibNumWorkers) events)).1 = .ok raw)
    {d : RuleDump} (hd : d ∈ statsDumps memory setMemory calls
      (Runs.run PluginSystem.step (.start vlibNumWorkers) events))
    (hswapped : d.Swapped) (hash : HashOrder (List UInt8 × MergedSlot))
    (tickId wall mono prevMono : UInt64) :
    d.LossReported hash (decodeSnapshot hash raw tickId wall mono prevMono) ↔
      (∃ t j, d.Counted t j) ∧ d.lost < 2 ^ 64 := by
  obtain ⟨hdescs, hdumps⟩ := statsDumps_spec
    ((PluginSystem.hashing_start vlibNumWorkers).run events) memory setMemory calls
  obtain ⟨⟨es, hs, -⟩, hcall⟩ := hdumps d hd
  have hadmits := (Plugin.snapshotRequest_ok_iff_admits hs).mp hswapped.2
  -- the descriptor is made of the messages for the occupied slots
  have hreported : d.Reported ↔ ∃ t j, d.Counted t j := by
    rw [RuleDump.counted_iff_hasFlows hs hadmits]
    exact ⟨fun h => h.2 hadmits, fun h => ⟨hswapped.1, fun _ => h⟩⟩
  have hfailures := RuleDump.failures_eq_lost hs hswapped
  rw [← hreported]
  constructor
  · rintro ⟨desc, hdesc, rule, -, rfl, hname, hdrops⟩
    obtain ⟨hrep, -, -⟩ := (RuleDump.descriptor_iff hs hcall).mp
      ⟨desc, hdesc, display_injective hname, rfl⟩
    exact ⟨hrep, hdrops ▸ UInt64.toNat_lt _⟩
  · rintro ⟨hrep, hlt⟩
    obtain ⟨desc, hdesc, hid, hfailed⟩ := (RuleDump.descriptor_iff hs hcall).mpr ⟨hrep, rfl, rfl⟩
    have hmem : desc ∈ raw.descriptors := by
      rw [(hdescs raw hraw).1]
      exact List.mem_filterMap.mpr ⟨d, hd, hdesc⟩
    refine ⟨desc, hdesc, _, List.mem_map_of_mem hmem, rfl, congrArg FlowRuleId.display hid, ?_⟩
    show desc.insertFailed.toNat = d.lost
    rw [hfailed, hfailures, Nat.mod_eq_of_lt hlt]

/-- A rule on the protocol is added with `maxKeys` keys, and a frame brings a packet of each of the
protocols. -/
def protocolRun (maxKeys : UInt32) (protocols : List UInt8) : List PluginEvent :=
  [.request (.flowRuleAdd (envAt 0) { protoRuleMsg with maxKeys := maxKeys }),
    .frame 0 (protocols.map fun protocol =>
      { udpPacket 0x30 0x39 with
        data := Function.update (udpPacket 0x30 0x39).data 73 protocol })]

/-- Of three protocols two fit in. The third is lost together with the flow that made room for it, and
the flow that is left carries the loss. -/
theorem loss_with_flow_reported :
    let s := Runs.run PluginSystem.step (.start 0) (protocolRun 2 [17, 6, 1])
    ∃ raw, (statsSnapshotAndClear true true (fun _ => dumpAt 5) s).1 = .ok raw ∧
      ∃ d ∈ statsDumps true true (fun _ => dumpAt 5) s, d.lost = 1 ∧
        ∀ hash, d.LossReported hash (decodeSnapshot hash raw 1 5 5 0) := by
  intro s
  have hdumps : (statsDumps true true (fun _ => dumpAt 5) s).map (fun d =>
      ((d.call.memory, d.swap.1.result, d.lost),
        (d.swap.1.numRetired, d.swap.1.retiredTables 0),
        ((d.swap.2.heap.table 0).numSlots, ((d.swap.2.heap.table 0).slots 1).flags))) =
        [((true, .ok, 1), (1, some 0), (2, .occupied))] := by
    decide +kernel
  obtain ⟨d, hd, heq⟩ := List.mem_map.mp (hdumps ▸ List.mem_singleton_self _)
  obtain ⟨⟨hmemory, hresult, hlost⟩, ⟨hnum, htable⟩, hslots, hflags⟩ :
      (d.call.memory = true ∧ d.swap.1.result = .ok ∧ d.lost = 1) ∧
      (d.swap.1.numRetired = 1 ∧ d.swap.1.retiredTables 0 = some 0) ∧
      (d.swap.2.heap.table 0).numSlots = 2 ∧
      ((d.swap.2.heap.table 0).slots 1).flags = .occupied := by
    simpa using heq
  have hcounted : d.Counted (d.swap.2.heap.table 0) 1 :=
    ⟨⟨0, hnum ▸ Nat.one_pos, 0, htable, rfl⟩, hslots ▸ Nat.one_lt_two, hflags⟩
  obtain ⟨raw, hraw⟩ : ∃ raw, (statsSnapshotAndClear true true (fun _ => dumpAt 5) s).1 = .ok raw :=
    ⟨_, rfl⟩
  exact ⟨raw, hraw, d, hd, hlost, fun hash =>
    (losses_reported_iff 0 _ true true _ hraw hd ⟨hmemory, hresult⟩ hash 1 5 5 0).mpr
      ⟨⟨_, 1, hcounted⟩, hlost ▸ by decide⟩⟩

/-- Of two protocols one fits in. The second makes room and is lost, no flow is left, and the snapshot
has no statistics at all. -/
theorem loss_without_flow_unreported :
    let s := Runs.run PluginSystem.step (.start 0) (protocolRun 1 [17, 6])
    ∃ raw, (statsSnapshotAndClear true true (fun _ => dumpAt 5) s).1 = .ok raw ∧
      (∀ hash, (decodeSnapshot hash raw 1 5 5 0).flowRules = []) ∧
      ∃ d ∈ statsDumps true true (fun _ => dumpAt 5) s, d.frid = protoRuleId ∧ d.Swapped ∧
        d.lost = 1 := by
  intro s
  have hdescs : (statsSnapshotAndClear true true (fun _ => dumpAt 5) s).1.toOption.map
      RawSnapshot.descriptors = some [] := by
    decide +kernel
  have hdumps : (statsDumps true true (fun _ => dumpAt 5) s).map (fun d =>
      (d.frid, d.call.memory, d.swap.1.result, d.lost)) = [(protoRuleId, true, .ok, 1)] := by
    decide +kernel
  obtain ⟨d, hd, heq⟩ := List.mem_map.mp (hdumps ▸ List.mem_singleton_self _)
  obtain ⟨hfrid, hmemory, hresult, hlost⟩ : d.frid = protoRuleId ∧ d.call.memory = true ∧
      d.swap.1.result = .ok ∧ d.lost = 1 := by
    simpa using heq
  obtain ⟨raw, hraw⟩ : ∃ raw, (statsSnapshotAndClear true true (fun _ => dumpAt 5) s).1 = .ok raw :=
    ⟨_, rfl⟩
  rw [hraw] at hdescs
  refine ⟨raw, hraw, fun hash => ?_, d, hd, hfrid, ⟨hmemory, hresult⟩, hlost⟩
  rw [decodeSnapshot, Option.some.inj hdescs]
  rfl

end InFMon.Frontend
