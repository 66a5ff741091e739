import InFMon.Frontend.Poller
import InFMon.Frontend.VapiClient
import InFMon.Plugin.SnapshotBudget

/-! # The stats client

`vapi_stats_client.rs` and the dump functions of `infmon_vapi_client.c`: the rules are listed, and a
dump of each of them is collected and merged into a raw descriptor. VAPI delivers the details of a dump
in order and without loss; other clients and the workers go on between the calls. -/

namespace InFMon

/-! ### The list of the rules -/

/-- `vl_api_infmon_flow_rule_details_t`. -/
structure FlowRuleDetails where
  flowRuleId : FlowRuleId
  flowRuleIndex : ℕ
  name : List UInt8
  fields : List ℕ
  maxKeys : ℕ
  evictionPolicy : ℕ
  keyWidth : ℕ
  deriving DecidableEq

namespace Plugin

/-- `infmon_flow_rule_list_cb` for the rule at an index. -/
def flowRuleListCb (p : Plugin) (index : ℕ) (rule : FlowRule) : Option FlowRuleDetails :=
  if index ≥ flowRuleSetMax then none
  else
    some
      { flowRuleId := p.api.ctx.flowRuleIds index
        flowRuleIndex := index
        name := rule.name
        fields := rule.fields.take 8
        maxKeys := rule.maxKeys
        evictionPolicy := rule.evictionPolicy
        keyWidth := rule.keyWidth }

/-- `vl_api_infmon_flow_rule_list_dump_t_handler` for a client that is registered. -/
def flowRuleListDumpHandler (memory : Bool) (p : Plugin) : List FlowRuleDetails × Plugin :=
  let p := p.apiCtxEnsure memory
  ((List.range p.api.ruleSet.count).filterMap fun i =>
    (p.api.ruleSet.get i).bind (p.flowRuleListCb i), p)

end Plugin

namespace Frontend

/-! ### Collecting a dump -/

/-- `CollectedEntry`. -/
structure CollectedEntry where
  flowRuleId : FlowRuleId
  generation : UInt64
  epochNs : UInt64
  insertFailed : UInt64
  tableFull : UInt64
  keyHash : UInt64
  packets : UInt64
  bytes : UInt64
  lastUpdate : UInt64
  keyBytes : List UInt8
  deriving DecidableEq

/-- `infmon_snapshot_inline_details_cb` and `entry_cb`: what is kept of a details message. -/
def entryCb (reply : InlineDetails) : CollectedEntry where
  flowRuleId := reply.flowRuleId
  generation := reply.generation
  epochNs := reply.epochNs
  insertFailed := reply.insertFailed
  tableFull := reply.tableFull
  keyHash := reply.keyHash
  packets := reply.packets
  bytes := reply.bytes
  lastUpdate := reply.lastUpdate
  keyBytes := reply.keyData

/-- `infmon_vapi_snapshot_inline`, with `memory` for whether VAPI has memory for the message: the entries
that the callback has collected, or none if it returns an error. -/
def infmonVapiSnapshotInline (memory : Bool) (env : ApiEnv) (id : FlowRuleId) (p : Plugin) :
    Option (List CollectedEntry) × Plugin :=
  if memory then
    let out := p.snapshotInlineDumpHandler env id
    (some (out.1.map entryCb), out.2)
  else (none, p)

/-! ### Merging the workers' entries -/

/-- What an entry adds to the first one of its key. -/
def CollectedEntry.add (m e : CollectedEntry) : CollectedEntry :=
  { m with
    packets := satAdd64 m.packets e.packets
    bytes := satAdd64 m.bytes e.bytes
    lastUpdate := if e.lastUpdate > m.lastUpdate then e.lastUpdate else m.lastUpdate
    epochNs := if e.epochNs > m.epochNs then e.epochNs else m.epochNs }

/-- The identity of an entry. -/
def CollectedEntry.identity (e : CollectedEntry) : UInt64 × List UInt8 := (e.keyHash, e.keyBytes)

/-- `merge_worker_entries`. -/
def mergeWorkerEntries (entries : List CollectedEntry) : List CollectedEntry :=
  (KeyedMerge.mergeAll CollectedEntry.add (entries.map fun e => (e.identity, e))).map Prod.snd

/-! ### The descriptor -/

/-- One iteration of the loop over the merged entries: a slot whose key is at the end of the arena. -/
def pushSlot (acc : List RawSlot × List UInt8) (e : CollectedEntry) : List RawSlot × List UInt8 :=
  (acc.1 ++
    [{ keyHash := e.keyHash
       packets := e.packets
       bytes := e.bytes
       keyOffset := UInt32.ofNat acc.2.length
       keyLen := UInt16.ofNat e.keyBytes.length
       flags := 1
       lastUpdate := e.lastUpdate }],
    acc.2 ++ e.keyBytes)

/-- The slots and the key arena of merged entries. -/
def layoutSlots (merged : List CollectedEntry) : List RawSlot × List UInt8 :=
  merged.foldl pushSlot ([], [])

/-- The descriptor of a rule for which entries were collected. -/
def rawDescriptor (frid : FlowRuleId) (entries : List CollectedEntry) : Option RawDescriptor :=
  match entries with
  | [] => none
  | first :: _ =>
    let layout := layoutSlots (mergeWorkerEntries entries)
    some
      { flowRuleId := frid
        flowRuleIndex := 0
        generation := first.generation
        epochNs := first.epochNs
        slots := layout.1
        keyArena := layout.2
        insertFailed := first.insertFailed
        tableFull := first.tableFull }

/-! ### The snapshot -/

/-- What one call of `infmon_vapi_snapshot_inline` depends on: what happens to the plugin in front of it,
whether VAPI has memory for the message, and the environment of the handler. -/
structure DumpCall where
  before : List PluginEvent
  memory : Bool
  env : ApiEnv

/-- One iteration of the loop over the rules. -/
def snapshotRule (call : DumpCall) (frid : FlowRuleId) (s : PluginSystem) :
    Option RawDescriptor × PluginSystem :=
  let s := Runs.run PluginSystem.step s call.before
  let out := infmonVapiSnapshotInline call.memory call.env frid s.plugin
  (out.1.bind (rawDescriptor frid), { s with plugin := out.2 })

/-- The loop over the rules, with `calls` for their calls. -/
def snapshotRules : (calls : ℕ → DumpCall) → List FlowRuleId → PluginSystem →
    List RawDescriptor × PluginSystem
  | _, [], s => ([], s)
  | calls, frid :: frids, s =>
    let out := snapshotRule (calls 0) frid s
    let rest := snapshotRules (fun i => calls (i + 1)) frids out.2
    (out.1.toList ++ rest.1, rest.2)

/-- `VapiStatsClient::list_flow_rules`, with `memory` for whether VAPI has memory for the message and
`setMemory` for whether the plugin has memory for its rule set. -/
def listFlowRules (memory setMemory : Bool) (s : PluginSystem) :
    Except VapiError (List FlowRuleId) × PluginSystem :=
  if memory then
    let out := s.plugin.flowRuleListDumpHandler setMemory
    (.ok (out.1.map FlowRuleDetails.flowRuleId), { s with plugin := out.2 })
  else (.error .listFailed, s)

/-- `VapiStatsClient::snapshot_and_clear`. -/
def statsSnapshotAndClear (memory setMemory : Bool) (calls : ℕ → DumpCall) (s : PluginSystem) :
    Except VapiError RawSnapshot × PluginSystem :=
  let listed := listFlowRules memory setMemory s
  match listed.1 with
  | .error e => (.error e, listed.2)
  | .ok frids =>
    let out := snapshotRules calls frids listed.2
    (.ok ⟨out.1⟩, out.2)

/-! ### The layout of a descriptor -/

/-- One slot more. -/
theorem layoutSlots_concat (merged : List CollectedEntry) (e : CollectedEntry) :
    layoutSlots (merged ++ [e]) = pushSlot (layoutSlots merged) e :=
  List.foldl_concat ..

/-- The arena has the keys one behind the other. -/
theorem layoutSlots_snd (merged : List CollectedEntry) :
    (layoutSlots merged).2 = (merged.map CollectedEntry.keyBytes).flatten := by
  induction merged using List.reverseRecOn with
  | nil => rfl
  | append_singleton merged e ih =>
    rw [layoutSlots_concat, pushSlot, ih, List.map_append, List.flatten_append]
    simp

/-- A key that lies in the arena stays where it is when the arena grows. -/
theorem slotKey_append {arena more key : List UInt8} {slot : RawSlot}
    (h : slotKey arena slot = some key) : slotKey (arena ++ more) slot = some key := by
  unfold slotKey at h ⊢
  split at h
  · cases h
  rename_i hlen
  split at h
  · cases h
  rename_i hbound
  rw [if_neg hlen, if_neg (by rw [List.length_append]; omega), ← h,
    List.drop_append_of_le_length (by omega), List.take_append_of_le_length]
  rw [List.length_drop]
  omega

/-- The slots refer to the keys in order, as long as the arena has at most 4 GiB. -/
theorem slotKey_layoutSlots {merged : List CollectedEntry}
    (hlen : ∀ e ∈ merged, 0 < e.keyBytes.length ∧ e.keyBytes.length < 2 ^ 16)
    (harena : (layoutSlots merged).2.length ≤ 2 ^ 32) :
    (layoutSlots merged).1.map (slotKey (layoutSlots merged).2) =
      merged.map fun e => some e.keyBytes := by
  induction merged using List.reverseRecOn with
  | nil => rfl
  | append_singleton merged e ih =>
    rw [layoutSlots_concat, pushSlot] at harena ⊢
    obtain ⟨hpos, hlt⟩ := hlen e (by simp)
    rw [List.length_append] at harena
    have hprev := ih (fun e he => hlen e (List.mem_append_left _ he)) (by omega)
    have hoff : (UInt32.ofNat (layoutSlots merged).2.length).toNat = (layoutSlots merged).2.length :=
      UInt32.toNat_ofNat_of_lt' (by rw [UInt32.size]; omega)
    have hkeyLen : (UInt16.ofNat e.keyBytes.length).toNat = e.keyBytes.length :=
      UInt16.toNat_ofNat_of_lt' (by rw [UInt16.size]; omega)
    rw [List.map_append, List.map_append]
    congr 1
    · -- the slots before keep their keys
      have hkept : ∀ slot ∈ (layoutSlots merged).1, ∃ key,
          slotKey (layoutSlots merged).2 slot = some key := by
        intro slot hslot
        have hmem := List.mem_map_of_mem (f := slotKey (layoutSlots merged).2) hslot
        rw [hprev] at hmem
        obtain ⟨e', -, he'⟩ := List.mem_map.mp hmem
        exact ⟨_, he'.symm⟩
      rw [← hprev]
      refine List.map_congr_left fun slot hslot => ?_
      obtain ⟨key, hkey⟩ := hkept slot hslot
      rw [hkey, slotKey_append hkey]
    · rw [List.map_singleton, List.map_singleton, slotKey]
      dsimp only
      have hne : UInt16.ofNat e.keyBytes.length ≠ 0 := by
        intro hzero
        rw [hzero] at hkeyLen
        exact absurd hkeyLen.symm (Nat.ne_of_gt hpos)
      rw [if_neg hne, hoff, hkeyLen, if_neg (by rw [List.length_append]; omega),
        List.drop_left, List.take_length]

end Frontend

end InFMon
