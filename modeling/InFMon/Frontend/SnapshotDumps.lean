import InFMon.Frontend.StatsClient
import InFMon.Plugin.Admission
import InFMon.Plugin.StoredKeys

/-! # What the dumps of a snapshot become

A dump that the plugin cannot serve is answered with one empty message, so that the client does not
hang, and the client takes this message for an occupied slot. So a descriptor tells what the retired
tables hold exactly when the plugin could serve the dump. -/

namespace InFMon

open OpenAddressing

/-! ### Serving a dump -/

namespace ApiState

variable {st : ApiState}

/-- A swap that succeeds has a descriptor. -/
theorem snapshotAndClear_descriptor {id : FlowRuleId} {allocs : ℕ → Alloc} {now : UInt64}
    (hok : (st.snapshotAndClear id allocs now).1.result = .ok) :
    ∃ desc, (st.snapshotAndClear id allocs now).1.descriptor = some desc :=
  (snapshotAndClear_describes hok).imp fun _ h => h.1

end ApiState

namespace Plugin

variable {p : Plugin} {es : List RuleEntry}

/-- The swap behind a dump succeeds exactly when the plugin admits the dump. -/
theorem snapshotRequest_ok_iff_admits (h : p.Sound es) {env : ApiEnv} {id : FlowRuleId} :
    (p.snapshotRequest env id).1.result = .ok ↔ p.Admits (.snapshotInlineDump env id) := by
  constructor
  · intro hok
    have hq := h.ensure env.memory
    have hadmits : (p.apiCtxEnsure env.memory).Admits (.snapshotInlineDump env id) :=
      admits_of_outcome hq.aligned.arranged hq.aligned.served hok
    rcases apiCtxEnsure_cases env.memory p with heq | ⟨hready, -⟩
    · rwa [heq] at hadmits
    · -- a context that is not set up has no rule yet
      obtain ⟨rfl, -⟩ := h.fresh hready
      obtain ⟨-, ⟨i, hi, -⟩, -⟩ := hadmits
      rw [hq.aligned.count_eq] at hi
      exact absurd hi (Nat.not_lt_zero i)
  · rintro ⟨hzero, hid, hroom, hallocs⟩
    exact (PluginSystem.snapshotRequest_ok_iff h hid hallocs).mpr ⟨hzero, hroom⟩

/-- What a swap that succeeds hands out: a descriptor, and tables with all keys under their hash. -/
theorem snapshotRequest_served (h : p.Sound es) (hk : p.api.KeysHashed) {env : ApiEnv}
    {id : FlowRuleId} (hok : (p.snapshotRequest env id).1.result = .ok) :
    (∃ desc, (p.snapshotRequest env id).1.descriptor = some desc) ∧
    0 < (p.snapshotRequest env id).1.numRetired ∧
    ∀ w t, (p.snapshotRequest env id).1.retiredTables w = some t →
      ((p.snapshotRequest env id).2.heap.table t).HashedBy fnv1a64 := by
  have hq := h.ensure env.memory
  have hkq := keysHashed_ensure hk env.memory
  unfold snapshotRequest at hok ⊢
  dsimp only at hok ⊢
  generalize p.apiCtxEnsure env.memory = q at hq hkq hok
  rcases q.api.snapshotAndClear_cases hq.aligned.arranged id env.allocs env.now with
    ⟨herr, -⟩ | ⟨i, hi, out, new, r, -, -, hs, -, htables, hnum, hst⟩
  · exact absurd hok herr
  · refine ⟨ApiState.snapshotAndClear_descriptor hok, ?_, fun w t ht => ?_⟩
    · rw [hnum, hs.numRetired]
      exact q.api.nw_pos
    · rw [htables, hs.retiredTables] at ht
      dsimp only at ht
      split at ht
      · show ((Plugin.api (publishIf _ _)).heap.table t).HashedBy fnv1a64
        rw [publishIf_api, hst]
        show (out.heap.table t).HashedBy fnv1a64
        rw [hs.table_eq t (hq.aligned.owning.made w i t ht).1]
        exact hkq w i t ht
      · cases ht

end Plugin

/-! ### Merged entries -/

namespace Frontend

/-- A merged entry stands under its own key. -/
theorem identity_mem_merge {entries : List CollectedEntry} :
    ∀ e ∈ KeyedMerge.mergeAll CollectedEntry.add (entries.map fun e => (e.identity, e)),
      e.2.identity = e.1 := by
  have hkeep : ∀ k (a b : CollectedEntry), a.identity = k → b.identity = k →
      (a.add b).identity = k := fun _ _ _ ha _ => ha
  refine KeyedMerge.forall_mem_mergeAll hkeep fun e he => ?_
  obtain ⟨e', -, rfl⟩ := List.mem_map.mp he
  rfl

/-- The merged entries have the identities of the entries, each once. -/
theorem mergeWorkerEntries_identity (entries : List CollectedEntry) :
    ((mergeWorkerEntries entries).map CollectedEntry.identity).Nodup ∧
      ∀ k, k ∈ (mergeWorkerEntries entries).map CollectedEntry.identity ↔
        k ∈ entries.map CollectedEntry.identity := by
  have hkeys : (mergeWorkerEntries entries).map CollectedEntry.identity =
      (KeyedMerge.mergeAll CollectedEntry.add
        (entries.map fun e => (e.identity, e))).map Prod.fst := by
    rw [mergeWorkerEntries, List.map_map]
    exact List.map_congr_left fun e he => identity_mem_merge e he
  rw [hkeys]
  refine ⟨KeyedMerge.nodup_mergeAll _, fun k => ?_⟩
  rw [KeyedMerge.mem_keys_mergeAll, List.map_map]
  rfl

/-- Every merged entry has its slot. -/
theorem layoutSlots_fst (merged : List CollectedEntry) :
    List.Forall₂ (fun slot e => slot.flags = 1 ∧ slot.keyHash = e.keyHash ∧
      slot.keyLen = UInt16.ofNat e.keyBytes.length) (layoutSlots merged).1 merged := by
  induction merged using List.reverseRecOn with
  | nil => exact List.Forall₂.nil
  | append_singleton merged e ih =>
    rw [layoutSlots_concat, pushSlot]
    exact List.rel_append ih (.cons ⟨rfl, rfl, rfl⟩ .nil)

/-! ### The dumps of a snapshot -/

/-- A call for one rule, the plugin that it finds, and the descriptor that it leads to. -/
structure RuleDump where
  frid : FlowRuleId
  call : DumpCall
  found : Plugin
  descriptor : Option RawDescriptor

/-- The calls of the loop over the rules. -/
def ruleDumps : (calls : ℕ → DumpCall) → List FlowRuleId → PluginSystem → List RuleDump
  | _, [], _ => []
  | calls, frid :: frids, s =>
    let out := snapshotRule (calls 0) frid s
    { frid := frid
      call := calls 0
      found := (Runs.run PluginSystem.step s (calls 0).before).plugin
      descriptor := out.1 } :: ruleDumps (fun i => calls (i + 1)) frids out.2

/-- The calls of a snapshot. -/
def statsDumps (memory setMemory : Bool) (calls : ℕ → DumpCall) (s : PluginSystem) :
    List RuleDump :=
  let listed := listFlowRules memory setMemory s
  match listed.1 with
  | .error _ => []
  | .ok frids => ruleDumps calls frids listed.2

namespace RuleDump

/-- The swap behind the call. -/
def swap (d : RuleDump) : ApiSnapReply × Plugin := d.found.snapshotRequest d.call.env d.frid

/-- The plugin got the message, and its swap succeeded. -/
def Swapped (d : RuleDump) : Prop := d.call.memory = true ∧ d.swap.1.result = .ok

/-- Slot `j` of some worker's retired table `t` is occupied. -/
def Counted (d : RuleDump) (t : CounterTable) (j : ℕ) : Prop :=
  (∃ w < d.swap.1.numRetired, ∃ id, d.swap.1.retiredTables w = some id ∧
    d.swap.2.heap.table id = t) ∧ j < t.numSlots ∧ (t.slots j).flags = .occupied

/-- The slot of a descriptor is one for the key of an occupied slot. -/
structure SlotFor (d : RuleDump) (slot : RawSlot) (key : List UInt8) : Prop where
  flags : slot.flags = 1
  keyLen : slot.keyLen.toNat = key.length
  counted : ∃ t j, d.Counted t j ∧ t.key (t.slots j) = some key ∧
    (t.slots j).keyHash = slot.keyHash

/-- The descriptor has one slot for each of the distinct keys of the retired tables, and in its arena
these keys one behind the other. -/
structure Lists (d : RuleDump) (desc : RawDescriptor) (keys : List (List UInt8)) : Prop where
  flowRuleId : desc.flowRuleId = d.frid
  nodup : keys.Nodup
  mem_keys : ∀ key, key ∈ keys ↔ ∃ t j, d.Counted t j ∧ t.key (t.slots j) = some key
  slots : List.Forall₂ d.SlotFor desc.slots keys
  keyArena : desc.keyArena = keys.flatten
  /-- The offsets have 32 bits. -/
  slotKey : desc.keyArena.length ≤ 2 ^ 32 → desc.slots.map (slotKey desc.keyArena) = keys.map some

/-- The descriptor is there if and only if the swap succeeded and some slot was occupied, and it then
lists the keys of the retired tables. -/
structure Truthful (d : RuleDump) : Prop where
  included : d.descriptor.isSome = true ↔ d.Swapped ∧ ∃ t j, d.Counted t j
  lists : ∀ desc, d.descriptor = some desc → ∃ keys, d.Lists desc keys

end RuleDump

/-- The descriptors of a snapshot are those of its calls, in order. -/
theorem ruleDumps_descriptors (calls : ℕ → DumpCall) (frids : List FlowRuleId) (s : PluginSystem) :
    (ruleDumps calls frids s).map RuleDump.frid = frids ∧
      (snapshotRules calls frids s).1 = (ruleDumps calls frids s).filterMap RuleDump.descriptor := by
  induction frids generalizing calls s with
  | nil => exact ⟨rfl, rfl⟩
  | cons frid frids ih =>
    obtain ⟨hfrids, hdescs⟩ := ih (fun i => calls (i + 1)) (snapshotRule (calls 0) frid s).2
    rw [ruleDumps, snapshotRules]
    dsimp only
    refine ⟨by rw [List.map_cons, hfrids], ?_⟩
    rw [hdescs]
    cases hdesc : (snapshotRule (calls 0) frid s).1 with
    | none => rfl
    | some desc => rfl

/-- A call keeps the keys under their hash. -/
theorem hashing_snapshotRule {s : PluginSystem} (h : s.Hashing) (call : DumpCall)
    (frid : FlowRuleId) : (snapshotRule call frid s).2.Hashing := by
  have hfound := h.run call.before
  rw [snapshotRule, infmonVapiSnapshotInline]
  dsimp only
  split
  · exact hfound.step (.request (.snapshotInlineDump call.env frid))
  · exact hfound

/-- Every call goes to a plugin with its keys under their hash. -/
theorem hashing_of_mem_ruleDumps {calls : ℕ → DumpCall} {frids : List FlowRuleId} {s : PluginSystem}
    (h : s.Hashing) {d : RuleDump} (hd : d ∈ ruleDumps calls frids s) :
    (∃ es, d.found.Sound es ∧ d.found.api.KeysHashed) ∧ d.descriptor =
      (infmonVapiSnapshotInline d.call.memory d.call.env d.frid d.found).1.bind
        (rawDescriptor d.frid) := by
  induction frids generalizing calls s with
  | nil => exact absurd hd List.not_mem_nil
  | cons frid frids ih =>
    rw [ruleDumps] at hd
    rcases List.mem_cons.mp hd with rfl | hd
    · exact ⟨h.run (calls 0).before, rfl⟩
    · exact ih (hashing_snapshotRule h (calls 0) frid) hd

/-- Snapshots leave keys stored under their hashes. -/
theorem hashing_snapshotRules {s : PluginSystem} (h : s.Hashing) (calls : ℕ → DumpCall)
    (frids : List FlowRuleId) : (snapshotRules calls frids s).2.Hashing := by
  induction frids generalizing calls s with
  | nil => exact h
  | cons frid frids ih => exact ih (hashing_snapshotRule h (calls 0) frid) fun i => calls (i + 1)

/-- Listing the rules leaves keys stored under their hashes. -/
theorem hashing_listFlowRules {s : PluginSystem} (h : s.Hashing) (memory setMemory : Bool) :
    (listFlowRules memory setMemory s).2.Hashing := by
  rw [listFlowRules]
  split
  · obtain ⟨es, hs, hk⟩ := h
    exact ⟨es, hs.ensure setMemory, Plugin.keysHashed_ensure hk setMemory⟩
  · exact h

/-- A snapshot keeps the keys under their hash. -/
theorem hashing_statsSnapshotAndClear {s : PluginSystem} (h : s.Hashing) (memory setMemory : Bool)
    (calls : ℕ → DumpCall) : (statsSnapshotAndClear memory setMemory calls s).2.Hashing := by
  have hlisted := hashing_listFlowRules h memory setMemory
  rw [statsSnapshotAndClear]
  dsimp only
  split
  · exact hlisted
  · exact hashing_snapshotRules hlisted calls _

/-- A snapshot has the descriptors of its calls, which all go to a plugin with its keys under their
hash. -/
theorem statsDumps_spec {s : PluginSystem} (h : s.Hashing) (memory setMemory : Bool)
    (calls : ℕ → DumpCall) :
    (∀ raw, (statsSnapshotAndClear memory setMemory calls s).1 = .ok raw →
      raw.descriptors =
        (statsDumps memory setMemory calls s).filterMap RuleDump.descriptor ∧
      (listFlowRules memory setMemory s).1 =
        .ok ((statsDumps memory setMemory calls s).map RuleDump.frid)) ∧
    ∀ d ∈ statsDumps memory setMemory calls s,
      (∃ es, d.found.Sound es ∧ d.found.api.KeysHashed) ∧ d.descriptor =
        (infmonVapiSnapshotInline d.call.memory d.call.env d.frid d.found).1.bind
          (rawDescriptor d.frid) := by
  have hlisted := hashing_listFlowRules h memory setMemory
  unfold statsSnapshotAndClear statsDumps
  dsimp only
  generalize listFlowRules memory setMemory s = listed at hlisted
  obtain ⟨result, s'⟩ := listed
  cases result with
  | error e => exact ⟨fun raw hraw => (by cases hraw), fun d hd => absurd hd List.not_mem_nil⟩
  | ok frids =>
    obtain ⟨hfrids, hdescs⟩ := ruleDumps_descriptors calls frids s'
    refine ⟨fun raw hraw => ?_, fun d hd => hashing_of_mem_ruleDumps hlisted hd⟩
    cases hraw
    exact ⟨hdescs, by rw [hfrids]⟩

/-! ### One dump -/

namespace RuleDump

variable {d : RuleDump}

/-- A swap that fails is answered with the empty message. -/
theorem messages_failed (hne : d.swap.1.result ≠ .ok) :
    (d.found.snapshotInlineDumpHandler d.call.env d.frid).1 = [.empty d.frid] := by
  rw [Plugin.snapshotInlineDumpHandler, ← swap]
  split
  · rfl
  · rw [if_pos (Or.inl hne)]

/-- A swap that succeeds is answered with one message for each occupied slot. -/
theorem mem_messages {desc : StatsDescriptor} (hok : d.swap.1.result = .ok)
    (hdesc : d.swap.1.descriptor = some desc) (hnum : 0 < d.swap.1.numRetired)
    {m : InlineDetails} :
    m ∈ (d.found.snapshotInlineDumpHandler d.call.env d.frid).1 ↔
      ∃ t j, d.Counted t j ∧ Plugin.slotDetails desc t j = some m := by
  rw [Plugin.snapshotInlineDumpHandler, ← swap, hdesc]
  dsimp only
  rw [if_neg fun h => h.elim (fun hne => hne hok) (Nat.ne_of_gt hnum), List.mem_flatMap]
  constructor
  · rintro ⟨w, hw, hm⟩
    cases hid : d.swap.1.retiredTables w with
    | none =>
      rw [hid] at hm
      exact absurd hm List.not_mem_nil
    | some id =>
      rw [hid, Plugin.tableDetails, List.mem_filterMap] at hm
      obtain ⟨j, hj, hslot⟩ := hm
      refine ⟨_, j, ⟨⟨w, List.mem_range.mp hw, id, hid, rfl⟩, List.mem_range.mp hj, ?_⟩, hslot⟩
      by_contra hocc
      rw [Plugin.slotDetails, if_pos hocc] at hslot
      cases hslot
  · rintro ⟨t, j, ⟨⟨w, hw, id, hid, rfl⟩, hj, -⟩, hslot⟩
    refine ⟨w, List.mem_range.mpr hw, ?_⟩
    rw [hid, Plugin.tableDetails, List.mem_filterMap]
    exact ⟨j, List.mem_range.mpr hj, hslot⟩

/-- The entry of an occupied slot. -/
structure EntryOf (d : RuleDump) (t : CounterTable) (j : ℕ) (e : CollectedEntry) : Prop where
  counted : d.Counted t j
  key : t.key (t.slots j) = some e.keyBytes
  slotHash : (t.slots j).keyHash = e.keyHash
  keyHash : e.keyHash = fnv1a64 e.keyBytes
  pos : 0 < e.keyBytes.length
  le : e.keyBytes.length ≤ 64

/-- After a swap that succeeds, the entries are those of the occupied slots. -/
theorem entries_served {es : List RuleEntry} (hs : d.found.Sound es) (hk : d.found.api.KeysHashed)
    (hok : d.swap.1.result = .ok) :
    (∀ t j, d.Counted t j → ∃ e ∈ (d.found.snapshotInlineDumpHandler d.call.env d.frid).1.map
      entryCb, d.EntryOf t j e) ∧
    ∀ e ∈ (d.found.snapshotInlineDumpHandler d.call.env d.frid).1.map entryCb,
      ∃ t j, d.EntryOf t j e := by
  obtain ⟨⟨desc, hdesc⟩, hnum, hhashed⟩ : (∃ desc, d.swap.1.descriptor = some desc) ∧
      0 < d.swap.1.numRetired ∧ ∀ w t, d.swap.1.retiredTables w = some t →
        (d.swap.2.heap.table t).HashedBy fnv1a64 := Plugin.snapshotRequest_served hs hk hok
  -- each occupied slot of a retired table is sent, with the key it holds
  have hentry : ∀ t j, d.Counted t j → ∃ m, Plugin.slotDetails desc t j = some m ∧
      d.EntryOf t j (entryCb m) := by
    rintro t j ⟨⟨w, hw, id, hid, rfl⟩, hj, hocc⟩
    obtain ⟨bytes, hkey, hhash, hpos, hle⟩ := (hhashed w id hid).key_eq hj hocc
    refine ⟨_, by rw [Plugin.slotDetails, if_neg (not_not.mpr hocc)], ?_⟩
    have hbytes : ((d.swap.2.heap.table id).key ((d.swap.2.heap.table id).slots j)).getD [] = bytes := by
      rw [hkey]
      rfl
    exact
      { counted := ⟨⟨w, hw, id, hid, rfl⟩, hj, hocc⟩
        key := hkey.trans (congrArg some hbytes.symm)
        slotHash := rfl
        keyHash := hhash.trans (congrArg fnv1a64 hbytes.symm)
        pos := hpos.trans_eq (congrArg List.length hbytes.symm)
        le := (congrArg List.length hbytes).trans_le hle }
  constructor
  · intro t j hcounted
    obtain ⟨m, hm, he⟩ := hentry t j hcounted
    exact ⟨entryCb m, List.mem_map_of_mem ((mem_messages hok hdesc hnum).mpr ⟨t, j, hcounted, hm⟩), he⟩
  · intro e he
    obtain ⟨m, hm, rfl⟩ := List.mem_map.mp he
    obtain ⟨t, j, hcounted, hslot⟩ := (mem_messages hok hdesc hnum).mp hm
    obtain ⟨m', hm', he'⟩ := hentry t j hcounted
    obtain rfl : m' = m := Option.some.inj (hm'.symm.trans hslot)
    exact ⟨t, j, he'⟩

/-- The descriptor of the entries of the occupied slots lists their keys. -/
theorem lists_of_entries {entries : List CollectedEntry} {desc : RawDescriptor}
    (hall : ∀ t j, d.Counted t j → ∃ e ∈ entries, d.EntryOf t j e)
    (honly : ∀ e ∈ entries, ∃ t j, d.EntryOf t j e)
    (hdesc : rawDescriptor d.frid entries = some desc) : ∃ keys, d.Lists desc keys := by
  cases entries with
  | nil => cases hdesc
  | cons first rest =>
    rw [rawDescriptor] at hdesc
    obtain rfl := Option.some.inj hdesc
    obtain ⟨hnodup, hmem⟩ := mergeWorkerEntries_identity (first :: rest)
    generalize first :: rest = entries at hall honly hnodup hmem
    generalize mergeWorkerEntries entries = merged at hnodup hmem
    -- every merged entry has the identity of an occupied slot
    have hmerged : ∀ e ∈ merged, ∃ t j, d.EntryOf t j e := by
      intro e he
      obtain ⟨e', he', hident⟩ := List.mem_map.mp ((hmem _).mp (List.mem_map_of_mem he))
      obtain ⟨hhash, hbytes⟩ : e'.keyHash = e.keyHash ∧ e'.keyBytes = e.keyBytes :=
        Prod.mk.inj hident
      obtain ⟨t, j, hslot⟩ := honly e' he'
      obtain ⟨hcounted, hkey, hslotHash, hkeyHash, hpos, hle⟩ := hslot
      rw [hbytes] at hkey hkeyHash hpos hle
      rw [hhash] at hslotHash hkeyHash
      exact ⟨t, j, hcounted, hkey, hslotHash, hkeyHash, hpos, hle⟩
    have hident : merged.map CollectedEntry.identity =
        (merged.map CollectedEntry.keyBytes).map fun key => (fnv1a64 key, key) := by
      rw [List.map_map]
      refine List.map_congr_left fun e he => ?_
      obtain ⟨t, j, hslot⟩ := hmerged e he
      rw [CollectedEntry.identity, hslot.keyHash]
      rfl
    refine ⟨merged.map CollectedEntry.keyBytes, rfl, ?_, fun key => ?_, ?_, layoutSlots_snd merged,
      fun harena => ?_⟩
    · rw [hident] at hnodup
      exact hnodup.of_map _
    · constructor
      · intro hkey
        obtain ⟨e, he, rfl⟩ := List.mem_map.mp hkey
        obtain ⟨t, j, hslot⟩ := hmerged e he
        exact ⟨t, j, hslot.counted, hslot.key⟩
      · rintro ⟨t, j, hcounted, hkey⟩
        obtain ⟨e, he, hslot⟩ := hall t j hcounted
        obtain rfl : e.keyBytes = key := Option.some.inj (hslot.key.symm.trans hkey)
        obtain ⟨e', he', heq⟩ := List.mem_map.mp ((hmem _).mpr (List.mem_map_of_mem he))
        obtain ⟨-, hbytes⟩ : e'.keyHash = e.keyHash ∧ e'.keyBytes = e.keyBytes := Prod.mk.inj heq
        exact hbytes ▸ List.mem_map_of_mem he'
    · rw [List.forall₂_map_right_iff]
      have hslots := (List.forall₂_and_left _ _).mpr
        ⟨hmerged, (layoutSlots_fst merged).flip⟩
      refine hslots.flip.imp fun slot e hslot => ?_
      obtain ⟨⟨t, j, hentry⟩, hflags, hhash, hlen⟩ := hslot
      have hle := hentry.le
      refine ⟨hflags, ?_, t, j, hentry.counted, hentry.key, hentry.slotHash.trans hhash.symm⟩
      rw [hlen]
      exact UInt16.toNat_ofNat_of_lt' (by rw [UInt16.size]; omega)
    · have hlen : ∀ e ∈ merged, 0 < e.keyBytes.length ∧ e.keyBytes.length < 2 ^ 16 := by
        intro e he
        obtain ⟨t, j, hslot⟩ := hmerged e he
        exact ⟨hslot.pos, Nat.lt_of_le_of_lt hslot.le (by decide)⟩
      rw [List.map_map]
      exact slotKey_layoutSlots hlen harena

/-- What the snapshot makes of a call is truthful exactly when the plugin admits it, if it gets it. -/
theorem truthful_iff {es : List RuleEntry} (hs : d.found.Sound es) (hk : d.found.api.KeysHashed)
    (hdesc : d.descriptor =
      (infmonVapiSnapshotInline d.call.memory d.call.env d.frid d.found).1.bind
        (rawDescriptor d.frid)) :
    d.Truthful ↔
      (d.call.memory = true → d.found.Admits (.snapshotInlineDump d.call.env d.frid)) := by
  rw [← Plugin.snapshotRequest_ok_iff_admits hs]
  show _ ↔ (_ → d.swap.1.result = .ok)
  cases hmemory : d.call.memory with
  | false =>
    -- no message, no descriptor
    rw [hmemory] at hdesc
    change d.descriptor = none at hdesc
    refine iff_of_true ⟨?_, fun desc hsome => ?_⟩ fun h => by cases h
    · rw [hdesc, Swapped, hmemory]
      exact iff_of_false Bool.noConfusion fun h => Bool.noConfusion h.1.1
    · rw [hdesc] at hsome
      cases hsome
  | true =>
    rw [hmemory] at hdesc
    change d.descriptor = rawDescriptor d.frid
      ((d.found.snapshotInlineDumpHandler d.call.env d.frid).1.map entryCb) at hdesc
    by_cases hok : d.swap.1.result = .ok
    · refine iff_of_true ?_ fun _ => hok
      obtain ⟨hall, honly⟩ := entries_served hs hk hok
      refine ⟨?_, fun desc hsome => lists_of_entries hall honly (hdesc.symm.trans hsome)⟩
      rw [hdesc]
      generalize (d.found.snapshotInlineDumpHandler d.call.env d.frid).1.map entryCb = entries at *
      cases entries with
      | nil =>
        refine iff_of_false Bool.noConfusion ?_
        rintro ⟨-, t, j, hcounted⟩
        obtain ⟨e, he, -⟩ := hall t j hcounted
        exact List.not_mem_nil he
      | cons first rest =>
        obtain ⟨t, j, hslot⟩ := honly first List.mem_cons_self
        exact iff_of_true rfl ⟨⟨hmemory, hok⟩, t, j, hslot.counted⟩
    · refine iff_of_false (fun h => hok ?_) fun h => hok (h rfl)
      -- the empty message has become an entry
      rw [messages_failed hok] at hdesc
      have hsome : d.descriptor.isSome = true := by
        rw [hdesc]
        rfl
      exact (h.included.mp hsome).1.2

end RuleDump

/-- A snapshot of whatever back end has the descriptors of its calls, one call for each listed rule. And
what a call leads to is truthful exactly when the call does not reach the plugin, or the plugin admits
the dump. -/
theorem snapshot_truthful_iff (vlibNumWorkers : ℕ) (events : List PluginEvent)
    (memory setMemory : Bool) (calls : ℕ → DumpCall) :
    let s := Runs.run PluginSystem.step (.start vlibNumWorkers) events
    (∀ raw, (statsSnapshotAndClear memory setMemory calls s).1 = .ok raw →
      raw.descriptors =
        (statsDumps memory setMemory calls s).filterMap RuleDump.descriptor ∧
      (listFlowRules memory setMemory s).1 =
        .ok ((statsDumps memory setMemory calls s).map RuleDump.frid)) ∧
    ∀ d ∈ statsDumps memory setMemory calls s, d.Truthful ↔
      (d.call.memory = true → d.found.Admits (.snapshotInlineDump d.call.env d.frid)) := by
  intro s
  have hs : s.Hashing := (PluginSystem.hashing_start vlibNumWorkers).run events
  obtain ⟨hraw, hdumps⟩ := statsDumps_spec hs memory setMemory calls
  refine ⟨hraw, fun d hd => ?_⟩
  obtain ⟨⟨es, hsound, hk⟩, hdesc⟩ := hdumps d hd
  exact RuleDump.truthful_iff hsound hk hdesc

/-! ### A snapshot behind a full ring -/

/-- A call to which the plugin answers, with memory and at a reading of the clock. -/
def dumpAt (now : UInt64) : DumpCall := ⟨[], true, envAt now⟩

/-- After sixteen dumps the next one is refused. The snapshot has a descriptor for it all the same,
with a slot that no key belongs to. -/
theorem refused_dump_included :
    let s := Runs.run PluginSystem.step (.start 0) (dumps 16)
    ∃ d ∈ statsDumps true true (fun _ => dumpAt 34000000000) s, d.frid = protoRuleId ∧
      d.swap.1.result = .errTooManyRetired ∧
      (∃ desc, d.descriptor = some desc ∧ desc.slots.map RawSlot.keyLen = [0]) ∧ ¬ d.Truthful := by
  intro s
  have hrun : (statsDumps true true (fun _ => dumpAt 34000000000) s).map (fun d =>
      (d.frid, d.swap.1.result, d.descriptor.map fun desc => desc.slots.map RawSlot.keyLen)) =
        [(protoRuleId, .errTooManyRetired, some [0])] := by
    decide +kernel
  obtain ⟨d, hd, heq⟩ := List.mem_map.mp (hrun ▸ List.mem_singleton_self _)
  obtain ⟨hfrid, hresult, hslots⟩ : d.frid = protoRuleId ∧ d.swap.1.result = .errTooManyRetired ∧
      (d.descriptor.map fun desc => desc.slots.map RawSlot.keyLen) = some [0] := by
    simpa using heq
  obtain ⟨desc, hdesc, hlens⟩ := Option.map_eq_some_iff.mp hslots
  refine ⟨d, hd, hfrid, hresult, ⟨desc, hdesc, hlens⟩, fun h => ?_⟩
  have hswapped := (h.included.mp (hdesc ▸ rfl)).1.2
  rw [hresult] at hswapped
  cases hswapped

/-- The dump of a rule with a counted packet is admitted, and its descriptor is truthful. -/
theorem admitted_dump_truthful :
    let s := Runs.run PluginSystem.step (.start 0)
      [.request (.flowRuleAdd (envAt 0) protoRuleMsg), .frame 0 [udpPacket 0x30 0x39]]
    (statsDumps true true (fun _ => dumpAt 1) s).map (fun d => d.descriptor.isSome) = [true] ∧
      ∀ d ∈ statsDumps true true (fun _ => dumpAt 1) s, d.Truthful := by
  intro s
  refine ⟨by decide +kernel, fun d hd => ?_⟩
  refine ((snapshot_truthful_iff 0 _ true true fun _ => dumpAt 1).2 d hd).mpr fun _ => ?_
  have hadmits : ∀ d ∈ statsDumps true true (fun _ => dumpAt 1) s, d.frid.isZero = false ∧
      d.found.HasRule d.frid ∧ d.found.api.mgr.retiredCount < maxRetired ∧
      ∀ w < d.found.api.nw, (d.call.env.allocs w).ok = true := by
    decide +kernel
  exact hadmits d hd

end Frontend

end InFMon
