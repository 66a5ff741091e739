import InFMon.Frontend.FailedInserts
import InFMon.Frontend.WorkerMerge
import InFMon.Plugin.MeterRuns
import Mathlib.Algebra.Ring.Nat

/-! # A dump reports what the meter has

What the plugin answers to a dump, collected and merged by the front end, has one slot for every key that
some worker has matched since the last snapshot of the rule, with the packets and bytes of all workers. -/

namespace InFMon

open CounterTable OpenAddressing Frontend

/-! ### The entries of one table -/

/-- The identity that the entries of a key have. -/
def keyIdentity (key : Key) : UInt64 × List UInt8 := (frameHash key, key.bytes)

/-- The entry for slot `j` of a table. -/
def slotEntry (desc : StatsDescriptor) (t : CounterTable) (j : ℕ) : Option CollectedEntry :=
  (Plugin.slotDetails desc t j).map entryCb

/-- The entries of a table. -/
def tableEntries (desc : StatsDescriptor) (t : CounterTable) : List CollectedEntry :=
  (List.range t.numSlots).filterMap (slotEntry desc t)

/-- A list over a range to which one place only contributes. -/
theorem filterMap_range_single {β : Type} {f : ℕ → Option β} {n j : ℕ} {b : β} (hj : j < n)
    (hb : f j = some b) (hother : ∀ i < n, i ≠ j → f i = none) :
    (List.range n).filterMap f = [b] := by
  induction n with
  | zero => exact absurd hj (Nat.not_lt_zero j)
  | succ n ih =>
    rw [List.range_succ, List.filterMap_append]
    by_cases hjn : j = n
    · subst hjn
      have hnil : (List.range j).filterMap f = [] := by
        rw [List.filterMap_eq_nil_iff]
        intro i hi
        have hlt := List.mem_range.mp hi
        exact hother i (hlt.trans (Nat.lt_succ_self j)) hlt.ne
      rw [hnil, List.nil_append, List.filterMap_cons_some hb, List.filterMap_nil]
    · rw [ih (by omega) fun i hi => hother i (by omega),
        List.filterMap_cons_none (hother n (Nat.lt_succ_self n) (Ne.symm hjn)), List.filterMap_nil,
        List.append_nil]

variable {t : CounterTable} {ops : List UpdateOp} {width : ℕ} {desc : StatsDescriptor}

/-- The counts that the map has for a key are those of its hits. -/
theorem exactMap_counts {key : Key} {c : Tally} (h : exactMap ops key = some c) :
    c.packets = UInt64.ofNat (packetsOf key.bytes (ops.map UpdateOp.hit)) ∧
      c.bytes = UInt64.ofNat (bytesOf key.bytes (ops.map UpdateOp.hit)) := by
  obtain ⟨last, -, rfl⟩ := Option.map_eq_some_iff.mp h
  have hown : (ops.map UpdateOp.hit).filter (fun hit => hit.1 = key.bytes) =
      (ops.filter fun op => op.key = key).map UpdateOp.hit := by
    rw [List.filter_map]
    refine congrArg _ (List.filter_congr fun op _ => ?_)
    exact decide_eq_decide.mpr ⟨fun heq => Key.ext heq, fun heq => congrArg Key.bytes heq⟩
  rw [packetsOf, bytesOf, hown, List.length_map, List.map_map]
  exact ⟨rfl, rfl⟩

/-- The entry of an occupied slot is one of a key that occurred, with the counts of the key. -/
theorem identity_of_slotEntry (h : t.Exact frameHash width ops) {j : ℕ} (hj : j < t.numSlots)
    {e : CollectedEntry} (he : slotEntry desc t j = some e) : ∃ key ∈ keysOf ops,
      t.cell j = .full (keyIdentity key) ∧ e.identity = keyIdentity key ∧
        exactMap ops key = some ⟨e.packets, e.bytes, e.lastUpdate⟩ := by
  unfold slotEntry Plugin.slotDetails at he
  split at he
  · cases he
  rename_i hocc
  rw [not_not] at hocc
  obtain rfl := Option.some.inj he
  have hcell : t.cell j = .full (t.storedKey j) := cell_eq_full_iff.mpr ⟨hocc, rfl⟩
  obtain ⟨key, hstored, hmap⟩ := h.sound j hj _ hcell
  have hmem : key ∈ keysOf ops := by
    by_contra hnot
    rw [exactMap_eq_none_iff.mpr hnot] at hmap
    cases hmap
  refine ⟨key, hmem, hcell.trans (congrArg Cell.full hstored), ?_, hmap⟩
  have hkey := (h.key_eq_some_iff hj).mpr ⟨hocc, rfl⟩
  show ((t.slots j).keyHash, (t.key (t.slots j)).getD []) = _
  rw [hkey]
  exact hstored

/-- A key that occurred has one entry. -/
theorem entriesOf_tableEntries (h : t.Exact frameHash width ops) (desc : StatsDescriptor) {key : Key}
    (hkey : key ∈ keysOf ops) : ∃ e, entriesOf (tableEntries desc t) (keyIdentity key) = [e] ∧
      exactMap ops key = some ⟨e.packets, e.bytes, e.lastUpdate⟩ := by
  obtain ⟨j, hj, hcell⟩ := h.complete key hkey
  have hocc := (cell_eq_full_iff.mp hcell).1
  obtain ⟨e, he⟩ : ∃ e, slotEntry desc t j = some e :=
    ⟨_, by rw [slotEntry, Plugin.slotDetails, if_neg (not_not.mpr hocc)]; rfl⟩
  obtain ⟨key', -, hcell', hident, hmap⟩ := identity_of_slotEntry h hj he
  have hsame : keyIdentity key' = keyIdentity key := Cell.full.inj (hcell'.symm.trans hcell)
  obtain rfl : key' = key := Key.ext (Prod.mk.inj hsame).2
  refine ⟨e, ?_, hmap⟩
  rw [entriesOf, tableEntries, List.filter_filterMap]
  refine filterMap_range_single hj ?_ fun i hi hij => ?_
  · rw [he]
    exact Option.filter_some_pos (decide_eq_true hident)
  · -- another slot holds another key
    cases hother : slotEntry desc t i with
    | none => rfl
    | some e' =>
      obtain ⟨key₂, -, hcell₂, hident₂, -⟩ := identity_of_slotEntry h hi hother
      refine Option.filter_some_neg (decide_eq_false fun heq => hij ?_)
      rw [hident₂] at heq
      exact h.distinct i hi j hj _ (hcell₂.trans (congrArg Cell.full heq)) hcell

/-- A key that did not occur has none. -/
theorem entriesOf_tableEntries_nil (h : t.Exact frameHash width ops) {key : Key}
    (hkey : key ∉ keysOf ops) : entriesOf (tableEntries desc t) (keyIdentity key) = [] := by
  refine List.filter_eq_nil_iff.mpr fun e he hident => hkey ?_
  obtain ⟨j, hj, hslot⟩ := List.mem_filterMap.mp he
  obtain ⟨key', hmem, -, hident', -⟩ := identity_of_slotEntry h (List.mem_range.mp hj) hslot
  rw [decide_eq_true_eq, hident'] at hident
  exact Key.ext (Prod.mk.inj hident).2 ▸ hmem

variable {hits : List Hit}

/-- A key has entries exactly if it was hit. -/
theorem HoldsHits.mem_identity (h : HoldsHits t width hits) (desc : StatsDescriptor)
    {k : UInt64 × List UInt8} :
    k ∈ (tableEntries desc t).map CollectedEntry.identity ↔
      ∃ key : Key, key.bytes ∈ hitKeys hits ∧ k = keyIdentity key := by
  obtain ⟨ops, hexact, -, rfl⟩ := h
  have hkeys : ∀ key : Key, key.bytes ∈ hitKeys (ops.map UpdateOp.hit) ↔ key ∈ keysOf ops := by
    intro key
    simp only [hitKeys, keysOf, UpdateOp.hit, List.map_map, List.mem_toFinset, List.mem_map,
      Function.comp_apply]
    exact exists_congr fun op => and_congr_right fun _ =>
      ⟨fun heq => Key.ext heq, fun heq => congrArg Key.bytes heq⟩
  simp only [hkeys, List.mem_map]
  constructor
  · rintro ⟨e, he, rfl⟩
    obtain ⟨j, hj, hslot⟩ := List.mem_filterMap.mp he
    obtain ⟨key, hkey, -, hident, -⟩ := identity_of_slotEntry hexact (List.mem_range.mp hj) hslot
    exact ⟨key, hkey, hident⟩
  · rintro ⟨key, hkey, rfl⟩
    obtain ⟨e, he, -⟩ := entriesOf_tableEntries hexact desc hkey
    have hmem : e ∈ entriesOf (tableEntries desc t) (keyIdentity key) :=
      he ▸ List.mem_singleton_self e
    obtain ⟨hmem, hident⟩ := List.mem_filter.mp hmem
    exact ⟨e, hmem, of_decide_eq_true hident⟩

/-- The entries of a key come to its hits. -/
theorem HoldsHits.counts (h : HoldsHits t width hits) (desc : StatsDescriptor) (key : Key)
    (hpackets : packetsOf key.bytes hits < 2 ^ 64) (hbytes : bytesOf key.bytes hits < 2 ^ 64) :
    ((entriesOf (tableEntries desc t) (keyIdentity key)).map fun e => e.packets.toNat).sum =
        packetsOf key.bytes hits ∧
      ((entriesOf (tableEntries desc t) (keyIdentity key)).map fun e => e.bytes.toNat).sum =
        bytesOf key.bytes hits := by
  obtain ⟨ops, hexact, -, rfl⟩ := h
  by_cases hkey : key ∈ keysOf ops
  · obtain ⟨e, he, hmap⟩ := entriesOf_tableEntries hexact desc hkey
    obtain ⟨hp, hb⟩ := exactMap_counts hmap
    dsimp only at hp hb
    rw [he, List.map_singleton, List.map_singleton, List.sum_singleton, List.sum_singleton, hp, hb]
    exact ⟨UInt64.toNat_ofNat_of_lt' hpackets, UInt64.toNat_ofNat_of_lt' hbytes⟩
  · have hnone : (ops.map UpdateOp.hit).filter (fun hit => hit.1 = key.bytes) = [] := by
      refine List.filter_eq_nil_iff.mpr fun hit hhit hident => hkey ?_
      obtain ⟨op, hop, rfl⟩ := List.mem_map.mp hhit
      exact mem_keysOf.mpr ⟨op, hop, Key.ext (of_decide_eq_true hident)⟩
    rw [entriesOf_tableEntries_nil hexact hkey, packetsOf, bytesOf, hnone]
    exact ⟨rfl, rfl⟩

/-! ### The entries of all workers -/

/-- The entries of the first `n` workers. -/
def workerEntries (desc : StatsDescriptor) (heap : Heap) (tables : ℕ → Option ℕ) (n : ℕ) :
    List CollectedEntry :=
  (List.range n).flatMap fun w => ((tables w).map fun t => tableEntries desc (heap.table t)).getD []

section Workers

variable {heap : Heap} {tables : ℕ → Option ℕ} {n : ℕ} {hits : ℕ → List Hit}

/-- One worker more. -/
theorem workerEntries_succ (desc : StatsDescriptor) (heap : Heap) (tables : ℕ → Option ℕ) (n : ℕ)
    {t : ℕ} (ht : tables n = some t) : workerEntries desc heap tables (n + 1) =
      workerEntries desc heap tables n ++ tableEntries desc (heap.table t) := by
  rw [workerEntries, List.range_succ, List.flatMap_append, List.flatMap_singleton, ht]
  rfl

/-- The entries of the workers have the keys of their hits. -/
theorem mem_identity_workerEntries
    (h : ∀ w < n, ∃ t, tables w = some t ∧ HoldsHits (heap.table t) width (hits w))
    (desc : StatsDescriptor) {k : UInt64 × List UInt8} :
    k ∈ (workerEntries desc heap tables n).map CollectedEntry.identity ↔
      ∃ key : Key, key.bytes ∈ hitKeys ((List.range n).flatMap hits) ∧ k = keyIdentity key := by
  induction n with
  | zero => simp [workerEntries, hitKeys]
  | succ n ih =>
    obtain ⟨t, ht, hhits⟩ := h n (Nat.lt_succ_self n)
    have hsplit : ∀ bytes, bytes ∈ hitKeys ((List.range (n + 1)).flatMap hits) ↔
        bytes ∈ hitKeys ((List.range n).flatMap hits) ∨ bytes ∈ hitKeys (hits n) := by
      intro bytes
      rw [List.range_succ, List.flatMap_append, List.flatMap_singleton, hitKeys, List.map_append,
        List.toFinset_append, Finset.mem_union]
      rfl
    rw [workerEntries_succ desc heap tables n ht, List.map_append, List.mem_append,
      ih fun w hw => h w (Nat.lt_succ_of_lt hw), hhits.mem_identity desc, ← exists_or]
    refine exists_congr fun key => ?_
    rw [hsplit, or_and_right]

/-- The entries of a key come to the hits of all workers. -/
theorem counts_workerEntries
    (h : ∀ w < n, ∃ t, tables w = some t ∧ HoldsHits (heap.table t) width (hits w))
    (desc : StatsDescriptor) (key : Key)
    (hpackets : packetsOf key.bytes ((List.range n).flatMap hits) < 2 ^ 64)
    (hbytes : bytesOf key.bytes ((List.range n).flatMap hits) < 2 ^ 64) :
    ((entriesOf (workerEntries desc heap tables n) (keyIdentity key)).map
        fun e => e.packets.toNat).sum = packetsOf key.bytes ((List.range n).flatMap hits) ∧
      ((entriesOf (workerEntries desc heap tables n) (keyIdentity key)).map
        fun e => e.bytes.toNat).sum = bytesOf key.bytes ((List.range n).flatMap hits) := by
  induction n with
  | zero => exact ⟨rfl, rfl⟩
  | succ n ih =>
    obtain ⟨t, ht, hhits⟩ := h n (Nat.lt_succ_self n)
    rw [List.range_succ, List.flatMap_append, List.flatMap_singleton] at hpackets hbytes ⊢
    rw [packetsOf_append] at hpackets ⊢
    rw [bytesOf_append] at hbytes ⊢
    obtain ⟨hp, hb⟩ := ih (fun w hw => h w (Nat.lt_succ_of_lt hw)) (by omega) (by omega)
    obtain ⟨hpn, hbn⟩ := hhits.counts desc key (by omega) (by omega)
    rw [workerEntries_succ desc heap tables n ht, entriesOf, List.filter_append, List.map_append,
      List.map_append, List.sum_append, List.sum_append]
    exact ⟨congrArg₂ _ hp hpn, congrArg₂ _ hb hbn⟩

end Workers

/-! ### The descriptor -/

/-- The slot has the packets and the bytes of its key. -/
structure SlotReports (hits : List Hit) (slot : RawSlot) (key : List UInt8) : Prop where
  flags : slot.flags = 1
  keyLen : slot.keyLen.toNat = key.length
  packets : slot.packets.toNat = packetsOf key hits
  bytes : slot.bytes.toNat = bytesOf key hits

/-- The descriptor has one slot for each key that was hit, and the keys one behind the other. -/
structure ReportsHits (desc : RawDescriptor) (hits : List Hit) : Prop where
  insertFailed : desc.insertFailed = 0
  slots : ∃ keys : List (List UInt8), keys.Nodup ∧ keys.toFinset = hitKeys hits ∧
    desc.keyArena = keys.flatten ∧ List.Forall₂ (SlotReports hits) desc.slots keys ∧
    -- the offsets have 32 bits
    (desc.keyArena.length ≤ 2 ^ 32 → desc.slots.map (slotKey desc.keyArena) = keys.map some)

/-- The descriptor that a dump leads to, if VAPI has memory for its message. -/
def dumpReply (env : ApiEnv) (id : FlowRuleId) (p : Plugin) : Option RawDescriptor :=
  (infmonVapiSnapshotInline true env id p).1.bind (rawDescriptor id)

/-- Every merged entry has its slot, with its counts. -/
theorem layoutSlots_counts (merged : List CollectedEntry) :
    List.Forall₂ (fun slot e => slot.flags = 1 ∧ slot.keyLen = UInt16.ofNat e.keyBytes.length ∧
      slot.packets = e.packets ∧ slot.bytes = e.bytes) (layoutSlots merged).1 merged := by
  induction merged using List.reverseRecOn with
  | nil => exact List.Forall₂.nil
  | append_singleton merged e ih =>
    rw [layoutSlots_concat, pushSlot]
    exact List.rel_append ih (.cons ⟨rfl, rfl, rfl, rfl⟩ .nil)

/-- What is merged from the entries of all workers. -/
theorem reportsHits_of_entries {entries : List CollectedEntry} {hits : List Hit}
    (hpackets : hits.length < 2 ^ 64) (hbytes : (hits.map fun hit => hit.2.toNat).sum < 2 ^ 64)
    (hidentity : ∀ k, k ∈ entries.map CollectedEntry.identity ↔
      ∃ key : Key, key.bytes ∈ hitKeys hits ∧ k = keyIdentity key)
    (hlen : ∀ bytes ∈ hitKeys hits, 0 < bytes.length ∧ bytes.length < 2 ^ 16)
    (hcounts : ∀ key : Key,
      packetsOf key.bytes hits < 2 ^ 64 → bytesOf key.bytes hits < 2 ^ 64 →
      ((entriesOf entries (keyIdentity key)).map fun e => e.packets.toNat).sum =
          packetsOf key.bytes hits ∧
        ((entriesOf entries (keyIdentity key)).map fun e => e.bytes.toNat).sum =
          bytesOf key.bytes hits)
    (hfailed : ∀ e ∈ entries, e.insertFailed = 0) {id : FlowRuleId} :
    (rawDescriptor id entries = none ↔ hits = []) ∧ ∀ desc, rawDescriptor id entries = some desc →
      desc.flowRuleId = id ∧ ReportsHits desc hits := by
  -- the merged entries, with their keys
  obtain ⟨hnodup, hmem⟩ := mergeWorkerEntries_identity entries
  have hmerged : ∀ m ∈ mergeWorkerEntries entries, ∃ key : Key, key.bytes ∈ hitKeys hits ∧
      m.identity = keyIdentity key ∧ m.keyBytes = key.bytes := by
    intro m hm
    obtain ⟨key, hkey, hident⟩ :=
      (hidentity _).mp ((hmem m.identity).mp (List.mem_map_of_mem hm))
    exact ⟨key, hkey, hident, (Prod.mk.inj hident).2⟩
  have hslots : ∀ m ∈ mergeWorkerEntries entries,
      m.packets.toNat = packetsOf m.keyBytes hits ∧ m.bytes.toNat = bytesOf m.keyBytes hits := by
    intro m hm
    obtain ⟨key, hkey, hident, hbytesEq⟩ := hmerged m hm
    obtain ⟨hp, hb, -⟩ := counts_of_mem_merge entries hm
    have hple := (packetsOf_le key.bytes hits).trans_lt hpackets
    have hble := (bytesOf_le key.bytes hits).trans_lt hbytes
    obtain ⟨hps, hbs⟩ := hcounts key hple hble
    rw [hp, hb, toNat_saturatingSum, toNat_saturatingSum, List.map_map, List.map_map, hident, hbytesEq]
    exact ⟨(congrArg₂ _ hps rfl).trans (Nat.min_eq_left (by omega)),
      (congrArg₂ _ hbs rfl).trans (Nat.min_eq_left (by omega))⟩
  cases entries with
  | nil =>
    refine ⟨iff_of_true rfl ?_, fun desc hdesc => by cases hdesc⟩
    by_contra hne
    obtain ⟨hit, hhit⟩ := List.exists_mem_of_ne_nil hits hne
    have hkey : hit.1 ∈ hitKeys hits := List.mem_toFinset.mpr (List.mem_map_of_mem hhit)
    exact List.not_mem_nil
      ((hidentity _).mpr ⟨⟨hit.1, (hlen _ hkey).2⟩, hkey, rfl⟩)
  | cons first rest =>
    refine ⟨iff_of_false (fun h => by cases h) ?_, fun desc hdesc => ?_⟩
    · rintro rfl
      obtain ⟨key, hkey, -⟩ := (hidentity first.identity).mp List.mem_cons_self
      exact absurd hkey (Finset.notMem_empty _)
    obtain rfl := Option.some.inj hdesc
    generalize mergeWorkerEntries (first :: rest) = merged at *
    refine ⟨rfl, hfailed first List.mem_cons_self, merged.map CollectedEntry.keyBytes, ?_, ?_,
      layoutSlots_snd merged, ?_, fun harena => ?_⟩
    · -- different identities are identities of different keys
      have hident : merged.map CollectedEntry.identity =
          (merged.map CollectedEntry.keyBytes).map fun bytes => (fnv1a64 bytes, bytes) := by
        rw [List.map_map]
        refine List.map_congr_left fun m hm => ?_
        obtain ⟨key, -, hident, hbytesEq⟩ := hmerged m hm
        rw [hident, Function.comp_apply, hbytesEq]
        rfl
      rw [hident] at hnodup
      exact hnodup.of_map _
    · ext bytes
      rw [List.mem_toFinset]
      constructor
      · intro hbytes
        obtain ⟨m, hm, rfl⟩ := List.mem_map.mp hbytes
        obtain ⟨key, hkey, -, heq⟩ := hmerged m hm
        exact heq ▸ hkey
      · intro hbytes
        obtain ⟨m, hm, hident⟩ := List.mem_map.mp ((hmem _).mpr
          ((hidentity _).mpr ⟨⟨bytes, (hlen _ hbytes).2⟩, hbytes, rfl⟩))
        exact List.mem_map.mpr ⟨m, hm, (Prod.mk.inj hident).2⟩
    · rw [List.forall₂_map_right_iff]
      have hall := (List.forall₂_and_left _ _).mpr
        ⟨fun m hm => hm, (layoutSlots_counts merged).flip⟩
      refine hall.flip.imp fun slot m hslot => ?_
      obtain ⟨hm, hflags, hkeyLen, hp, hb⟩ := hslot
      obtain ⟨hps, hbs⟩ := hslots m hm
      obtain ⟨key, hkey, -, heq⟩ := hmerged m hm
      refine ⟨hflags, ?_, hp ▸ hps, hb ▸ hbs⟩
      rw [hkeyLen, heq]
      exact UInt16.toNat_ofNat_of_lt' (hlen _ hkey).2
    · rw [List.map_map]
      refine slotKey_layoutSlots (fun m hm => ?_) harena
      obtain ⟨key, hkey, -, heq⟩ := hmerged m hm
      exact heq ▸ hlen _ hkey

/-! ### A dump in a run -/

/-- The messages of a dump that is admitted are the entries of the rule's tables. -/
theorem messages_eq {p : Plugin} {es : List RuleEntry} (h : p.Sound es) {env : ApiEnv}
    {id : FlowRuleId} (hadmits : p.Admits (.snapshotInlineDump env id)) :
    ∃ i desc, p.api.findRuleIndexById id = some i ∧ desc.insertFailed = p.failedInserts id ∧
      (p.snapshotInlineDumpHandler env id).1.map entryCb =
        workerEntries desc p.heap (fun w => p.api.ctx.tables w i) p.api.nw := by
  obtain ⟨i, hfind, hnum, hretired, hheap, hfailed⟩ := Plugin.snapshotRequest_tables h hadmits
  have hok := (Plugin.snapshotRequest_ok_iff_admits h).mpr hadmits
  obtain ⟨desc, hdesc⟩ : ∃ desc, (p.snapshotRequest env id).1.descriptor = some desc :=
    ApiState.snapshotAndClear_descriptor hok
  refine ⟨i, desc, hfind, hfailed desc hdesc, ?_⟩
  have hsome : ¬ ((p.snapshotRequest env id).1.result ≠ .ok ∨
      (p.snapshotRequest env id).1.numRetired = 0) := by
    rw [hnum]
    exact fun hor => hor.elim (fun hne => hne hok) (Nat.ne_of_gt p.api.nw_pos)
  rw [Plugin.snapshotInlineDumpHandler, hdesc]
  dsimp only
  rw [if_neg hsome, hnum, List.map_flatMap, workerEntries]
  refine List.flatMap_congr fun w hw => ?_
  rw [hretired w (List.mem_range.mp hw)]
  cases htable : p.api.ctx.tables w i with
  | none => rfl
  | some t =>
    rw [Plugin.tableDetails, hheap w t htable, List.map_filterMap]
    rfl

/-- Tables that hold hits have refused none. -/
theorem failedInserts_eq_zero {p : Plugin} {id : FlowRuleId} {i : ℕ} {width : ℕ}
    {hits : ℕ → List Hit} (hfind : p.api.findRuleIndexById id = some i)
    (h : ∀ w < p.api.nw, ∃ t, p.api.ctx.tables w i = some t ∧
      HoldsHits (p.heap.table t) width (hits w)) : p.failedInserts id = 0 := by
  rw [Plugin.failedInserts, hfind]
  dsimp only
  rw [← UInt64.toNat_inj, (ApiState.toNat_aggregate _ _ _).1, List.sum_eq_zero]
  · rfl
  · intro x hx
    obtain ⟨t, ht, rfl⟩ := List.mem_map.mp hx
    obtain ⟨w, hw, hcell⟩ := List.mem_filterMap.mp ht
    obtain ⟨t', ht', ops, hexact, -⟩ := h w (List.mem_range.mp hw)
    obtain rfl : t' = t := Option.some.inj (ht'.symm.trans hcell)
    rw [hexact.insertFailed]
    rfl

/-- The keys of hits that a table holds have its width. -/
theorem HoldsHits.length_key {t : CounterTable} {width : ℕ} {hits : List Hit}
    (h : HoldsHits t width hits) {hit : Hit} (hhit : hit ∈ hits) :
    hit.1.length = width ∧ hit.1.length < 2 ^ 16 := by
  obtain ⟨ops, -, hwidth, rfl⟩ := h
  obtain ⟨op, hop, rfl⟩ := List.mem_map.mp hhit
  exact ⟨hwidth op hop, op.key.length_lt⟩

/-- The entries of the workers carry the failed inserts of the descriptor. -/
theorem insertFailed_workerEntries {desc : StatsDescriptor} {heap : Heap} {tables : ℕ → Option ℕ}
    {n : ℕ} {e : CollectedEntry} (he : e ∈ workerEntries desc heap tables n) :
    e.insertFailed = desc.insertFailed := by
  obtain ⟨w, -, he⟩ := List.mem_flatMap.mp he
  cases htable : tables w with
  | none =>
    rw [htable] at he
    exact absurd he List.not_mem_nil
  | some t =>
    rw [htable] at he
    obtain ⟨j, -, hslot⟩ := List.mem_filterMap.mp he
    unfold slotEntry Plugin.slotDetails at hslot
    split at hslot
    · cases hslot
    · cases hslot
      rfl

namespace MeteredSystem

variable {s : MeteredSystem} {es : List RuleEntry}

/-- A dump that is admitted reports the hits of its rule. -/
theorem Follows.dump_reports (h : s.Follows es) {env : ApiEnv} {id : FlowRuleId}
    (hadmits : s.system.plugin.Admits (.snapshotInlineDump env id))
    (hfits : s.meter.Fits (s.system.plugin.vlibNumWorkers + 1)) :
    ∃ r, s.meter.find? (fun r => r.id = id) = some r ∧
      (dumpReply env id s.system.plugin = none ↔
        r.total (s.system.plugin.vlibNumWorkers + 1) = []) ∧
      ∀ desc, dumpReply env id s.system.plugin = some desc → desc.flowRuleId = id ∧
        ReportsHits desc (r.total (s.system.plugin.vlibNumWorkers + 1)) := by
  have hsound := h.publishes.sound
  have haligned := hsound.aligned
  obtain ⟨i, desc, hfind, hfailed, hmessages⟩ := messages_eq hsound hadmits
  obtain ⟨hi, hid, hfirst⟩ := haligned.arranged.findRuleIndexById_eq_some_iff.mp hfind
  have hm : i < s.meter.length := h.meters.length.symm ▸ hi
  have hmeters := h.meters.getElem hi hm
  have hnw := h.nw_eq (List.ne_nil_of_length_pos (Nat.zero_lt_of_lt hi))
  -- the table of each worker holds what that worker has counted for the rule
  have htables : ∀ w < s.system.plugin.vlibNumWorkers + 1, ∃ t,
      s.system.plugin.api.ctx.tables w i = some t ∧
        HoldsHits (s.system.plugin.heap.table t) es[i].rule.keyWidth (s.meter[i].hits w) := by
    intro w hw
    obtain ⟨t, ht⟩ := (haligned.served _ (List.getElem_mem hi)).exists_table (hnw.symm ▸ hw)
    exact ⟨t, (haligned.table_eq hi w).trans ht, hmeters.tables w t ht⟩
  refine ⟨s.meter[i], ?_, ?_⟩
  · rw [List.find?_eq_some_iff_getElem]
    refine ⟨decide_eq_true (hmeters.id.trans hid), i, hm, rfl, fun j hj => ?_⟩
    rw [Bool.not_eq_true', decide_eq_false_iff_not,
      (h.meters.getElem (hj.trans hi) (hj.trans hm)).id]
    exact hfirst j hj
  · have hreply : dumpReply env id s.system.plugin = rawDescriptor id (workerEntries desc
        s.system.plugin.heap (fun w => s.system.plugin.api.ctx.tables w i)
        (s.system.plugin.vlibNumWorkers + 1)) := by
      rw [← hnw, ← hmessages]
      rfl
    rw [hreply]
    obtain ⟨-, hpackets, hbytes⟩ := hfits _ (List.getElem_mem hm)
    refine reportsHits_of_entries hpackets hbytes
      (fun k => mem_identity_workerEntries htables desc) ?_
      (fun key => counts_workerEntries htables desc key) ?_
    · intro bytes hbytes
      obtain ⟨hit, hhit, rfl⟩ := List.mem_map.mp (List.mem_toFinset.mp hbytes)
      obtain ⟨w, hw, hhit⟩ := List.mem_flatMap.mp hhit
      obtain ⟨t, -, hholds⟩ := htables w (List.mem_range.mp hw)
      obtain ⟨hlen, hlt⟩ := hholds.length_key hhit
      exact ⟨hlen ▸ hmeters.passed.matchWidth_eq.2.1, hlt⟩
    · intro e he
      rw [insertFailed_workerEntries he, hfailed]
      exact failedInserts_eq_zero hfind (hnw ▸ htables)

end MeteredSystem

/-- In every run of the plugin with at most 31 workers beside the main thread, as many as it has scratch
buffers for, in which its tables have room, a dump that is admitted reports exactly the packets that all
workers have matched for the rule since its last snapshot: no descriptor if there are none, and else one
with a slot for each key, with the number of the packets and of their bytes. -/
theorem dump_reports_every_packet {vlibNumWorkers : ℕ} (hworkers : vlibNumWorkers < maxWorkers)
    {events : List PluginEvent}
    (h : Runs.Meets MeteredSystem.step MeteredSystem.InBounds (.start vlibNumWorkers) events)
    {env : ApiEnv} {id : FlowRuleId}
    (hadmits : (Runs.run PluginSystem.step (.start vlibNumWorkers) events).plugin.Admits
      (.snapshotInlineDump env id)) :
    let p := (Runs.run PluginSystem.step (.start vlibNumWorkers) events).plugin
    let m := (Runs.run MeteredSystem.step (.start vlibNumWorkers) events).meter
    ∃ r, m.find? (fun r => r.id = id) = some r ∧
      (dumpReply env id p = none ↔ r.total (vlibNumWorkers + 1) = []) ∧
      ∀ desc, dumpReply env id p = some desc → desc.flowRuleId = id ∧
        ReportsHits desc (r.total (vlibNumWorkers + 1)) := by
  intro p m
  obtain ⟨es, hfollows, hfits, hv⟩ := MeteredSystem.follows_run hworkers h
  have hsystem := MeteredSystem.run_system (.start vlibNumWorkers) events
  have hreports := hfollows.dump_reports (hsystem.symm ▸ hadmits) (hv.symm ▸ hfits)
  rwa [hv, hsystem] at hreports

/-- A mirrored packet of a protocol. -/
def protocolPacket (protocol : UInt8) : Buffer :=
  { udpPacket 0x30 0x39 with data := Function.update (udpPacket 0x30 0x39).data 73 protocol }

/-- A rule on the protocol, and a frame on each of two workers. -/
def twoWorkers : List PluginEvent :=
  [.request (.flowRuleAdd (envAt 0) protoRuleMsg), .frame 0 [protocolPacket 17],
    .frame 1 [protocolPacket 6, protocolPacket 17]]

/-- The packets of one protocol are reported together, though two workers have matched them. -/
theorem dump_reports_every_packet_two :
    let p := (Runs.run PluginSystem.step (.start 1) twoWorkers).plugin
    ∃ hits desc, dumpReply (envAt 1) protoRuleId p = some desc ∧ ReportsHits desc hits ∧
      packetsOf [17] hits = 2 ∧ packetsOf [6] hits = 1 := by
  intro p
  have hadmits : p.Admits (.snapshotInlineDump (envAt 1) protoRuleId) := by decide +kernel
  obtain ⟨r, hfind, hnone, hsome⟩ :=
    dump_reports_every_packet (by decide) (by decide +kernel) hadmits
  have hhits : ((Runs.run MeteredSystem.step (.start 1) twoWorkers).meter.find?
      fun r => r.id = protoRuleId).map (fun r => (packetsOf [17] (r.total 2), packetsOf [6] (r.total 2))) =
        some (2, 1) := by
    decide +kernel
  rw [hfind] at hhits
  obtain ⟨h17, h6⟩ := Prod.mk.inj (Option.some.inj hhits)
  cases hreply : dumpReply (envAt 1) protoRuleId p with
  | none =>
    rw [hnone.mp hreply] at h6
    cases h6
  | some desc => exact ⟨_, desc, rfl, (hsome desc hreply).2, h17, h6⟩

end InFMon
