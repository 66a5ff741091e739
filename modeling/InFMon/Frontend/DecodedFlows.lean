import InFMon.Frontend.Poller

/-! # The flows of a decoded snapshot

Merging loses nothing: under the fields of its rule, a descriptor decodes to one flow for each distinct
key. But a descriptor does not say which fields its rule has, the keys are decoded without any, and no
key is left. -/

namespace InFMon.Frontend

variable {desc : RawDescriptor} {fields : List FieldId}

/-! ### The merged slots -/

/-- The keys of the slots that have one. -/
theorem keys_keyedSlots (desc : RawDescriptor) :
    (keyedSlots desc).map Prod.fst = desc.slots.filterMap (slotKey desc.keyArena) := by
  rw [keyedSlots, List.map_filterMap]
  refine List.filterMap_congr fun slot _ => ?_
  rw [Option.map_map]
  exact Option.map_id'

/-- The values under a key are the counters of its slots. -/
theorem valuesOf_keyedSlots (desc : RawDescriptor) (key : List UInt8) :
    KeyedMerge.valuesOf key (keyedSlots desc) = (slotsWith desc key).map slotCounts := by
  rw [keyedSlots, slotsWith]
  induction desc.slots with
  | nil => rfl
  | cons slot slots ih =>
    rw [KeyedMerge.valuesOf] at ih ⊢
    cases hkey : slotKey desc.keyArena slot with
    | none =>
      rw [List.filterMap_cons_none (by rw [hkey]; rfl), List.filter_cons_of_neg (by simp [hkey])]
      exact ih
    | some key' =>
      rw [List.filterMap_cons_some (b := (key', slotCounts slot)) (by rw [hkey]; rfl)]
      by_cases heq : key' = key
      · rw [List.filter_cons_of_pos (by simpa using heq),
          List.filter_cons_of_pos (by simpa [hkey] using heq), List.map_cons, List.map_cons, ih]
      · rw [List.filter_cons_of_neg (by simpa using heq),
          List.filter_cons_of_neg (by simpa [hkey] using heq), ih]

/-- The slots merge into the distinct keys with their sums, in some order. -/
theorem mergedSlots_perm (desc : RawDescriptor) :
    (mergedSlots desc).Perm ((distinctKeys desc).map fun key =>
      (key, ⟨saturatingSum ((slotsWith desc key).map RawSlot.packets),
        saturatingSum ((slotsWith desc key).map RawSlot.bytes),
        maximum ((slotsWith desc key).map RawSlot.lastUpdate)⟩)) := by
  rw [distinctKeys, ← keys_keyedSlots]
  refine KeyedMerge.mergeAll_perm fun key hkey => ?_
  rw [valuesOf_keyedSlots]
  refine total_slots _ fun hnil => ?_
  rw [keys_keyedSlots] at hkey
  obtain ⟨slot, hslot, hsome⟩ := List.mem_filterMap.mp hkey
  have hmem : slot ∈ slotsWith desc key := List.mem_filter.mpr ⟨hslot, by simpa using hsome⟩
  rw [hnil] at hmem
  cases hmem

/-- A key is not empty. -/
theorem ne_nil_of_slotKey {arena key : List UInt8} {slot : RawSlot}
    (h : slotKey arena slot = some key) : slot.keyLen ≠ 0 ∧ key ≠ [] := by
  rw [slotKey] at h
  split at h
  · cases h
  rename_i hlen
  split at h
  · cases h
  rename_i hfits
  refine ⟨hlen, ?_⟩
  rintro rfl
  have hlength := congrArg List.length (Option.some.inj h)
  have hpos : slot.keyLen.toNat ≠ 0 := fun hzero => hlen (UInt16.toNat_inj.mp hzero)
  rw [List.length_take, List.length_drop, List.length_nil] at hlength
  omega

/-- The keys that some slot has. -/
theorem mem_distinctKeys {key : List UInt8} :
    key ∈ distinctKeys desc ↔ ∃ slot ∈ desc.slots, slotKey desc.keyArena slot = some key := by
  rw [distinctKeys, List.mem_dedup, List.mem_filterMap]

/-! ### With and without fields -/

/-- Under fields that its keys encode, a descriptor decodes to one flow for each distinct key, with the
saturating sums of its slots and their last time stamp. -/
theorem flows_perm_of_encodes (hash : HashOrder (List UInt8 × MergedSlot))
    (h : Encodes fields desc) : (decodeDescriptor hash fields desc).flows.Perm
      ((distinctKeys desc).map (flowOf fields desc)) := by
  have hperm := ((hash.perm _).trans (mergedSlots_perm desc)).filterMap (decodeFlow fields)
  refine hperm.trans (List.Perm.of_eq ?_)
  rw [List.filterMap_map, ← List.filterMap_eq_map (f := flowOf fields desc)]
  refine List.filterMap_congr fun key hkey => ?_
  obtain ⟨slot, hslot, hsome⟩ := mem_distinctKeys.mp hkey
  obtain ⟨key', values, hkey', hvalues⟩ := h slot hslot (ne_nil_of_slotKey hsome).1
  obtain rfl : key' = key := Option.some.inj (hkey'.symm.trans hsome)
  rw [Function.comp_apply, Function.comp_apply, decodeFlow, flowOf, decodedKey, hvalues]

/-- No key that is not empty can be decoded without fields. -/
theorem decodeFlow_nil {entry : List UInt8 × MergedSlot} (h : entry.1 ≠ []) :
    decodeFlow [] entry = none := by
  obtain ⟨message, hmessage⟩ : ∃ message, decodeKey [] entry.1 = .error (.statsFormat message) :=
    decodeKey_of_ne fun hlength => h (List.eq_nil_of_length_eq_zero hlength)
  rw [decodeFlow, hmessage]

/-- Without fields a descriptor decodes to no flow at all. -/
theorem flows_nil (hash : HashOrder (List UInt8 × MergedSlot)) (desc : RawDescriptor) :
    (decodeDescriptor hash [] desc).flows = [] := by
  refine List.filterMap_eq_nil_iff.mpr fun entry hentry => decodeFlow_nil ?_
  have hmem := (mergedSlots_perm desc).subset ((hash.perm _).subset hentry)
  obtain ⟨key, hkey, rfl⟩ := List.mem_map.mp hmem
  obtain ⟨slot, -, hsome⟩ := mem_distinctKeys.mp hkey
  exact (ne_nil_of_slotKey hsome).2

/-! ### Whole snapshots -/

/-- The keys of a snapshot lie in their arenas and encode the fields of their rules. -/
def RawSnapshot.Encodes (schema : FlowRuleId → List FieldId) (raw : RawSnapshot) : Prop :=
  ∀ desc ∈ raw.descriptors, Frontend.Encodes (schema desc.flowRuleId) desc

/-- A decoded snapshot has one entry for each descriptor, whose flows are those of its distinct keys. -/
def KeepsFlows (schema : FlowRuleId → List FieldId) (raw : RawSnapshot)
    (snap : FlowStatsSnapshot) : Prop :=
  List.Forall₂ (fun desc stats => stats.name = desc.flowRuleId.display ∧
    stats.flows.Perm ((distinctKeys desc).map (flowOf (schema desc.flowRuleId) desc)))
    raw.descriptors snap.flowRules

/-- Decoding keeps the flows of a snapshot exactly when it has none: when no slot has a key. -/
theorem decode_keeps_flows_iff (hash : HashOrder (List UInt8 × MergedSlot))
    (schema : FlowRuleId → List FieldId) (raw : RawSnapshot) (tickId wall mono prevMono : UInt64)
    (h : raw.Encodes schema) :
    KeepsFlows schema raw (decodeSnapshot hash raw tickId wall mono prevMono) ↔
      ∀ desc ∈ raw.descriptors, ∀ slot ∈ desc.slots, slot.keyLen = 0 := by
  have hdistinct : ∀ desc ∈ raw.descriptors,
      distinctKeys desc = [] ↔ ∀ slot ∈ desc.slots, slot.keyLen = 0 := by
    intro desc hdesc
    constructor
    · intro hnil slot hslot
      by_contra hlen
      obtain ⟨key, -, hsome, -⟩ := h desc hdesc slot hslot hlen
      have hmem := mem_distinctKeys.mpr ⟨slot, hslot, hsome⟩
      rw [hnil] at hmem
      cases hmem
    · intro hall
      refine List.eq_nil_iff_forall_not_mem.mpr fun key hkey => ?_
      obtain ⟨slot, hslot, hsome⟩ := mem_distinctKeys.mp hkey
      exact (ne_nil_of_slotKey hsome).1 (hall slot hslot)
  -- the decoder leaves every flow out, so a descriptor is kept iff it has no keys
  rw [KeepsFlows, decodeSnapshot]
  dsimp only
  rw [List.forall₂_map_right_iff, List.forall₂_same]
  refine forall₂_congr fun desc hdesc => ?_
  rw [← hdistinct desc hdesc, flows_nil]
  constructor
  · rintro ⟨-, hperm⟩
    exact List.map_eq_nil_iff.mp hperm.nil_eq.symm
  · intro hnil
    rw [hnil]
    exact ⟨rfl, List.Perm.nil⟩

/-! ### One flow -/

/-- Entries in the order in which they were inserted. -/
def insertionOrder (α : Type) : HashOrder α := ⟨id, fun _ => .refl _⟩

/-- A snapshot of a rule on the protocol with the slots given. -/
def protoSnapshot (slots : List RawSlot) : RawSnapshot :=
  ⟨[⟨⟨1, 0⟩, 0, 1, 0, slots, [17], 0, 0⟩]⟩

/-- A slot for UDP with five packets. -/
def udpSlot : RawSlot := ⟨42, 5, 300, 0, 1, 1, 10⟩

/-- A rule on the protocol. -/
def protoSchema : FlowRuleId → List FieldId := fun _ => [.ipProto]

/-- The descriptor encodes a flow of the rule. -/
theorem protoSnapshot_encodes : (protoSnapshot [udpSlot]).Encodes protoSchema := by
  intro desc hdesc slot hslot _
  obtain rfl := List.mem_singleton.mp hdesc
  obtain rfl := List.mem_singleton.mp hslot
  exact ⟨[17], [.proto 17], by decide +kernel, rfl⟩

/-- A snapshot without slots keeps its flows, one with a flow does not. -/
theorem only_empty_snapshot_kept :
    KeepsFlows protoSchema (protoSnapshot [])
      (decodeSnapshot (insertionOrder _) (protoSnapshot []) 1 0 0 0) ∧
    ¬ KeepsFlows protoSchema (protoSnapshot [udpSlot])
      (decodeSnapshot (insertionOrder _) (protoSnapshot [udpSlot]) 1 0 0 0) := by
  constructor
  · refine (decode_keeps_flows_iff _ protoSchema (protoSnapshot []) 1 0 0 0 ?_).mpr ?_
    · intro desc hdesc slot hslot
      obtain rfl := List.mem_singleton.mp hdesc
      cases hslot
    · intro desc hdesc slot hslot
      obtain rfl := List.mem_singleton.mp hdesc
      cases hslot
  · intro hkeeps
    have hnone := (decode_keeps_flows_iff _ protoSchema (protoSnapshot [udpSlot]) 1 0 0 0
      protoSnapshot_encodes).mp hkeeps
    exact absurd (hnone _ List.mem_cons_self _ List.mem_cons_self) (by decide)

/-- One flow in one slot, with a key that encodes the rule's field, is lost. -/
theorem one_flow_lost : (protoSnapshot [udpSlot]).Encodes protoSchema ∧
    (protoSnapshot [udpSlot]).descriptors.map distinctKeys = [[[17]]] ∧
    (decodeSnapshot (insertionOrder _) (protoSnapshot [udpSlot]) 1 0 0 0).flowRules.map
      FlowRuleStats.flows = [[]] ∧
    ¬ KeepsFlows protoSchema (protoSnapshot [udpSlot])
      (decodeSnapshot (insertionOrder _) (protoSnapshot [udpSlot]) 1 0 0 0) := by
  have hkeys : (protoSnapshot [udpSlot]).descriptors.map distinctKeys = [[[17]]] := by
    decide +kernel
  have hflows : (decodeSnapshot (insertionOrder _) (protoSnapshot [udpSlot]) 1 0 0 0).flowRules.map
      FlowRuleStats.flows = [[]] := by
    decide +kernel
  refine ⟨protoSnapshot_encodes, hkeys, hflows, fun hkeeps => ?_⟩
  obtain ⟨-, hperm⟩ := (List.forall₂_cons.mp hkeeps).1
  exact absurd hperm.length_eq (by decide +kernel)

end InFMon.Frontend
