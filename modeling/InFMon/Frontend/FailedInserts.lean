import InFMon.Api.Aggregate
import InFMon.Frontend.SnapshotDumps

/-! # The failed inserts that a dump reports

A descriptor carries the failed inserts of the tables that its dump retires, summed over the workers. The
new tables start at zero, so the next descriptor of the rule knows nothing of them. -/

namespace InFMon

/-! ### The tables of a rule -/

namespace Plugin

/-- The failed inserts that the tables of the rule with an id have counted together. -/
def failedInserts (p : Plugin) (id : FlowRuleId) : UInt64 :=
  match p.api.findRuleIndexById id with
  | none => 0
  | some i => (ApiState.aggregate p.heap (fun w => p.api.ctx.tables w i) p.api.nw).1

/-- Some worker has a flow of the rule in its table. -/
def HasFlows (p : Plugin) (id : FlowRuleId) : Prop :=
  ∃ i, p.api.findRuleIndexById id = some i ∧ ∃ w < p.api.nw, ∃ t, p.api.ctx.tables w i = some t ∧
    ∃ j < (p.heap.table t).numSlots, ((p.heap.table t).slots j).flags = .occupied

instance (q : Plugin) (env : ApiEnv) (id : FlowRuleId) :
    Decidable (q.Admits (.snapshotInlineDump env id)) :=
  inferInstanceAs (Decidable (id.isZero = false ∧ q.HasRule id ∧
    q.api.mgr.retiredCount < maxRetired ∧ ∀ w < q.api.nw, (env.allocs w).ok = true))

end Plugin

namespace Plugin

variable {p : Plugin} {es : List RuleEntry} {env : ApiEnv} {id : FlowRuleId}

/-- A context that admits a dump was set up before. -/
theorem ensure_of_admits (h : p.Sound es) (hadmits : p.Admits (.snapshotInlineDump env id)) :
    p.apiCtxEnsure env.memory = p := by
  rcases apiCtxEnsure_cases env.memory p with heq | ⟨hready, -⟩
  · exact heq
  · obtain ⟨rfl, -⟩ := h.fresh hready
    obtain ⟨-, ⟨i, hi, -⟩, -⟩ := hadmits
    rw [h.aligned.count_eq] at hi
    exact absurd hi (Nat.not_lt_zero i)

/-- A dump that is admitted retires the tables of its rule, as they are. -/
theorem snapshotRequest_tables (h : p.Sound es) (hadmits : p.Admits (.snapshotInlineDump env id)) :
    ∃ i, p.api.findRuleIndexById id = some i ∧
      (p.snapshotRequest env id).1.numRetired = p.api.nw ∧
      (∀ w < p.api.nw, (p.snapshotRequest env id).1.retiredTables w = p.api.ctx.tables w i) ∧
      (∀ w t, p.api.ctx.tables w i = some t →
        (p.snapshotRequest env id).2.heap.table t = p.heap.table t) ∧
      ∀ desc, (p.snapshotRequest env id).1.descriptor = some desc →
        desc.insertFailed = p.failedInserts id := by
  have hok := (snapshotRequest_ok_iff_admits h).mpr hadmits
  unfold snapshotRequest at hok ⊢
  dsimp only at hok ⊢
  rw [ensure_of_admits h hadmits] at hok ⊢
  have harr := h.aligned.arranged
  rcases p.api.snapshotAndClear_cases harr id env.allocs env.now with
    ⟨herr, -⟩ | ⟨i, hi, out, new, r, hid, hfirst, hs, hswapped, htables, hnum, hst⟩
  · exact absurd hok herr
  · obtain ⟨-, desc', -, hdesc', -, -, -, hsums⟩ := ApiState.snapshotAndClear_described hswapped
    have hfind : p.api.findRuleIndexById id = some i :=
      harr.findRuleIndexById_eq_some_iff.mpr ⟨hi, hid, hfirst⟩
    -- the retired tables are the ones that were served, and the swap leaves their contents
    have hretired : ∀ w < p.api.nw,
        (p.api.snapshotAndClear id env.allocs env.now).1.retiredTables w = p.api.ctx.tables w i := by
      intro w hw
      rw [htables, hs.retiredTables]
      exact if_pos hw
    have hheap : ∀ w t, p.api.ctx.tables w i = some t →
        (p.api.snapshotAndClear id env.allocs env.now).2.heap.table t = p.heap.table t := by
      intro w t ht
      rw [hst]
      exact hs.table_eq t (harr.made w i t ht).1
    have hcount := hnum.trans hs.numRetired
    refine ⟨i, hfind, hcount, hretired, fun w t ht => ?_, fun desc hdesc => ?_⟩
    · show ((publishIf _ _).api.heap).table t = _
      rw [publishIf_api]
      exact hheap w t ht
    · obtain rfl := Option.some.inj (hdesc'.symm.trans hdesc)
      refine (congrArg Prod.fst hsums).trans ?_
      rw [failedInserts, hfind, hcount]
      exact congrArg Prod.fst (ApiState.aggregate_congr hretired fun w _ t ht => hheap w t ht)

end Plugin

/-! ### What a call reports -/

namespace Frontend.RuleDump

/-- The call leads to a descriptor: the plugin gets the message, and if it admits the dump, the rule has a
flow. -/
def Reported (d : RuleDump) : Prop :=
  d.call.memory = true ∧
    (d.found.Admits (.snapshotInlineDump d.call.env d.frid) → d.found.HasFlows d.frid)

/-- The failed inserts of the tables that the call retires. A refused dump retires none. -/
def failures (d : RuleDump) : UInt64 :=
  if d.found.Admits (.snapshotInlineDump d.call.env d.frid) then d.found.failedInserts d.frid else 0

variable {d : RuleDump} {es : List RuleEntry}

/-- The slots that an admitted dump finds occupied are those of the rule's flows. -/
theorem counted_iff_hasFlows (hs : d.found.Sound es)
    (hadmits : d.found.Admits (.snapshotInlineDump d.call.env d.frid)) :
    (∃ t j, d.Counted t j) ↔ d.found.HasFlows d.frid := by
  obtain ⟨i, hfind, hnum, hretired, hheap, -⟩ := Plugin.snapshotRequest_tables hs hadmits
  constructor
  · rintro ⟨t, j, ⟨w, hw, id, hid, rfl⟩, hj, hocc⟩
    have hw' : w < d.found.api.nw := lt_of_lt_of_eq hw hnum
    have hid' := (hretired w hw').symm.trans hid
    have htable : d.swap.2.heap.table id = d.found.heap.table id := hheap w id hid'
    exact ⟨i, hfind, w, hw', id, hid', j, htable ▸ hj, htable ▸ hocc⟩
  · rintro ⟨i', hfind', w, hw, id, hid, j, hj, hocc⟩
    obtain rfl := Option.some.inj (hfind.symm.trans hfind')
    have htable : d.swap.2.heap.table id = d.found.heap.table id := hheap w id hid
    exact ⟨_, j, ⟨w, lt_of_lt_of_eq hw hnum.symm, id, (hretired w hw).trans hid, rfl⟩,
      htable.symm ▸ hj, htable.symm ▸ hocc⟩

/-- Every entry of a dump has the failed inserts of its call. -/
theorem insertFailed_entries (hs : d.found.Sound es) {e : CollectedEntry}
    (he : e ∈ (d.found.snapshotInlineDumpHandler d.call.env d.frid).1.map entryCb) :
    e.insertFailed = d.failures := by
  obtain ⟨m, hm, rfl⟩ := List.mem_map.mp he
  rw [failures]
  by_cases hadmits : d.found.Admits (.snapshotInlineDump d.call.env d.frid)
  · rw [if_pos hadmits]
    have hok := (Plugin.snapshotRequest_ok_iff_admits hs).mpr hadmits
    obtain ⟨desc, hdesc⟩ : ∃ desc, d.swap.1.descriptor = some desc :=
      ApiState.snapshotAndClear_descriptor hok
    obtain ⟨-, -, hnum, -, -, hfailed⟩ := Plugin.snapshotRequest_tables hs hadmits
    have hpos : 0 < d.swap.1.numRetired := lt_of_lt_of_eq d.found.api.nw_pos hnum.symm
    obtain ⟨t, j, -, hslot⟩ := (mem_messages hok hdesc hpos).mp hm
    rw [← hfailed desc hdesc]
    -- the message has the sums of the descriptor
    rw [Plugin.slotDetails] at hslot
    split at hslot
    · cases hslot
    · cases hslot
      rfl
  · rw [if_neg hadmits]
    have hne := fun hok => hadmits ((Plugin.snapshotRequest_ok_iff_admits hs).mp hok)
    rw [messages_failed hne] at hm
    obtain rfl := List.mem_singleton.mp hm
    rfl

/-- There are entries exactly when the call reports the rule. -/
theorem entries_ne_nil_iff (hs : d.found.Sound es) :
    (d.found.snapshotInlineDumpHandler d.call.env d.frid).1 ≠ [] ↔
      (d.found.Admits (.snapshotInlineDump d.call.env d.frid) → d.found.HasFlows d.frid) := by
  by_cases hadmits : d.found.Admits (.snapshotInlineDump d.call.env d.frid)
  · have hok := (Plugin.snapshotRequest_ok_iff_admits hs).mpr hadmits
    obtain ⟨desc, hdesc⟩ : ∃ desc, d.swap.1.descriptor = some desc :=
      ApiState.snapshotAndClear_descriptor hok
    obtain ⟨-, -, hnum, -, -, -⟩ := Plugin.snapshotRequest_tables hs hadmits
    have hpos : 0 < d.swap.1.numRetired := lt_of_lt_of_eq d.found.api.nw_pos hnum.symm
    rw [← counted_iff_hasFlows hs hadmits, Ne, List.eq_nil_iff_forall_not_mem, not_forall_not]
    constructor
    · rintro ⟨m, hm⟩ -
      obtain ⟨t, j, hcounted, -⟩ := (mem_messages hok hdesc hpos).mp hm
      exact ⟨t, j, hcounted⟩
    · intro h
      obtain ⟨t, j, hcounted⟩ := h hadmits
      exact ⟨_, (mem_messages hok hdesc hpos).mpr
        ⟨t, j, hcounted, by rw [Plugin.slotDetails, if_neg (not_not.mpr hcounted.2.2)]⟩⟩
  · have hne := fun hok => hadmits ((Plugin.snapshotRequest_ok_iff_admits hs).mp hok)
    rw [messages_failed hne]
    exact iff_of_true (List.cons_ne_nil _ _) fun h => absurd h hadmits

/-- The descriptor that a call leads to, by what the plugin is like in front of it. -/
theorem descriptor_iff (hs : d.found.Sound es)
    (hdesc : d.descriptor =
      (infmonVapiSnapshotInline d.call.memory d.call.env d.frid d.found).1.bind
        (rawDescriptor d.frid)) {id : FlowRuleId} {failed : UInt64} :
    (∃ desc, d.descriptor = some desc ∧ desc.flowRuleId = id ∧ desc.insertFailed = failed) ↔
      d.Reported ∧ d.frid = id ∧ d.failures = failed := by
  rw [Reported]
  cases hmemory : d.call.memory with
  | false =>
    rw [hmemory] at hdesc
    change d.descriptor = none at hdesc
    rw [hdesc]
    refine iff_of_false (fun h => ?_) fun h => Bool.noConfusion h.1.1
    obtain ⟨desc, hnone, -⟩ := h
    cases hnone
  | true =>
    rw [hmemory] at hdesc
    change d.descriptor = rawDescriptor d.frid
      ((d.found.snapshotInlineDumpHandler d.call.env d.frid).1.map entryCb) at hdesc
    have hnil : (d.found.snapshotInlineDumpHandler d.call.env d.frid).1.map entryCb ≠ [] ↔ _ :=
      List.map_eq_nil_iff.not.trans (entries_ne_nil_iff hs)
    have hfailed := fun e => insertFailed_entries (e := e) hs
    rw [hdesc, ← hnil]
    generalize (d.found.snapshotInlineDumpHandler d.call.env d.frid).1.map entryCb = entries at *
    cases entries with
    | nil => exact iff_of_false (fun ⟨desc, hnone, _⟩ => by cases hnone) fun h => h.1.2 rfl
    | cons first rest =>
      rw [rawDescriptor]
      constructor
      · rintro ⟨desc, hsome, rfl, rfl⟩
        cases hsome
        exact ⟨⟨rfl, List.cons_ne_nil _ _⟩, rfl, (hfailed first List.mem_cons_self).symm⟩
      · rintro ⟨-, rfl, rfl⟩
        exact ⟨_, rfl, rfl, hfailed first List.mem_cons_self⟩

end Frontend.RuleDump

end InFMon
