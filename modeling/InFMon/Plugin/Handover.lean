import InFMon.CounterTable.Accounting
import InFMon.Plugin.DumpLedger

/-! # How a dump takes over its tables

A request to add a rule creates tables. A dump takes the tables of its rule from the context and walks
every slot of each of them once, after the publication. No other table changes hands. -/

namespace InFMon

open CounterTable

/-! ### The walk -/

namespace MainStep

/-- The slot of a step that sends. -/
def place? : MainStep → Option (ℕ × ℕ)
  | .sendSlot _ t r => some (t, r)
  | _ => none

/-- A retired table is awaited by the steps that place it. -/
theorem awaits_iff {steps : List MainStep} {t r : ℕ} :
    Awaits steps t r ↔ (t, r) ∈ steps.filterMap place? := by
  rw [List.mem_filterMap]
  constructor
  · rintro ⟨desc, hin⟩
    exact ⟨_, hin, rfl⟩
  · rintro ⟨step, hin, hplace⟩
    cases step with
    | sendSlot desc t' r' =>
      cases hplace
      exact ⟨desc, hin⟩
    | _ => cases hplace

end MainStep

namespace Plugin

/-- A publication sends nothing. -/
theorem sendSlot_not_mem_publishSteps {nw : ℕ} {desc : StatsDescriptor} {t r : ℕ} :
    MainStep.sendSlot desc t r ∉ publishSteps nw := by
  simp [publishSteps]

/-- Publishing places no retired table. -/
theorem places_publishSteps (nw : ℕ) : (publishSteps nw).filterMap MainStep.place? = [] := by
  refine List.filterMap_eq_nil_iff.mpr fun step hstep => ?_
  cases step with
  | sendSlot desc t r => exact absurd hstep sendSlot_not_mem_publishSteps
  | _ => rfl

variable {heap : Heap} {reply : ApiSnapReply} {desc : StatsDescriptor}

/-- The steps of a walk, for a reply with tables. -/
theorem walkSteps_eq (hok : reply.result = .ok) (hdesc : reply.descriptor = some desc)
    (hpos : reply.numRetired ≠ 0) :
    walkSteps heap reply = (List.range reply.numRetired).flatMap fun w =>
      match reply.retiredTables w with
      | none => []
      | some table =>
        (List.range (heap.table table).numSlots).map fun slot => .sendSlot desc table slot := by
  rw [walkSteps, hdesc]
  exact if_neg (by simp [hok, hpos])

/-- A walk gets to every slot of every table that it is given. -/
theorem mem_walkSteps_iff (hok : reply.result = .ok) (hdesc : reply.descriptor = some desc)
    (hpos : reply.numRetired ≠ 0) {desc' : StatsDescriptor} {t r : ℕ} :
    MainStep.sendSlot desc' t r ∈ walkSteps heap reply ↔ desc' = desc ∧
      (∃ w < reply.numRetired, reply.retiredTables w = some t) ∧ r < (heap.table t).numSlots := by
  rw [walkSteps_eq hok hdesc hpos, List.mem_flatMap]
  constructor
  · rintro ⟨w, hw, hin⟩
    cases htable : reply.retiredTables w with
    | none =>
      rw [htable] at hin
      cases hin
    | some table =>
      rw [htable] at hin
      obtain ⟨slot, hslot, heq⟩ := List.mem_map.mp hin
      cases heq
      exact ⟨rfl, ⟨w, List.mem_range.mp hw, htable⟩, List.mem_range.mp hslot⟩
  · rintro ⟨rfl, ⟨w, hw, htable⟩, hr⟩
    refine ⟨w, List.mem_range.mpr hw, ?_⟩
    rw [htable]
    exact List.mem_map.mpr ⟨r, List.mem_range.mpr hr, rfl⟩

/-- A walk through different tables gets to every slot once. -/
theorem nodup_places_walkSteps (hok : reply.result = .ok) (hdesc : reply.descriptor = some desc)
    (hpos : reply.numRetired ≠ 0) (hinj : ∀ v w t, reply.retiredTables v = some t →
      reply.retiredTables w = some t → v = w) :
    ((walkSteps heap reply).filterMap MainStep.place?).Nodup := by
  have hof : ∀ v t r, (t, r) ∈ List.filterMap MainStep.place?
      (match reply.retiredTables v with
      | none => []
      | some table => (List.range (heap.table table).numSlots).map fun slot =>
        .sendSlot desc table slot) → reply.retiredTables v = some t := by
    intro v t r hin
    split at hin
    · cases hin
    · rename_i table htable
      obtain ⟨slot, -, heq⟩ := List.mem_filterMap.mp (List.filterMap_map .. ▸ hin)
      cases heq
      exact htable
  rw [walkSteps_eq hok hdesc hpos, List.filterMap_flatMap, List.nodup_flatMap]
  constructor
  · intro w _
    split
    · exact List.nodup_nil
    · rw [List.filterMap_map]
      refine List.Nodup.filterMap (fun r r' b hb hb' => ?_) List.nodup_range
      cases hb
      cases hb'
      rfl
  · refine List.Pairwise.imp (fun hne => ?_) List.nodup_range
    rintro ⟨t, r⟩ hv hw
    exact hne (hinj _ _ t (hof _ t r hv) (hof _ t r hw))

/-! ### What changes hands -/

/-- What a request that deletes no rule does to the tables. Those on the heap stay as they are, and new
ones are empty. A table leaves the context only for the walk of its dump, which gets to every slot of
it once. -/
structure Handed (p q : Plugin) (steps : List MainStep) : Prop where
  live : ∀ t, p.heap.Live t → q.heap.Live t ∧ q.heap.table t = p.heap.table t
  fresh : ∀ t, q.heap.Live t → ¬ p.heap.Live t → (q.heap.table t).Empty ∧ (q.heap.table t).Sized
  ids : ∀ i < p.api.ruleSet.count, q.api.ctx.flowRuleIds i = p.api.ctx.flowRuleIds i
  count : p.api.ruleSet.count ≤ q.api.ruleSet.count
  served : ∃ id, ∀ w i t, q.api.ctx.tables w i = some t → p.api.ctx.tables w i = some t ∨
    p.heap.next ≤ t ∧ q.api.ctx.flowRuleIds i = id
  kept : ∀ t, p.Serves t → ∀ r < (p.heap.table t).numSlots,
    q.Serves t ∨ MainStep.Awaits steps t r
  awaited : ∀ desc t r, MainStep.sendSlot desc t r ∈ steps → ¬ q.Serves t ∧
    r < (p.heap.table t).numSlots ∧
      ∃ w i, p.api.ctx.tables w i = some t ∧ p.api.ctx.flowRuleIds i = desc.flowRuleId
  once : (steps.filterMap MainStep.place?).Nodup

variable {p q : Plugin} {es : List RuleEntry} {steps : List MainStep}

/-- Setting up the context first makes no difference. -/
theorem Handed.of_ensure (h : p.Sound es) (memory : Bool)
    (hq : Handed (p.apiCtxEnsure memory) q steps) : Handed p q steps := by
  obtain ⟨-, htables, hheap⟩ := h.ensure_tables memory
  rcases apiCtxEnsure_cases memory p with heq | ⟨hready, -⟩
  · rwa [heq] at hq
  · -- there is no rule yet
    obtain ⟨rfl, -⟩ := h.fresh hready
    have hcount : p.api.ruleSet.count = 0 := h.aligned.count_eq
    have hnone : ∀ w i t, p.api.ctx.tables w i ≠ some t := by
      intro w i t ht
      rw [h.aligned.table_of_ge (Nat.zero_le i)] at ht
      cases ht
    refine { live := hheap ▸ hq.live, fresh := hheap ▸ hq.fresh, ids := ?_, count := ?_,
             served := ?_, kept := ?_, awaited := ?_, once := hq.once }
    · intro i hi
      rw [hcount] at hi
      exact absurd hi (Nat.not_lt_zero i)
    · rw [hcount]
      exact Nat.zero_le _
    · rw [← htables, ← hheap]
      exact hq.served
    · rintro t ⟨w, i, ht⟩
      exact absurd ht (hnone w i t)
    · intro desc t r hin
      obtain ⟨-, -, w, i, ht, -⟩ := hq.awaited desc t r hin
      rw [htables] at ht
      exact absurd ht (hnone w i t)

/-- An operation that fails hands over nothing. -/
theorem Handed.of_undone {heap : Heap} (hundone : p.heap.Undone heap)
    (hapi : q.api = { p.api with heap := heap }) : Handed p q [] where
  live t ht := by
    rw [Plugin.heap, hapi]
    exact ⟨(hundone.live_iff t).mpr ht, hundone.table_eq t ht.1⟩
  fresh t ht hnot := by
    rw [Plugin.heap, hapi] at ht
    exact absurd ((hundone.live_iff t).mp ht) hnot
  ids i _ := by rw [hapi]
  count := by rw [hapi]
  served := ⟨.zero, fun w i t ht => Or.inl (by rwa [hapi] at ht)⟩
  kept t ht r _ := Or.inl (by rwa [Serves, hapi])
  awaited _ _ _ hin := absurd hin List.not_mem_nil
  once := List.nodup_nil

/-- A new table for a rule of the context. -/
theorem sized_of_registered {t : CounterTable} {rule : FlowRule} (hreg : rule.Registered)
    (hg : t.Geometry) (hempty : t.Empty) (hslots : t.numSlots = nextPow2 rule.maxKeys)
    (hcap : t.keyArenaCapacity = t.numSlots * rule.keyWidth) : t.Empty ∧ t.Sized := by
  refine ⟨hempty, hempty.settled hg, ?_⟩
  rw [hcap, hslots]
  exact hreg.capacity_le

/-! ### Adding a rule -/

/-- The tables of a rule that is added are new, and no other table is touched. -/
theorem handed_added (h : q.Sound es) {rule : FlowRule} {set : FlowRuleSet} {s : Tables × Heap}
    (hset : set.Holds (es.map RuleEntry.rule ++ [rule.register]))
    (hs : Added q.api.ctx.tables q.api.heap es.length rule.register q.api.nw s)
    (id : FlowRuleId) {q' : Plugin}
    (hq' : q'.api = { q.api with
      ctx := { q.api.ctx with
        tables := s.1
        flowRuleIds := Function.update q.api.ctx.flowRuleIds es.length id }
      ruleSet := set
      heap := s.2 }) : Handed q q' (publishSteps q'.api.nw) := by
  have hcount := h.aligned.count_eq
  have hreg : rule.register.Registered :=
    hset.registered _ (List.mem_append_right _ List.mem_cons_self)
  have hheap : q'.heap = s.2 := congrArg ApiState.heap hq'
  have htables : q'.api.ctx.tables = s.1 := by rw [hq']
  have hdestroyed : ∀ t, t ∈ s.2.destroyed ↔ t ∈ q.heap.destroyed := by
    rw [hs.destroyed]
    exact fun t => Iff.rfl
  have hnext : s.2.next = q.heap.next + q.api.nw := hs.next
  refine { live := ?_, fresh := ?_, ids := ?_, count := ?_, served := ?_, kept := ?_,
           awaited := ?_, once := ?_ }
  · intro t ht
    rw [hheap]
    refine ⟨⟨?_, (hdestroyed t).not.mpr ht.2⟩, hs.table_eq t ht.1⟩
    exact hnext ▸ Nat.lt_of_lt_of_le ht.1 (Nat.le_add_right _ _)
  · intro t ht hnot
    rw [hheap] at ht ⊢
    have hge : q.heap.next ≤ t := by
      by_contra hlt
      exact hnot ⟨Nat.lt_of_not_le hlt, (hdestroyed t).not.mp ht.2⟩
    obtain ⟨v, rfl⟩ := Nat.exists_eq_add_of_le hge
    have hv : v < q.api.nw := Nat.lt_of_add_lt_add_left (hnext ▸ ht.1)
    obtain ⟨hg, hfresh, hslots, hcap⟩ := hs.new_table v hv
    exact sized_of_registered hreg hg hfresh.toEmpty hslots hcap
  · intro i hi
    rw [hq']
    exact Function.update_of_ne (hcount ▸ hi).ne _ _
  · rw [hq']
    show q.api.ruleSet.count ≤ set.count
    rw [hset.count, hcount]
    simp
  · refine ⟨id, fun w i t ht => ?_⟩
    rw [htables, hs.tables_eq] at ht
    dsimp only at ht
    split at ht
    · -- a cell of the new rule
      rename_i hnew
      obtain rfl := Option.some.inj ht
      refine Or.inr ⟨Nat.le_add_right _ _, ?_⟩
      rw [hq', hnew.2]
      exact Function.update_self ..
    · exact Or.inl ht
  · -- the cells of the new rule held no table
    rintro t ⟨w, i, ht⟩ r -
    refine Or.inl ⟨w, i, ?_⟩
    rw [htables, hs.tables_eq]
    dsimp only
    rw [if_neg]
    · exact ht
    · rintro ⟨-, rfl⟩
      rw [h.aligned.table_of_ge (Nat.le_refl _)] at ht
      cases ht
  · exact fun desc t r hin => absurd hin sendSlot_not_mem_publishSteps
  · exact places_publishSteps _ ▸ List.nodup_nil

/-- A request to add a rule creates its tables. -/
theorem handed_add (h : p.Sound es) (env : ApiEnv) (mp : FlowRuleAddMsg) :
    Handed p (p.operate (.flowRuleAdd env mp)).1 (p.operate (.flowRuleAdd env mp)).2 := by
  refine Handed.of_ensure h env.memory ?_
  have hq := h.ensure env.memory
  rw [operate]
  dsimp only
  generalize p.apiCtxEnsure env.memory = q at hq
  cases hready : q.ready with
  | false => exact .of_undone (Heap.Undone.refl _) rfl
  | true =>
    simp only [if_true]
    rcases q.api.flowRuleAdd_cases hq.aligned.arranged (messageRule mp)
      (some (newRuleId env q.idSeq)) env.allocs with ⟨herr, heap, hundone, hst⟩ |
      ⟨set, s, hset, hs, heq⟩
    · rw [if_neg herr]
      exact .of_undone hundone hst
    · rw [heq]
      exact handed_added hq hset hs _ rfl

/-! ### Dumping a rule -/

/-- No table is in two cells of the context. -/
theorem Sound.cell_unique (h : q.Sound es) {v j w k t : ℕ} (hv : q.api.ctx.tables v j = some t)
    (hw : q.api.ctx.tables w k = some t) : v = w ∧ j = k := by
  have hcell := h.aligned.owning.owned.injective (.cell v j) (.cell w k) t hv hw
  cases hcell
  exact ⟨rfl, rfl⟩

section Swap

variable {i : ℕ} {hi : i < es.length} {out : SnapOutcome} {new : ℕ → Option ℕ} {place : ℕ}
  {now : UInt64}

/-- The steps behind a swap publish, and then get to every slot of the tables that were swapped out. -/
theorem sendSlot_mem_dumpSteps_iff (h : q.Sound es)
    (hs : Snapped q.api.mgr q.api.ctx.tables q.api.heap q.api.nw i es[i].rule.keyWidth now out new
      place)
    (hok : reply.result = .ok) (hdesc : reply.descriptor = some desc)
    (htables : reply.retiredTables = out.reply.retiredTables)
    (hnum : reply.numRetired = out.reply.numRetired) (desc' : StatsDescriptor) (t r : ℕ) :
    MainStep.sendSlot desc' t r ∈
      publishSteps (q.api.swapped out).nw ++ walkSteps (q.api.swapped out).heap reply ↔
      desc' = desc ∧ (∃ w < q.api.nw, q.api.ctx.tables w i = some t) ∧
        r < (q.heap.table t).numSlots := by
  have hpos : reply.numRetired ≠ 0 := by
    rw [hnum, hs.numRetired]
    exact q.api.nw_pos.ne'
  have hold : ∀ {w t : ℕ}, q.api.ctx.tables w i = some t →
      (q.api.swapped out).heap.table t = q.heap.table t := fun {w t} ht =>
    hs.table_eq t (h.aligned.owning.made w i t ht).1
  rw [List.mem_append, or_iff_right sendSlot_not_mem_publishSteps,
    mem_walkSteps_iff hok hdesc hpos, hnum, hs.numRetired, htables, hs.retiredTables]
  refine and_congr_right fun _ => ⟨?_, ?_⟩
  · rintro ⟨⟨w, hw, ht⟩, hr⟩
    have hcell := (if_pos hw).symm.trans ht
    exact ⟨⟨w, hw, hcell⟩, by rwa [hold hcell] at hr⟩
  · rintro ⟨⟨w, hw, hcell⟩, hr⟩
    exact ⟨⟨w, hw, (if_pos hw).trans hcell⟩, by rwa [hold hcell]⟩

/-- A table that a swap has created. -/
theorem swapped_fresh (h : q.Sound es)
    (hs : Snapped q.api.mgr q.api.ctx.tables q.api.heap q.api.nw i es[i].rule.keyWidth now out new
      place) {t : ℕ} (ht : out.heap.Live t) (hnot : ¬ q.heap.Live t) :
    (out.heap.table t).Empty ∧ (out.heap.table t).Sized := by
  have hdestroyed : t ∉ q.heap.destroyed := hs.destroyed ▸ ht.2
  have hge : q.heap.next ≤ t := by
    by_contra hlt
    exact hnot ⟨Nat.lt_of_not_le hlt, hdestroyed⟩
  obtain ⟨v, -, hv⟩ := hs.recorded t hge ht.1
  obtain ⟨-, -, old, hold, hg, hempty, hslots, hcap, -⟩ := hs.new_table v t hv
  have hreg := h.aligned.rules.registered _ (List.mem_map.mpr ⟨_, List.getElem_mem hi, rfl⟩)
  have hserved := h.aligned.served _ (List.getElem_mem hi)
  have hslots' := hserved.numSlots v old (h.aligned.table_eq hi v ▸ hold)
  refine sized_of_registered hreg hg hempty (hslots.trans hslots') ?_
  rw [← hslots] at hcap
  exact hcap

/-- A swap hands the tables of the rule to the walk and no other. -/
theorem handed_swapped (h : q.Sound es)
    (hs : Snapped q.api.mgr q.api.ctx.tables q.api.heap q.api.nw i es[i].rule.keyWidth now out new
      place)
    (hok : reply.result = .ok) (hdesc : reply.descriptor = some desc)
    (hid : desc.flowRuleId = es[i].id) (htables : reply.retiredTables = out.reply.retiredTables)
    (hnum : reply.numRetired = out.reply.numRetired) {q' : Plugin}
    (hq' : q'.api = q.api.swapped out) :
    Handed q q' (publishSteps (q.api.swapped out).nw ++
      walkSteps (q.api.swapped out).heap reply) := by
  -- the dump walks the tables that the swap has retired, slot by slot
  have hsteps := sendSlot_mem_dumpSteps_iff h hs hok hdesc htables hnum
  have hheap : q'.heap = out.heap := congrArg ApiState.heap hq'
  have hcells : q'.api.ctx.tables = out.tables := by rw [hq', ApiState.swapped]
  refine { live := ?_, fresh := ?_, ids := ?_, count := ?_, served := ?_, kept := ?_,
           awaited := ?_, once := ?_ }
  · intro t ht
    rw [hheap]
    refine ⟨⟨Nat.lt_of_lt_of_le ht.1 hs.next_le, ?_⟩, hs.table_eq t ht.1⟩
    rw [hs.destroyed]
    exact ht.2
  · intro t ht hnot
    rw [hheap] at ht ⊢
    exact swapped_fresh h hs ht hnot
  · exact fun _ _ => by rw [hq', ApiState.swapped]
  · rw [hq', ApiState.swapped]
  · refine ⟨es[i].id, fun w j t ht => ?_⟩
    rw [hcells, hs.tables_eq] at ht
    split at ht
    · rename_i hnew
      refine Or.inr ⟨(hs.new_table w t ht).1, ?_⟩
      rw [hq', hnew.2]
      exact h.aligned.id_eq hi
    · exact Or.inl ht
  · -- a table stays in its cell unless it is the rule's
    rintro t ⟨w, j, ht⟩ r hr
    by_cases hcell : w < q.api.nw ∧ j = i
    · obtain ⟨hw, rfl⟩ := hcell
      exact Or.inr ⟨desc, (hsteps desc t r).mpr ⟨rfl, ⟨w, hw, ht⟩, hr⟩⟩
    · refine Or.inl ⟨w, j, ?_⟩
      rw [hcells, hs.tables_eq, if_neg hcell]
      exact ht
  · intro desc' t r hin
    obtain ⟨rfl, ⟨w, hw, ht⟩, hr⟩ := (hsteps desc' t r).mp hin
    refine ⟨?_, hr, w, i, ht, ?_⟩
    · rintro ⟨v, j, hv⟩
      rw [hcells, hs.tables_eq] at hv
      split at hv
      · -- a new table is none of those before
        exact absurd (h.aligned.owning.made w i t ht).1 (Nat.not_lt.mpr (hs.new_table v t hv).1)
      · rename_i hcell
        obtain ⟨rfl, rfl⟩ := h.cell_unique hv ht
        exact hcell ⟨hw, rfl⟩
    · rw [hid]
      exact h.aligned.id_eq hi
  · rw [List.filterMap_append, places_publishSteps, List.nil_append]
    have hpos : reply.numRetired ≠ 0 := by
      rw [hnum, hs.numRetired]
      exact q.api.nw_pos.ne'
    have hcell : ∀ w t, reply.retiredTables w = some t → q.api.ctx.tables w i = some t := by
      intro w t hw
      rw [htables, hs.retiredTables] at hw
      exact (Option.ite_none_right_eq_some.mp hw).2
    exact nodup_places_walkSteps hok hdesc hpos fun v w t hv hw =>
      (h.cell_unique (hcell v t hv) (hcell w t hw)).1

end Swap

/-- A dump takes over the tables of its rule. -/
theorem handed_dump (h : p.Sound es) (env : ApiEnv) (id : FlowRuleId) :
    Handed p (p.operate (.snapshotInlineDump env id)).1
      (p.operate (.snapshotInlineDump env id)).2 := by
  refine Handed.of_ensure h env.memory ?_
  have hq := h.ensure env.memory
  rw [operate]
  dsimp only
  generalize p.apiCtxEnsure env.memory = q at hq
  rcases q.api.snapshotAndClear_cases hq.aligned.arranged id env.allocs env.now with
    ⟨herr, heap, hundone, hst⟩ | ⟨i, hi, out, new, place, hid, -, hs, hok, htables, hnum, hst⟩
  · have hwalk : q.walk (.snapshotInlineDump env id) = [] := walk_failed herr
    change walkSteps (q.api.snapshotAndClear id env.allocs env.now).2.heap
      (q.api.snapshotAndClear id env.allocs env.now).1 = [] at hwalk
    rw [if_neg herr, hwalk]
    exact .of_undone hundone hst
  · obtain ⟨desc, hdesc, hdescId⟩ := ApiState.snapshotAndClear_describes hok
    rw [if_pos hok]
    generalize (q.api.snapshotAndClear id env.allocs env.now).1 = reply at hok htables hnum hdesc
    rw [hst]
    exact handed_swapped hq hs hok hdesc (hdescId.trans hid.symm) htables hnum rfl

end Plugin

end InFMon
