import InFMon.Api.Registry

/-! # Owners over the life of a context

Every counter table that the API or a snapshot creates has one owner until it is destroyed: a cell of
the context or a place in the ring. When the manager and the context are destroyed, nothing is left.
-/

namespace InFMon

open CountedLoop

/-! ### Places in the source's arrays -/

/-- The place exists: the arrays of the source have `INFMON_MAX_WORKERS` rows of
`INFMON_FLOW_RULE_SET_MAX` cells, and `INFMON_MAX_RETIRED` entries of `INFMON_MAX_WORKERS` pointers. -/
def Place.InBounds : Place → Prop
  | .cell w i => w < maxWorkers ∧ i < flowRuleSetMax
  | .ring r v => r < maxRetired ∧ v < maxWorkers

/-- The pending entries have no more tables than they have room for. -/
def SnapshotMgr.RingFits (mgr : SnapshotMgr) : Prop :=
  ∀ r, (mgr.retired r).pending = true → (mgr.retired r).numTables ≤ maxWorkers

namespace ApiState

variable {st : ApiState} {es : List RuleEntry}

/-- Every operation keeps the ring within its bounds. -/
theorem Aligned.step_ringFits (h : st.Aligned es) (hnw : st.nw ≤ maxWorkers)
    (hring : st.mgr.RingFits) (op : ApiOp) : (st.step op).2.mgr.RingFits := by
  cases op with
  | add rule id allocs =>
    rcases st.flowRuleAdd_cases h.arranged rule id allocs with ⟨-, heap, -, hst⟩ | ⟨set, s, -, -, heq⟩
    · rw [ApiState.step, hst]
      exact hring
    · rw [ApiState.step, heq]
      exact hring
  | del name =>
    rcases st.flowRuleDel_cases h name with ⟨heq, -⟩ | ⟨i, hi, set, -, -, heq⟩
    · rw [ApiState.step, heq]
      exact hring
    · rw [ApiState.step, heq]
      exact hring
  | snapshot id allocs now =>
    show (st.snapshotAndClear id allocs now).2.mgr.RingFits
    rcases st.snapshotAndClear_cases h.arranged id allocs now with ⟨-, heap, -, hst⟩ |
      ⟨i, hi, out, new, r, -, -, hs, -, -, -, hst⟩
    · rw [hst]
      exact hring
    · rw [hst]
      intro r' hr'
      change (out.mgr.retired r').pending = true at hr'
      show (out.mgr.retired r').numTables ≤ _
      rw [hs.mgr_eq] at hr' ⊢
      -- the swap fills entry `r` with one table for each worker
      by_cases hrr : r' = r
      · subst hrr
        simp only [Function.update_self]
        exact hnw
      · simp only [Function.update_of_ne hrr] at hr' ⊢
        exact hring r' hr'
  | poll now =>
    obtain ⟨hp, -⟩ := h.owning.poll now
    intro r hr
    have hkept := hp.kept r hr
    show ((st.mgr.retirePoll st.heap now).2.1.retired r).numTables ≤ _
    rw [hkept]
    exact hring r (by rw [← hkept]; exact hr)
  | epochs workerEpochs => exact hring
  | update table keyHash key pktBytes tick => exact hring

/-- Every pointer lies in the arrays of the source. -/
theorem Aligned.inBounds (h : st.Aligned es) (hnw : st.nw ≤ maxWorkers) (hring : st.mgr.RingFits)
    {p : Place} {t : ℕ} (ht : tableRefs st.ctx.tables st.mgr p = some t) : p.InBounds := by
  cases p with
  | cell w i =>
    change st.ctx.tables w i = some t at ht
    constructor
    · by_contra hw
      rw [h.row_of_ge (by omega)] at ht
      cases ht
    · by_contra hi
      have := h.rules.length_le
      rw [List.length_map] at this
      rw [h.table_of_ge (by omega)] at ht
      cases ht
  | ring r v =>
    obtain ⟨hr, hpending, hv, -⟩ := tableRefs_ring.mp ht
    exact ⟨hr, lt_of_lt_of_le hv (hring r hpending)⟩

/-! ### The end -/

/-- Destroying the tables in the first `m` cells of the first `n` rows. -/
theorem destroyRows_owned {mgr : SnapshotMgr} {tables : Tables} {heap : Heap}
    (howned : heap.Owned (tableRefs tables mgr)) (n m : ℕ) :
    let s := forUpTo n (fun w s => forUpTo m (fun i s => destroyCell i w s) s) (tables, heap)
    s.2.Owned (tableRefs s.1 mgr) ∧
      ∀ w i, s.1 w i = if w < n ∧ i < m then none else tables w i := by
  refine forUpTo_induct (fun k (s : Tables × Heap) => s.2.Owned (tableRefs s.1 mgr) ∧
    ∀ w i, s.1 w i = if w < k ∧ i < m then none else tables w i) ⟨howned, fun w i => by simp⟩ ?_
  rintro k - ⟨tables', heap'⟩ ⟨hown, htables⟩
  rw [forUpTo_destroyRow]
  constructor
  -- row `k` gives up its tables, to which nothing else refers
  · refine hown.drop (tables' k) (n := m) (fun i => .cell k i) (fun _ _ => rfl) ?_ ?_ rfl
      rfl
    · intro i _ j _ hij
      exact (Place.cell.inj hij).2
    · rintro (⟨w, i⟩ | ⟨r, v⟩) t
      · simp only [tableRefs, Place.cell.injEq]
        by_cases hwi : w = k ∧ i < m
        · rw [if_pos hwi]
          simp only [reduceCtorEq, false_iff, not_and, not_not]
          exact fun _ => ⟨i, hwi.2, hwi.1.symm, rfl⟩
        · rw [if_neg hwi]
          refine (and_iff_left ?_).symm
          rintro ⟨j, hj, rfl, rfl⟩
          exact hwi ⟨rfl, hj⟩
      · simp only [tableRefs, reduceCtorEq, and_false, exists_false, not_false_eq_true, and_true]
  · intro w i
    change ∀ w i, tables' w i = _ at htables
    simp only [htables]
    by_cases hwi : w = k ∧ i < m
    · rw [if_pos hwi, if_pos ⟨by omega, hwi.2⟩]
    · have hlt : (w < k ∧ i < m) ↔ (w < k + 1 ∧ i < m) := by omega
      simp only [if_neg hwi, hlt]

/-- `infmon_api_ctx_destroy` destroys the tables of all cells that exist. -/
theorem ctxDestroy_owned (st : ApiState)
    (howned : st.heap.Owned (tableRefs st.ctx.tables st.mgr)) :
    ∃ tables : Tables, st.ctxDestroy.heap.Owned (tableRefs tables st.mgr) ∧
      ∀ w i, tables w i =
        if w < maxWorkers ∧ i < flowRuleSetMax then none else st.ctx.tables w i := by
  obtain ⟨hown, htables⟩ := destroyRows_owned howned maxWorkers flowRuleSetMax
  unfold ctxDestroy
  -- the loop is not to be computed
  generalize forUpTo maxWorkers _ (st.ctx.tables, st.heap) = s at hown htables ⊢
  exact ⟨s.1, hown, htables⟩

/-- Destroying the manager and then the context leaves no table behind and destroys none twice. -/
theorem Aligned.end_empty (h : st.Aligned es) (hnw : st.nw ≤ maxWorkers)
    (hring : st.mgr.RingFits) :
    let mgr := st.mgr.destroy st.heap
    let ended := ({ st with mgr := mgr.1, heap := mgr.2 } : ApiState).ctxDestroy
    ended.heap.destroyed.Nodup ∧ ∀ t, ¬ ended.heap.Live t := by
  intro mgr ended
  obtain ⟨howning, hempty⟩ := h.owning.destroy
  obtain ⟨tables, howned, htables⟩ :=
    ctxDestroy_owned { st with mgr := mgr.1, heap := mgr.2 } howning.owned
  refine ⟨howned.nodup, fun t ht => ?_⟩
  obtain ⟨p, hp⟩ := howned.complete t ht
  cases p with
  | cell w i =>
    change tables w i = some t at hp
    rw [htables] at hp
    obtain ⟨hout, hcell⟩ := Option.ite_none_left_eq_some.mp hp
    exact hout (h.inBounds hnw hring (p := .cell w i) hcell)
  | ring r v =>
    obtain ⟨hr, hpending, -⟩ := tableRefs_ring.mp hp
    have hmem := SnapshotMgr.mem_pendingEntries.mpr ⟨hr, hpending⟩
    rw [show mgr.1.pendingEntries = ∅ from hempty] at hmem
    exact absurd hmem (Finset.notMem_empty r)

/-! ### Every run -/

/-- In every run the ring has room for the tables of all workers. -/
theorem Aligned.run_ringFits (h : st.Aligned []) (hnw : st.nw ≤ maxWorkers)
    (hring : st.mgr.RingFits) (ops : List ApiOp) : (st.run ops).mgr.RingFits := by
  induction ops using List.reverseRecOn with
  | nil => exact hring
  | append_singleton ops op ih =>
    obtain ⟨es, -, haligned, hsame⟩ := h.run ops
    rw [run_concat]
    exact haligned.step_ringFits (hsame ▸ hnw) ih op

/-- After every run of additions, deletions, snapshots and polls, a table is referred to from one
place in the arrays as long as it is alive, and from nowhere afterwards; no table has been destroyed
twice; `retired_count` counts the pending entries, so that below `INFMON_MAX_RETIRED` one is free; and
destroying the manager and the context then destroys every table that is left, once. -/
theorem every_table_has_one_owner {budget : ℕ} {set : FlowRuleSet}
    (hset : FlowRuleSet.create budget = some set) (numWorkers : ℕ) (graceNs : UInt64)
    {workerCount : ℕ} (hcount : workerCount ≤ maxWorkers) (hasStatsReg hasSnapMgr : Bool)
    (ops : List ApiOp) :
    let st := (ApiState.init set (.init numWorkers graceNs) workerCount hasStatsReg hasSnapMgr).run
      ops
    let ref := tableRefs st.ctx.tables st.mgr
    let mgr := st.mgr.destroy st.heap
    let ended := ({ st with mgr := mgr.1, heap := mgr.2 } : ApiState).ctxDestroy
    (∀ t, st.heap.Live t → ∃! p, ref p = some t) ∧
    (∀ p t, ref p = some t → st.heap.Live t ∧ p.InBounds) ∧
    st.heap.destroyed.Nodup ∧
    st.mgr.retiredCount = st.mgr.pendingEntries.card ∧ st.mgr.retiredCount ≤ maxRetired ∧
    (st.mgr.retiredCount < maxRetired → ∃ r, st.mgr.freeEntry = some r) ∧
    ended.heap.destroyed.Nodup ∧ ∀ t, ¬ ended.heap.Live t := by
  intro st ref mgr ended
  have hinit := aligned_init hset numWorkers graceNs workerCount hasStatsReg hasSnapMgr
  obtain ⟨es, -, h, hsame⟩ := hinit.run ops
  have hle : workersServed workerCount ≤ maxWorkers := by
    unfold workersServed
    split
    · exact hcount
    · decide
  have hnw : st.nw ≤ maxWorkers := le_of_eq_of_le hsame hle
  -- an entry of the ring never counts more tables than the array of an entry holds
  have hring : st.mgr.RingFits := hinit.run_ringFits hle (fun r hr => by cases hr) ops
  have howned := h.owning.owned
  refine ⟨fun t ht => howned.existsUnique ht, fun p t hp => ⟨howned.sound p t hp, ?_⟩, howned.nodup,
    h.owning.count, h.owning.retiredCount_le, fun hlt => ?_, h.end_empty hnw hring⟩
  · exact h.inBounds hnw hring hp
  · exact SnapshotMgr.freeEntry_isSome (h.owning.count ▸ hlt)

/-- `twoRules` and a snapshot of the second rule: its old tables are in the ring. -/
def twoRulesSnapshot : List ApiOp :=
  twoRules ++ [.snapshot ⟨0, 2⟩ (fun _ => ⟨true, fun _ => 0⟩) 5]

/-- The table that worker 0 had for the second rule of `twoRules` is in one place. -/
theorem retired_table_has_one_owner : ∃ set, FlowRuleSet.create 64 = some set ∧
    let st := (ApiState.init set (.init 2 0) 2 true true).run twoRulesSnapshot
    ∃! p, tableRefs st.ctx.tables st.mgr p = some 2 := by
  refine ⟨_, rfl, ?_⟩
  intro st
  have hlive : st.heap.Live 2 := by
    constructor
    · decide +kernel
    · decide +kernel
  exact (every_table_has_one_owner (show FlowRuleSet.create 64 = some _ from rfl) 2 0
    (show 2 ≤ maxWorkers by decide) true true twoRulesSnapshot).1 2 hlive

end ApiState

end InFMon
