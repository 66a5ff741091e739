import InFMon.Api.Alignment

/-! # The registry

What the API is for: a list of rules, each with the id it was added with and a counter table for
every worker. The registry says how each operation changes this list; along every run the arrays of
the context hold the registry's list. -/

namespace InFMon

open DenseArray

/-! ### The registry -/

/-- What an operation with its result does to the registry. -/
inductive RegistryStep : List RuleEntry → ApiOp → ApiResult → List RuleEntry → Prop
  | failed {es : List RuleEntry} {op : ApiOp} {result : ApiResult} (h : result ≠ .ok) :
    RegistryStep es op result es
  | add {es : List RuleEntry} (rule : FlowRule) (id : Option FlowRuleId) (allocs : ℕ → Alloc)
      (tables : ℕ → Option ℕ) :
    RegistryStep es (.add rule id allocs) .ok (es ++ [⟨rule.register, id.getD .zero, tables⟩])
  | del {es : List RuleEntry} (i : ℕ) (hi : i < es.length) :
    RegistryStep es (.del es[i].rule.name) .ok (es.eraseIdx i)
  | snapshot {es : List RuleEntry} (i : ℕ) (hi : i < es.length) (allocs : ℕ → Alloc)
      (now : UInt64) (tables : ℕ → Option ℕ)
      (hfirst : ∀ j (hj : j < es.length), j < i → es[j].id ≠ es[i].id) :
    RegistryStep es (.snapshot es[i].id allocs now) .ok (es.set i (es[i].swap tables))
  | poll {es : List RuleEntry} (now : UInt64) : RegistryStep es (.poll now) .ok es
  | epochs {es : List RuleEntry} (workerEpochs : ℕ → UInt64) :
    RegistryStep es (.epochs workerEpochs) .ok es
  | update {es : List RuleEntry} (table : ℕ) (keyHash : UInt64) (key : Key)
      (pktBytes tick : UInt64) : RegistryStep es (.update table keyHash key pktBytes tick) .ok es

/-- The registry after a run, given by the operations and their results. -/
inductive RegistryRun : List (ApiOp × ApiResult) → List RuleEntry → Prop
  | start : RegistryRun [] []
  | step {log : List (ApiOp × ApiResult)} {es es' : List RuleEntry} {op : ApiOp}
      {result : ApiResult} (hrun : RegistryRun log es) (hstep : RegistryStep es op result es') :
    RegistryRun (log ++ [(op, result)]) es'

namespace ApiState

variable {st : ApiState} {es : List RuleEntry}

/-! ### The context holds the registry -/

/-- At the start there are no entries. -/
theorem aligned_init {budget : ℕ} {set : FlowRuleSet} (hset : FlowRuleSet.create budget = some set)
    (numWorkers : ℕ) (graceNs : UInt64) (workerCount : ℕ) (hasStatsReg hasSnapMgr : Bool) :
    (ApiState.init set (.init numWorkers graceNs) workerCount hasStatsReg hasSnapMgr).Aligned [] where
  rules := .of_create hset
  ids := rfl
  tables _ := rfl
  served e he := absurd he List.not_mem_nil
  owning :=
    { owned :=
        { sound := fun p t hp => by
            cases p with
            | cell w i => cases hp
            | ring r v => exact absurd (tableRefs_ring.mp hp).2.1 Bool.false_ne_true
          injective := fun p q t hp _ => by
            cases p with
            | cell w i => cases hp
            | ring r v => exact absurd (tableRefs_ring.mp hp).2.1 Bool.false_ne_true
          complete := fun t ht => absurd ht.1 (Nat.not_lt_zero t)
          nodup := List.nodup_nil
          created := fun t ht => absurd ht List.not_mem_nil }
      count := rfl
      geometry := fun w i t ht => by cases ht }

/-- Every operation does to the context what it does to the registry. -/
theorem Aligned.step (h : st.Aligned es) (op : ApiOp) :
    ∃ es', RegistryStep es op (st.step op).1 es' ∧ (st.step op).2.Aligned es' ∧
      (st.step op).2.nw = st.nw := by
  cases op with
  | add rule id allocs =>
    rcases st.flowRuleAdd_cases h.arranged rule id allocs with ⟨herr, heap, hundone, hst⟩ |
      ⟨set, s, hset, hadded, heq⟩
    · refine ⟨es, .failed herr, ?_⟩
      rw [ApiState.step, hst]
      exact ⟨h.undone hundone, rfl⟩
    · rw [ApiState.step, heq]
      exact ⟨_, .add rule id allocs _, h.added hset hadded, rfl⟩
  | del name =>
    rcases st.flowRuleDel_cases h name with ⟨heq, -⟩ | ⟨i, hi, set, rfl, hset, heq⟩
    · rw [ApiState.step, heq]
      exact ⟨es, .failed (by simp), h, rfl⟩
    · rw [ApiState.step, heq]
      exact ⟨_, .del i hi, h.deleted hset, rfl⟩
  | snapshot id allocs now =>
    rcases st.snapshotAndClear_cases h.arranged id allocs now with ⟨herr, heap, hundone, hst⟩ |
      ⟨i, hi, out, new, r, rfl, hfirst, hs, hok, -, -, hst⟩
    · refine ⟨es, .failed herr, ?_⟩
      show (st.snapshotAndClear id allocs now).2.Aligned es ∧
        (st.snapshotAndClear id allocs now).2.nw = st.nw
      rw [hst]
      exact ⟨h.undone hundone, rfl⟩
    -- the first rule with this id takes the new tables, the others stay
    · refine ⟨es.set i (es[i].swap new), ?_, ?_⟩
      · show RegistryStep es _ (st.snapshotAndClear es[i].id allocs now).1.result _
        rw [hok]
        exact .snapshot i hi allocs now new fun j _ hji => hfirst j hji
      · show (st.snapshotAndClear es[i].id allocs now).2.Aligned _ ∧
          (st.snapshotAndClear es[i].id allocs now).2.nw = st.nw
        rw [hst]
        exact ⟨h.snapped hi hs, rfl⟩
  | poll now => exact ⟨es, .poll now, h.polled now, rfl⟩
  | epochs workerEpochs => exact ⟨es, .epochs workerEpochs, h.bumped workerEpochs, rfl⟩
  | update table keyHash key pktBytes tick =>
    exact ⟨es, .update table keyHash key pktBytes tick, h.updated table keyHash key pktBytes tick,
      rfl⟩

/-- After every run the context holds the registry. -/
theorem Aligned.run (h : st.Aligned []) (ops : List ApiOp) :
    ∃ es, RegistryRun (st.log ops) es ∧ (st.run ops).Aligned es ∧ (st.run ops).nw = st.nw := by
  induction ops using List.reverseRecOn with
  | nil => exact ⟨[], .start, h, rfl⟩
  | append_singleton ops op ih =>
    obtain ⟨es, hrun, haligned, hnw⟩ := ih
    obtain ⟨es', hstep, haligned', hnw'⟩ := haligned.step op
    rw [log_concat, run_concat]
    exact ⟨es', hrun.step hstep, haligned', hnw'.trans hnw⟩

/-- An operation that fails may have created and destroyed tables, and has changed nothing else. -/
theorem Aligned.step_failed (h : st.Aligned es) {op : ApiOp} (herr : (st.step op).1 ≠ .ok) :
    ∃ heap, (st.step op).2 = { st with heap := heap } := by
  cases op with
  | add rule id allocs =>
    rcases st.flowRuleAdd_cases h.arranged rule id allocs with ⟨-, heap, -, hst⟩ | ⟨set, s, -, -, heq⟩
    · exact ⟨heap, hst⟩
    · rw [ApiState.step, heq] at herr
      exact absurd rfl herr
  | del name =>
    rcases st.flowRuleDel_cases h name with ⟨heq, -⟩ | ⟨i, hi, set, -, -, heq⟩
    · rw [ApiState.step, heq]
      exact ⟨st.heap, rfl⟩
    · rw [ApiState.step, heq] at herr
      exact absurd rfl herr
  | snapshot id allocs now =>
    rcases st.snapshotAndClear_cases h.arranged id allocs now with ⟨-, heap, -, hst⟩ |
      ⟨i, hi, out, new, r, -, -, -, hok, -⟩
    · exact ⟨heap, hst⟩
    · exact absurd hok herr
  | poll now => exact absurd rfl herr
  | epochs workerEpochs => exact absurd rfl herr
  | update table keyHash key pktBytes tick => exact absurd rfl herr

/-- A deletion moves everything that belongs to the rules behind the deleted one, in all three arrays
and without a change to the tables themselves. -/
theorem Aligned.del_moves (h : st.Aligned es) {name : List UInt8}
    (hok : (st.flowRuleDel name).1 = .ok) :
    let st' := (st.flowRuleDel name).2
    ∃ i < st.ruleSet.count, (st.ruleSet.rules i).name = name ∧
      (∀ j, st'.ruleSet.rules j = st.ruleSet.rules (skip i j) ∧
        st'.ctx.flowRuleIds j = st.ctx.flowRuleIds (skip i j) ∧
        ∀ w, st'.ctx.tables w j = st.ctx.tables w (skip i j)) ∧
      st'.heap.table = st.heap.table := by
  intro st'
  rcases st.flowRuleDel_cases h name with ⟨heq, -⟩ | ⟨i, hi, set, hname, hset, heq⟩
  · rw [heq] at hok
    cases hok
  · have hst' : st' = st.without i set := congrArg Prod.snd heq
    rw [hst', h.count_eq]
    refine ⟨i, hi, h.rule_eq hi ▸ hname, fun j => ⟨?_, rfl, fun w => rfl⟩, rfl⟩
    show set.rules j = _
    rw [hset.rules, ofList_eraseIdx_apply, h.rules.rules]

/-- When its id is not zero and no other rule has it, a snapshot by id retires the tables of that
rule, and leaves the cells of all other rules and the other ring entries alone. -/
theorem Aligned.snapshot_retires (h : st.Aligned es) {i : ℕ} (hi : i < es.length)
    (hunique : ∀ j (hj : j < es.length), es[j].id = es[i].id → j = i) {allocs : ℕ → Alloc}
    {now : UInt64} (hok : (st.snapshotAndClear es[i].id allocs now).1.result = .ok) :
    let reply := (st.snapshotAndClear es[i].id allocs now).1
    let st' := (st.snapshotAndClear es[i].id allocs now).2
    let retired := fun w => if w < st.nw then st.ctx.tables w i else none
    reply.retiredTables = retired ∧ reply.numRetired = st.nw ∧
      (∀ w j, j ≠ i → st'.ctx.tables w j = st.ctx.tables w j) ∧
      ∃ r < maxRetired, (st.mgr.retired r).pending = false ∧
        (st'.mgr.retired r).pending = true ∧ (st'.mgr.retired r).tables = retired ∧
        (st'.mgr.retired r).numTables = st.nw ∧
        ∀ r' ≠ r, st'.mgr.retired r' = st.mgr.retired r' := by
  intro reply st' retired
  rcases st.snapshotAndClear_cases h.arranged es[i].id allocs now with ⟨herr, -⟩ |
    ⟨k, hk, out, new, r, hid, -, hs, -, hretired, hnum, hst⟩
  · exact absurd hok herr
  · obtain rfl := hunique k hk hid
    obtain ⟨hr, hfree, -⟩ := SnapshotMgr.freeEntry_eq_some_iff.mp hs.place
    have hring : ∀ r', st'.mgr.retired r' = Function.update st.mgr.retired r _ r' := fun r' => by
      rw [show st'.mgr = out.mgr from congrArg ApiState.mgr hst, hs.mgr_eq]
    refine ⟨hretired.trans hs.retiredTables, hnum.trans hs.numRetired, ?_, r, hr, hfree, ?_, ?_, ?_,
      fun r' hr' => ?_⟩
    · intro w j hj
      rw [show st'.ctx.tables = out.tables from congrArg (fun s => s.ctx.tables) hst, hs.tables_eq,
        if_neg fun hwj => hj hwj.2]
    · rw [hring, Function.update_self]
    · rw [hring, Function.update_self]
    · rw [hring, Function.update_self]
    · rw [hring, Function.update_of_ne hr']

/-- After every run of additions, deletions, snapshots and polls, with any work of the workers in
between, rules, ids and tables are aligned: at every index below the number of rules stands one entry
of the registry, with one table for each worker of the size the rule asks for and all of one
generation; behind them there is nothing. Failed operations, deletions and snapshots keep it so. -/
theorem rules_ids_tables_aligned {budget : ℕ} {set : FlowRuleSet}
    (hset : FlowRuleSet.create budget = some set) (numWorkers : ℕ) (graceNs : UInt64)
    {workerCount : ℕ} (hcount : workerCount ≤ maxWorkers) (hasStatsReg hasSnapMgr : Bool)
    (ops : List ApiOp) :
    let st₀ := ApiState.init set (.init numWorkers graceNs) workerCount hasStatsReg hasSnapMgr
    let st := st₀.run ops
    let n := st.ruleSet.count
    let nw := workersServed workerCount
    nw ≤ maxWorkers ∧ ∃ es, RegistryRun (st₀.log ops) es ∧ es.length = n ∧
      (∀ i (hi : i < es.length), st.ruleSet.rules i = es[i].rule ∧
        st.ctx.flowRuleIds i = es[i].id ∧
        ∃ g, ∀ w < nw, ∃ t, st.ctx.tables w i = some t ∧ st.heap.Live t ∧
          (st.heap.table t).numSlots = nextPow2 (st.ruleSet.rules i).maxKeys ∧
          (st.heap.table t).keyArenaCapacity =
            (st.heap.table t).numSlots * (st.ruleSet.rules i).keyWidth ∧
          (st.heap.table t).generation = g) ∧
      (∀ i, n ≤ i → st.ctx.flowRuleIds i = .zero ∧ ∀ w, st.ctx.tables w i = none) ∧
      (∀ op, (st.step op).1 ≠ .ok → (st.step op).2.ruleSet = st.ruleSet ∧
        (st.step op).2.ctx.tables = st.ctx.tables ∧
        (st.step op).2.ctx.flowRuleIds = st.ctx.flowRuleIds) ∧
      (∀ name, (st.flowRuleDel name).1 = .ok →
        let st' := (st.flowRuleDel name).2
        ∃ i < n, (st.ruleSet.rules i).name = name ∧
          (∀ j, st'.ruleSet.rules j = st.ruleSet.rules (skip i j) ∧
            st'.ctx.flowRuleIds j = st.ctx.flowRuleIds (skip i j) ∧
            ∀ w, st'.ctx.tables w j = st.ctx.tables w (skip i j)) ∧
          st'.heap.table = st.heap.table) ∧
      ((∀ i < n, ∀ j < n, st.ctx.flowRuleIds j = st.ctx.flowRuleIds i → j = i) →
        ∀ i (hi : i < es.length) allocs now,
          (st.snapshotAndClear es[i].id allocs now).1.result = .ok →
          let reply := (st.snapshotAndClear es[i].id allocs now).1
          let st' := (st.snapshotAndClear es[i].id allocs now).2
          let retired := fun w => if w < nw then st.ctx.tables w i else none
          reply.retiredTables = retired ∧ reply.numRetired = nw ∧
            (∀ w j, j ≠ i → st'.ctx.tables w j = st.ctx.tables w j) ∧
            ∃ r < maxRetired, (st.mgr.retired r).pending = false ∧
              (st'.mgr.retired r).pending = true ∧ (st'.mgr.retired r).tables = retired ∧
              (st'.mgr.retired r).numTables = nw ∧
              ∀ r' ≠ r, st'.mgr.retired r' = st.mgr.retired r') := by
  intro st₀ st n nw
  obtain ⟨es, hrun, h, hnw⟩ :=
    (aligned_init hset numWorkers graceNs workerCount hasStatsReg hasSnapMgr).run ops
  -- the run keeps a list of entries, each a rule with its id and tables
  have hn : es.length = n := h.count_eq.symm
  have hnw : st.nw = nw := hnw
  have hle : nw ≤ maxWorkers := by
    simp only [nw, workersServed]
    split
    · exact hcount
    · decide
  refine ⟨hle, es, hrun, hn, fun i hi => ⟨h.rule_eq hi, h.id_eq hi, ?_⟩, fun i hi => ⟨?_, ?_⟩, ?_,
    fun name hok => h.del_moves hok, fun hids i hi allocs now hok => ?_⟩
  · have hserved := h.served _ (List.getElem_mem hi)
    obtain ⟨g, hg⟩ := hserved.generation
    refine ⟨g, fun w hw => ?_⟩
    obtain ⟨t, ht⟩ := hserved.exists_table (hnw ▸ hw)
    have hcell : st.ctx.tables w i = some t := (h.table_eq hi w).trans ht
    rw [h.rule_eq hi]
    exact ⟨t, hcell, h.owning.owned.sound (.cell w i) t hcell, hserved.numSlots w t ht,
      hserved.capacity w t ht, hg w t ht⟩
  · rw [h.ids, ofList_of_ge (by rw [List.length_map]; omega)]
  · exact h.table_of_ge (by omega)
  · intro op herr
    obtain ⟨heap, hst⟩ := h.step_failed herr
    rw [hst]
    exact ⟨rfl, rfl, rfl⟩
  · have hunique : ∀ j (hj : j < es.length), es[j].id = es[i].id → j = i := fun j hj heq =>
      hids i (hn ▸ hi) j (hn ▸ hj) (by rw [h.id_eq hj, h.id_eq hi, heq])
    rw [← hnw]
    exact h.snapshot_retires hi hunique hok

/-- Two rules, added with ids 1 and 2 for two workers; then the first is deleted. -/
def twoRules : List ApiOp :=
  [.add ⟨[0x72, 0x61], [2], 3, 0, 0⟩ (some ⟨0, 1⟩) fun _ => ⟨true, fun _ => 0⟩,
    .add ⟨[0x72, 0x62], [3], 5, 0, 0⟩ (some ⟨0, 2⟩) fun _ => ⟨true, fun _ => 0⟩,
    .del [0x72, 0x61]]

/-- The second rule of `twoRules` has moved to index 0, with its id and its tables of eight slots. -/
theorem second_rule_aligned : ∃ set, FlowRuleSet.create 64 = some set ∧
    let st := (ApiState.init set (.init 2 0) 2 true true).run twoRules
    st.ctx.flowRuleIds 0 = ⟨0, 2⟩ ∧ ∃ t, st.ctx.tables 1 0 = some t ∧ st.heap.Live t ∧
      (st.heap.table t).numSlots = 8 := by
  refine ⟨_, rfl, ?_⟩
  intro st
  have hn : st.ruleSet.count = 1 := by decide +kernel
  obtain ⟨-, es, -, hes, hentry, -⟩ := rules_ids_tables_aligned
    (show FlowRuleSet.create 64 = some _ from rfl) 2 0 (show 2 ≤ maxWorkers by decide) true true
    twoRules
  have hlen : es.length = 1 := hes.trans hn
  obtain ⟨-, -, g, hg⟩ := hentry 0 (hlen ▸ Nat.one_pos)
  obtain ⟨t, ht, hlive, hslots, -⟩ := hg 1 (by decide)
  exact ⟨by decide +kernel, t, ht, hlive, hslots.trans (by decide +kernel)⟩

end ApiState

end InFMon
