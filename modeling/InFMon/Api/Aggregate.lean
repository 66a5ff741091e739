import InFMon.Api.Registry
import InFMon.Foundations.BitCounts

/-! # Counters summed up over the workers

`infmon_api_snapshot_and_clear` describes the retired tables of all workers by one descriptor. It adds up
their failed inserts, and it takes the bits of their full-table counts together. -/

namespace InFMon

open CountedLoop

/-- The sums depend on the tables of the workers only. -/
theorem ApiState.aggregate_congr {heap heap' : Heap} {retired retired' : ℕ → Option ℕ} {n : ℕ}
    (hretired : ∀ w < n, retired' w = retired w)
    (hheap : ∀ w < n, ∀ t, retired w = some t → heap'.table t = heap.table t) :
    aggregate heap' retired' n = aggregate heap retired n := by
  unfold ApiState.aggregate
  induction n with
  | zero => rfl
  | succ n ih =>
    rw [forUpTo_succ, forUpTo_succ, ih (fun w hw => hretired w (Nat.lt_succ_of_lt hw))
      fun w hw => hheap w (Nat.lt_succ_of_lt hw), hretired n (Nat.lt_succ_self n)]
    cases hptr : retired n with
    | none => rfl
    | some t =>
      dsimp only
      rw [hheap n (Nat.lt_succ_self n) t hptr]

/-! ### What a swap leaves alone -/

/-- What the allocation pass has read and kept after the workers below `w`: it reads the old tables, and
the tables that it creates lie behind all others. -/
structure KeptByAlloc (heap : Heap) (tables : Tables) (idx w : ℕ) (p : AllocPass) : Prop where
  oldTables : ∀ v, p.oldTables v = if v < w then tables v idx else none
  next_le : heap.next ≤ p.heap.next
  table_eq : ∀ t < heap.next, p.heap.table t = heap.table t
  new : ∀ v t, p.newTables v = some t → heap.next ≤ t

variable {heap : Heap} {tables : Tables} {idx width w : ℕ} {allocs : ℕ → Alloc} {p p' : AllocPass}

/-- One round of the loop keeps what was there. -/
theorem KeptByAlloc.step (h : KeptByAlloc heap tables idx w p)
    (hstep : allocStep tables idx width allocs w p = .ok p') :
    KeptByAlloc heap tables idx (w + 1) p' := by
  -- the old table of the worker is remembered, also if it is none
  have hold : ∀ v, Function.update p.oldTables w (tables w idx) v =
      if v < w + 1 then tables v idx else none := by
    intro v
    rw [Function.update_apply, h.oldTables]
    by_cases hv : v = w
    · rw [if_pos hv, if_pos (by omega), hv]
    · rw [if_neg hv, if_congr (show v < w ↔ v < w + 1 by omega) rfl rfl]
  rw [allocStep] at hstep
  dsimp only at hstep
  cases hptr : tables w idx with
  | none =>
    rw [hptr] at hstep hold
    cases hstep
    exact { h with oldTables := hold }
  | some old =>
    rw [hptr] at hstep hold
    dsimp only at hstep
    rw [Heap.create] at hstep
    cases hcreate : counterTableCreate (p.heap.table old).numSlots width (allocs w) with
    | none =>
      rw [hcreate] at hstep
      cases hstep
    | some t =>
      rw [hcreate] at hstep
      cases hstep
      -- the new table lies behind all that there are
      have hnext := h.next_le
      refine ⟨hold, Nat.le_succ_of_le hnext, fun t' ht' => ?_, fun v t' hv => ?_⟩
      · show Function.update p.heap.table p.heap.next _ t' = _
        rw [Function.update_of_ne (by omega), h.table_eq t' ht']
      · dsimp only at hv
        rw [Function.update_apply] at hv
        split at hv
        · cases hv
          exact hnext
        · exact h.new v t' hv

/-- The swap pass writes to the new tables only. -/
theorem KeptByAlloc.swapped (h : KeptByAlloc heap tables idx w p) (now : UInt64) (n : ℕ)
    (q : SwapPass) (hq : q.heap = p.heap) :
    ∀ t < heap.next,
      (forUpTo n (swapStep idx p.oldTables p.newTables now) q).heap.table t = heap.table t := by
  refine forUpTo_induct (fun _ (q : SwapPass) => ∀ t < heap.next, q.heap.table t = heap.table t)
    (fun t ht => by rw [hq, h.table_eq t ht]) fun v _ q hkept t ht => ?_
  rw [swapStep]
  split
  · rename_i old new _ hnew
    -- what is written to is a new table
    have hle := h.new v new hnew
    show Function.update q.heap.table new _ t = _
    rw [Function.update_of_ne (by omega), hkept t ht]
  · exact hkept t ht

/-- A swap that succeeds hands out the tables that were installed, and the tables that there were stay
as they are. -/
theorem snapshotAndClear_served {mgr : SnapshotMgr} {numWorkers maxRules : ℕ} {now : UInt64}
    (hok : (snapshotAndClear mgr tables heap numWorkers idx maxRules width allocs
      now).reply.result = .ok) :
    let out := snapshotAndClear mgr tables heap numWorkers idx maxRules width allocs now
    out.reply.numRetired = workersServed numWorkers ∧
    (out.reply.retiredTables = fun w =>
      if w < workersServed numWorkers then tables w idx else none) ∧
    ∀ t < heap.next, out.heap.table t = heap.table t := by
  intro out
  have hout : out = snapshotAndClear mgr tables heap numWorkers idx maxRules width allocs now := rfl
  rw [← hout] at hok
  rw [snapshotAndClear] at hout
  -- what fails one of the checks in front of the passes is not served
  split at hout
  · rw [hout] at hok
    cases hok
  dsimp only at hout
  split at hout
  · rw [hout] at hok
    cases hok
  split at hout
  · rw [hout] at hok
    cases hok
  have hstart : KeptByAlloc heap tables idx 0
      { heap := heap, newTables := fun _ => none, oldTables := fun _ => none } :=
    ⟨fun _ => rfl, Nat.le_refl _, fun _ _ => rfl, fun _ _ h => by cases h⟩
  rcases forUpToExcept_induct (KeptByAlloc heap tables idx) (n := workersServed numWorkers)
    (f := allocStep tables idx width allocs) hstart (fun w _ p p' hp hstep => hp.step hstep) with
    ⟨p, hpass, hp⟩ | ⟨heap', hfail, -⟩
  · rw [hpass] at hout
    rw [hout]
    exact ⟨rfl, funext hp.oldTables, hp.swapped now _ _ rfl⟩
  · rw [hfail] at hout
    rw [hout] at hok
    cases hok

/-! ### The descriptor -/

namespace ApiState

/-- A counter of the tables that the workers below `n` have, in the order of the workers. -/
def tableCounts (counter : CounterTable → UInt64) (heap : Heap) (tables : ℕ → Option ℕ) (n : ℕ) :
    List ℕ :=
  ((List.range n).filterMap tables).map fun t => (counter (heap.table t)).toNat

/-- One worker more. -/
theorem tableCounts_succ (counter : CounterTable → UInt64) (heap : Heap) (tables : ℕ → Option ℕ)
    (n : ℕ) : tableCounts counter heap tables (n + 1) = tableCounts counter heap tables n ++
      (tables n).toList.map fun t => (counter (heap.table t)).toNat := by
  rw [tableCounts, List.range_succ, List.filterMap_append, List.map_append, tableCounts]
  cases h : tables n <;> simp [h]

/-- Every count has 64 bits. -/
theorem tableCounts_lt {counter : CounterTable → UInt64} {heap : Heap} {tables : ℕ → Option ℕ}
    {n : ℕ} : ∀ x ∈ tableCounts counter heap tables n, x < 2 ^ 64 := by
  intro x hx
  obtain ⟨t, -, rfl⟩ := List.mem_map.mp hx
  exact UInt64.toNat_lt _

/-- Counts depend on the tables of the workers only. -/
theorem tableCounts_congr {counter : CounterTable → UInt64} {heap heap' : Heap}
    {tables tables' : ℕ → Option ℕ} {n : ℕ} (htables : ∀ w < n, tables' w = tables w)
    (hheap : ∀ w < n, ∀ t, tables w = some t → heap'.table t = heap.table t) :
    tableCounts counter heap' tables' n = tableCounts counter heap tables n := by
  have hsame : (List.range n).filterMap tables' = (List.range n).filterMap tables :=
    List.filterMap_congr fun w hw => htables w (List.mem_range.mp hw)
  rw [tableCounts, hsame]
  refine List.map_congr_left fun t ht => ?_
  obtain ⟨w, hw, hptr⟩ := List.mem_filterMap.mp ht
  rw [hheap w (List.mem_range.mp hw) t hptr]

/-- The loop over the workers sums the failed inserts up, and takes the bits of the full-table counts
together. -/
theorem toNat_aggregate (heap : Heap) (tables : ℕ → Option ℕ) (n : ℕ) :
    (aggregate heap tables n).1.toNat =
      (tableCounts CounterTable.insertFailed heap tables n).sum % 2 ^ 64 ∧
    (aggregate heap tables n).2.toNat =
      BitCounts.orAll (tableCounts CounterTable.tableFull heap tables n) := by
  unfold aggregate
  induction n with
  | zero => exact ⟨rfl, rfl⟩
  | succ n ih =>
    rw [forUpTo_succ, tableCounts_succ, tableCounts_succ]
    -- a worker without a table adds nothing
    cases hptr : tables n with
    | none => simpa using ih
    | some t =>
      obtain ⟨hfailed, hfull⟩ := ih
      constructor
      · show (_ + (heap.table t).insertFailed).toNat = _
        rw [UInt64.toNat_add, hfailed, List.sum_append, Nat.mod_add_mod]
        rfl
      · show (_ ||| (heap.table t).tableFull).toNat = _
        rw [UInt64.toNat_or, hfull, BitCounts.orAll, BitCounts.orAll, List.foldl_append]
        rfl

variable {st : ApiState} {id : FlowRuleId} {now : UInt64}

/-- What a swap that succeeds replies: the tables that the rule had, and a descriptor with the counters
that the loop makes of them. -/
theorem snapshotAndClear_described
    (hok : (st.snapshotAndClear id allocs now).1.result = .ok) :
    ∃ i desc, st.findRuleIndexById id = some i ∧
      (st.snapshotAndClear id allocs now).1.descriptor = some desc ∧
      (st.snapshotAndClear id allocs now).1.numRetired = st.nw ∧
      ((st.snapshotAndClear id allocs now).1.retiredTables = fun w =>
        if w < st.nw then st.ctx.tables w i else none) ∧
      (∀ t < st.heap.next,
        (st.snapshotAndClear id allocs now).2.heap.table t = st.heap.table t) ∧
      (desc.insertFailed, desc.tableFull) =
        aggregate (st.snapshotAndClear id allocs now).2.heap
          (st.snapshotAndClear id allocs now).1.retiredTables
          (st.snapshotAndClear id allocs now).1.numRetired := by
  -- each test before the swap answers with an error, so only the last branch can be `ok`
  revert hok
  unfold snapshotAndClear
  split
  · exact fun h => by cases h
  split
  · exact fun h => by cases h
  split
  · exact fun h => by cases h
  rename_i i hfind
  split
  · exact fun h => by cases h
  split
  · exact fun h => by cases h
  dsimp only
  split
  · rename_i hne
    intro h
    exact absurd (mapSnapResult_eq_ok_iff.mp h) hne
  · rename_i hresult
    intro _
    obtain ⟨hnum, htables, hheap⟩ := snapshotAndClear_served (not_not.mp hresult)
    have hserved : workersServed st.nw = st.nw := if_pos st.nw_pos
    rw [hserved] at hnum htables
    exact ⟨i, _, hfind, rfl, hnum, htables, hheap, rfl⟩

/-- The reply of a swap describes the tables `tables` of `nw` workers: it hands out all of them, and its
descriptor has the sums of their counters, up to multiples of 2^64. -/
structure SumsUp (heap : Heap) (tables : ℕ → Option ℕ) (nw : ℕ) (reply : ApiSnapReply)
    (desc : StatsDescriptor) : Prop where
  numRetired : reply.numRetired = nw
  retiredTables : ∀ w, reply.retiredTables w = if w < nw then tables w else none
  insertFailed : desc.insertFailed.toNat =
    (tableCounts CounterTable.insertFailed heap tables nw).sum % 2 ^ 64
  tableFull : desc.tableFull.toNat =
    (tableCounts CounterTable.tableFull heap tables nw).sum % 2 ^ 64

/-- What a descriptor says of the tables that were installed: the failed inserts of all of them, and the
bits of their full-table counts. -/
theorem descriptor_counts (hptr : ∀ w i t, st.ctx.tables w i = some t → t < st.heap.next)
    (hok : (st.snapshotAndClear id allocs now).1.result = .ok) :
    ∃ i desc, st.findRuleIndexById id = some i ∧
      (st.snapshotAndClear id allocs now).1.descriptor = some desc ∧
      (st.snapshotAndClear id allocs now).1.numRetired = st.nw ∧
      (∀ w, (st.snapshotAndClear id allocs now).1.retiredTables w =
        if w < st.nw then st.ctx.tables w i else none) ∧
      desc.insertFailed.toNat = (tableCounts CounterTable.insertFailed st.heap
        (fun w => st.ctx.tables w i) st.nw).sum % 2 ^ 64 ∧
      desc.tableFull.toNat = BitCounts.orAll (tableCounts CounterTable.tableFull st.heap
        (fun w => st.ctx.tables w i) st.nw) := by
  obtain ⟨i, desc, hfind, hdesc, hnum, htables, hheap, hsums⟩ := snapshotAndClear_described hok
  have hretired : ∀ w < st.nw,
      (st.snapshotAndClear id allocs now).1.retiredTables w = st.ctx.tables w i := by
    intro w hw
    rw [htables]
    exact if_pos hw
  rw [hnum, aggregate_congr hretired fun w _ t ht => hheap t (hptr w i t ht)] at hsums
  obtain ⟨hfailed, hfull⟩ := toNat_aggregate st.heap (fun w => st.ctx.tables w i) st.nw
  refine ⟨i, desc, hfind, hdesc, hnum, fun w => by rw [htables], ?_, ?_⟩
  · rw [← hfailed, ← hsums]
  · rw [← hfull, ← hsums]

/-- In every context whose pointers are those of tables, a swap that succeeds sums the counters of all
workers up exactly when the bits of their full-table counts that are set more than once come to a
multiple of 2^64, every one of them taken as often as it is set after the first time. -/
theorem counters_summedUp_iff {st : ApiState}
    (hptr : ∀ w i t, st.ctx.tables w i = some t → t < st.heap.next) (id : FlowRuleId)
    (allocs : ℕ → Alloc) (now : UInt64)
    (hok : (st.snapshotAndClear id allocs now).1.result = .ok) :
    ∃ i desc, st.findRuleIndexById id = some i ∧
      (st.snapshotAndClear id allocs now).1.descriptor = some desc ∧
      (SumsUp st.heap (fun w => st.ctx.tables w i) st.nw (st.snapshotAndClear id allocs now).1 desc ↔
        BitCounts.repeated 64 (tableCounts CounterTable.tableFull st.heap
          (fun w => st.ctx.tables w i) st.nw) % 2 ^ 64 = 0) := by
  obtain ⟨i, desc, hfind, hdesc, hnum, htables, hfailed, hfull⟩ := descriptor_counts hptr hok
  refine ⟨i, desc, hfind, hdesc, ?_⟩
  rw [← BitCounts.orAll_eq_sum_mod_iff tableCounts_lt, ← hfull]
  exact ⟨fun h => h.tableFull, fun h => ⟨hnum, htables, hfailed, h⟩⟩

/-- A rule with one key for two workers. Each of the tables in `full` gets two keys. -/
def oneKeyRule (full : List ℕ) : List ApiOp :=
  .add ⟨[0x72, 0x61], [2], 1, 0, 0⟩ (some ⟨0, 1⟩) (fun _ => ⟨true, fun _ => 0⟩) ::
    full.flatMap fun table =>
      [.update table 0 (.one 6) 60 1, .update table 0 (.one 17) 60 2]

/-- Only one worker has found its table full. -/
theorem counters_summedUp_oneFull : ∃ set, FlowRuleSet.create 64 = some set ∧
    let st := (ApiState.init set (.init 2 0) 2 true true).run (oneKeyRule [1])
    ∃ i desc, st.findRuleIndexById ⟨0, 1⟩ = some i ∧
      (st.snapshotAndClear ⟨0, 1⟩ (fun _ => ⟨true, fun _ => 0⟩) 5).1.descriptor = some desc ∧
      SumsUp st.heap (fun w => st.ctx.tables w i) st.nw
        (st.snapshotAndClear ⟨0, 1⟩ (fun _ => ⟨true, fun _ => 0⟩) 5).1 desc := by
  refine ⟨_, rfl, ?_⟩
  intro st
  obtain ⟨es, -, h, -⟩ := (aligned_init (show FlowRuleSet.create 64 = some _ from rfl) 2 0 2 true
    true).run (oneKeyRule [1])
  have hptr : ∀ w i t, st.ctx.tables w i = some t → t < st.heap.next :=
    fun w i t ht => (h.owning.made w i t ht).1
  obtain ⟨i, desc, hfind, hdesc, hiff⟩ := counters_summedUp_iff hptr ⟨0, 1⟩
    (fun _ => ⟨true, fun _ => 0⟩) 5 (by decide +kernel)
  have hi : st.findRuleIndexById ⟨0, 1⟩ = some 0 := by decide +kernel
  obtain rfl := Option.some.inj (hi.symm.trans hfind)
  exact ⟨0, desc, hfind, hdesc, hiff.mpr (by decide +kernel)⟩

/-- Both workers have found their table full once, and the descriptor says that it happened once. -/
theorem twice_full_counted_once : ∃ set, FlowRuleSet.create 64 = some set ∧
    let st := (ApiState.init set (.init 2 0) 2 true true).run (oneKeyRule [0, 1])
    (tableCounts CounterTable.tableFull st.heap (fun w => st.ctx.tables w 0) st.nw).sum = 2 ∧
    (st.snapshotAndClear ⟨0, 1⟩ (fun _ => ⟨true, fun _ => 0⟩) 5).1.result = .ok ∧
    ∃ desc, (st.snapshotAndClear ⟨0, 1⟩ (fun _ => ⟨true, fun _ => 0⟩) 5).1.descriptor = some desc ∧
      desc.tableFull = 1 ∧
      ¬ SumsUp st.heap (fun w => st.ctx.tables w 0) st.nw
        (st.snapshotAndClear ⟨0, 1⟩ (fun _ => ⟨true, fun _ => 0⟩) 5).1 desc := by
  refine ⟨_, rfl, ?_⟩
  intro st
  have hsum : (tableCounts CounterTable.tableFull st.heap (fun w => st.ctx.tables w 0) st.nw).sum =
      2 := by decide +kernel
  have hdesc : (st.snapshotAndClear ⟨0, 1⟩ (fun _ => ⟨true, fun _ => 0⟩) 5).1.descriptor.map
      StatsDescriptor.tableFull = some 1 := by decide +kernel
  obtain ⟨desc, hsome, hfull⟩ := Option.map_eq_some_iff.mp hdesc
  refine ⟨hsum, by decide +kernel, desc, hsome, hfull, fun h => ?_⟩
  have heq := h.tableFull
  rw [hfull, hsum] at heq
  exact absurd heq (by decide)

end ApiState

end InFMon
