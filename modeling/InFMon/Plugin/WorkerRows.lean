import InFMon.Api.Rows
import InFMon.Foundations.LoopAccesses
import InFMon.Plugin.SnapshotBudget

/-! # The rows of workers

Which rows of the arrays with a row for each worker the operations of the API touch. The arrays have
`INFMON_MAX_WORKERS` rows, and the loops run over the workers that the context counts. -/

namespace InFMon

open CountedLoop

/-! ### Rows touched -/

/-- The arrays with a row for each worker: `tables` of the context and of the plugin main, `new_tables`
and `old_tables` of a snapshot, `tables` of a ring entry, and `retired_tables` of the two replies. -/
inductive WorkerArray where
  | ctxTables
  | pmTables
  | newTables
  | oldTables
  | retired
  | snapReply
  | apiReply
  deriving DecidableEq, Repr

/-- An array and the row that is touched. -/
abbrev RowAccess := WorkerArray × ℕ

/-- A loop over `n` workers that touches their rows of some arrays. -/
def workerRows (n : ℕ) (arrays : List WorkerArray) : List RowAccess :=
  (List.range n).flatMap fun w => arrays.map fun array => (array, w)

/-- The rows of one worker's pass in `flow_rule_add_internal`. -/
def addTableRows (inserted : FlowRule) (allocs : ℕ → Alloc) (w : ℕ) : List RowAccess :=
  match counterTableCreate inserted.maxKeys inserted.keyWidth (allocs w) with
  -- the tables of the workers before are destroyed
  | none => workerRows w [.ctxTables]
  | some _ => [(.ctxTables, w)]

/-- The rows of one worker's allocation pass in `infmon_snapshot_and_clear`. -/
def allocRows (tables : Tables) (flowRuleIndex maxKeyWidth : ℕ) (allocs : ℕ → Alloc) (w : ℕ)
    (p : AllocPass) : List RowAccess :=
  [(.ctxTables, w), (.oldTables, w)] ++
    match tables w flowRuleIndex with
    | none => []
    | some old =>
      (.newTables, w) ::
        match counterTableCreate (p.heap.table old).numSlots maxKeyWidth (allocs w) with
        | none => workerRows w [.newTables]
        | some _ => []

/-- The rows of one worker's swap pass in `infmon_snapshot_and_clear`. -/
def swapRows (p : AllocPass) (w : ℕ) : List RowAccess :=
  (.oldTables, w) ::
    if p.oldTables w = none then []
    else (.newTables, w) :: if p.newTables w = none then [] else [(.ctxTables, w)]

/-- The rows of `infmon_snapshot_and_clear`. -/
def snapshotRows (mgr : SnapshotMgr) (tables : Tables) (heap : Heap)
    (numWorkers flowRuleIndex maxFlowRules maxKeyWidth : ℕ) (allocs : ℕ → Alloc) : List RowAccess :=
  if flowRuleIndex ≥ maxFlowRules then []
  else
    let nw := workersServed numWorkers
    let start : AllocPass :=
      { heap := heap, newTables := fun _ => none, oldTables := fun _ => none }
    (.ctxTables, 0) ::
      if tables 0 flowRuleIndex = none then []
      else if mgr.retiredCount ≥ maxRetired then []
      else
        accesses nw (allocRows tables flowRuleIndex maxKeyWidth allocs)
            (allocStep tables flowRuleIndex maxKeyWidth allocs) start ++
          match forUpToExcept nw (allocStep tables flowRuleIndex maxKeyWidth allocs) start with
          | .error _ => []
          | .ok p =>
            (List.range nw).flatMap (swapRows p) ++
              (if mgr.freeEntry = none then [] else workerRows nw [.oldTables, .retired]) ++
              workerRows nw [.oldTables, .snapReply]

namespace ApiState

/-- The rows of `flow_rule_add_internal`. -/
def addRows (st : ApiState) (rule : FlowRule) (allocs : ℕ → Alloc) : List RowAccess :=
  match st.ruleSet.add rule with
  | (.ok, ruleSet) =>
    match ruleSet.indexOf rule.name with
    | none => []
    | some idx =>
      match ruleSet.get idx with
      | none => []
      | some inserted =>
        accesses st.nw (fun w _ => addTableRows inserted allocs w) (addTable idx inserted allocs)
          (st.ctx.tables, st.heap)
  | _ => []

/-- The rows of `infmon_api_flow_rule_del`. -/
def delRows (st : ApiState) (name : List UInt8) : List RowAccess :=
  match st.findRuleIndex name with
  | none => []
  | some idx =>
    match st.ruleSet.rm name with
    | (.ok, ruleSet) =>
      -- destroy, compact, clear the last index
      workerRows st.nw [.ctxTables] ++
        (List.range (ruleSet.count - idx)).flatMap (fun _ => workerRows st.nw [.ctxTables]) ++
        workerRows st.nw [.ctxTables]
    | _ => []

/-- The rows of `infmon_api_snapshot_and_clear`. -/
def snapshotRows (st : ApiState) (flowRuleId : FlowRuleId) (allocs : ℕ → Alloc) (now : UInt64) :
    List RowAccess :=
  if st.ctx.hasSnapMgr = false then []
  else if flowRuleId.isZero then []
  else
    match st.findRuleIndexById flowRuleId with
    | none => []
    | some idx =>
      if st.ctx.hasStatsReg = false then []
      else
        match st.ruleSet.get idx with
        | none => []
        | some rule =>
          let out := InFMon.snapshotAndClear st.mgr st.ctx.tables st.heap st.nw idx flowRuleSetMax
            rule.keyWidth allocs now
          InFMon.snapshotRows st.mgr st.ctx.tables st.heap st.nw idx flowRuleSetMax rule.keyWidth
              allocs ++
            if out.reply.result ≠ .ok then []
            else
              -- the descriptor, the sums, the reply
              (.snapReply, 0) :: workerRows out.reply.numRetired [.snapReply] ++
                workerRows out.reply.numRetired [.snapReply, .apiReply]

/-- The rows of `infmon_vpp_publish_rules`. -/
def publishRows (st : ApiState) : List RowAccess :=
  (List.range st.nw).flatMap fun w =>
    (List.range maxActiveFlowRules).flatMap fun i =>
      (.pmTables, w) :: if i < flowRuleSetMax then [(.ctxTables, w)] else []

end ApiState

/-- The operations that loop over the workers. An id or none tells `infmon_api_flow_rule_add_with_id`
from `infmon_api_flow_rule_add`. -/
inductive WorkerOp where
  | add (rule : FlowRule) (id : Option FlowRuleId) (allocs : ℕ → Alloc)
  | del (name : List UInt8)
  | snapshot (id : FlowRuleId) (allocs : ℕ → Alloc) (now : UInt64)
  | publish

/-- The rows that an operation touches. -/
def ApiState.rows (st : ApiState) : WorkerOp → List RowAccess
  | .add rule _ allocs => st.addRows rule allocs
  | .del name => st.delRows name
  | .snapshot id allocs now => st.snapshotRows id allocs now
  | .publish => st.publishRows

/-- All rows touched are rows of arrays with `n` rows. -/
def RowsBelow (n : ℕ) (rows : List RowAccess) : Prop := ∀ a ∈ rows, a.2 < n

variable {n m : ℕ}

/-- No access is out of the rows. -/
theorem rowsBelow_nil : RowsBelow n [] := fun _ h => absurd h List.not_mem_nil

/-- The first access, and the others. -/
theorem rowsBelow_cons {a : RowAccess} {rows : List RowAccess} :
    RowsBelow n (a :: rows) ↔ a.2 < n ∧ RowsBelow n rows :=
  List.forall_mem_cons

/-- The accesses of both parts. -/
theorem rowsBelow_append {rows more : List RowAccess} :
    RowsBelow n (rows ++ more) ↔ RowsBelow n rows ∧ RowsBelow n more :=
  List.forall_mem_append

/-- The accesses of every part. -/
theorem rowsBelow_flatMap {β : Type} {l : List β} {f : β → List RowAccess} :
    RowsBelow n (l.flatMap f) ↔ ∀ b ∈ l, RowsBelow n (f b) := by
  simp only [RowsBelow, List.forall_mem_flatMap]

/-- A loop over the workers stays within the rows if it counts no more workers than there are rows. -/
theorem rowsBelow_workerRows {array : WorkerArray} {arrays : List WorkerArray} :
    RowsBelow n (workerRows m (array :: arrays)) ↔ m ≤ n := by
  rw [workerRows, rowsBelow_flatMap]
  constructor
  · intro h
    by_contra hlt
    have hrow := h n (List.mem_range.mpr (by omega)) (array, n) (by simp)
    exact lt_irrefl n hrow
  · intro h w hw a ha
    obtain ⟨array', -, rfl⟩ := List.mem_map.mp ha
    exact lt_of_lt_of_le (List.mem_range.mp hw) h

/-! ### Adding a rule -/

/-- The loop that creates the tables of a rule stays within the rows if it counts no more workers than
there are rows, or a table cannot be created early enough. -/
theorem rowsBelow_addTable {inserted : FlowRule} {allocs : ℕ → Alloc} {idx : ℕ} {s : Tables × Heap} :
    RowsBelow n (accesses m (fun w _ => addTableRows inserted allocs w)
        (addTable idx inserted allocs) s) ↔
      m ≤ n ∨ ∃ w ≤ n, counterTableCreate inserted.maxKeys inserted.keyWidth (allocs w) = none := by
  -- the loop gets as far as the first worker whose table cannot be created
  have hpass : ∀ k, (∃ s', forUpToExcept k (addTable idx inserted allocs) s = .ok s') ↔
      ∀ w < k, counterTableCreate inserted.maxKeys inserted.keyWidth (allocs w) ≠ none := by
    refine fun k => forUpToExcept_ok_iff (fun _ => True) trivial (fun _ _ _ _ _ _ => trivial) ?_
    intro w _ s _
    rw [addTable, Heap.create]
    cases counterTableCreate inserted.maxKeys inserted.keyWidth (allocs w) with
    | none => simp
    | some t => simp
  constructor
  · intro h
    by_contra hnot
    push Not at hnot
    obtain ⟨hlt, hcreated⟩ := hnot
    obtain ⟨s', hs'⟩ := (hpass n).mpr fun w hw => hcreated w hw.le
    have hrow := h (.ctxTables, n) (mem_accesses.mpr ⟨n, hlt, s', hs', ?_⟩)
    · exact lt_irrefl n hrow
    · rw [addTableRows]
      split
      · rename_i hnone
        exact absurd hnone (hcreated n le_rfl)
      · exact List.mem_singleton_self _
  · intro h a ha
    obtain ⟨i, hi, s', hs', ha⟩ := mem_accesses.mp ha
    have hcreated := (hpass i).mp ⟨s', hs'⟩
    rw [addTableRows] at ha
    split at ha
    · -- the pass that fails goes back to the workers before
      have hai : a.2 < i := rowsBelow_workerRows.mpr le_rfl a ha
      rcases h with hle | ⟨w, hw, hnone⟩
      · omega
      · have hiw : i ≤ w := Nat.le_of_not_lt fun hlt => hcreated w hlt hnone
        omega
    · rename_i t hsome
      obtain rfl := List.mem_singleton.mp ha
      rcases h with hle | ⟨w, hw, hnone⟩
      · exact lt_of_lt_of_le hi hle
      · have hiw : i ≤ w := Nat.le_of_not_lt fun hlt => hcreated w hlt hnone
        have hne : i ≠ w := by
          rintro rfl
          cases hsome.symm.trans hnone
        exact lt_of_lt_of_le (lt_of_le_of_ne hiw hne) hw

/-! ### Snapshots -/

/-- A heap that has kept the tables of another one and may have more. -/
def Extends (heap heap' : Heap) : Prop :=
  heap.next ≤ heap'.next ∧ ∀ id < heap.next, heap'.table id = heap.table id

variable {tables : Tables} {heap : Heap} {idx width : ℕ} {allocs : ℕ → Alloc}

/-- A heap with one table more extends what the other one does. -/
theorem Extends.create {heap' : Heap} (h : Extends heap heap') (maxKeys : ℕ) (alloc : Alloc) :
    Extends heap (heap'.create maxKeys width alloc).2 := by
  rw [Heap.create]
  split
  · exact h
  · refine ⟨Nat.le_succ_of_le h.1, fun id hid => ?_⟩
    have hne : id ≠ heap'.next := by
      have := h.1
      omega
    rw [Heap.alloc]
    simp only [Function.update_of_ne hne]
    exact h.2 id hid

/-- The new table of worker `w` cannot be created. -/
def NewTableFails (tables : Tables) (heap : Heap) (idx width : ℕ) (allocs : ℕ → Alloc) (w : ℕ) : Prop :=
  ∃ old, tables w idx = some old ∧
    counterTableCreate (heap.table old).numSlots width (allocs w) = none

/-- Before the first allocation pass. -/
def allocStart (heap : Heap) : AllocPass :=
  { heap := heap, newTables := fun _ => none, oldTables := fun _ => none }

/-- At the start of the loop the heap is as it was. -/
theorem allocStart_eq (heap : Heap) :
    ({ heap := heap, newTables := fun _ => none, oldTables := fun _ => none } : AllocPass) =
      allocStart heap := rfl

/-- One round of the loop extends the heap. -/
theorem Extends.allocStep {p p' : AllocPass} {w : ℕ} (h : Extends heap p.heap)
    (hp : InFMon.allocStep tables idx width allocs w p = .ok p') : Extends heap p'.heap := by
  rw [InFMon.allocStep] at hp
  split at hp
  · cases hp
    exact h
  · rename_i old _
    have hcreate := @Extends.create _ width _ h (p.heap.table old).numSlots (allocs w)
    split at hp
    · cases hp
    · rename_i id heap' heq
      cases hp
      rw [heq] at hcreate
      exact hcreate

/-- The allocation passes of the first workers succeed if their new tables can be created. -/
theorem allocStep_ok_iff (hptr : ∀ w < n, ∀ old, tables w idx = some old → old < heap.next) :
    (∃ p, forUpToExcept n (allocStep tables idx width allocs) (allocStart heap) = .ok p) ↔
      ∀ w < n, ¬NewTableFails tables heap idx width allocs w := by
  refine forUpToExcept_ok_iff (fun p => Extends heap p.heap) ⟨le_rfl, fun _ _ => rfl⟩
    (fun w _ p p' h hp => h.allocStep hp) ?_
  intro w hw p h
  rw [allocStep, NewTableFails]
  cases hold : tables w idx with
  | none => simp
  | some old =>
    simp only [Heap.create, h.2 old (hptr w hw old hold)]
    cases hcreate : counterTableCreate (heap.table old).numSlots width (allocs w) with
    | none => simp [hcreate]
    | some t => simp [hcreate]

/-- The allocation passes stay within the rows if there are no more workers than rows, or the new table of
one of the first workers cannot be created. -/
theorem rowsBelow_allocStep (hptr : ∀ w < n, ∀ old, tables w idx = some old → old < heap.next) :
    RowsBelow n (accesses m (allocRows tables idx width allocs) (allocStep tables idx width allocs)
        (allocStart heap)) ↔
      m ≤ n ∨ ∃ w < n, NewTableFails tables heap idx width allocs w := by
  constructor
  · intro h
    by_contra hnot
    push Not at hnot
    obtain ⟨hlt, hcreated⟩ := hnot
    obtain ⟨p, hp⟩ := (allocStep_ok_iff hptr).mpr hcreated
    have hrow := h (.ctxTables, n) (mem_accesses.mpr ⟨n, hlt, p, hp, by simp [allocRows]⟩)
    exact lt_irrefl n hrow
  · intro h a ha
    obtain ⟨i, hi, p, hp, ha⟩ := mem_accesses.mp ha
    -- pass `i` touches its own row and, on failure, the rows before
    have hai : a.2 ≤ i := by
      have hbelow : RowsBelow (i + 1) (allocRows tables idx width allocs i p) := by
        rw [allocRows, List.cons_append, List.cons_append, List.nil_append, rowsBelow_cons,
          rowsBelow_cons]
        refine ⟨Nat.lt_succ_self i, Nat.lt_succ_self i, ?_⟩
        split
        · exact rowsBelow_nil
        · rw [rowsBelow_cons]
          refine ⟨Nat.lt_succ_self i, ?_⟩
          split
          · exact rowsBelow_workerRows.mpr (Nat.le_succ i)
          · exact rowsBelow_nil
      exact Nat.le_of_lt_succ (hbelow a ha)
    rcases h with hle | ⟨w, hw, hfails⟩
    · omega
    · -- the pass of worker `w` is the last one
      have hiw : i ≤ w := by
        by_contra hlt
        obtain ⟨p', hp'⟩ := forUpToExcept_ok_of_le (show w + 1 ≤ i by omega) hp
        exact (allocStep_ok_iff fun v hv => hptr v (by omega)).mp ⟨p', hp'⟩ w
          (Nat.lt_succ_self w) hfails
      omega

/-- An allocation pass that comes to the end of more workers than there are rows has created the new
tables of the first ones. -/
theorem not_newTableFails (hptr : ∀ w < n, ∀ old, tables w idx = some old → old < heap.next)
    {p : AllocPass}
    (hp : forUpToExcept m (allocStep tables idx width allocs) (allocStart heap) = .ok p) {w : ℕ}
    (hwn : w < n) (hwm : w < m) : ¬NewTableFails tables heap idx width allocs w := by
  obtain ⟨p', hp'⟩ := forUpToExcept_ok_of_le (Nat.succ_le_of_lt hwm) hp
  exact (allocStep_ok_iff fun v hv => hptr v (by omega)).mp ⟨p', hp'⟩ w (Nat.lt_succ_self w)

/-- A snapshot that gets to its allocation passes stays within the rows exactly when these do. -/
theorem rowsBelow_snapshotRows {mgr : SnapshotMgr} {workers maxRules : ℕ} (hn : 0 < n)
    (hptr : ∀ w < n, ∀ old, tables w idx = some old → old < heap.next) (hidx : idx < maxRules)
    (hserved : tables 0 idx ≠ none) (hring : mgr.retiredCount < maxRetired) :
    RowsBelow n (snapshotRows mgr tables heap workers idx maxRules width allocs) ↔
      workersServed workers ≤ n ∨ ∃ w < n, NewTableFails tables heap idx width allocs w := by
  rw [snapshotRows, if_neg (Nat.not_le.mpr hidx)]
  simp only [if_neg hserved, ge_iff_le, if_neg (Nat.not_le.mpr hring)]
  rw [rowsBelow_cons, rowsBelow_append]
  change _ ∧ RowsBelow n (accesses _ _ _ (allocStart heap)) ∧ _ ↔ _
  rw [rowsBelow_allocStep hptr]
  refine ⟨fun h => h.2.1, fun h => ⟨hn, h, ?_⟩⟩
  split
  · exact rowsBelow_nil
  · rename_i p hp
    -- every allocation went through, so the rows behind are those of the workers served
    have hle : workersServed workers ≤ n := by
      by_contra hlt
      rcases h with hle | ⟨w, hw, hfails⟩
      · exact hlt hle
      · exact not_newTableFails hptr hp hw (by omega) hfails
    rw [rowsBelow_append, rowsBelow_append, rowsBelow_flatMap]
    refine ⟨⟨fun w hw => ?_, ?_⟩, rowsBelow_workerRows.mpr hle⟩
    · have hwn : w < n := lt_of_lt_of_le (List.mem_range.mp hw) hle
      rw [swapRows, rowsBelow_cons]
      refine ⟨hwn, ?_⟩
      split
      · exact rowsBelow_nil
      · rw [rowsBelow_cons]
        refine ⟨hwn, ?_⟩
        split
        · exact rowsBelow_nil
        · exact rowsBelow_cons.mpr ⟨hwn, rowsBelow_nil⟩
    · split
      · exact rowsBelow_nil
      · exact rowsBelow_workerRows.mpr hle

/-- A snapshot that succeeds has come to the end of its allocation passes and retires one table for each
worker. -/
theorem snapshotAndClear_ok {mgr : SnapshotMgr} {workers maxRules : ℕ} {now : UInt64}
    (h : (snapshotAndClear mgr tables heap workers idx maxRules width allocs now).reply.result = .ok) :
    (∃ p, forUpToExcept (workersServed workers) (allocStep tables idx width allocs)
        (allocStart heap) = .ok p) ∧
      (snapshotAndClear mgr tables heap workers idx maxRules width allocs now).reply.numRetired =
        workersServed workers := by
  rw [snapshotAndClear] at h ⊢
  by_cases hidx : idx ≥ maxRules
  · rw [if_pos hidx] at h
    cases h
  by_cases hserved : tables 0 idx = none
  · simp only [if_neg hidx, if_pos hserved, SnapReply.error] at h
    cases h
  by_cases hring : mgr.retiredCount ≥ maxRetired
  · simp only [if_neg hidx, if_neg hserved, if_pos hring, SnapReply.error] at h
    cases h
  simp only [if_neg hidx, if_neg hserved, if_neg hring] at h ⊢
  cases hloop : forUpToExcept (workersServed workers) (allocStep tables idx width allocs)
      (allocStart heap) with
  | error e =>
    simp only [allocStart_eq, hloop, SnapReply.error] at h
    cases h
  | ok p =>
    simp only [allocStart_eq, hloop]
    exact ⟨⟨p, rfl⟩, trivial⟩

namespace ApiState

variable {st : ApiState}

/-- The snapshot of the rule at an index gets to its allocation passes. -/
structure Allocates (st : ApiState) (id : FlowRuleId) (idx : ℕ) (rule : FlowRule) : Prop where
  mgr : st.ctx.hasSnapMgr = true
  given : id.isZero = false
  found : st.findRuleIndexById id = some idx
  stats : st.ctx.hasStatsReg = true
  rule : st.ruleSet.get idx = some rule
  inSet : idx < flowRuleSetMax
  served : st.ctx.tables 0 idx ≠ none
  ringRoom : st.mgr.retiredCount < maxRetired

/-- The number of workers is served as it is. -/
theorem workersServed_nw (st : ApiState) : workersServed st.nw = st.nw := by
  rw [nw, workersServed, workersServed]
  split <;> simp_all

/-- A snapshot that does not get to its allocation passes touches at most the row of worker 0. -/
theorem rowsBelow_snapshotRows_of_not {id : FlowRuleId} {allocs : ℕ → Alloc} {now : UInt64}
    (hn : 0 < n) (h : ∀ idx rule, ¬st.Allocates id idx rule) :
    RowsBelow n (st.snapshotRows id allocs now) := by
  rw [snapshotRows]
  split
  · exact rowsBelow_nil
  rename_i hmgr
  split
  · exact rowsBelow_nil
  rename_i hgiven
  split
  · exact rowsBelow_nil
  rename_i idx hfound
  split
  · exact rowsBelow_nil
  rename_i hstats
  split
  · exact rowsBelow_nil
  rename_i rule hrule
  rw [Bool.not_eq_false] at hmgr hstats
  rw [Bool.not_eq_true] at hgiven
  rw [InFMon.snapshotRows, InFMon.snapshotAndClear]
  -- the manager refuses before it allocates: at most it has read worker 0's cell
  by_cases hidx : idx ≥ flowRuleSetMax
  · simp only [if_pos hidx, SnapReply.error]
    exact rowsBelow_nil
  by_cases hserved : st.ctx.tables 0 idx = none
  · simp only [if_neg hidx, if_pos hserved, SnapReply.error]
    exact rowsBelow_cons.mpr ⟨hn, rowsBelow_nil⟩
  by_cases hring : st.mgr.retiredCount ≥ maxRetired
  · simp only [if_neg hidx, if_neg hserved, if_pos hring, SnapReply.error]
    exact rowsBelow_cons.mpr ⟨hn, rowsBelow_nil⟩
  · exact absurd ⟨hmgr, hgiven, hfound, hstats, hrule, Nat.lt_of_not_le hidx, hserved,
      Nat.lt_of_not_le hring⟩ (h idx rule)

/-- A snapshot that gets to its allocation passes. -/
theorem Allocates.rowsBelow_snapshot {id : FlowRuleId} {rule : FlowRule} (h : st.Allocates id idx rule)
    (hn : 0 < n) (hptr : ∀ w < n, ∀ old, st.ctx.tables w idx = some old → old < st.heap.next)
    (now : UInt64) : RowsBelow n (st.snapshotRows id allocs now) ↔
      st.nw ≤ n ∨ ∃ w < n, NewTableFails st.ctx.tables st.heap idx rule.keyWidth allocs w := by
  have hcore : RowsBelow n (InFMon.snapshotRows st.mgr st.ctx.tables st.heap st.nw idx
      flowRuleSetMax rule.keyWidth allocs) ↔ _ :=
    rowsBelow_snapshotRows hn hptr h.inSet h.served h.ringRoom
  rw [workersServed_nw] at hcore
  simp only [snapshotRows, h.mgr, h.given, h.found, h.stats, h.rule, Bool.true_eq_false,
    Bool.false_eq_true, if_false]
  rw [rowsBelow_append, hcore]
  refine ⟨And.left, fun hbelow => ⟨hbelow, ?_⟩⟩
  split
  · exact rowsBelow_nil
  · rename_i hresult
    rw [not_not] at hresult
    obtain ⟨⟨p, hp⟩, hretired⟩ := snapshotAndClear_ok hresult
    rw [workersServed_nw] at hp hretired
    have hle : st.nw ≤ n := by
      by_contra hlt
      rcases hbelow with hle | ⟨w, hw, hfails⟩
      · exact hlt hle
      · exact not_newTableFails hptr hp hw (by omega) hfails
    rw [hretired, List.cons_append, rowsBelow_cons, rowsBelow_append]
    exact ⟨hn, rowsBelow_workerRows.mpr hle, rowsBelow_workerRows.mpr hle⟩

end ApiState

/-! ### Rows that are not touched -/

/-- A row that no pass of a loop changes. -/
theorem forUpTo_row {body : ℕ → Tables → Tables} {tables : Tables} {w : ℕ}
    (h : ∀ i < n, ∀ tables : Tables, body i tables w = tables w) : forUpTo n body tables w = tables w :=
  forUpTo_induct (fun _ tables' => tables' w = tables w) rfl
    fun i hi tables' heq => (h i hi tables').trans heq

/-- The rows of other workers stay. -/
theorem setTable_of_ne {tables : Tables} {w v i : ℕ} {ptr : Option ℕ} (h : w ≠ v) :
    setTable tables v i ptr w = tables w := by
  rw [setTable, Function.update_of_ne h]

/-- A row that is not accessed lies behind the workers. -/
theorem not_mem_workerRows {array : WorkerArray} {w : ℕ} (h : (array, w) ∉ workerRows m [array]) :
    m ≤ w := by
  by_contra hlt
  exact h (List.mem_flatMap.mpr ⟨w, List.mem_range.mpr (by omega), List.mem_singleton_self _⟩)

/-- The loop that creates the tables of a rule stores pointers in the rows that it touches. -/
theorem addTable_frame {inserted : FlowRule} {allocs : ℕ → Alloc} {s s' : Tables × Heap} {w : ℕ}
    (hw : (.ctxTables, w) ∉ accesses m (fun w _ => addTableRows inserted allocs w)
      (addTable idx inserted allocs) s)
    (hs' : forUpToExcept m (addTable idx inserted allocs) s = .ok s' ∨
      forUpToExcept m (addTable idx inserted allocs) s = .error s') : s'.1 w = s.1 w := by
  induction m generalizing s' with
  | zero =>
    rcases hs' with h | h
    · cases h
      rfl
    · cases h
  | succ m ih =>
    rw [accesses_succ, List.mem_append, not_or] at hw
    rw [forUpToExcept] at hs'
    cases hloop : forUpToExcept m (addTable idx inserted allocs) s with
    | error e =>
      rw [hloop] at hs'
      rcases hs' with h | h
      · cases h
      · cases h
        exact ih hw.1 (Or.inr hloop)
    | ok s₁ =>
      rw [hloop] at hs' hw
      have hrow := ih hw.1 (Or.inl hloop)
      have hpass := hw.2
      -- the last pass: it sets its own row, or fails and clears the rows before
      simp only [addTableRows] at hpass
      simp only [addTable, Heap.create] at hs'
      cases hcreate : counterTableCreate inserted.maxKeys inserted.keyWidth (allocs m) with
      | none =>
        rw [hcreate] at hs' hpass
        have hmw := not_mem_workerRows hpass
        rcases hs' with h | h
        · cases h
        · cases h
          rw [forUpTo_destroyCell, ← hrow]
          funext i
          exact if_neg (by omega)
      | some t =>
        rw [hcreate] at hs' hpass
        have hne : w ≠ m := by
          rintro rfl
          exact hpass (List.mem_singleton_self _)
        rcases hs' with h | h
        · cases h
          exact (setTable_of_ne hne).trans hrow
        · cases h

/-- One round of the swap leaves the rows of other workers. -/
theorem swapStep_row {oldTables newTables : ℕ → Option ℕ} {now : UInt64} {v w : ℕ} (h : w ≠ v)
    (p : SwapPass) : (swapStep idx oldTables newTables now v p).tables w = p.tables w := by
  rw [swapStep]
  split
  · exact setTable_of_ne h
  · rfl

/-- A snapshot stores pointers in the rows that it touches. -/
theorem snapshotAndClear_frame {mgr : SnapshotMgr} {workers maxRules w : ℕ} {now : UInt64}
    (hw : (.ctxTables, w) ∉ snapshotRows mgr tables heap workers idx maxRules width allocs) :
    (snapshotAndClear mgr tables heap workers idx maxRules width allocs now).tables w = tables w := by
  rw [snapshotRows] at hw
  rw [snapshotAndClear]
  by_cases hidx : idx ≥ maxRules
  · rw [if_pos hidx]
  by_cases hserved : tables 0 idx = none
  · simp only [if_neg hidx, if_pos hserved]
  by_cases hring : mgr.retiredCount ≥ maxRetired
  · simp only [if_neg hidx, if_neg hserved, if_pos hring]
  simp only [if_neg hidx, if_neg hserved, if_neg hring] at hw ⊢
  rw [List.mem_cons, not_or, List.mem_append, not_or] at hw
  change _ ∧ _ ∉ accesses _ _ _ (allocStart heap) ∧ _ at hw
  cases hloop : forUpToExcept (workersServed workers) (allocStep tables idx width allocs)
      (allocStart heap) with
  | error e => simp only [allocStart_eq, hloop]
  | ok p =>
    simp only [allocStart_eq, hloop]
    have hle : workersServed workers ≤ w := by
      by_contra hlt
      obtain ⟨p', hp'⟩ := forUpToExcept_ok_of_le (show w ≤ workersServed workers by omega) hloop
      exact hw.2.1 (mem_accesses.mpr ⟨w, by omega, p', hp', by simp [allocRows]⟩)
    exact forUpTo_induct (fun _ (q : SwapPass) => q.tables w = tables w) rfl
      fun v hv q heq => (swapStep_row (by omega) q).trans heq

namespace ApiState

/-- Rows that an operation does not touch stay as they are. -/
theorem flowRuleAdd_frame (st : ApiState) (rule : FlowRule) (id : Option FlowRuleId)
    (allocs : ℕ → Alloc) {w : ℕ} (hw : (.ctxTables, w) ∉ st.addRows rule allocs) :
    (st.flowRuleAdd rule id allocs).2.ctx.tables w = st.ctx.tables w := by
  rw [addRows] at hw
  rw [flowRuleAdd]
  split
  · rename_i ruleSet hadd
    rw [hadd] at hw
    dsimp only [findRuleIndex] at hw ⊢
    cases hfound : ruleSet.indexOf rule.name with
    | none => rfl
    | some idx =>
      rw [hfound] at hw
      dsimp only at hw ⊢
      cases hrule : ruleSet.get idx with
      | none => rfl
      | some inserted =>
        rw [hrule] at hw
        dsimp only at hw ⊢
        split
        · rename_i tables heap hloop
          exact addTable_frame hw (Or.inr hloop)
        · rename_i tables heap hloop
          exact addTable_frame hw (Or.inl hloop)
  · rfl

/-- A deletion leaves the rows that it does not access. -/
theorem flowRuleDel_frame (st : ApiState) (name : List UInt8) {w : ℕ}
    (hw : (.ctxTables, w) ∉ st.delRows name) :
    (st.flowRuleDel name).2.ctx.tables w = st.ctx.tables w := by
  rw [delRows] at hw
  rw [flowRuleDel]
  cases hfound : st.findRuleIndex name with
  | none => rfl
  | some idx =>
    rw [hfound] at hw
    dsimp only at hw ⊢
    split
    · rename_i ruleSet hrm
      rw [hrm] at hw
      have hle : st.nw ≤ w := by
        refine @not_mem_workerRows _ .ctxTables _ fun h => hw ?_
        exact List.mem_append_right _ h
      have hcompact : ∀ k (c : Tables × (ℕ → FlowRuleId)), c.1 w = st.ctx.tables w →
          (forUpTo k (fun m (c : Tables × (ℕ → FlowRuleId)) => (moveTables st.nw (idx + m) c.1,
            Function.update c.2 (idx + m) (c.2 (idx + m + 1)))) c).1 w = st.ctx.tables w := by
        intro k c hc
        refine forUpTo_induct (fun _ (c : Tables × (ℕ → FlowRuleId)) => c.1 w = st.ctx.tables w) hc ?_
        intro m _ c heq
        exact (forUpTo_row fun v hv tables => setTable_of_ne (by omega)).trans heq
      refine (forUpTo_row fun v hv tables => setTable_of_ne (by omega)).trans ?_
      refine hcompact _ _ ?_
      rw [forUpTo_destroyCell]
      funext i
      exact if_neg (by omega)
    · rfl

/-- A snapshot leaves the rows that it does not access. -/
theorem snapshotAndClear_frame (st : ApiState) (id : FlowRuleId) (allocs : ℕ → Alloc) (now : UInt64)
    {w : ℕ} (hw : (.ctxTables, w) ∉ st.snapshotRows id allocs now) :
    (st.snapshotAndClear id allocs now).2.ctx.tables w = st.ctx.tables w := by
  rw [snapshotRows] at hw
  rw [snapshotAndClear]
  split
  · rfl
  rename_i hmgr
  split
  · rfl
  rename_i hgiven
  split
  · rfl
  rename_i idx hfound
  split
  · rfl
  rename_i hstats
  split
  · rfl
  rename_i rule hrule
  simp only [if_neg hmgr, if_neg hgiven, hfound, if_neg hstats, hrule, List.mem_append, not_or] at hw
  have hrow := @InFMon.snapshotAndClear_frame _ _ _ _ _ _ _ _ _ now hw.1
  dsimp only
  split
  · exact hrow
  · exact hrow

end ApiState

/-- Publishing leaves the rows that it does not access. -/
theorem Plugin.publishRules_frame (p : Plugin) {w : ℕ} (hw : (.pmTables, w) ∉ p.api.publishRows) :
    p.publishRules.main.tables w = p.main.tables w := by
  have hle : p.api.nw ≤ w := by
    by_contra hlt
    refine hw (List.mem_flatMap.mpr ⟨w, List.mem_range.mpr (by omega), ?_⟩)
    exact List.mem_flatMap.mpr ⟨0, by decide, List.mem_cons_self⟩
  funext i
  rw [publishRules, publishTables_apply, if_neg (by rw [publishRef_api]; omega)]
  rfl

namespace ApiState

/-! ### All operations -/

/-- The operation ends before it gets to the rows behind the first `n`. -/
def EndsEarly (st : ApiState) (n : ℕ) : WorkerOp → Prop
  | .add rule _ allocs => ∀ idx inserted, (st.ruleSet.add rule).1 = .ok →
      (st.ruleSet.add rule).2.indexOf rule.name = some idx →
      (st.ruleSet.add rule).2.get idx = some inserted →
      ∃ w ≤ n, counterTableCreate inserted.maxKeys inserted.keyWidth (allocs w) = none
  | .del name => st.findRuleIndex name = none ∨ (st.ruleSet.rm name).1 ≠ .ok
  | .snapshot id allocs _ => ∀ idx rule, st.Allocates id idx rule →
      ∃ w < n, NewTableFails st.ctx.tables st.heap idx rule.keyWidth allocs w
  | .publish => False

/-- An addition stays below row `n` when there are no more workers, or when it ends early. -/
theorem addRows_below_iff (st : ApiState) (rule : FlowRule) (id : Option FlowRuleId)
    (allocs : ℕ → Alloc) :
    RowsBelow n (st.addRows rule allocs) ↔ st.nw ≤ n ∨ st.EndsEarly n (.add rule id allocs) := by
  rw [addRows, EndsEarly]
  split
  · rename_i ruleSet hadd
    rw [hadd]
    cases hfound : ruleSet.indexOf rule.name with
    | none =>
      refine iff_of_true rowsBelow_nil (Or.inr ?_)
      rintro idx inserted - hidx -
      cases hidx
    | some idx =>
      dsimp only
      cases hrule : ruleSet.get idx with
      | none =>
        refine iff_of_true rowsBelow_nil (Or.inr ?_)
        rintro idx inserted - hidx hget
        cases hidx
        cases hrule.symm.trans hget
      | some inserted =>
        -- the rule is at `idx`, so the loop over the workers is run
        rw [rowsBelow_addTable]
        refine or_congr_right ⟨?_, fun h => h idx inserted rfl rfl hrule⟩
        rintro h idx inserted - hidx hget
        cases hidx
        cases hrule.symm.trans hget
        exact h
  · rename_i hadd
    refine iff_of_true rowsBelow_nil (Or.inr fun idx inserted hok => ?_)
    exact (hadd _ (Prod.ext hok rfl)).elim

/-- A deletion stays below row `n` when there are no more workers, or when it ends early. -/
theorem delRows_below_iff (st : ApiState) (name : List UInt8) :
    RowsBelow n (st.delRows name) ↔ st.nw ≤ n ∨ st.EndsEarly n (.del name) := by
  rw [delRows, EndsEarly]
  cases hfound : st.findRuleIndex name with
  | none => exact iff_of_true rowsBelow_nil (Or.inr (Or.inl rfl))
  | some idx =>
    dsimp only
    split
    · rename_i ruleSet hrm
      have hrow : RowsBelow n (workerRows st.nw [.ctxTables]) ↔ st.nw ≤ n := rowsBelow_workerRows
      rw [hrm, rowsBelow_append, rowsBelow_append, rowsBelow_flatMap, hrow]
      constructor
      · exact fun h => Or.inl h.2
      · rintro (hle | hnone | hne)
        · exact ⟨⟨hle, fun _ _ => hle⟩, hle⟩
        · cases hnone
        · exact absurd rfl hne
    · rename_i hrm
      refine iff_of_true rowsBelow_nil (Or.inr (Or.inr fun hok => ?_))
      exact hrm _ (Prod.ext hok rfl)

/-- Publishing stays below row `n` when there are no more workers, or when it ends early. -/
theorem publishRows_below_iff (st : ApiState) :
    RowsBelow n st.publishRows ↔ st.nw ≤ n ∨ st.EndsEarly n .publish := by
  rw [publishRows, EndsEarly, or_false, rowsBelow_flatMap]
  constructor
  · intro h
    by_contra hlt
    have hrow := h n (List.mem_range.mpr (by omega)) (.pmTables, n)
      (List.mem_flatMap.mpr ⟨0, by decide, List.mem_cons_self⟩)
    exact lt_irrefl n hrow
  · intro h w hw
    have hwn : w < n := lt_of_lt_of_le (List.mem_range.mp hw) h
    rw [rowsBelow_flatMap]
    intro i _
    rw [rowsBelow_cons]
    refine ⟨hwn, ?_⟩
    split
    · exact rowsBelow_cons.mpr ⟨hwn, rowsBelow_nil⟩
    · exact rowsBelow_nil

/-- A snapshot stays below row `n` when there are no more workers, or when it ends early. -/
theorem snapshotRows_below_iff (st : ApiState) (hn : 0 < n)
    (hptr : ∀ w < n, ∀ i old, st.ctx.tables w i = some old → old < st.heap.next) (id : FlowRuleId)
    (allocs : ℕ → Alloc) (now : UInt64) :
    RowsBelow n (st.snapshotRows id allocs now) ↔
      st.nw ≤ n ∨ st.EndsEarly n (.snapshot id allocs now) := by
  by_cases h : ∃ idx rule, st.Allocates id idx rule
  · obtain ⟨idx, rule, h⟩ := h
    rw [h.rowsBelow_snapshot hn (fun w hw => hptr w hw idx) now]
    refine or_congr_right ⟨fun hfails idx' rule' h' => ?_, fun hearly => hearly idx rule h⟩
    obtain rfl := Option.some.inj (h.found.symm.trans h'.found)
    obtain rfl := Option.some.inj (h.rule.symm.trans h'.rule)
    exact hfails
  · push Not at h
    exact iff_of_true (rowsBelow_snapshotRows_of_not hn h)
      (Or.inr fun idx rule h' => absurd h' (h idx rule))

/-- The workers fit in the arrays when their number in the context does. -/
theorem nw_le_maxWorkers_iff (st : ApiState) : st.nw ≤ maxWorkers ↔ st.ctx.workerCount ≤ maxWorkers := by
  rw [nw, workersServed, maxWorkers]
  split <;> omega

/-- **Which operations stay within the arrays.** Whatever worker count a context has, an operation touches
only rows below `INFMON_MAX_WORKERS` if and only if the count is not above it or the operation ends
before it gets to the row behind the last one. -/
theorem rowsBelow_iff (st : ApiState)
    (hptr : ∀ w < maxWorkers, ∀ i old, st.ctx.tables w i = some old → old < st.heap.next)
    (op : WorkerOp) : RowsBelow maxWorkers (st.rows op) ↔
      st.ctx.workerCount ≤ maxWorkers ∨ st.EndsEarly maxWorkers op := by
  rw [← nw_le_maxWorkers_iff]
  cases op with
  | add rule id allocs => exact addRows_below_iff st rule id allocs
  | del name => exact delRows_below_iff st name
  | snapshot id allocs now => exact snapshotRows_below_iff st (by decide) hptr id allocs now
  | publish => exact publishRows_below_iff st

/-- The context of a plugin with one worker thread, when it has a rule. -/
def withRule : ApiState :=
  ((Plugin.start 1).serve (.flowRuleAdd (envAt 0) protoRuleMsg)).api

/-- A snapshot of the rule swaps the tables of both workers. -/
theorem rowsBelow_iff_withRule :
    withRule.ctx.tables 1 0 = some 1 ∧
      (.ctxTables, 1) ∈ withRule.rows (.snapshot protoRuleId (envAt 1).allocs 1) ∧
      (RowsBelow maxWorkers (withRule.rows (.snapshot protoRuleId (envAt 1).allocs 1)) ↔
        withRule.ctx.workerCount ≤ maxWorkers ∨
          withRule.EndsEarly maxWorkers (.snapshot protoRuleId (envAt 1).allocs 1)) := by
  obtain ⟨es, hs⟩ := (Plugin.sound_start 1).serve (.flowRuleAdd (envAt 0) protoRuleMsg)
  exact ⟨by decide +kernel, by decide +kernel,
    rowsBelow_iff withRule (fun w _ i old h => (hs.aligned.owning.made w i old h).1) _⟩

/-- A rule for one key, by protocol. -/
def protoRule : FlowRule where
  name := [0x69, 0x70]
  fields := [2]
  maxKeys := 1
  evictionPolicy := 0
  keyWidth := 0

/-- With 32 workers and the main thread, adding a rule stores a table behind the last row of the context,
and its publication stores it behind the last row of the plugin main. -/
theorem rows_thirty_two_workers :
    ((Plugin.start 32).apiCtxEnsure true).api.ctx.workerCount = 33 ∧
      ¬RowsBelow maxWorkers (((Plugin.start 32).apiCtxEnsure true).api.rows
        (.add protoRule none fun _ => ⟨true, fun _ => 0⟩)) ∧
      ¬RowsBelow maxWorkers (((Plugin.start 32).apiCtxEnsure true).api.rows .publish) :=
  ⟨by decide +kernel,
    fun h => absurd (h (.ctxTables, 32) (by decide +kernel)) (by decide),
    fun h => absurd (h (.pmTables, 32) (by decide +kernel)) (by decide)⟩

end ApiState

end InFMon
