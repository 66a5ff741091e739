import InFMon.Api.Handler
import InFMon.Snapshot.Ownership

/-! # The loops over the tables array

What the loops of adding and deleting a rule do to the table pointers of all workers and to the
heap. -/

namespace InFMon

open CountedLoop DenseArray

/-- One cell has the new table. -/
theorem setTable_apply (tables : Tables) (w i : ℕ) (ptr : Option ℕ) (v j : ℕ) :
    setTable tables w i ptr v j = if v = w ∧ j = i then ptr else tables v j := by
  rw [setTable]
  by_cases hv : v = w
  · subst hv
    by_cases hj : j = i
    · simp [hj]
    · simp [hj]
  · simp [hv]

/-- A write to row `w` extends what was written to the rows before it. -/
theorem setTable_row (tables : Tables) (w i : ℕ) (row : ℕ → Option ℕ) :
    setTable (fun v j => if v < w ∧ j = i then row v else tables v j) w i (row w) =
      fun v j => if v < w + 1 ∧ j = i then row v else tables v j := by
  funext v j
  rw [setTable_apply]
  by_cases hv : v = w
  · subst hv
    by_cases hj : j = i
    · simp [hj]
    · simp [hj]
  · have hlt : v < w + 1 ↔ v < w := by omega
    simp only [hv, false_and, if_false, hlt]

/-- Destroying the tables in column `idx` of the first `k` rows. -/
theorem forUpTo_destroyCell (idx k : ℕ) (tables : Tables) (heap : Heap) :
    forUpTo k (destroyCell idx) (tables, heap) =
      (fun v j => if v < k ∧ j = idx then none else tables v j,
       { heap with
         destroyed := (pointees (fun v => tables v idx) k).reverse ++ heap.destroyed }) := by
  induction k with
  | zero => simp [pointees]
  | succ k ih =>
    rw [forUpTo_succ, ih, destroyCell, setTable_row tables k idx fun _ => none, pointees_succ]
    simp only [lt_irrefl, false_and, if_false]
    cases tables k idx <;> simp [Heap.destroy]

/-- Destroying the tables in the first `k` cells of row `w`. -/
theorem forUpTo_destroyRow (w k : ℕ) (tables : Tables) (heap : Heap) :
    forUpTo k (fun i s => destroyCell i w s) (tables, heap) =
      (fun v j => if v = w ∧ j < k then none else tables v j,
       { heap with destroyed := (pointees (tables w) k).reverse ++ heap.destroyed }) := by
  induction k with
  | zero => simp [pointees]
  | succ k ih =>
    have hrow : setTable (fun v j => if v = w ∧ j < k then none else tables v j) w k none =
        fun v j => if v = w ∧ j < k + 1 then none else tables v j := by
      funext v j
      rw [setTable_apply]
      by_cases hvj : v = w ∧ j = k
      · rw [if_pos hvj, if_pos ⟨hvj.1, by omega⟩]
      · have hlt : (v = w ∧ j < k) ↔ (v = w ∧ j < k + 1) := by omega
        simp only [if_neg hvj, hlt]
    rw [forUpTo_succ, ih, destroyCell, hrow, pointees_succ]
    simp only [lt_irrefl, and_false, if_false]
    cases tables w k <;> simp [Heap.destroy]

/-- Clearing column `i` of the first `k` rows. -/
theorem forUpTo_clear (i k : ℕ) (tables : Tables) :
    forUpTo k (fun w tables => setTable tables w i none) tables =
      fun v j => if v < k ∧ j = i then none else tables v j := by
  induction k with
  | zero => simp
  | succ k ih => rw [forUpTo_succ, ih, setTable_row tables k i fun _ => none]

/-- Moving column `i + 1` of the first `k` rows to column `i`. -/
theorem moveTables_eq (i k : ℕ) (tables : Tables) :
    moveTables k i tables = fun v j => if v < k ∧ j = i then tables v (i + 1) else tables v j := by
  rw [moveTables]
  induction k with
  | zero => simp
  | succ k ih =>
    rw [forUpTo_succ, ih]
    simp only [Nat.succ_ne_self, and_false, if_false]
    exact setTable_row tables k i fun v => tables v (i + 1)

/-- The compaction of tables and ids. -/
theorem forUpTo_compact (nw idx k : ℕ) (tables : Tables) (ids : ℕ → FlowRuleId) :
    forUpTo k (fun m (c : Tables × (ℕ → FlowRuleId)) =>
      (moveTables nw (idx + m) c.1, Function.update c.2 (idx + m) (c.2 (idx + m + 1))))
      (tables, ids) =
      (fun v => if v < nw then closeGap (tables v) idx (idx + k) else tables v,
       closeGap ids idx (idx + k)) := by
  have hids := forUpTo_closeGap ids idx k
  induction k with
  | zero =>
    refine Prod.ext ?_ ?_
    · funext v j
      simp only [forUpTo_zero]
      split
      · unfold closeGap
        rw [if_neg (by omega)]
      · rfl
    · rw [← hids]
      rfl
  | succ k ih =>
    -- move `k` fills the cell that move `k - 1` has vacated
    rw [forUpTo_succ, ih (forUpTo_closeGap ids idx k)]
    refine Prod.ext ?_ ?_
    · rw [moveTables_eq]
      funext v j
      by_cases hv : v < nw
      · by_cases hj : j = idx + k
        · subst hj
          simp only [hv, true_and, if_true, closeGap]
          rw [if_neg (by omega), if_pos (by omega)]
        · have hlt : (idx ≤ j ∧ j < idx + k) ↔ (idx ≤ j ∧ j < idx + (k + 1)) := by omega
          simp only [hv, hj, and_false, if_false, if_true, closeGap, hlt]
      · simp [hv]
    · rw [← hids, forUpTo_succ, forUpTo_closeGap]

/-- What the loop of `flow_rule_add_internal` has done for the workers below `w`: their tables are
the next tables of the heap. -/
structure Added (tables : Tables) (heap : Heap) (idx : ℕ) (rule : FlowRule) (w : ℕ)
    (s : Tables × Heap) : Prop where
  tables_eq : s.1 = fun v j => if v < w ∧ j = idx then some (heap.next + v) else tables v j
  next : s.2.next = heap.next + w
  destroyed : s.2.destroyed = heap.destroyed
  table_eq : ∀ id < heap.next, s.2.table id = heap.table id
  new_table : ∀ v < w, (s.2.table (heap.next + v)).Geometry ∧ (s.2.table (heap.next + v)).Fresh ∧
    (s.2.table (heap.next + v)).numSlots = nextPow2 rule.maxKeys ∧
    (s.2.table (heap.next + v)).keyArenaCapacity =
      (s.2.table (heap.next + v)).numSlots * rule.keyWidth

/-- At the start nothing has been added. -/
theorem Added.start (tables : Tables) (heap : Heap) (idx : ℕ) (rule : FlowRule) :
    Added tables heap idx rule 0 (tables, heap) where
  tables_eq := by simp
  next := rfl
  destroyed := rfl
  table_eq _ _ := rfl
  new_table v hv := absurd hv (Nat.not_lt_zero v)

/-- One worker of the loop. -/
theorem Added.step {tables : Tables} {heap : Heap} {idx w : ℕ} {rule : FlowRule} {allocs : ℕ → Alloc}
    {s s' : Tables × Heap} (h : Added tables heap idx rule w s)
    (hstep : addTable idx rule allocs w s = .ok s') : Added tables heap idx rule (w + 1) s' := by
  rw [addTable] at hstep
  split at hstep
  · cases hstep
  rename_i id heap' hcreate
  obtain ⟨hid, t, ht, hheap⟩ := Heap.create_some (by rw [hcreate])
  rw [hcreate] at hheap
  simp only at hheap
  subst hid hheap
  obtain ⟨-, -, -, hg, hfresh, hslots, hcap⟩ := counterTableCreate_some ht
  obtain rfl := Except.ok.inj hstep
  have hnext := h.next
  refine { tables_eq := ?_, next := ?_, destroyed := h.destroyed, table_eq := ?_, new_table := ?_ }
  · rw [h.tables_eq, hnext]
    exact setTable_row tables w idx fun v => some (heap.next + v)
  · show s.2.next + 1 = _
    omega
  · intro id hid
    show Function.update s.2.table s.2.next t id = _
    rw [Function.update_of_ne (by omega), h.table_eq id hid]
  · intro v hv
    simp only [Heap.alloc]
    rcases Nat.lt_succ_iff_lt_or_eq.mp hv with hlt | rfl
    · rw [Function.update_of_ne (by omega)]
      exact h.new_table v hlt
    · rw [← hnext, Function.update_self]
      exact ⟨hg, hfresh, hslots, hcap⟩

/-- A worker whose table cannot be created undoes the loop. -/
theorem Added.undone {tables : Tables} {heap heap' : Heap} {idx w : ℕ} {rule : FlowRule}
    {allocs : ℕ → Alloc} {s : Tables × Heap} {tables' : Tables}
    (h : Added tables heap idx rule w s) (hfree : ∀ v, tables v idx = none)
    (hstep : addTable idx rule allocs w s = .error (tables', heap')) :
    tables' = tables ∧ heap.Undone heap' := by
  rw [addTable] at hstep
  split at hstep
  · rename_i heap₁ hcreate
    have hheap := Heap.create_none (by rw [hcreate])
    rw [hcreate] at hheap
    obtain rfl : heap₁ = s.2 := hheap
    have herr := Except.error.inj hstep
    rw [forUpTo_destroyCell] at herr
    obtain ⟨htables, hheap⟩ := Prod.mk.inj herr
    subst htables hheap
    constructor
    · -- the cells of the new tables are clear again
      rw [h.tables_eq]
      funext v j
      by_cases hvj : v < w ∧ j = idx
      · rw [if_pos hvj, hvj.2, hfree v]
      · simp only [if_neg hvj]
    · have hnext := h.next
      have hrow : ∀ v < w, s.1 v idx = some (heap.next + v) := fun v hv => by
        rw [h.tables_eq]
        simp [hv]
      refine ⟨by simp only; omega, h.table_eq, (pointees (fun v => s.1 v idx) w).reverse,
        by rw [← h.destroyed], List.nodup_reverse.mpr (pointees_nodup ?_), fun id => ?_⟩
      · intro u hu v hv id hu' hv'
        rw [hrow u hu] at hu'
        rw [hrow v hv] at hv'
        simp only [Option.some.injEq] at hu' hv'
        omega
      · rw [List.mem_reverse, mem_pointees]
        constructor
        · rintro ⟨v, hv, hid⟩
          rw [hrow v hv, Option.some.injEq] at hid
          simp only
          omega
        · rintro ⟨h1, h2⟩
          simp only at h2
          exact ⟨id - heap.next, by omega, by rw [hrow _ (by omega)]; congr 1; omega⟩
  · cases hstep

end InFMon
