import InFMon.Api.Rows
import InFMon.CounterTable.Shape
import InFMon.FlowRule.RuleList
import Mathlib.Data.List.InsertIdx

/-! # Rules, ids and tables

The API keeps three parallel arrays: the rules, their ids and the counter tables of each worker. They
hold one list of entries, and every operation changes that list in all three of them. -/

namespace InFMon

open CountedLoop DenseArray

/-! ### Entries -/

/-- A table for a registered rule has at most 1 GiB of keys. -/
theorem FlowRule.Registered.capacity_le {rule : FlowRule} (h : rule.Registered) :
    nextPow2 rule.maxKeys * rule.keyWidth ≤ 2 ^ 30 := by
  have hle := h.maxKeys_le
  obtain ⟨k, -, hpow, -, hmin⟩ := nextPow2_spec h.maxKeys_pos (hle.trans (by decide))
  have hk : k ≤ 24 := hmin 24 hle
  have hslots : nextPow2 rule.maxKeys ≤ 2 ^ 24 := hpow ▸ Nat.pow_le_pow_right (by decide) hk
  exact (Nat.mul_le_mul hslots h.keyWidth_le).trans (by decide)

/-- What belongs to one flow rule: the rule as it stands in the set, the id it was added with and the
table pointer of each worker. -/
structure RuleEntry where
  rule : FlowRule
  id : FlowRuleId
  tables : ℕ → Option ℕ

/-- The entry with other tables. -/
def RuleEntry.swap (e : RuleEntry) (tables : ℕ → Option ℕ) : RuleEntry := { e with tables := tables }

/-- New tables leave the rule. -/
@[simp] theorem RuleEntry.swap_rule (e : RuleEntry) (tables : ℕ → Option ℕ) :
    (e.swap tables).rule = e.rule := rfl

/-- New tables leave the id. -/
@[simp] theorem RuleEntry.swap_id (e : RuleEntry) (tables : ℕ → Option ℕ) :
    (e.swap tables).id = e.id := rfl

/-- The entry has the new tables. -/
@[simp] theorem RuleEntry.swap_tables (e : RuleEntry) (tables : ℕ → Option ℕ) :
    (e.swap tables).tables = tables := rfl

/-- Every worker has a table of the size that the rule asks for, and all of them are of one
generation. -/
structure RuleEntry.Served (e : RuleEntry) (heap : Heap) (nw : ℕ) : Prop where
  isSome : ∀ w, (e.tables w).isSome = decide (w < nw)
  numSlots : ∀ w t, e.tables w = some t → (heap.table t).numSlots = nextPow2 e.rule.maxKeys
  capacity : ∀ w t, e.tables w = some t →
    (heap.table t).keyArenaCapacity = (heap.table t).numSlots * e.rule.keyWidth
  generation : ∃ g, ∀ w t, e.tables w = some t → (heap.table t).generation = g

namespace RuleEntry.Served

variable {e : RuleEntry} {heap heap' : Heap} {nw : ℕ}

/-- Only the shape of the entry's tables matters. -/
theorem congr (h : e.Served heap nw)
    (hshape : ∀ w t, e.tables w = some t → (heap'.table t).shape = (heap.table t).shape) :
    e.Served heap' nw := by
  have hfields : ∀ w t, e.tables w = some t →
      (heap'.table t).numSlots = (heap.table t).numSlots ∧
      (heap'.table t).keyArenaCapacity = (heap.table t).keyArenaCapacity ∧
      (heap'.table t).generation = (heap.table t).generation := by
    intro w t ht
    have hs := hshape w t ht
    simp only [CounterTable.shape, Prod.mk.injEq] at hs
    exact ⟨hs.1, hs.2.2.1, hs.2.2.2⟩
  refine { isSome := h.isSome, numSlots := ?_, capacity := ?_, generation := ?_ }
  · intro w t ht
    rw [(hfields w t ht).1, h.numSlots w t ht]
  · intro w t ht
    obtain ⟨hslots, hcap, -⟩ := hfields w t ht
    rw [hslots, hcap, h.capacity w t ht]
  · obtain ⟨g, hg⟩ := h.generation
    exact ⟨g, fun w t ht => (hfields w t ht).2.2.trans (hg w t ht)⟩

/-- There is no table for a worker that is not served. -/
theorem eq_none (h : e.Served heap nw) {w : ℕ} (hw : nw ≤ w) : e.tables w = none := by
  have := h.isSome w
  rw [decide_eq_false (by omega)] at this
  simpa using this

/-- There is a table for every worker that is served. -/
theorem exists_table (h : e.Served heap nw) {w : ℕ} (hw : w < nw) : ∃ t, e.tables w = some t := by
  rw [← Option.isSome_iff_exists, h.isSome, decide_eq_true hw]

end RuleEntry.Served

/-! ### Alignment -/

namespace ApiState

/-- At least one worker is served. -/
theorem nw_pos (st : ApiState) : 0 < st.nw := by
  unfold nw workersServed
  split
  · assumption
  · exact Nat.one_pos

/-- The rule set, the ids and the tables hold the entries `es`. -/
structure Aligned (st : ApiState) (es : List RuleEntry) : Prop where
  rules : st.ruleSet.Holds (es.map RuleEntry.rule)
  ids : st.ctx.flowRuleIds = ofList .zero (es.map RuleEntry.id)
  tables : ∀ w, st.ctx.tables w = ofList none (es.map fun e => e.tables w)
  served : ∀ e ∈ es, e.Served st.heap st.nw
  owning : Owning st.mgr st.ctx.tables st.heap

/-- What the context says of its entries, whoever else has tables on the heap. -/
structure Arranged (st : ApiState) (es : List RuleEntry) : Prop where
  rules : st.ruleSet.Holds (es.map RuleEntry.rule)
  ids : st.ctx.flowRuleIds = ofList .zero (es.map RuleEntry.id)
  tables : ∀ w, st.ctx.tables w = ofList none (es.map fun e => e.tables w)
  count : st.mgr.retiredCount = st.mgr.pendingEntries.card
  made : ∀ w i t, st.ctx.tables w i = some t → t < st.heap.next ∧ (st.heap.table t).Geometry

variable {st : ApiState} {es : List RuleEntry}

namespace Arranged

/-- The rule set has as many rules as there are entries. -/
theorem count_eq (h : st.Arranged es) : st.ruleSet.count = es.length := by
  rw [h.rules.count, List.length_map]

/-- The ids stand in the order of the entries. -/
theorem id_eq (h : st.Arranged es) {i : ℕ} (hi : i < es.length) :
    st.ctx.flowRuleIds i = es[i].id := by
  rw [h.ids, ofList_of_lt (by simpa using hi), List.getElem_map]

/-- No table stands behind the last rule. -/
theorem table_of_ge (h : st.Arranged es) {i : ℕ} (hi : es.length ≤ i) (w : ℕ) :
    st.ctx.tables w i = none := by
  rw [h.tables, ofList_of_ge (by simpa using hi)]

/-- The first entry with the id is found. -/
theorem findRuleIndexById_eq_some_iff (h : st.Arranged es) {id : FlowRuleId} {i : ℕ} :
    st.findRuleIndexById id = some i ↔
      ∃ hi : i < es.length, es[i].id = id ∧ ∀ j (hj : j < i), es[j].id ≠ id := by
  have heq : ∀ a b : FlowRuleId, a.eq b = true ↔ a = b := by
    intro a b
    simp [FlowRuleId.eq, FlowRuleId.ext_iff]
  rw [findRuleIndexById, List.find?_range_eq_some, h.count_eq, List.mem_range, heq]
  simp only [Bool.not_eq_true', ← Bool.not_eq_true, heq]
  constructor
  · rintro ⟨hid, hi, hfirst⟩
    exact ⟨hi, h.id_eq hi ▸ hid, fun j hj => h.id_eq (i := j) (by omega) ▸ hfirst j hj⟩
  · rintro ⟨hi, hid, hfirst⟩
    exact ⟨h.id_eq hi ▸ hid, hi, fun j hj => h.id_eq (i := j) (by omega) ▸ hfirst j hj⟩

/-- Work that was undone does not matter. -/
theorem undone (h : st.Arranged es) {heap : Heap} (hundone : st.heap.Undone heap) :
    ({ st with heap := heap } : ApiState).Arranged es where
  rules := h.rules
  ids := h.ids
  tables := h.tables
  count := h.count
  made w i t ht := by
    obtain ⟨hlt, hg⟩ := h.made w i t ht
    refine ⟨Nat.lt_of_lt_of_le hlt hundone.next_le, ?_⟩
    show (heap.table t).Geometry
    rwa [hundone.table_eq t hlt]

/-- The tables of an entry are on the heap. -/
theorem lt_next (h : st.Arranged es) {e : RuleEntry} (he : e ∈ es) {w t : ℕ}
    (ht : e.tables w = some t) : t < st.heap.next := by
  obtain ⟨i, hi, rfl⟩ := List.getElem_of_mem he
  refine (h.made w i t ?_).1
  rw [h.tables, ofList_of_lt (by simpa using hi), List.getElem_map, ht]

/-- Other tables may come and go, as long as those of the entries keep their shape. -/
theorem served_congr (h : st.Arranged es) {nw : ℕ} (hserved : ∀ e ∈ es, e.Served st.heap nw)
    {heap : Heap} (hshape : ∀ t < st.heap.next, (heap.table t).shape = (st.heap.table t).shape) :
    ∀ e ∈ es, e.Served heap nw :=
  fun e he => (hserved e he).congr fun _ t ht => hshape t (h.lt_next he ht)

end Arranged

namespace Aligned

/-- Aligned tables are arranged. -/
theorem arranged (h : st.Aligned es) : st.Arranged es where
  rules := h.rules
  ids := h.ids
  tables := h.tables
  count := h.owning.count
  made := h.owning.made

/-- The rule set has as many rules as there are entries. -/
theorem count_eq (h : st.Aligned es) : st.ruleSet.count = es.length := h.arranged.count_eq

/-- The ids stand in the order of the entries. -/
theorem id_eq (h : st.Aligned es) {i : ℕ} (hi : i < es.length) :
    st.ctx.flowRuleIds i = es[i].id := h.arranged.id_eq hi

/-- The rules stand in the order of the entries. -/
theorem rule_eq (h : st.Aligned es) {i : ℕ} (hi : i < es.length) :
    st.ruleSet.rules i = es[i].rule := by
  rw [h.rules.rules_eq (by simpa using hi), List.getElem_map]

/-- The tables stand in the order of the entries. -/
theorem table_eq (h : st.Aligned es) {i : ℕ} (hi : i < es.length) (w : ℕ) :
    st.ctx.tables w i = es[i].tables w := by
  rw [h.tables, ofList_of_lt (by simpa using hi), List.getElem_map]

/-- No table stands behind the last rule. -/
theorem table_of_ge (h : st.Aligned es) {i : ℕ} (hi : es.length ≤ i) (w : ℕ) :
    st.ctx.tables w i = none := h.arranged.table_of_ge hi w

/-- The rows of workers that do not exist are empty. -/
theorem row_of_ge (h : st.Aligned es) {w : ℕ} (hw : st.nw ≤ w) (i : ℕ) :
    st.ctx.tables w i = none := by
  by_cases hi : i < es.length
  · rw [h.table_eq hi, (h.served _ (List.getElem_mem hi)).eq_none hw]
  · exact h.table_of_ge (Nat.le_of_not_lt hi) w

/-- Other tables may come and go, as long as those of the entries keep their shape. -/
theorem served_congr (h : st.Aligned es) {heap : Heap}
    (hshape : ∀ t < st.heap.next, (heap.table t).shape = (st.heap.table t).shape) :
    ∀ e ∈ es, e.Served heap st.nw :=
  h.arranged.served_congr h.served hshape

/-- Work that was undone does not matter. -/
theorem undone (h : st.Aligned es) {heap : Heap} (hundone : st.heap.Undone heap) :
    ({ st with heap := heap } : ApiState).Aligned es where
  rules := h.rules
  ids := h.ids
  tables := h.tables
  served := h.served_congr fun t ht => by rw [hundone.table_eq t ht]
  owning :=
    { owned := h.owning.owned.undone hundone
      count := h.owning.count
      geometry := fun w i t ht => by
        obtain ⟨hlt, hg⟩ := h.owning.made w i t ht
        show (heap.table t).Geometry
        rwa [hundone.table_eq t hlt] }

end Aligned

/-! ### Adding a rule -/

/-- A failure is not mapped to a success. -/
theorem mapRuleResult_ne_ok {r : FlowRuleResult} (h : r ≠ .ok) : mapRuleResult r ≠ .ok := by
  cases r with
  | ok => exact absurd rfl h
  | _ => simp [mapRuleResult]

/-- A rule that the set refuses. -/
theorem flowRuleAdd_refused {rule : FlowRule} (h : (st.ruleSet.add rule).1 ≠ .ok)
    (id : Option FlowRuleId) (allocs : ℕ → Alloc) :
    st.flowRuleAdd rule id allocs = (mapRuleResult (st.ruleSet.add rule).1, st) := by
  rw [flowRuleAdd]
  split
  · rename_i heq
    rw [heq] at h
    exact absurd rfl h
  · rename_i heq
    rw [heq]

/-- A rule that is added is one that the set takes. -/
theorem add_ok_of_flowRuleAdd_ok {rule : FlowRule} {id : Option FlowRuleId} {allocs : ℕ → Alloc}
    (h : (st.flowRuleAdd rule id allocs).1 = .ok) : (st.ruleSet.add rule).1 = .ok := by
  by_contra hne
  rw [flowRuleAdd_refused hne] at h
  exact mapRuleResult_ne_ok hne h

/-- A rule that the set takes is added by the loop over the workers, and taken out again if the loop
fails. -/
theorem flowRuleAdd_of_added {rs : List FlowRule} {rule : FlowRule} (h : st.ruleSet.Holds rs)
    (hok : (st.ruleSet.add rule).1 = .ok) (id : Option FlowRuleId) (allocs : ℕ → Alloc) :
    (∀ s, forUpToExcept st.nw (addTable rs.length rule.register allocs) (st.ctx.tables, st.heap) =
        .ok s →
      st.flowRuleAdd rule id allocs = (.ok,
        { st with
          ctx := { st.ctx with
            tables := s.1
            flowRuleIds := Function.update st.ctx.flowRuleIds rs.length (id.getD .zero) }
          ruleSet := (st.ruleSet.add rule).2
          heap := s.2 })) ∧
    ∀ e, forUpToExcept st.nw (addTable rs.length rule.register allocs) (st.ctx.tables, st.heap) =
        .error e →
      st.flowRuleAdd rule id allocs = (.errInternal,
        { st with ctx := { st.ctx with tables := e.1 }, heap := e.2 }) := by
  rcases h.add rule with ⟨-, hholds, hbudget⟩ | ⟨hne, -⟩
  · -- the rule is in the set, behind the others
    have hset : st.ruleSet.add rule = (.ok, (st.ruleSet.add rule).2) := Prod.ext hok rfl
    have hidx : (st.ruleSet.add rule).2.indexOf rule.name = some rs.length := by
      rw [hholds.indexOf_eq_some_iff]
      exact ⟨by simp, by simp [FlowRule.register]⟩
    have hget : (st.ruleSet.add rule).2.get rs.length = some rule.register := by
      rw [hholds.get_eq (by simp)]
      simp
    have hrm := h.rm_add hholds hbudget
    constructor
    · intro s hloop
      rw [flowRuleAdd, hset]
      simp only [findRuleIndex, hidx, hget]
      rw [nw] at hloop
      simp only [nw, hloop]
    · intro e hloop
      rw [flowRuleAdd, hset]
      simp only [findRuleIndex, hidx, hget]
      rw [nw] at hloop
      simp only [nw, hloop, hrm]
  · exact absurd hok hne

/-- A rule is added behind the others with new tables, or nothing has changed in the end. -/
theorem flowRuleAdd_cases (h : st.Arranged es) (rule : FlowRule) (id : Option FlowRuleId)
    (allocs : ℕ → Alloc) :
    ((st.flowRuleAdd rule id allocs).1 ≠ .ok ∧ ∃ heap, st.heap.Undone heap ∧
      (st.flowRuleAdd rule id allocs).2 = { st with heap := heap }) ∨
    ∃ set s, set.Holds (es.map RuleEntry.rule ++ [rule.register]) ∧
      Added st.ctx.tables st.heap es.length rule.register st.nw s ∧
      st.flowRuleAdd rule id allocs = (.ok,
        { st with
          ctx := { st.ctx with
            tables := s.1
            flowRuleIds := Function.update st.ctx.flowRuleIds es.length (id.getD .zero) }
          ruleSet := set
          heap := s.2 }) := by
  rcases h.rules.add rule with ⟨hok, hholds, -⟩ | ⟨herr, -⟩
  · obtain ⟨hadd, hundo⟩ := flowRuleAdd_of_added h.rules hok id allocs
    rw [List.length_map] at hadd hundo
    -- the new rule's column is empty before the loop, so undoing the loop restores the matrix
    have hfree : ∀ v, st.ctx.tables v es.length = none := h.table_of_ge (Nat.le_refl _)
    rcases forUpToExcept_induct (Added st.ctx.tables st.heap es.length rule.register)
      (f := addTable es.length rule.register allocs) (n := st.nw) (Added.start _ _ _ _)
      (fun w _ s s' hs hstep => hs.step hstep) with
      ⟨s, hloop, hadded⟩ | ⟨⟨tables, heap⟩, hloop, w, -, s, hadded, hstep⟩
    · exact Or.inr ⟨(st.ruleSet.add rule).2, s, hholds, hadded, hadd s hloop⟩
    · obtain ⟨htables, hundone⟩ := hadded.undone hfree hstep
      have heq := hundo _ hloop
      simp only [htables] at heq
      refine Or.inl ⟨?_, heap, hundone, congrArg Prod.snd heq⟩
      rw [heq]
      exact ApiResult.noConfusion
  · rw [flowRuleAdd_refused herr]
    exact Or.inl ⟨mapRuleResult_ne_ok herr, st.heap, Heap.Undone.refl st.heap, rfl⟩

/-- The entry of a rule that is added has the new tables. -/
theorem served_of_added {heap : Heap} {tables : Tables} {idx nw : ℕ} {rule : FlowRule}
    {s : Tables × Heap} (hs : Added tables heap idx rule nw s) (id : FlowRuleId) :
    RuleEntry.Served ⟨rule, id, fun w => if w < nw then some (heap.next + w) else none⟩ s.2 nw := by
  refine { isSome := ?_, numSlots := ?_, capacity := ?_, generation := ⟨0, ?_⟩ }
  · intro w
    show (if w < nw then some (heap.next + w) else none).isSome = decide (w < nw)
    by_cases hw : w < nw
    · simp [hw]
    · simp [hw]
  all_goals
    intro w t ht
    obtain ⟨hw, ht⟩ := Option.ite_none_right_eq_some.mp ht
    obtain rfl := Option.some.inj ht
    obtain ⟨-, hfresh, hslots, hcap⟩ := hs.new_table w hw
  · exact hslots
  · exact hcap
  · exact hfresh.generation

/-- A cell has what it had, or it is one of the new rule and has a new table. -/
theorem Aligned.cell_of_added (h : st.Aligned es) {rule : FlowRule} {s : Tables × Heap}
    (hs : Added st.ctx.tables st.heap es.length rule st.nw s) (w i t : ℕ) :
    s.1 w i = some t ↔ st.ctx.tables w i = some t ∨
      (w < st.nw ∧ i = es.length ∧ t = st.heap.next + w) := by
  simp only [hs.tables_eq]
  by_cases hwi : w < st.nw ∧ i = es.length
  · rw [if_pos hwi, hwi.2, h.table_of_ge (Nat.le_refl _)]
    simp only [hwi.1, Option.some.injEq, reduceCtorEq, true_and, false_or, eq_comm]
  · rw [if_neg hwi]
    exact (or_iff_left fun hnew => hwi ⟨hnew.1, hnew.2.1⟩).symm

/-- The new tables are owned by the cells of the new rule. -/
theorem Aligned.owned_of_added (h : st.Aligned es) {rule : FlowRule} {s : Tables × Heap}
    (hs : Added st.ctx.tables st.heap es.length rule st.nw s) :
    s.2.Owned (tableRefs s.1 st.mgr) := by
  have hnext := hs.next
  refine h.owning.owned.add
    (fun p t => ∃ w < st.nw, p = .cell w es.length ∧ t = st.heap.next + w) ?_ ?_ ?_ (by omega)
    hs.destroyed
  · rintro (⟨w, i⟩ | ⟨r, v⟩) t
    · rw [tableRefs, tableRefs, h.cell_of_added hs]
      refine or_congr_right ⟨?_, ?_⟩
      · rintro ⟨hw, rfl, ht⟩
        exact ⟨w, hw, rfl, ht⟩
      · rintro ⟨w', hw, heq, ht⟩
        obtain ⟨rfl, rfl⟩ := Place.cell.inj heq
        exact ⟨hw, rfl, ht⟩
    · simp only [tableRefs, reduceCtorEq, false_and, and_false, exists_false, or_false]
  · intro t
    constructor
    · rintro ⟨p, w, hw, -, rfl⟩
      exact ⟨by omega, by omega⟩
    · rintro ⟨hge, hlt⟩
      exact ⟨.cell (t - st.heap.next) es.length, t - st.heap.next, by omega, rfl, by omega⟩
  · -- a table is in the cell of one worker
    rintro p q t ⟨u, -, rfl, hu⟩ ⟨v, -, rfl, hv⟩
    obtain rfl : u = v := by omega
    rfl

/-- The entries after adding a rule. -/
theorem Aligned.added (h : st.Aligned es) {rule : FlowRule} {id : FlowRuleId} {set : FlowRuleSet}
    {s : Tables × Heap} (hset : set.Holds (es.map RuleEntry.rule ++ [rule]))
    (hs : Added st.ctx.tables st.heap es.length rule st.nw s) :
    ({ st with
      ctx := { st.ctx with
        tables := s.1
        flowRuleIds := Function.update st.ctx.flowRuleIds es.length id }
      ruleSet := set
      heap := s.2 } : ApiState).Aligned
        (es ++ [⟨rule, id, fun w => if w < st.nw then some (st.heap.next + w) else none⟩]) := by
  refine { rules := by simpa using hset, ids := ?_, tables := ?_, served := ?_, owning := ?_ }
  · rw [List.map_append, List.map_singleton, ofList_concat, ← h.ids, List.length_map]
  · intro w
    rw [List.map_append, List.map_singleton, ofList_concat, ← h.tables, List.length_map]
    funext i
    rw [hs.tables_eq]
    by_cases hi : i = es.length
    · subst hi
      simp only [and_true, Function.update_self, h.table_of_ge (Nat.le_refl _)]
    · simp only [hi, and_false, if_false, Function.update_of_ne hi]
  · intro e he
    rcases List.mem_append.mp he with he | he
    · exact h.served_congr (fun t ht => by rw [hs.table_eq t ht]) e he
    · obtain rfl := List.mem_singleton.mp he
      exact served_of_added hs id
  -- a cell of the grown matrix is an old one or one of the fresh column
  · refine { owned := h.owned_of_added hs, count := h.owning.count, geometry := ?_ }
    intro w i t ht
    show (s.2.table t).Geometry
    rcases (h.cell_of_added hs w i t).mp ht with ht | ⟨hw, -, rfl⟩
    · obtain ⟨hlt, hg⟩ := h.owning.made w i t ht
      rwa [hs.table_eq t hlt]
    · exact (hs.new_table w hw).1

/-! ### Deleting a rule -/

/-- The state after the rule at index `i` has been deleted: its tables are destroyed, and what
belongs to the rules behind it has moved down by one. -/
def without (st : ApiState) (i : ℕ) (set : FlowRuleSet) : ApiState :=
  { st with
    ctx := { st.ctx with
      tables := fun w j => st.ctx.tables w (skip i j)
      flowRuleIds := fun j => st.ctx.flowRuleIds (skip i j) }
    ruleSet := set
    heap := { st.heap with
      destroyed := (pointees (fun w => st.ctx.tables w i) st.nw).reverse ++ st.heap.destroyed } }

/-- What the loops of `infmon_api_flow_rule_del` make of the row of worker `w`. -/
theorem Aligned.compacted_row (h : st.Aligned es) {i n : ℕ} (hi : i ≤ n) (hn : es.length = n + 1)
    (w j : ℕ) :
    (if j = n then none
      else closeGap (fun j => if j = i then none else st.ctx.tables w j) i n j) =
      st.ctx.tables w (skip i j) := by
  have hend : ∀ k, n < k → st.ctx.tables w k = none := fun k hk => h.table_of_ge (by omega) w
  unfold closeGap skip
  simp only
  by_cases hjn : j = n
  · rw [if_pos hjn, if_neg (by omega), hend _ (by omega)]
  rw [if_neg hjn]
  by_cases hji : j < i
  · rw [if_pos hji, if_neg (by omega), if_neg (by omega)]
  rw [if_neg hji]
  by_cases hlt : j < n
  · rw [if_pos ⟨by omega, hlt⟩, if_neg (by omega)]
  · rw [if_neg (by omega), if_neg (by omega), hend _ (by omega), hend _ (by omega)]

/-- The rule with the given name is deleted, or there is none and nothing has changed. -/
theorem flowRuleDel_cases (h : st.Aligned es) (name : List UInt8) :
    (st.flowRuleDel name = (.errNotFound, st) ∧ name ∉ es.map fun e => e.rule.name) ∨
    ∃ (i : ℕ) (_ : i < es.length) (set : FlowRuleSet), es[i].rule.name = name ∧
      set.Holds ((es.map RuleEntry.rule).eraseIdx i) ∧
      st.flowRuleDel name = (.ok, st.without i set) := by
  cases hfind : st.findRuleIndex name with
  | none =>
    refine Or.inl ⟨by rw [flowRuleDel, hfind], ?_⟩
    have := h.rules.indexOf_eq_none_iff.mp hfind
    rwa [List.map_map] at this
  | some i =>
    obtain ⟨hi, hname⟩ := h.rules.indexOf_eq_some_iff.mp hfind
    obtain ⟨hok, hholds, -⟩ := h.rules.rm hfind
    rw [List.getElem_map] at hname
    rw [List.length_map] at hi
    obtain ⟨set, hrm⟩ : ∃ set, st.ruleSet.rm name = (.ok, set) := ⟨_, Prod.ext hok rfl⟩
    rw [hrm] at hholds
    refine Or.inr ⟨i, hi, set, hname, hholds, ?_⟩
    have hcount : set.count = es.length - 1 := by
      rw [hholds.count, List.length_eraseIdx_of_lt (by simpa using hi), List.length_map]
    have hend : i + (es.length - 1 - i) = es.length - 1 := by omega
    have hids : Function.update (closeGap st.ctx.flowRuleIds i (es.length - 1)) (es.length - 1)
        .zero = fun j => st.ctx.flowRuleIds (skip i j) := by
      funext j
      rw [h.ids, ← ofList_eraseIdx (by omega) (by rw [List.length_map]; omega),
        ofList_eraseIdx_apply]
    rw [flowRuleDel, hfind]
    simp only [hrm, forUpTo_destroyCell, forUpTo_compact, forUpTo_clear, hcount, hend, hids]
    rw [without]
    congr 3
    -- the rows of the workers that exist, and the empty rows behind them
    funext w j
    by_cases hw : w < st.nw
    · simp only [hw, true_and, if_true]
      exact h.compacted_row (by omega) (by omega) w j
    · simp only [hw, false_and, if_false]
      rw [h.row_of_ge (by omega), h.row_of_ge (by omega)]

/-- The tables without those of the rule at index `i`. -/
def clearedTables (st : ApiState) (i : ℕ) : Tables :=
  fun w j => if j = i then none else st.ctx.tables w j

/-- Where a table is referred to after the rules behind the one at index `i` have moved down. -/
def movedDown (i : ℕ) : Place → Place
  | .cell w j => .cell w (unskip i j)
  | .ring r v => .ring r v

/-- The tables of the deleted rule are destroyed and referred to no more. -/
theorem Aligned.owned_cleared (h : st.Aligned es) (i : ℕ) (set : FlowRuleSet) :
    (st.without i set).heap.Owned (tableRefs (st.clearedTables i) st.mgr) := by
  refine h.owning.owned.drop (fun w => st.ctx.tables w i) (n := st.nw)
    (fun w => .cell w i) (fun _ _ => rfl) ?_ ?_ rfl rfl
  · intro u _ v _ huv
    exact (Place.cell.inj huv).1
  · rintro (⟨w, j⟩ | ⟨r, v⟩) t
    · simp only [tableRefs, clearedTables, Place.cell.injEq]
      by_cases hji : j = i
      · subst hji
        rw [if_pos rfl]
        refine iff_of_false (by simp) ?_
        rintro ⟨ht, hother⟩
        refine hother ?_
        -- the worker exists, since it has a table
        have hw : w < st.nw := by
          by_contra hge
          rw [h.row_of_ge (Nat.le_of_not_lt hge)] at ht
          cases ht
        exact ⟨w, hw, rfl, rfl⟩
      · rw [if_neg hji]
        refine (and_iff_left ?_).symm
        rintro ⟨v, -, -, rfl⟩
        exact hji rfl
    · simp only [tableRefs, reduceCtorEq, and_false, exists_false, not_false_eq_true, and_true]

/-- The entries after deleting a rule. -/
theorem Aligned.deleted (h : st.Aligned es) {i : ℕ} {set : FlowRuleSet}
    (hset : set.Holds ((es.map RuleEntry.rule).eraseIdx i)) :
    (st.without i set).Aligned (es.eraseIdx i) := by
  refine { rules := List.eraseIdx_map RuleEntry.rule es i ▸ hset, ids := ?_, tables := ?_,
           served := ?_, owning := ?_ }
  · funext j
    show st.ctx.flowRuleIds (skip i j) = _
    rw [← List.eraseIdx_map, ofList_eraseIdx_apply, h.ids]
  · intro w
    funext j
    show st.ctx.tables w (skip i j) = _
    rw [← List.eraseIdx_map, ofList_eraseIdx_apply, h.tables]
  · intro e he
    exact (h.served e ((List.eraseIdx_sublist es i).subset he)).congr fun _ _ _ => rfl
  · refine { owned := ?_, count := h.owning.count, geometry := fun w j t ht =>
             h.owning.geometry w (skip i j) t ht }
    refine (h.owned_cleared i set).move (movedDown i) ?_ ?_
    · rintro (⟨w, j⟩ | ⟨r, v⟩) t ht
      · obtain ⟨hji, ht⟩ := Option.ite_none_left_eq_some.mp ht
        show st.ctx.tables w (skip i (unskip i j)) = some t
        rwa [skip_unskip hji]
      · exact ht
    · rintro (⟨w, j⟩ | ⟨r, v⟩) t ht
      · refine ⟨.cell w (skip i j), congrArg (Place.cell w) (unskip_skip i j), ?_⟩
        show st.clearedTables i w (skip i j) = some t
        rw [clearedTables, if_neg (skip_ne i j)]
        exact ht
      · exact ⟨.ring r v, rfl, ht⟩

/-! ### Snapshots -/

/-- A success and nothing else is mapped to a success. -/
theorem mapSnapResult_eq_ok_iff {r : SnapResult} : mapSnapResult r = .ok ↔ r = .ok := by
  cases r <;> simp [mapSnapResult]

/-- The state that a snapshot of the manager leaves. -/
def swapped (st : ApiState) (out : SnapOutcome) : ApiState :=
  { st with ctx := { st.ctx with tables := out.tables }, mgr := out.mgr, heap := out.heap }

/-- The tables of the first entry with the id are exchanged, or nothing has changed in the end. -/
theorem snapshotAndClear_cases (h : st.Arranged es) (id : FlowRuleId) (allocs : ℕ → Alloc)
    (now : UInt64) :
    ((st.snapshotAndClear id allocs now).1.result ≠ .ok ∧ ∃ heap, st.heap.Undone heap ∧
      (st.snapshotAndClear id allocs now).2 = { st with heap := heap }) ∨
    ∃ (i : ℕ) (hi : i < es.length) (out : SnapOutcome) (new : ℕ → Option ℕ) (r : ℕ),
      es[i].id = id ∧ (∀ j (hj : j < i), es[j].id ≠ id) ∧
      Snapped st.mgr st.ctx.tables st.heap st.nw i es[i].rule.keyWidth now out new r ∧
      (st.snapshotAndClear id allocs now).1.result = .ok ∧
      (st.snapshotAndClear id allocs now).1.retiredTables = out.reply.retiredTables ∧
      (st.snapshotAndClear id allocs now).1.numRetired = out.reply.numRetired ∧
      (st.snapshotAndClear id allocs now).2 = st.swapped out := by
  have hsame : ∃ heap, st.heap.Undone heap ∧ st = { st with heap := heap } :=
    ⟨st.heap, Heap.Undone.refl st.heap, rfl⟩
  unfold snapshotAndClear
  split
  · exact Or.inl ⟨by simp [ApiSnapReply.error], hsame⟩
  split
  · exact Or.inl ⟨by simp [ApiSnapReply.error], hsame⟩
  split
  · exact Or.inl ⟨by simp [ApiSnapReply.error], hsame⟩
  rename_i i hfind
  obtain ⟨hi, hid, hfirst⟩ := h.findRuleIndexById_eq_some_iff.mp hfind
  split
  · exact Or.inl ⟨by simp [ApiSnapReply.error], hsame⟩
  -- the id stands at `i`, so the swap is made with the key width of rule `i`
  have hget : st.ruleSet.get i = some es[i].rule := by
    rw [h.rules.get_eq (by simpa using hi), List.getElem_map]
  rw [hget]
  simp only
  rcases InFMon.snapshotAndClear_cases h.count (fun v t ht => h.made v i t ht) st.nw
    flowRuleSetMax es[i].rule.keyWidth allocs now with ⟨herr, htables, hmgr, hheap⟩ | ⟨new, r, hs⟩
  · rw [if_pos herr]
    refine Or.inl ⟨?_, _, hheap, ?_⟩
    · rw [ApiSnapReply.error]
      exact fun hok => herr (mapSnapResult_eq_ok_iff.mp hok)
    · rw [htables, hmgr]
  · rw [if_neg (not_not.mpr hs.result)]
    rw [workersServed, if_pos st.nw_pos] at hs
    exact Or.inr ⟨i, hi, _, new, r, hid, hfirst, hs, rfl, rfl, rfl, rfl⟩

/-- A swap that succeeds has a descriptor, for the id that was asked for. -/
theorem snapshotAndClear_describes {id : FlowRuleId} {allocs : ℕ → Alloc} {now : UInt64}
    (hok : (st.snapshotAndClear id allocs now).1.result = .ok) :
    ∃ desc, (st.snapshotAndClear id allocs now).1.descriptor = some desc ∧
      desc.flowRuleId = id := by
  revert hok
  unfold snapshotAndClear
  split
  · exact fun hok => by cases hok
  split
  · exact fun hok => by cases hok
  split
  · exact fun hok => by cases hok
  split
  · exact fun hok => by cases hok
  split
  · exact fun hok => by cases hok
  dsimp only
  split
  · rename_i herr
    exact fun hok => absurd (mapSnapResult_eq_ok_iff.mp hok) herr
  · exact fun _ => ⟨_, rfl, rfl⟩

/-- The entries after a snapshot. -/
theorem Aligned.snapped (h : st.Aligned es) {i : ℕ} (hi : i < es.length) {now : UInt64}
    {out : SnapOutcome} {new : ℕ → Option ℕ} {r : ℕ}
    (hs : Snapped st.mgr st.ctx.tables st.heap st.nw i es[i].rule.keyWidth now out new r) :
    (st.swapped out).Aligned (es.set i (es[i].swap new)) := by
  have hold := h.served _ (List.getElem_mem hi)
  -- a new table has the slots and the arena of the one it replaces
  have hnew : ∀ w t, new w = some t → ∃ old, es[i].tables w = some old ∧
      (out.heap.table t).numSlots = (st.heap.table old).numSlots ∧
      (out.heap.table t).keyArenaCapacity = (st.heap.table old).numSlots * es[i].rule.keyWidth ∧
      (out.heap.table t).generation = (st.heap.table old).generation + 1 := by
    intro w t ht
    obtain ⟨-, -, old, hw, -, -, hslots, hcap, hgen, -⟩ := hs.new_table w t ht
    exact ⟨old, h.table_eq hi w ▸ hw, hslots, hcap, hgen⟩
  refine { rules := ?_, ids := ?_, tables := ?_, served := ?_, owning := h.owning.snapped hs }
  · rw [List.map_set, RuleEntry.swap_rule, ← List.getElem_map RuleEntry.rule (h := by simpa using hi),
      List.set_getElem_self]
    exact h.rules
  · rw [List.map_set, RuleEntry.swap_id, ← List.getElem_map RuleEntry.id (h := by simpa using hi),
      List.set_getElem_self]
    exact h.ids
  · intro w
    rw [List.map_set, ofList_set (by simpa using hi), ← h.tables]
    funext j
    show out.tables w j = _
    rw [hs.tables_eq]
    by_cases hj : j = i
    · subst hj
      rw [Function.update_self]
      by_cases hw : w < st.nw
      · rw [if_pos ⟨hw, rfl⟩, RuleEntry.swap_tables]
      · have hnone := hs.new_isSome w
        rw [if_neg hw, Option.isSome_eq_false_iff, Option.isNone_iff_eq_none] at hnone
        rw [if_neg fun hwj => hw hwj.1, h.row_of_ge (Nat.le_of_not_lt hw)]
        exact hnone.symm
    · rw [Function.update_of_ne hj, if_neg fun hwj => hj hwj.2]
  · intro e he
    rcases List.mem_or_eq_of_mem_set he with he | rfl
    · exact h.served_congr (fun t ht => congrArg CounterTable.shape (hs.table_eq t ht)) e he
    -- rule `i` itself, with its new tables
    · refine { isSome := ?_, numSlots := ?_, capacity := ?_, generation := ?_ }
      · intro w
        show (new w).isSome = _
        rw [hs.new_isSome, h.table_eq hi, hold.isSome]
        show _ = decide (w < st.nw)
        split
        · rfl
        · rename_i hw
          exact (decide_eq_false hw).symm
      · intro w t ht
        obtain ⟨old, hw, hslots, -⟩ := hnew w t ht
        exact hslots.trans (hold.numSlots w old hw)
      · intro w t ht
        obtain ⟨old, hw, hslots, hcap, -⟩ := hnew w t ht
        show (out.heap.table t).keyArenaCapacity = (out.heap.table t).numSlots * _
        rw [hcap, hslots, RuleEntry.swap_rule]
      · obtain ⟨g, hg⟩ := hold.generation
        refine ⟨g + 1, fun w t ht => ?_⟩
        obtain ⟨old, hw, -, -, hgen⟩ := hnew w t ht
        exact hgen.trans (congrArg (· + 1) (hg w old hw))

/-! ### Polls and workers -/

/-- Polling keeps the alignment. -/
theorem Aligned.polled (h : st.Aligned es) (now : UInt64) :
    ((st.step (.poll now)).2).Aligned es := by
  obtain ⟨hp, howning⟩ := h.owning.poll now
  exact { rules := h.rules, ids := h.ids, tables := h.tables,
          served := h.served_congr fun t _ => congrArg (fun f => (f t).shape) hp.table_eq,
          owning := howning }

/-- Workers that end their frames keep the alignment. -/
theorem Aligned.bumped (h : st.Aligned es) (workerEpochs : ℕ → UInt64) :
    ((st.step (.epochs workerEpochs)).2).Aligned es where
  rules := h.rules
  ids := h.ids
  tables := h.tables
  served := h.served
  owning :=
    { owned := tableRefs_congr st.ctx.tables st.mgr { st.mgr with workerEpochs := workerEpochs } rfl ▸
        h.owning.owned
      count := h.owning.count
      geometry := h.owning.geometry }

/-- An update of a table keeps the alignment. -/
theorem Aligned.updated (h : st.Aligned es) (table : ℕ) (keyHash : UInt64) (key : Key)
    (pktBytes tick : UInt64) :
    ((st.step (.update table keyHash key pktBytes tick)).2).Aligned es := by
  have hshape : ∀ t, ((st.heap.modify table fun t => (t.update keyHash key pktBytes tick).2).table
      t).shape = (st.heap.table t).shape := by
    intro t
    rw [Heap.modify]
    by_cases ht : t = table
    · subst ht
      simp only [Function.update_self]
      exact CounterTable.shape_update ..
    · simp only [Function.update_of_ne ht]
  exact
    { rules := h.rules, ids := h.ids, tables := h.tables,
      served := h.served_congr fun t _ => hshape t,
      owning :=
        { owned := h.owning.owned.congr (fun _ => rfl) rfl rfl
          count := h.owning.count
          geometry := fun w i t ht => (h.owning.geometry w i t ht).of_shape (hshape t) } }

end ApiState

end InFMon
