import InFMon.CounterTable.Shape
import InFMon.Snapshot.Ownership
import Mathlib.Data.Set.Basic

/-! # Quiescence

Workers that read table pointers at the start of a frame and use them until its end, and a control
thread that swaps tables out and polls for tables to free. A poll waits until every worker's epoch,
a count of its frames, has passed `swap_epoch`, a count of the swaps. A worker that was past that
number before the swap is not waited for.

The history kept beside the code's own state: which tables a worker has ever loaded, and which of
those were swapped out since its last epoch bump. -/

namespace InFMon

open CountedLoop

/-! ### Workers and the control thread -/

/-- The state of the workers and the control thread, with its history. -/
structure RcuState where
  mgr : SnapshotMgr
  tables : Tables
  heap : Heap
  /-- The pointers a worker loaded at the start of its frame, by flow rule. -/
  frame : ℕ → ℕ → Option ℕ
  /-- History: the tables a worker has loaded so far. -/
  loaded : ℕ → Set ℕ
  /-- History: the tables a worker had loaded when they were swapped out, if it has not bumped its
  epoch since. -/
  held : ℕ → Set ℕ

/-- What can happen next, with `n` workers. The clock readings are those of the control thread. -/
inductive RcuEvent (n : ℕ) where
  | load (worker : Fin n)
  | update (worker : Fin n) (rule : ℕ) (keyHash : UInt64) (key : Key) (pktBytes tick : UInt64)
  | bump (worker : Fin n)
  | snapshot (rule maxRules width : ℕ) (allocs : ℕ → Alloc) (now : UInt64)
  | poll (now : UInt64)

/-- The start: no worker has loaded anything. -/
def RcuState.start (n : ℕ) (graceNs : UInt64) (tables : Tables) (heap : Heap) : RcuState where
  mgr := .init n graceNs
  tables := tables
  heap := heap
  frame := fun _ _ => none
  loaded := fun _ => ∅
  held := fun _ => ∅

namespace RcuState

/-- The snapshot that the control thread takes. -/
def snap (s : RcuState) (rule maxRules width : ℕ) (allocs : ℕ → Alloc) (now : UInt64) :
    SnapOutcome :=
  snapshotAndClear s.mgr s.tables s.heap s.mgr.numWorkers rule maxRules width allocs now

/-- One step. -/
def step {n : ℕ} (s : RcuState) : RcuEvent n → RcuState
  | .load w =>
    { s with
      frame := Function.update s.frame w (s.tables w)
      loaded := Function.update s.loaded w (s.loaded w ∪ {id | ∃ rule, s.tables w rule = some id}) }
  | .update w rule keyHash key pktBytes tick =>
    match s.frame w rule with
    | none => s
    | some id =>
      { s with heap := s.heap.modify id fun t => (t.update keyHash key pktBytes tick).2 }
  | .bump w =>
    { s with
      mgr := s.mgr.workerEpochBump w
      held := Function.update s.held w ∅ }
  | .snapshot rule maxRules width allocs now =>
    let out := s.snap rule maxRules width allocs now
    { s with
      mgr := out.mgr
      tables := out.tables
      heap := out.heap
      held := fun w =>
        s.held w ∪ {id | id ∈ s.loaded w ∧ ∃ v, out.reply.retiredTables v = some id} }
  | .poll now =>
    let (_, mgr, heap) := s.mgr.retirePoll s.heap now
    { s with mgr := mgr, heap := heap }

/-- A run. -/
def run {n : ℕ} (s : RcuState) (evs : List (RcuEvent n)) : RcuState := evs.foldl step s

/-- One event more. -/
theorem run_concat {n : ℕ} (s : RcuState) (evs : List (RcuEvent n)) (ev : RcuEvent n) :
    s.run (evs ++ [ev]) = (s.run evs).step ev :=
  List.foldl_concat ..

/-- The tables that a poll destroys. -/
def polled (s : RcuState) (now : UInt64) : List ℕ :=
  let heap := (s.mgr.retirePoll s.heap now).2.2
  heap.destroyed.take (heap.destroyed.length - s.heap.destroyed.length)

/-- A poll that destroys no table which some worker had loaded when it was swapped out, and has not
bumped its epoch since. -/
def PollSafe (s : RcuState) (now : UInt64) : Prop := ∀ id ∈ s.polled now, ∀ w, id ∉ s.held w

/-- The condition on a snapshot: no worker that has loaded a table it swaps out is past the epoch of
the swap already. -/
def NoneAhead (s : RcuState) (rule maxRules width : ℕ) (allocs : ℕ → Alloc) (now : UInt64) : Prop :=
  ∀ w id, id ∈ s.loaded w →
    (∃ v, (s.snap rule maxRules width allocs now).reply.retiredTables v = some id) →
    s.mgr.workerEpochs w ≤ s.mgr.globalEpoch + 1

/-! ### The invariant -/

/-- While a worker holds a table of a pending entry, its epoch is not past that of the swap. -/
structure Guarded (n : ℕ) (s : RcuState) : Prop where
  owning : Owning s.mgr s.tables s.heap
  numWorkers : s.mgr.numWorkers = n
  held_subset : ∀ w, s.held w ⊆ s.loaded w
  workers : ∀ w, ∀ id ∈ s.loaded w, w < n
  guard : ∀ r < maxRetired, (s.mgr.retired r).pending = true → ∀ v < (s.mgr.retired r).numTables,
    ∀ id, (s.mgr.retired r).tables v = some id → ∀ w, id ∈ s.held w →
      s.mgr.workerEpochs w ≤ (s.mgr.retired r).swapEpoch

/-- At the start nothing is retired. -/
theorem Guarded.start {n : ℕ} {graceNs : UInt64} {tables : Tables} {heap : Heap}
    (h : Owning (.init n graceNs) tables heap) : Guarded n (.start n graceNs tables heap) where
  owning := h
  numWorkers := rfl
  held_subset _ := Set.Subset.rfl
  workers _ _ hid := absurd hid (Set.notMem_empty _)
  guard _ _ _ _ _ _ _ _ hid := absurd hid (Set.notMem_empty _)

/-- What a poll destroys under the invariant. -/
theorem Guarded.pollSafe {n : ℕ} {s : RcuState} (h : Guarded n s) (now : UInt64) :
    s.PollSafe now := by
  obtain ⟨hpoll, -⟩ := h.owning.poll now
  obtain ⟨l, hl, hmem⟩ := hpoll.destroyed
  intro id hid w hheld
  have hidl : id ∈ l := by
    rw [polled] at hid
    simpa only [hl, List.length_append, Nat.add_sub_cancel, List.take_left] using hid
  obtain ⟨r, hr, hpending, hrec, v, hv, hvid⟩ := hmem id hidl
  -- the entry is reclaimable, so the worker's epoch is past the swap
  have hw : w < s.mgr.numWorkers := h.numWorkers ▸ h.workers w id (h.held_subset w hheld)
  rw [SnapshotMgr.reclaimable, Bool.and_eq_true, SnapshotMgr.allWorkersPast, List.all_eq_true]
    at hrec
  have hpast := hrec.1 w (List.mem_range.mpr hw)
  rw [Bool.not_eq_true', decide_eq_false_iff_not] at hpast
  exact hpast (h.guard r hr hpending v hv id hvid w hheld)

/-- The condition on an event: snapshots find no worker ahead. -/
def InStep {n : ℕ} (s : RcuState) : RcuEvent n → Prop
  | .snapshot rule maxRules width allocs now => s.NoneAhead rule maxRules width allocs now
  | _ => True

/-- A snapshot that no worker is ahead of keeps the guard. -/
theorem Guarded.snapshot {n : ℕ} {s : RcuState} (h : Guarded n s) {rule maxRules width : ℕ}
    {allocs : ℕ → Alloc} {now : UInt64} (hahead : s.NoneAhead rule maxRules width allocs now) :
    Guarded n (s.step (.snapshot rule maxRules width allocs now : RcuEvent n)) := by
  -- a table held by a worker is in an entry whose epoch the worker has not passed
  have howning := h.owning.snapshot s.mgr.numWorkers rule maxRules width allocs now
  have hsub : ∀ w, s.held w ∪ {id | id ∈ s.loaded w ∧
      ∃ v, (s.snap rule maxRules width allocs now).reply.retiredTables v = some id} ⊆
      s.loaded w := fun w => Set.union_subset (h.held_subset w) fun id hid => hid.1
  rcases snapshotAndClear_cases h.owning.count (fun v id hid => h.owning.made v rule id hid)
    s.mgr.numWorkers maxRules width allocs now with ⟨hresult, -, hmgr, -⟩ | ⟨new, r, hs⟩
  · -- a failed snapshot retires nothing
    have hmgr' : (s.step (.snapshot rule maxRules width allocs now : RcuEvent n)).mgr = s.mgr :=
      hmgr
    have hnone : ∀ v, (s.snap rule maxRules width allocs now).reply.retiredTables v = none :=
      snapshotAndClear_retired_none hresult
    refine { owning := howning, numWorkers := hmgr' ▸ h.numWorkers, held_subset := hsub,
             workers := h.workers, guard := ?_ }
    intro r hr hpending v hv id hid w hheld
    rw [hmgr'] at *
    rcases hheld with hheld | ⟨-, v', hv'⟩
    · exact h.guard r hr hpending v hv id hid w hheld
    · rw [hnone v'] at hv'
      cases hv'
  · -- a successful one enqueues the old tables under the epoch of this swap
    have hretired : ∀ v id, (s.snap rule maxRules width allocs now).reply.retiredTables v = some id →
        v < workersServed s.mgr.numWorkers ∧ s.tables v rule = some id := by
      intro v id hid
      rw [snap, hs.retiredTables, Option.ite_none_right_eq_some] at hid
      exact hid
    have hmgr := hs.mgr_eq
    change (s.step (.snapshot rule maxRules width allocs now : RcuEvent n)).mgr = _ at hmgr
    have hentry := congrArg SnapshotMgr.retired hmgr
    have hepochs := congrArg SnapshotMgr.workerEpochs hmgr
    refine { owning := howning, numWorkers := ?_, held_subset := hsub, workers := h.workers,
             guard := ?_ }
    · rw [hmgr]
      exact h.numWorkers
    · intro r' hr' hpending v hv id hid w hheld
      simp only [hentry, hepochs] at hpending hv hid ⊢
      by_cases hrr : r' = r
      · -- the new entry
        subst hrr
        simp only [Function.update_self] at hv hid ⊢
        simp only [if_pos hv] at hid
        refine hahead w id (hsub w hheld) ⟨v, ?_⟩
        rw [snap, hs.retiredTables]
        simp only [if_pos hv]
        exact hid
      · -- an older entry, whose tables are not among those swapped out now
        rw [Function.update_of_ne hrr] at hpending hv hid ⊢
        rcases hheld with hheld | ⟨-, v', hv'⟩
        · exact h.guard r' hr' hpending v hv id hid w hheld
        · have hcell : tableRefs s.tables s.mgr (.cell v' rule) = some id := (hretired v' id hv').2
          have hring : tableRefs s.tables s.mgr (.ring r' v) = some id :=
            tableRefs_ring.mpr ⟨hr', hpending, hv, hid⟩
          cases h.owning.owned.injective _ _ id hcell hring

/-- Every event that meets the condition keeps the invariant. -/
theorem Guarded.step {n : ℕ} {s : RcuState} (h : Guarded n s) {ev : RcuEvent n}
    (hev : s.InStep ev) : Guarded n (s.step ev) := by
  cases ev with
  | load w =>
    have hmono : ∀ v, s.loaded v ⊆ (s.step (.load w)).loaded v := by
      intro v
      by_cases hvw : v = w
      · subst hvw
        simp [RcuState.step]
      · simp [RcuState.step, hvw]
    refine { owning := h.owning, numWorkers := h.numWorkers,
             held_subset := fun v => (h.held_subset v).trans (hmono v), workers := ?_,
             guard := h.guard }
    intro v id hid
    by_cases hvw : v = w
    · exact hvw ▸ w.isLt
    · simp only [RcuState.step, Function.update_of_ne hvw] at hid
      exact h.workers v id hid
  | update w rule keyHash key pktBytes tick =>
    simp only [RcuState.step]
    split
    · exact h
    · -- a table is written to in place
      rename_i id hid
      refine { h with owning := ?_ }
      refine { owned := h.owning.owned.congr (fun _ => rfl) rfl rfl, count := h.owning.count,
               geometry := ?_ }
      intro v i id' hid'
      have hg := h.owning.geometry v i id' hid'
      by_cases hii : id' = id
      · subst hii
        simp only [Heap.modify, Function.update_self]
        exact hg.of_shape (CounterTable.shape_update ..)
      · simpa [Heap.modify, hii] using hg
  | bump w =>
    refine { owning := ⟨?_, h.owning.count, h.owning.geometry⟩, numWorkers := h.numWorkers,
             held_subset := ?_, workers := h.workers, guard := ?_ }
    · have hrefs := tableRefs_congr s.tables s.mgr (s.mgr.workerEpochBump w) rfl
      exact hrefs ▸ h.owning.owned
    · intro v
      by_cases hvw : v = w
      · subst hvw
        simp [RcuState.step]
      · simp only [RcuState.step, Function.update_of_ne hvw]
        exact h.held_subset v
    · intro r hr hpending v hv id hid u hheld
      by_cases huw : u = w
      · -- the worker that bumped its epoch holds nothing any more
        subst huw
        simp [RcuState.step] at hheld
      · simp only [RcuState.step, Function.update_of_ne huw] at hheld
        simp only [RcuState.step, SnapshotMgr.workerEpochBump, Function.update_of_ne huw]
        exact h.guard r hr hpending v hv id hid u hheld
  | snapshot rule maxRules width allocs now => exact h.snapshot hev
  | poll now =>
    obtain ⟨hpoll, howning⟩ := h.owning.poll now
    have hepochs := congrArg SnapshotMgr.workerEpochs hpoll.mgr_eq
    have hworkers := congrArg SnapshotMgr.numWorkers hpoll.mgr_eq
    refine { owning := howning, numWorkers := hworkers.trans h.numWorkers,
             held_subset := h.held_subset, workers := h.workers, guard := ?_ }
    intro r hr hpending v hv id hid w hheld
    -- entries still pending are as they were
    have hkept := hpoll.kept r hpending
    simp only [RcuState.step] at hv hid hpending ⊢
    rw [hkept] at hv hid hpending ⊢
    rw [hepochs]
    exact h.guard r hr hpending v hv id hid w hheld

/-- Every state of a run whose events meet the condition has the invariant. -/
theorem Guarded.run {n : ℕ} {s : RcuState} (h : Guarded n s) {evs : List (RcuEvent n)}
    (hevs : ∀ pre ev, pre ++ [ev] <+: evs → (s.run pre).InStep ev) : Guarded n (s.run evs) := by
  induction evs using List.reverseRecOn with
  | nil => exact h
  | append_singleton evs ev ih =>
    have hpre := ih fun pre ev' hpre => hevs pre ev' (hpre.trans (List.prefix_append _ _))
    rw [run_concat]
    exact hpre.step (hevs evs ev List.prefix_rfl)

/-- No poll of a run destroys a table that a worker had loaded when it was swapped out and has not
bumped its epoch since, provided that no swap finds such a worker past its epoch already. -/
theorem pollSafe_of_noneAhead {n : ℕ} {graceNs : UInt64} {tables : Tables} {heap : Heap}
    (hstart : Owning (.init n graceNs) tables heap) {evs : List (RcuEvent n)}
    (hahead : ∀ pre rule maxRules width allocs now,
      pre ++ [.snapshot rule maxRules width allocs now] <+: evs →
      ((start n graceNs tables heap).run pre).NoneAhead rule maxRules width allocs now) :
    ∀ pre, pre <+: evs → ∀ now, ((start n graceNs tables heap).run pre).PollSafe now := by
  intro pre hpre now
  refine Guarded.pollSafe (Guarded.run (.start hstart) fun pre' ev hpre' => ?_) now
  cases ev with
  | snapshot rule maxRules width allocs now =>
    exact hahead pre' rule maxRules width allocs now (hpre'.trans hpre)
  | load w => trivial
  | update w rule keyHash key pktBytes tick => trivial
  | bump w => trivial
  | poll now => trivial

/-- One worker's table, created and installed. -/
def oneTable : Heap := (Heap.empty.create 2 1 ⟨true, fun _ => 0⟩).2

/-- The tables array that holds it. -/
def oneCell : Tables := fun w i => if w = 0 ∧ i = 0 then some 0 else none

/-- The one cell refers to the one table. -/
theorem oneCell_refs (graceNs : UInt64) (p : Place) {id : ℕ} :
    tableRefs oneCell (.init 1 graceNs) p = some id ↔ p = .cell 0 0 ∧ id = 0 := by
  cases p with
  | cell w i =>
    simp only [tableRefs, oneCell, Option.ite_none_right_eq_some, Option.some.injEq,
      Place.cell.injEq, @eq_comm _ 0 id]
  | ring r v => simp [tableRefs, SnapshotMgr.init, RetiredTable.zero]

/-- The one table has one owner. -/
theorem oneTable_owning (graceNs : UInt64) : Owning (.init 1 graceNs) oneCell oneTable where
  owned := by
    refine { sound := ?_, injective := ?_, complete := ?_, nodup := List.nodup_nil,
             created := fun id hid => absurd hid List.not_mem_nil }
    · intro p id hid
      obtain ⟨-, rfl⟩ := (oneCell_refs graceNs p).mp hid
      exact ⟨Nat.one_pos, List.not_mem_nil⟩
    · intro p q id hp hq
      rw [((oneCell_refs graceNs p).mp hp).1, ((oneCell_refs graceNs q).mp hq).1]
    · intro id hid
      have hlt : id < 1 := hid.1
      exact ⟨.cell 0 0, (oneCell_refs graceNs _).mpr ⟨rfl, by omega⟩⟩
  count := rfl
  geometry := by
    intro w i id hid
    obtain ⟨-, rfl⟩ := (oneCell_refs graceNs (.cell w i)).mp hid
    exact (counterTableCreate_some
      (show counterTableCreate 2 1 ⟨true, fun _ => 0⟩ = some _ from rfl)).2.2.2.1

/-- A worker that has finished two frames loads its table; the first snapshot retires it with epoch
1; the next poll destroys it, although the worker is still in its frame. -/
theorem held_table_destroyed :
    let evs : List (RcuEvent 1) := [.load 0, .bump 0, .load 0, .bump 0, .load 0,
      .snapshot 0 16 1 (fun _ => ⟨true, fun _ => 0⟩) 5]
    ¬ ((start 1 0 oneCell oneTable).run evs).PollSafe 6 := by
  intro evs hsafe
  refine hsafe 0 (by decide +kernel) 0 (Or.inr ⟨?_, 0, by decide +kernel⟩)
  exact Or.inr ⟨0, rfl⟩

/-- In its first frame a worker is not ahead of the first swap. -/
theorem pollSafe_first_frame :
    let evs : List (RcuEvent 1) := [.load 0, .snapshot 0 16 1 (fun _ => ⟨true, fun _ => 0⟩) 5]
    ∀ pre, pre <+: evs → ∀ now, ((start 1 0 oneCell oneTable).run pre).PollSafe now := by
  intro evs
  refine pollSafe_of_noneAhead (oneTable_owning 0) ?_
  rintro (_ | ⟨ev₁, _ | ⟨ev₂, pre⟩⟩) rule maxRules width allocs now hpre w id - -
  · -- the first event is no snapshot
    cases (List.cons_prefix_cons.mp hpre).1
  · obtain rfl := (List.cons_prefix_cons.mp hpre).1
    show (0 : UInt64) ≤ 0 + 1
    decide
  · simp [evs] at hpre

end RcuState

end InFMon
