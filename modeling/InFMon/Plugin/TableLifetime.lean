import InFMon.Plugin.Outcome
import InFMon.Plugin.SnapshotBudget

/-! # The life of a published table

A table stays in the plugin main until the next publication, and in a worker's frame until the frame
ends. A deletion destroys the tables of its rule before it publishes, so it frees tables that are in
use; nothing else does. -/

namespace InFMon

open CountedLoop

namespace Interleaved

/-! ### Tables in use -/

/-- A table is stored in the plugin main, or a worker has loaded it in a frame that has not ended. -/
def InUse (s : Interleaved) (t : ℕ) : Prop :=
  (∃ w i, s.plugin.main.tables w i = some t) ∨ ∃ w i, s.held w i = some t

/-- No table in use has been destroyed. -/
def NoneFreed (s : Interleaved) : Prop := ∀ t ∈ s.plugin.heap.destroyed, ¬ s.InUse t

/-- The event is no request to delete a rule that exists. -/
def DeletesNothing (s : Interleaved) (e : InterleavedEvent) : Prop :=
  ∀ env id, e = .request (.flowRuleDel env id) → s.pending = [] →
    id.isZero = true ∨ ¬ s.plugin.HasRule id

/-! ### What an operation does to tables -/

variable {p : Plugin} {es : List RuleEntry}

/-- What an operation leaves behind that destroys no live table: the published tables are as before,
and the tables of the context are too, or all of their cells are to be published. -/
structure Keeping (p q : Plugin) (steps : List MainStep) : Prop where
  live : ∀ t, p.heap.Live t → q.heap.Live t
  tables : q.main.tables = p.main.tables
  outside : ∀ w ≥ q.api.nw, ∀ i, p.api.ctx.tables w i = none
  cells : q.api.ctx.tables = p.api.ctx.tables ∨
    ∀ w < q.api.nw, ∀ i < maxActiveFlowRules, MainStep.cell w i ∈ steps

/-- What lives stays alive when nothing is destroyed. -/
theorem live_of_next_le {heap heap' : Heap} (hnext : heap.next ≤ heap'.next)
    (hdestroyed : heap'.destroyed = heap.destroyed) (t : ℕ) (ht : heap.Live t) : heap'.Live t :=
  ⟨Nat.lt_of_lt_of_le ht.1 hnext, hdestroyed ▸ ht.2⟩

/-- Publishing stores every cell of every worker. -/
theorem cell_mem_publishSteps {nw w i : ℕ} (hw : w < nw) (hi : i < maxActiveFlowRules) :
    MainStep.cell w i ∈ Plugin.publishSteps nw := by
  refine List.mem_append_right _ (List.mem_flatMap.mpr ⟨w, List.mem_range.mpr hw, ?_⟩)
  exact List.mem_map.mpr ⟨i, List.mem_range.mpr hi, rfl⟩

/-- Setting up the context first makes no difference. -/
theorem Keeping.of_ensure (h : p.Sound es) (memory : Bool) {q : Plugin} {steps : List MainStep}
    (hq : Keeping (p.apiCtxEnsure memory) q steps) : Keeping p q steps := by
  obtain ⟨htables, hctx, hheap⟩ := h.ensure_tables memory
  exact
    { live := hheap ▸ hq.live
      tables := hq.tables.trans htables
      outside := hctx ▸ hq.outside
      cells := hctx ▸ hq.cells }

/-- An operation that fails keeps everything. -/
theorem Keeping.of_undone (h : p.Sound es) {heap : Heap} (hundone : p.heap.Undone heap) {q : Plugin}
    (hapi : q.api = { p.api with heap := heap }) (htables : q.main.tables = p.main.tables)
    (steps : List MainStep) : Keeping p q steps where
  live := by
    show ∀ t, p.heap.Live t → q.api.heap.Live t
    rw [hapi]
    exact fun t ht => (hundone.live_iff t).mpr ht
  tables := htables
  outside w hw i := by
    rw [hapi] at hw
    exact h.aligned.row_of_ge hw i
  cells := Or.inl (by rw [hapi])

/-- The operation of a snapshot request destroys no live table. -/
theorem keeping_snapshot (h : p.Sound es) (env : ApiEnv) (id : FlowRuleId)
    (walk : List MainStep) :
    Keeping p { p with api := (p.api.snapshotAndClear id env.allocs env.now).2 }
      ((if (p.api.snapshotAndClear id env.allocs env.now).1.result = .ok then
        Plugin.publishSteps (p.api.snapshotAndClear id env.allocs env.now).2.nw else []) ++ walk) := by
  rcases p.api.snapshotAndClear_cases h.aligned.arranged id env.allocs env.now with
    ⟨-, heap, hundone, hst⟩ | ⟨i, hi, out, new, r, -, -, hs, hok, -, -, hst⟩
  · refine Keeping.of_undone h hundone ?_ ?_ _
    · exact hst
    · rfl
  · rw [if_pos hok]
    refine { live := ?_, tables := rfl, outside := ?_, cells := Or.inr ?_ }
    · show ∀ t, p.api.heap.Live t → (p.api.snapshotAndClear id env.allocs env.now).2.heap.Live t
      rw [hst]
      exact live_of_next_le hs.next_le hs.destroyed
    · intro w hw j
      change w ≥ (p.api.snapshotAndClear id env.allocs env.now).2.nw at hw
      rw [hst] at hw
      exact h.aligned.row_of_ge hw j
    · exact fun w hw j hj => List.mem_append_left _ (cell_mem_publishSteps hw hj)

/-- An operation that deletes no rule destroys no live table. -/
theorem keeping_operate (h : p.Sound es) (request : Plugin.Request)
    (hdel : ∀ env id, request = .flowRuleDel env id → id.isZero = true ∨ ¬ p.HasRule id) :
    Keeping p (p.operate request).1 (p.operate request).2 := by
  cases request with
  | flowRuleAdd env mp =>
    have hq := h.ensure env.memory
    refine Keeping.of_ensure h env.memory ?_
    rw [Plugin.operate]
    dsimp only
    generalize p.apiCtxEnsure env.memory = q at hq
    cases hready : q.ready with
    | false =>
      refine Keeping.of_undone hq (Heap.Undone.refl _) ?_ ?_ _
      · rfl
      · rfl
    | true =>
      simp only [if_true]
      rcases q.api.flowRuleAdd_cases hq.aligned.arranged (Plugin.messageRule mp)
        (some (Plugin.newRuleId env q.idSeq)) env.allocs with ⟨-, heap, hundone, hst⟩ |
        ⟨set, s, -, hadded, heq⟩
      · refine Keeping.of_undone hq hundone ?_ ?_ _
        · exact hst
        · rfl
      · rw [heq]
        refine { live := ?_, tables := rfl, outside := ?_, cells := Or.inr ?_ }
        · have hnext : q.heap.next ≤ s.2.next := hadded.next.ge.trans' (Nat.le_add_right _ _)
          exact live_of_next_le hnext hadded.destroyed
        · exact fun w hw j => hq.aligned.row_of_ge hw j
        · exact fun w hw j hj => cell_mem_publishSteps hw hj
  | flowRuleDel env id =>
    have hq := h.ensure env.memory
    refine Keeping.of_ensure h env.memory ?_
    rw [Plugin.operate]
    dsimp only
    -- the deletion finds no rule, so it destroys nothing
    have hnone : (if id.isZero then none else (p.apiCtxEnsure env.memory).nameOfId id) = none := by
      rcases hdel env id rfl with hzero | hno
      · rw [if_pos hzero]
      · cases hname : (p.apiCtxEnsure env.memory).nameOfId id with
        | none => exact ite_self _
        | some name =>
          obtain ⟨i, hi, hid, -⟩ := hq.nameOfId_eq_some hname
          exact absurd ((h.ensure_hasRule env.memory id).mp
            (hq.hasRule_iff.mpr ⟨_, List.getElem_mem hi, hid⟩)) hno
    rw [hnone]
    refine Keeping.of_undone hq (Heap.Undone.refl _) ?_ ?_ _
    · rfl
    · rfl
  | snapshotAndClear env id =>
    have hkeep := keeping_snapshot (h.ensure env.memory) env id []
    rw [List.append_nil] at hkeep
    exact Keeping.of_ensure h env.memory hkeep
  | snapshotInlineDump env id =>
    exact Keeping.of_ensure h env.memory (keeping_snapshot (h.ensure env.memory) env id _)

/-! ### The invariant -/

/-- Tables in use are live, and a cell that is not waiting to be published is published. -/
structure Intact (s : Interleaved) : Prop where
  sound : ∃ es, s.plugin.Sound es
  published : ∀ w i t, s.plugin.main.tables w i = some t → s.plugin.heap.Live t
  held : ∀ w i t, s.held w i = some t → s.plugin.heap.Live t
  synced : ∀ w i, i < flowRuleSetMax → MainStep.cell w i ∉ s.pending →
    s.plugin.main.tables w i = s.plugin.api.ctx.tables w i

/-- At the start everything is intact. -/
theorem intact_start (vlibNumWorkers : ℕ) : (start vlibNumWorkers).Intact where
  sound := ⟨[], Plugin.sound_start _⟩
  published _ _ _ h := by cases h
  held _ _ _ h := by cases h
  synced _ _ _ _ := rfl

variable {s : Interleaved}

/-- When everything is intact, no worker holds a freed table. -/
theorem Intact.noneFreed (h : s.Intact) : s.NoneFreed := by
  rintro t ht (⟨w, i, hwi⟩ | ⟨w, i, hwi⟩)
  · exact (h.published w i t hwi).2 ht
  · exact (h.held w i t hwi).2 ht

/-- The tables of the context are live. -/
theorem live_cell (h : p.Sound es) {w i t : ℕ} (ht : Plugin.cellOf p.api.ctx.tables w i = some t) :
    p.heap.Live t := by
  obtain ⟨-, ht⟩ := Option.ite_none_right_eq_some.mp ht
  exact h.aligned.owning.owned.sound (.cell w i) t ht

/-- A step of the main thread. -/
theorem Intact.main (h : s.Intact) {next : MainStep} {pending : List MainStep}
    (hpending : s.pending = next :: pending) {q : Interleaved} (hplugin : q.plugin = s.plugin.store next)
    (hq : q.pending = pending) (hheld : q.held = s.held) : q.Intact := by
  obtain ⟨es, hs⟩ := h.sound
  have hapi : q.plugin.api = s.plugin.api := by rw [hplugin, Plugin.store_api]
  have hheap : q.plugin.heap = s.plugin.heap := congrArg ApiState.heap hapi
  -- a store puts one cell of the context into the main struct, or leaves the matrix alone
  have htables : (q.plugin.main.tables = s.plugin.main.tables ∧ ∀ w i, next ≠ .cell w i) ∨
      ∃ w i, next = .cell w i ∧ q.plugin.main.tables =
        Plugin.publishCell s.plugin.api.ctx.tables w i s.plugin.main.tables := by
    rw [hplugin]
    cases next with
    | cell w i => exact Or.inr ⟨w, i, rfl, rfl⟩
    | _ => exact Or.inl ⟨rfl, fun w i heq => by cases heq⟩
  have hsynced : ∀ w i, i < flowRuleSetMax → MainStep.cell w i ∉ pending → next ≠ .cell w i →
      s.plugin.main.tables w i = s.plugin.api.ctx.tables w i := by
    intro w i hi hnot hne
    refine h.synced w i hi ?_
    rw [hpending, List.mem_cons, not_or]
    exact ⟨hne.symm, hnot⟩
  refine { sound := ⟨es, ?_⟩, published := ?_, held := ?_, synced := ?_ }
  · rw [hplugin]
    exact hs.congr (by simp) (by simp) (by simp)
  · intro w i t ht
    rw [hheap]
    rcases htables with ⟨hsame, -⟩ | ⟨v, j, -, hcell⟩
    · rw [hsame] at ht
      exact h.published w i t ht
    · -- the cell that is published now has a table of the context
      rw [hcell, Plugin.publishCell, setTable_apply] at ht
      split at ht
      · exact live_cell hs ht
      · exact h.published w i t ht
  · rw [hheld, hheap]
    exact h.held
  · intro w i hi hnot
    rw [hq] at hnot
    rw [hapi]
    rcases htables with ⟨hsame, hne⟩ | ⟨v, j, hnext, hcell⟩
    · rw [hsame]
      exact hsynced w i hi hnot (hne w i)
    · rw [hcell, Plugin.publishCell, setTable_apply]
      split
      · rename_i hvj
        obtain ⟨rfl, rfl⟩ := hvj
        exact if_pos hi
      · rename_i hvj
        refine hsynced w i hi hnot ?_
        rw [hnext]
        rintro ⟨⟩
        exact hvj ⟨rfl, rfl⟩

/-- The main thread takes up a request that deletes nothing. -/
theorem Intact.request (h : s.Intact) (hidle : s.pending = []) {request : Plugin.Request}
    (hdel : ∀ env id, request = .flowRuleDel env id →
      id.isZero = true ∨ ¬ s.plugin.HasRule id) {q : Interleaved}
    (hplugin : q.plugin = (s.plugin.operate request).1)
    (hq : q.pending = (s.plugin.operate request).2) (hheld : q.held = s.held) : q.Intact := by
  obtain ⟨es, hs⟩ := h.sound
  obtain ⟨es', hs'⟩ := Plugin.sound_operate hs request
  have hkeep := keeping_operate hs request hdel
  -- nothing is waiting to be stored when the request is taken up
  have hsynced : ∀ w i, i < flowRuleSetMax →
      s.plugin.main.tables w i = s.plugin.api.ctx.tables w i := by
    intro w i hi
    exact h.synced w i hi (by rw [hidle]; exact List.not_mem_nil)
  refine { sound := ⟨es', hplugin ▸ hs'⟩, published := ?_, held := ?_, synced := ?_ }
  · intro w i t ht
    rw [hplugin, hkeep.tables] at ht
    rw [hplugin]
    exact hkeep.live t (h.published w i t ht)
  · intro w i t ht
    rw [hheld] at ht
    rw [hplugin]
    exact hkeep.live t (h.held w i t ht)
  · intro w i hi hnot
    rw [hq] at hnot
    rw [hplugin, hkeep.tables, hsynced w i hi]
    rcases hkeep.cells with hsame | hall
    · rw [hsame]
    · -- a cell that is not waiting belongs to no worker
      have hw : (s.plugin.operate request).1.api.nw ≤ w := by
        by_contra hlt
        have hi' : i < maxActiveFlowRules := Nat.lt_of_lt_of_le hi (by decide)
        exact hnot (hall w (Nat.lt_of_not_le hlt) i hi')
      rw [hkeep.outside w hw i, hs'.aligned.row_of_ge hw i]

/-- A worker writes to tables, or loads what is published. -/
theorem Intact.worker (h : s.Intact) {q : Interleaved} (hmain : q.plugin.main = s.plugin.main)
    (hsound : ∀ es, s.plugin.Sound es → q.plugin.Sound es)
    (hctx : q.plugin.api.ctx = s.plugin.api.ctx)
    (hlive : ∀ t, s.plugin.heap.Live t → q.plugin.heap.Live t) (hpending : q.pending = s.pending)
    (hheld : ∀ w i, q.held w i = s.held w i ∨ q.held w i = s.plugin.main.tables w i ∨
      q.held w i = none) : q.Intact where
  sound := by
    obtain ⟨es, hs⟩ := h.sound
    exact ⟨es, hsound es hs⟩
  published w i t ht := hlive t (h.published w i t (hmain ▸ ht))
  held w i t ht := by
    rcases hheld w i with heq | heq | heq
    · exact hlive t (h.held w i t (heq ▸ ht))
    · exact hlive t (h.published w i t (heq ▸ ht))
    · rw [heq] at ht
      cases ht
  synced w i hi hnot := by
    rw [hmain, hctx]
    exact h.synced w i hi (hpending ▸ hnot)

/-- Counting through a pointer writes to a table at most. -/
theorem countThrough_cases (ptr : Option ℕ) (keyHash : UInt64) (key : Key) (pktBytes tick : UInt64)
    (p : Plugin) : (countThrough ptr keyHash key pktBytes tick p).main = p.main ∧
      (countThrough ptr keyHash key pktBytes tick p).api.ctx = p.api.ctx ∧
      (∀ es, p.Sound es → (countThrough ptr keyHash key pktBytes tick p).Sound es) ∧
      ∀ t, p.heap.Live t → (countThrough ptr keyHash key pktBytes tick p).heap.Live t := by
  cases ptr with
  | none => exact ⟨rfl, rfl, fun _ h => h, fun _ h => h⟩
  | some table =>
    refine ⟨rfl, rfl, fun es h => ?_, fun _ h => h⟩
    exact
      { aligned := h.aligned.updated table keyHash key pktBytes tick
        fresh := h.fresh
        context := h.context }

/-- Every event but the deletion of a rule keeps the tables in use live. -/
theorem Intact.step (h : s.Intact) {e : InterleavedEvent} (he : s.DeletesNothing e) :
    (s.step e).Intact := by
  cases e with
  | request request =>
    cases hpending : s.pending with
    | nil =>
      -- the main thread has finished what it was doing
      rw [Interleaved.step, hpending]
      exact h.request hpending (fun env id heq => he env id (heq ▸ rfl) hpending) rfl rfl rfl
    | cons next pending =>
      rw [Interleaved.step, hpending]
      exact h
  | main =>
    cases hpending : s.pending with
    | nil =>
      rw [Interleaved.step, hpending]
      exact h
    | cons next pending =>
      rw [Interleaved.step, hpending]
      exact h.main hpending rfl rfl rfl
  | load w i =>
    rw [Interleaved.step]
    split
    · exact h
    · refine h.worker rfl (fun _ hs => hs) rfl (fun _ ht => ht) rfl fun v j => ?_
      by_cases hv : v = w
      · subst hv
        by_cases hj : j = i
        · subst hj
          exact Or.inr (Or.inl (by simp))
        · exact Or.inl (by simp [hj])
      · exact Or.inl (by simp [hv])
  | update w i keyHash key pktBytes tick =>
    obtain ⟨hmain, hctx, hsound, hlive⟩ :=
      countThrough_cases (s.held w i) keyHash key pktBytes tick s.plugin
    exact h.worker hmain hsound hctx hlive rfl fun _ _ => Or.inl rfl
  | endFrame w =>
    refine h.worker rfl (fun _ hs => hs) rfl (fun _ ht => ht) rfl fun v j => ?_
    by_cases hv : v = w
    · subst hv
      refine Or.inr (Or.inr ?_)
      rw [Interleaved.step]
      exact congrFun (Function.update_self v (fun _ => none) s.held) j
    · refine Or.inl ?_
      rw [Interleaved.step]
      exact congrFun (Function.update_of_ne hv (fun _ => none) s.held) j

/-- A deletion destroys the table of the first worker while it is published. -/
theorem Intact.freed_of_deletes (h : s.Intact) {e : InterleavedEvent} (he : ¬ s.DeletesNothing e) :
    ¬ (s.step e).NoneFreed := by
  unfold DeletesNothing at he
  push Not at he
  obtain ⟨env, id, rfl, hidle, hzero, hid⟩ := he
  have hzero : id.isZero = false := by simpa using hzero
  obtain ⟨es, hs⟩ := h.sound
  have hq := hs.ensure env.memory
  obtain ⟨htables, hctx, -⟩ := hs.ensure_tables env.memory
  obtain ⟨name, hname⟩ := hq.nameOfId_isSome hzero ((hs.ensure_hasRule env.memory id).mpr hid)
  obtain ⟨i, hi, -, hin⟩ := hq.nameOfId_eq_some hname
  rcases (s.plugin.apiCtxEnsure env.memory).api.flowRuleDel_cases hq.aligned name with
    ⟨-, hfree⟩ | ⟨j, hj, set, -, -, heq⟩
  · exact absurd (hin ▸ List.mem_map.mpr ⟨_, List.getElem_mem hi, rfl⟩) hfree
  have hlt : j < flowRuleSetMax := by
    have hle := hq.aligned.rules.length_le
    rw [List.length_map] at hle
    omega
  -- the table of worker 0
  obtain ⟨t, ht⟩ := (hq.aligned.served _ (List.getElem_mem hj)).exists_table
    (s.plugin.apiCtxEnsure env.memory).api.nw_pos
  have hcell : (s.plugin.apiCtxEnsure env.memory).api.ctx.tables 0 j = some t := by
    rw [hq.aligned.table_eq hj, ht]
  have hplugin : (s.step (.request (.flowRuleDel env id))).plugin =
      { s.plugin.apiCtxEnsure env.memory with
        api := (s.plugin.apiCtxEnsure env.memory).api.without j set } := by
    rw [Interleaved.step, hidle]
    dsimp only
    rw [Plugin.operate]
    dsimp only
    rw [if_neg (by simp [hzero]), hname]
    dsimp only
    rw [heq]
  intro hnone
  refine hnone t ?_ (Or.inl ⟨0, j, ?_⟩)
  · rw [hplugin]
    refine List.mem_append_left _ (List.mem_reverse.mpr (mem_pointees.mpr ⟨0, ?_, hcell⟩))
    exact (s.plugin.apiCtxEnsure env.memory).api.nw_pos
  · rw [hplugin]
    show (s.plugin.apiCtxEnsure env.memory).main.tables 0 j = some t
    rw [htables, h.synced 0 j hlt (by rw [hidle]; exact List.not_mem_nil), ← hctx, hcell]

end Interleaved

/-- In a run of requests, publications and counter frames, interleaved in any way, no table is destroyed
while it is published or loaded in a frame, exactly when no request of the run deletes a rule. -/
theorem none_freed_iff (vlibNumWorkers : ℕ) (events : List InterleavedEvent) :
    Runs.Throughout Interleaved.step Interleaved.NoneFreed (.start vlibNumWorkers) events ↔
      Runs.Meets Interleaved.step Interleaved.DeletesNothing (.start vlibNumWorkers) events :=
  Runs.throughout_iff_meets (Interleaved.intact_start vlibNumWorkers) (fun _ _ h he => h.step he)
    (fun _ h => h.noneFreed) fun _ _ h he => h.freed_of_deletes he

/-- A rule is added and published, a worker thread loads its table, and the rule is deleted. -/
def addLoadDelete : List InterleavedEvent :=
  .request (.flowRuleAdd (envAt 0) protoRuleMsg) :: List.replicate 131 .main ++
    [.load 1 0, .request (.flowRuleDel (envAt 0) protoRuleId)]

/-- The table is destroyed while it is published and loaded in a frame. -/
theorem deletion_frees_a_table_in_use :
    ¬ Runs.Throughout Interleaved.step Interleaved.NoneFreed (.start 1) addLoadDelete := by
  intro h
  have hlast := h addLoadDelete [] (List.append_nil _).symm
  exact hlast 1 (by decide +kernel) (Or.inl ⟨1, 0, by decide +kernel⟩)

end InFMon
