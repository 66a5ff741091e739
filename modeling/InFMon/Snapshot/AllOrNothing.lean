import InFMon.Snapshot.Manager
import Mathlib.Data.Finset.Card
import Mathlib.Data.Finset.Range

/-! # Snapshots are all-or-nothing

What one `infmon_snapshot_and_clear` does to the tables, the ring and the heap. The allocation pass
creates all tables before anything is changed; when it fails, the tables created so far are destroyed
and nothing else has happened. -/

namespace InFMon

open CountedLoop

/-! ### The allocation pass -/

/-- What the allocation pass has collected after the workers below `w`, starting from `heap`. -/
structure Allocated (heap : Heap) (tables : Tables) (idx width w : ℕ) (p : AllocPass) : Prop where
  oldTables : ∀ v, p.oldTables v = if v < w then tables v idx else none
  isSome : ∀ v, (p.newTables v).isSome = (p.oldTables v).isSome
  next_le : heap.next ≤ p.heap.next
  table_eq : ∀ id < heap.next, p.heap.table id = heap.table id
  destroyed : p.heap.destroyed = heap.destroyed
  /-- New tables are fresh, and as large as the tables they replace. -/
  new : ∀ v id, p.newTables v = some id → heap.next ≤ id ∧ id < p.heap.next ∧
    (p.heap.table id).Geometry ∧ (p.heap.table id).Fresh ∧
    ∃ old, tables v idx = some old ∧ (p.heap.table id).numSlots = (heap.table old).numSlots ∧
      (p.heap.table id).keyArenaCapacity = (heap.table old).numSlots * width
  injective : ∀ u v id, p.newTables u = some id → p.newTables v = some id → u = v
  /-- Every table created by the pass is recorded. -/
  recorded : ∀ id, heap.next ≤ id → id < p.heap.next → ∃ v < w, p.newTables v = some id

/-- At the start nothing is allocated. -/
theorem Allocated.start (heap : Heap) (tables : Tables) (idx width : ℕ) :
    Allocated heap tables idx width 0
      { heap := heap, newTables := fun _ => none, oldTables := fun _ => none } where
  oldTables _ := rfl
  isSome _ := rfl
  next_le := le_rfl
  table_eq _ _ := rfl
  destroyed := rfl
  new _ _ h := by cases h
  injective _ _ _ h := by cases h
  recorded id h1 h2 := absurd h1 (Nat.not_le.mpr h2)

variable {heap : Heap} {tables : Tables} {idx width w : ℕ} {p : AllocPass}

/-- The old tables read by the pass, one worker further. -/
theorem Allocated.oldTables_succ (h : Allocated heap tables idx width w p) (v : ℕ) :
    Function.update p.oldTables w (tables w idx) v = if v < w + 1 then tables v idx else none := by
  by_cases hvw : v = w
  · subst hvw
    simp
  · rw [Function.update_of_ne hvw, h.oldTables v]
    by_cases hlt : v < w
    · rw [if_pos hlt, if_pos (by omega)]
    · rw [if_neg hlt, if_neg (by omega)]

/-- A worker without a table. -/
theorem Allocated.skip (h : Allocated heap tables idx width w p) (hw : tables w idx = none) :
    Allocated heap tables idx width (w + 1)
      { p with oldTables := Function.update p.oldTables w none } := by
  have hnone : p.newTables w = none := by
    have hsome := h.isSome w
    rw [h.oldTables, if_neg (lt_irrefl w)] at hsome
    simpa using hsome
  exact
    { h with
      oldTables := fun v => hw ▸ h.oldTables_succ v
      isSome := by
        intro v
        show (p.newTables v).isSome = (Function.update p.oldTables w none v).isSome
        by_cases hvw : v = w
        · subst hvw
          simp [hnone]
        · rw [Function.update_of_ne hvw]
          exact h.isSome v
      recorded := by
        intro id h1 h2
        obtain ⟨v, hv, hid⟩ := h.recorded id h1 h2
        exact ⟨v, by omega, hid⟩ }

/-- A worker with a table gets a fresh one of the same size. -/
theorem Allocated.create (h : Allocated heap tables idx width w p) {old : ℕ}
    (hw : tables w idx = some old) {t : CounterTable} (hg : t.Geometry) (hfresh : t.Fresh)
    (hsame : t.numSlots = (heap.table old).numSlots)
    (hcap : t.keyArenaCapacity = t.numSlots * width) :
    Allocated heap tables idx width (w + 1)
      { heap := p.heap.alloc t
        newTables := Function.update p.newTables w (some p.heap.next)
        oldTables := Function.update p.oldTables w (some old) } := by
  have hnext := h.next_le
  exact
    { oldTables := fun v => hw ▸ h.oldTables_succ v
      isSome := by
        intro v
        show (Function.update p.newTables w _ v).isSome = (Function.update p.oldTables w _ v).isSome
        by_cases hvw : v = w
        · subst hvw
          simp
        · rw [Function.update_of_ne hvw, Function.update_of_ne hvw]
          exact h.isSome v
      next_le := by
        show heap.next ≤ p.heap.next + 1
        omega
      table_eq := by
        intro id hid
        show Function.update p.heap.table p.heap.next t id = heap.table id
        rw [Function.update_of_ne (by omega), h.table_eq id hid]
      destroyed := h.destroyed
      new := by
        intro v id hv
        change Function.update p.newTables w (some p.heap.next) v = some id at hv
        show heap.next ≤ id ∧ id < p.heap.next + 1 ∧ _
        by_cases hvw : v = w
        · -- the table just created
          subst hvw
          rw [Function.update_self, Option.some.injEq] at hv
          subst hv
          refine ⟨hnext, Nat.lt_succ_self _, ?_⟩
          simp only [Heap.alloc, Function.update_self]
          exact ⟨hg, hfresh, old, hw, hsame, by rw [hcap, hsame]⟩
        · rw [Function.update_of_ne hvw] at hv
          obtain ⟨h1, h2, h3⟩ := h.new v id hv
          refine ⟨h1, by omega, ?_⟩
          simp only [Heap.alloc, Function.update_of_ne h2.ne]
          exact h3
      injective := by
        intro u v id hu hv
        change Function.update p.newTables w (some p.heap.next) u = some id at hu
        change Function.update p.newTables w (some p.heap.next) v = some id at hv
        -- no other worker has the table just created
        have hfar : ∀ x, x ≠ w → Function.update p.newTables w (some p.heap.next) x ≠
            some p.heap.next := by
          intro x hx heq
          rw [Function.update_of_ne hx] at heq
          exact lt_irrefl _ (h.new x _ heq).2.1
        by_cases huw : u = w <;> by_cases hvw : v = w
        · exact huw.trans hvw.symm
        · subst huw
          rw [Function.update_self, Option.some.injEq] at hu
          exact absurd (hu ▸ hv) (hfar v hvw)
        · subst hvw
          rw [Function.update_self, Option.some.injEq] at hv
          exact absurd (hv ▸ hu) (hfar u huw)
        · rw [Function.update_of_ne huw] at hu
          rw [Function.update_of_ne hvw] at hv
          exact h.injective u v id hu hv
      recorded := by
        intro id h1 h2
        rcases Nat.lt_succ_iff_lt_or_eq.mp h2 with hlt' | rfl
        · obtain ⟨v, hv, hid⟩ := h.recorded id h1 hlt'
          exact ⟨v, by omega, (Function.update_of_ne hv.ne _ _).trans hid⟩
        · exact ⟨w, Nat.lt_succ_self w, Function.update_self ..⟩ }

/-- One worker of the allocation pass. -/
theorem Allocated.step {allocs : ℕ → Alloc} {p' : AllocPass}
    (h : Allocated heap tables idx width w p)
    (hmade : ∀ id, tables w idx = some id → id < heap.next ∧ (heap.table id).Geometry)
    (hstep : allocStep tables idx width allocs w p = .ok p') :
    Allocated heap tables idx width (w + 1) p' := by
  rw [allocStep] at hstep
  cases hw : tables w idx with
  | none =>
    rw [hw] at hstep
    obtain rfl := Except.ok.inj hstep
    exact h.skip hw
  | some old =>
    rw [hw] at hstep
    simp only at hstep
    obtain ⟨hlt, hgeom⟩ := hmade old hw
    split at hstep
    · cases hstep
    rename_i id heap' hcreate
    obtain ⟨hid, t, ht, hheap⟩ := Heap.create_some (by rw [hcreate])
    rw [hcreate] at hheap
    simp only at hheap
    subst hid hheap
    obtain ⟨-, -, -, hg, hfresh, hslots, hcap⟩ := counterTableCreate_some ht
    -- the number of slots is a power of two, so rounding keeps it
    have hsame : t.numSlots = (heap.table old).numSlots := by
      obtain ⟨k, hk, hpow⟩ := hgeom.pow
      rw [hslots, h.table_eq old hlt, hpow, nextPow2_two_pow hk]
    obtain rfl := Except.ok.inj hstep
    exact h.create hw hg hfresh hsame hcap

/-- A failing worker of the allocation pass undoes the pass. -/
theorem Allocated.undone {heap' : Heap} {allocs : ℕ → Alloc}
    (h : Allocated heap tables idx width w p)
    (hstep : allocStep tables idx width allocs w p = .error heap') : heap.Undone heap' := by
  rw [allocStep] at hstep
  cases hw : tables w idx with
  | none =>
    rw [hw] at hstep
    cases hstep
  | some old =>
    rw [hw] at hstep
    simp only at hstep
    split at hstep
    · rename_i heap₁ hcreate
      have hheap := Heap.create_none (by rw [hcreate])
      rw [hcreate] at hheap
      obtain rfl : heap₁ = p.heap := hheap
      obtain rfl := Except.error.inj hstep
      rw [cleanupNew, Heap.forUpTo_destroy]
      refine ⟨h.next_le, h.table_eq, (pointees p.newTables w).reverse, by rw [← h.destroyed],
        List.nodup_reverse.mpr (pointees_nodup fun u _ v _ => h.injective u v), fun id => ?_⟩
      rw [List.mem_reverse, mem_pointees]
      constructor
      · rintro ⟨v, -, hid⟩
        obtain ⟨h1, h2, -⟩ := h.new v id hid
        exact ⟨h1, h2⟩
      · rintro ⟨h1, h2⟩
        exact h.recorded id h1 h2
    · cases hstep

/-! ### The swap pass -/

/-- What the swap pass has done for the workers below `w`, after the allocation pass `p`. -/
structure Swapped (heap : Heap) (tables : Tables) (idx : ℕ) (now : UInt64) (p : AllocPass) (w : ℕ)
    (q : SwapPass) : Prop where
  next : q.heap.next = p.heap.next
  destroyed : q.heap.destroyed = p.heap.destroyed
  table_eq : ∀ id < heap.next, q.heap.table id = heap.table id
  table_new : ∀ v old new, p.oldTables v = some old → p.newTables v = some new →
    q.heap.table new = if v < w then
      { p.heap.table new with generation := (heap.table old).generation + 1, epochNs := now }
    else p.heap.table new
  tables_eq : ∀ v i, q.tables v i = if v < w ∧ i = idx then p.newTables v else tables v i
  genSet : w = 0 → q.genSet = false
  gen : 0 < w → ∀ old, p.oldTables 0 = some old →
    q.genSet = true ∧ q.gen = (heap.table old).generation

variable {nw : ℕ} {now : UInt64} {q : SwapPass}

/-- A worker without a table: its entry was and stays `NULL`. -/
theorem Swapped.skip (hp : Allocated heap tables idx width nw p)
    (h : Swapped heap tables idx now p w q) (hold : tables w idx = none)
    (hpw : p.oldTables w = none) : Swapped heap tables idx now p (w + 1) q := by
  have hnew : p.newTables w = none := by
    have hsome := hp.isSome w
    rw [hpw] at hsome
    simpa using hsome
  -- worker `w` has no table, so the pass leaves everything as it is
  have hlt : ∀ v, v ≠ w → (v < w + 1 ↔ v < w) := fun v hv => by omega
  exact
    { h with
      table_new := by
        intro v old new hv hn
        have hvw : v ≠ w := by
          rintro rfl
          rw [hpw] at hv
          cases hv
        rw [h.table_new v old new hv hn]
        simp only [hlt v hvw]
      tables_eq := by
        intro v i
        rw [h.tables_eq v i]
        by_cases hvw : v = w
        · subst hvw
          by_cases hi : i = idx
          · simp [hi, hnew, hold]
          · simp [hi]
        · simp only [hlt v hvw]
      genSet := by omega
      gen := by
        intro _ old h0
        have hpos : 0 ≠ w := by
          rintro rfl
          rw [hpw] at h0
          cases h0
        exact h.gen (by omega) old h0 }

/-- A worker with a table: the new one is labelled and takes its place. -/
theorem Swapped.swap (hp : Allocated heap tables idx width nw p)
    (hmade : ∀ v id, tables v idx = some id → id < heap.next)
    (h : Swapped heap tables idx now p w q) {old new : ℕ} (hold : tables w idx = some old)
    (hpw : p.oldTables w = some old) (hnew : p.newTables w = some new) :
    Swapped heap tables idx now p (w + 1) (swapStep idx p.oldTables p.newTables now w q) := by
  -- the new table lies above all old ones, so writing to it changes none of those
  have hfar := (hp.new w new hnew).1
  have hgen : (q.heap.table old).generation = (heap.table old).generation := by
    rw [h.table_eq old (hmade w old hold)]
  rw [swapStep, hpw, hnew]
  exact
    { next := h.next
      destroyed := h.destroyed
      table_eq := by
        intro id hid
        show Function.update q.heap.table new _ id = _
        rw [Function.update_of_ne (by omega), h.table_eq id hid]
      table_new := by
        intro v old' new' hv hn
        show Function.update q.heap.table new _ new' = _
        by_cases hvw : v = w
        · subst hvw
          obtain rfl : new = new' := Option.some.inj (hnew.symm.trans hn)
          obtain rfl : old = old' := Option.some.inj (hpw.symm.trans hv)
          rw [Function.update_self, if_pos (Nat.lt_succ_self v), hgen,
            h.table_new v old new hpw hnew, if_neg (lt_irrefl v)]
        · have hne : new' ≠ new := by
            rintro rfl
            exact hvw (hp.injective v w _ hn hnew)
          have hlt : v < w + 1 ↔ v < w := by omega
          rw [Function.update_of_ne hne, h.table_new v old' new' hv hn]
          simp only [hlt]
      tables_eq := by
        intro v i
        show setTable q.tables w idx (some new) v i = _
        rw [setTable]
        by_cases hvw : v = w
        · subst hvw
          by_cases hi : i = idx
          · subst hi
            simp [hnew]
          · simp [hi, h.tables_eq]
        · have hlt : v < w + 1 ↔ v < w := by omega
          rw [Function.update_of_ne hvw, h.tables_eq v i]
          simp only [hlt]
      genSet := by omega
      gen := by
        intro _ old₀ h0
        refine ⟨rfl, ?_⟩
        show (if q.genSet then q.gen else (q.heap.table old).generation) = _
        by_cases hw0 : w = 0
        · subst hw0
          obtain rfl : old = old₀ := Option.some.inj (hpw.symm.trans h0)
          rw [h.genSet rfl, if_neg Bool.false_ne_true, hgen]
        · obtain ⟨hset, hg⟩ := h.gen (by omega) old₀ h0
          rw [hset, if_pos rfl, hg] }

/-- One worker of the swap pass. -/
theorem Swapped.step (hp : Allocated heap tables idx width nw p) (hw : w < nw)
    (hmade : ∀ v id, tables v idx = some id → id < heap.next)
    (h : Swapped heap tables idx now p w q) :
    Swapped heap tables idx now p (w + 1) (swapStep idx p.oldTables p.newTables now w q) := by
  have hold : p.oldTables w = tables w idx := by rw [hp.oldTables, if_pos hw]
  cases hpw : p.oldTables w with
  | none =>
    have hstep : swapStep idx p.oldTables p.newTables now w q = q := by rw [swapStep, hpw]
    rw [hstep]
    exact h.skip hp (hold.symm.trans hpw) hpw
  | some old =>
    have hsome := hp.isSome w
    rw [hpw] at hsome
    obtain ⟨new, hnew⟩ := Option.isSome_iff_exists.mp hsome
    exact h.swap hp hmade (hold.symm.trans hpw) hpw hnew

/-! ### The snapshot -/

/-- What a successful snapshot leaves: `new` are the new tables, and ring entry `r` took the old
ones. -/
structure Snapped (mgr : SnapshotMgr) (tables : Tables) (heap : Heap) (nw idx width : ℕ)
    (now : UInt64) (out : SnapOutcome) (new : ℕ → Option ℕ) (r : ℕ) : Prop where
  result : out.reply.result = .ok
  retiredTables : out.reply.retiredTables = fun v => if v < nw then tables v idx else none
  numRetired : out.reply.numRetired = nw
  retiredGeneration : ∀ old, tables 0 idx = some old →
    out.reply.retiredGeneration = (heap.table old).generation
  tables_eq : ∀ v i, out.tables v i = if v < nw ∧ i = idx then new v else tables v i
  new_isSome : ∀ v, (new v).isSome = if v < nw then (tables v idx).isSome else false
  /-- The new tables are new and empty, of the size of the old ones and one generation on. -/
  new_table : ∀ v id, new v = some id → heap.next ≤ id ∧ id < out.heap.next ∧
    ∃ old, tables v idx = some old ∧ (out.heap.table id).Geometry ∧ (out.heap.table id).Empty ∧
      (out.heap.table id).numSlots = (heap.table old).numSlots ∧
      (out.heap.table id).keyArenaCapacity = (heap.table old).numSlots * width ∧
      (out.heap.table id).generation = (heap.table old).generation + 1 ∧
      (out.heap.table id).epochNs = now
  injective : ∀ u v id, new u = some id → new v = some id → u = v
  recorded : ∀ id, heap.next ≤ id → id < out.heap.next → ∃ v < nw, new v = some id
  next_le : heap.next ≤ out.heap.next
  table_eq : ∀ id < heap.next, out.heap.table id = heap.table id
  destroyed : out.heap.destroyed = heap.destroyed
  place : mgr.freeEntry = some r
  mgr_eq : out.mgr =
    { mgr with
      globalEpoch := mgr.globalEpoch + 1
      retired := Function.update mgr.retired r
        { tables := fun v => if v < nw then tables v idx else none
          numTables := nw
          swapEpoch := mgr.globalEpoch + 1
          swapTimestampNs := now
          flowRuleIndex := idx
          pending := true }
      retiredCount := mgr.retiredCount + 1 }

namespace SnapshotMgr

/-- The pending ring entries. -/
def pendingEntries (mgr : SnapshotMgr) : Finset ℕ :=
  (Finset.range maxRetired).filter fun i => (mgr.retired i).pending = true

/-- The entries that are pending. -/
theorem mem_pendingEntries {mgr : SnapshotMgr} {i : ℕ} :
    i ∈ mgr.pendingEntries ↔ i < maxRetired ∧ (mgr.retired i).pending = true := by
  rw [pendingEntries, Finset.mem_filter, Finset.mem_range]

/-- The pending entries depend on the ring only. -/
theorem pendingEntries_congr (mgr mgr' : SnapshotMgr) (h : mgr'.retired = mgr.retired) :
    mgr'.pendingEntries = mgr.pendingEntries := by
  rw [pendingEntries, pendingEntries, h]

/-- The first entry that is not pending is free. -/
theorem freeEntry_eq_some_iff {mgr : SnapshotMgr} {r : ℕ} :
    mgr.freeEntry = some r ↔ r < maxRetired ∧ (mgr.retired r).pending = false ∧
      ∀ i < r, (mgr.retired i).pending = true := by
  simp only [freeEntry, List.find?_range_eq_some, Bool.not_eq_true', List.mem_range,
    Bool.not_not]
  exact and_left_comm

/-- While fewer than all entries are pending, one is free. -/
theorem freeEntry_isSome {mgr : SnapshotMgr} (h : mgr.pendingEntries.card < maxRetired) :
    ∃ r, mgr.freeEntry = some r := by
  cases hfree : mgr.freeEntry with
  | some r => exact ⟨r, rfl⟩
  | none =>
    exfalso
    have hall : mgr.pendingEntries = Finset.range maxRetired := by
      refine Finset.filter_true_of_mem fun i hi => ?_
      rw [freeEntry, List.find?_range_eq_none] at hfree
      simpa using hfree i (Finset.mem_range.mp hi)
    rw [hall, Finset.card_range] at h
    exact lt_irrefl _ h

end SnapshotMgr

/-- The swap pass over all workers. -/
theorem Allocated.swapped {heap : Heap} {tables : Tables} {idx width nw : ℕ} {p : AllocPass}
    (h : Allocated heap tables idx width nw p)
    (hmade : ∀ v id, tables v idx = some id → id < heap.next) (now : UInt64) :
    Swapped heap tables idx now p nw (forUpTo nw (swapStep idx p.oldTables p.newTables now)
      { heap := p.heap, tables := tables, gen := 0, genSet := false }) := by
  refine forUpTo_induct (Swapped heap tables idx now p) ?_ fun w hw q hq => hq.step h hw hmade
  refine { next := rfl, destroyed := rfl, table_eq := h.table_eq, table_new := ?_, tables_eq := ?_,
           genSet := fun _ => rfl, gen := ?_ }
  · intro v old new _ _
    rw [if_neg (Nat.not_lt_zero v)]
  · intro v i
    rw [if_neg fun hv => Nat.not_lt_zero v hv.1]
  · intro h0
    exact absurd h0 (lt_irrefl 0)

/-- A snapshot either fails and has changed nothing, or leaves what `Snapped` says. -/
theorem snapshotAndClear_cases {mgr : SnapshotMgr} {tables : Tables} {heap : Heap} {idx : ℕ}
    (hcount : mgr.retiredCount = mgr.pendingEntries.card)
    (hmade : ∀ v id, tables v idx = some id → id < heap.next ∧ (heap.table id).Geometry)
    (numWorkers maxRules width : ℕ) (allocs : ℕ → Alloc) (now : UInt64) :
    let out := snapshotAndClear mgr tables heap numWorkers idx maxRules width allocs now
    (out.reply.result ≠ .ok ∧ out.tables = tables ∧ out.mgr = mgr ∧ heap.Undone out.heap) ∨
    ∃ new r, Snapped mgr tables heap (workersServed numWorkers) idx width now out new r := by
  intro out
  have hout : out = snapshotAndClear mgr tables heap numWorkers idx maxRules width allocs now := rfl
  rw [snapshotAndClear] at hout
  -- the three checks before any allocation
  split at hout
  · exact Or.inl (hout ▸ ⟨by simp [SnapReply.error], rfl, rfl, Heap.Undone.refl heap⟩)
  simp only at hout
  split at hout
  · exact Or.inl (hout ▸ ⟨by simp [SnapReply.error], rfl, rfl, Heap.Undone.refl heap⟩)
  split at hout
  · exact Or.inl (hout ▸ ⟨by simp [SnapReply.error], rfl, rfl, Heap.Undone.refl heap⟩)
  rename_i hroom
  rcases forUpToExcept_induct (Allocated heap tables idx width) (n := workersServed numWorkers)
    (f := allocStep tables idx width allocs) (Allocated.start heap tables idx width)
    (fun w _ p p' hp hstep => hp.step (hmade w) hstep) with
    ⟨p, hpass, hp⟩ | ⟨heap', hfail, w, hw, p, hp, hstep⟩
  · -- all tables were created
    rw [hpass] at hout
    simp only at hout
    refine Or.inr ?_
    obtain ⟨r, hr⟩ := SnapshotMgr.freeEntry_isSome (show mgr.pendingEntries.card < _ by omega)
    have hq := hp.swapped (fun v id hv => (hmade v id hv).1) now
    have hold : p.oldTables = fun v => if v < workersServed numWorkers then tables v idx else none :=
      funext hp.oldTables
    have hlook : ∀ v, p.oldTables v = if v < workersServed numWorkers then tables v idx else none :=
      hp.oldTables
    rw [hout]
    refine ⟨p.newTables, r, ?_⟩
    refine { result := rfl, retiredTables := hold, numRetired := rfl, retiredGeneration := ?_,
             tables_eq := ?_, new_isSome := ?_, new_table := ?_, injective := hp.injective,
             recorded := ?_, next_le := ?_, table_eq := hq.table_eq, destroyed := ?_,
             place := hr, mgr_eq := ?_ }
    · intro old h0
      have hpos : 0 < workersServed numWorkers := by
        unfold workersServed
        split <;> omega
      exact (hq.gen hpos old (by rw [hlook, if_pos hpos, h0])).2
    · exact hq.tables_eq
    · intro v
      rw [hp.isSome v, hlook v]
      split <;> rfl
    · intro v id hv
      obtain ⟨h1, h2, hg, hfresh, old, hvold, hslots, hcap⟩ := hp.new v id hv
      have hvw : v < workersServed numWorkers := by
        by_contra hge
        have hsome := hp.isSome v
        rw [hlook v, if_neg hge, hv] at hsome
        cases hsome
      have htable := hq.table_new v old id (by rw [hlook, if_pos hvw, hvold]) hv
      rw [if_pos hvw] at htable
      refine ⟨h1, hq.next.symm ▸ h2, old, hvold, ?_⟩
      rw [htable]
      exact ⟨⟨hg.pow, hg.mask, hg.capacity⟩,
        ⟨hfresh.slots, hfresh.used, hfresh.insertFailed, hfresh.tableFull, hfresh.occupiedCount⟩,
        hslots, hcap, rfl, rfl⟩
    · intro id h1 h2
      exact hp.recorded id h1 (hq.next ▸ h2)
    · exact hq.next.symm ▸ hp.next_le
    · exact hq.destroyed.trans hp.destroyed
    · have hfree : SnapshotMgr.freeEntry { mgr with globalEpoch := mgr.globalEpoch + 1 } = some r :=
        hr
      simp only [SnapshotMgr.enqueue, hfree, hold]
  · -- some table could not be created
    rw [hfail] at hout
    exact Or.inl (hout ▸ ⟨by simp [SnapReply.error], rfl, rfl, hp.undone hstep⟩)

/-- A failed snapshot reports no retired tables. -/
theorem snapshotAndClear_retired_none {mgr : SnapshotMgr} {tables : Tables} {heap : Heap}
    {numWorkers idx maxRules width : ℕ} {allocs : ℕ → Alloc} {now : UInt64}
    (h : (snapshotAndClear mgr tables heap numWorkers idx maxRules width allocs now).reply.result ≠
      .ok) (v : ℕ) :
    (snapshotAndClear mgr tables heap numWorkers idx maxRules width allocs now).reply.retiredTables
      v = none := by
  revert h
  rw [snapshotAndClear]
  split
  · exact fun _ => rfl
  simp only
  split
  · exact fun _ => rfl
  split
  · exact fun _ => rfl
  split
  · exact fun _ => rfl
  · exact fun hne => absurd rfl hne

/-- A snapshot is all-or-nothing. If it does not succeed, the tables, the ring and the epoch are as
before, and every table it created has been destroyed. If it succeeds, each worker that had a table
has a fresh one of the same size, one generation on and stamped with the same clock reading, all
other pointers are as before, and one free ring entry holds exactly the old tables. -/
theorem snapshotAndClear_allOrNothing (mgr : SnapshotMgr) (tables : Tables) (heap : Heap)
    (hcount : mgr.retiredCount = mgr.pendingEntries.card)
    (hmade : ∀ v i id, tables v i = some id → id < heap.next ∧ (heap.table id).Geometry)
    (numWorkers idx maxRules width : ℕ) (allocs : ℕ → Alloc) (now : UInt64) :
    let out := snapshotAndClear mgr tables heap numWorkers idx maxRules width allocs now
    let nw := workersServed numWorkers
    (out.reply.result ≠ .ok → out.tables = tables ∧ out.mgr = mgr ∧ heap.Undone out.heap) ∧
    (out.reply.result = .ok →
      (∀ v < nw, ∀ old, tables v idx = some old → ∃ new, out.tables v idx = some new ∧
        heap.next ≤ new ∧ new < out.heap.next ∧ (out.heap.table new).Empty ∧
        (out.heap.table new).numSlots = (heap.table old).numSlots ∧
        (out.heap.table new).generation = (heap.table old).generation + 1 ∧
        (out.heap.table new).epochNs = now) ∧
      (∀ v i, ¬ (v < nw ∧ i = idx ∧ tables v i ≠ none) → out.tables v i = tables v i) ∧
      ∃ r < maxRetired, (mgr.retired r).pending = false ∧ (out.mgr.retired r).pending = true ∧
        (∀ v, (out.mgr.retired r).tables v = if v < nw then tables v idx else none) ∧
        (out.mgr.retired r).numTables = nw ∧
        ∀ r' ≠ r, out.mgr.retired r' = mgr.retired r') := by
  intro out nw
  rcases snapshotAndClear_cases hcount (fun v id hv => hmade v idx id hv) numWorkers maxRules width
    allocs now with ⟨hresult, htables, hmgr, hheap⟩ | ⟨new, r, h⟩
  · exact ⟨fun _ => ⟨htables, hmgr, hheap⟩, fun hok => absurd hok hresult⟩
  refine ⟨fun hne => absurd h.result hne, fun _ => ⟨?_, ?_, r, ?_⟩⟩
  · intro v hv old hold
    have hsome := h.new_isSome v
    rw [if_pos hv, hold] at hsome
    obtain ⟨id, hid⟩ := Option.isSome_iff_exists.mp hsome
    obtain ⟨h1, h2, old', hold', -, hempty, hslots, -, hgen, hnow⟩ := h.new_table v id hid
    obtain rfl : old = old' := Option.some.inj (hold.symm.trans hold')
    refine ⟨id, ?_, h1, h2, hempty, hslots, hgen, hnow⟩
    rw [h.tables_eq v idx, if_pos ⟨hv, rfl⟩, hid]
  · intro v i hvi
    rw [h.tables_eq v i]
    split
    · -- a worker served, so without a table before and after
      rename_i hserved
      have hnone : tables v i = none := by
        by_contra hne
        exact hvi ⟨hserved.1, hserved.2, hne⟩
      have hsome := h.new_isSome v
      rw [if_pos hserved.1, ← hserved.2, hnone] at hsome
      rw [hnone]
      simpa using hsome
    · rfl
  · obtain ⟨hr, hpending, -⟩ := SnapshotMgr.freeEntry_eq_some_iff.mp h.place
    rw [h.mgr_eq]
    simp only [Function.update_self]
    refine ⟨hr, hpending, trivial, fun v => rfl, rfl, fun r' hr' => ?_⟩
    rw [Function.update_of_ne hr']

/-- A snapshot of the one table of one worker. -/
theorem snapshotAndClear_single :
    let heap := (Heap.empty.create 2 1 ⟨true, fun _ => 0⟩).2
    let tables : Tables := fun v i => if v = 0 ∧ i = 0 then some 0 else none
    let out := snapshotAndClear (.init 1 0) tables heap 1 0 16 1 (fun _ => ⟨true, fun _ => 0⟩) 5
    ∃ new, out.tables 0 0 = some new ∧ 0 < new ∧ (out.heap.table new).Empty ∧
      (out.heap.table new).epochNs = 5 := by
  intro heap tables out
  have hmade : ∀ v i id, tables v i = some id → id < heap.next ∧ (heap.table id).Geometry := by
    intro v i id hid
    have hid0 : id = 0 := by
      simp only [tables] at hid
      split at hid <;> cases hid
      rfl
    obtain ⟨-, -, -, hg, -⟩ := counterTableCreate_some
      (show counterTableCreate 2 1 ⟨true, fun _ => 0⟩ = some _ from rfl)
    exact hid0 ▸ ⟨Nat.one_pos, hg⟩
  have hok : out.reply.result = .ok := by decide +kernel
  obtain ⟨new, h1, h2, -, h3, -, -, h4⟩ := ((snapshotAndClear_allOrNothing (.init 1 0) tables heap
    (by decide) hmade 1 0 16 1 (fun _ => ⟨true, fun _ => 0⟩) 5).2 hok).1 0 Nat.one_pos 0 rfl
  exact ⟨new, h1, h2, h3, h4⟩

end InFMon
