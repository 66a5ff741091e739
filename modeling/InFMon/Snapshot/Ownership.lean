import InFMon.Snapshot.AllOrNothing

/-! # Who owns a counter table

A counter table that is alive is referred to by one cell of the tables array or by one pending ring
entry. Snapshots move tables from cells to the ring, polls and the end of the manager destroy tables
of the ring. -/

namespace InFMon

open CountedLoop MachineWord

/-! ### Places -/

/-- Where a pointer to a counter table can be: a cell of the tables array, or a ring entry. -/
inductive Place where
  | cell (worker rule : ℕ)
  | ring (entry worker : ℕ)
  deriving DecidableEq

/-- What the places refer to. -/
def tableRefs (tables : Tables) (mgr : SnapshotMgr) : Place → Option ℕ
  | .cell w i => tables w i
  | .ring r v =>
    if r < maxRetired ∧ (mgr.retired r).pending = true ∧ v < (mgr.retired r).numTables then
      (mgr.retired r).tables v
    else none

/-- An entry of the ring refers to the tables that it has retired. -/
theorem tableRefs_ring {tables : Tables} {mgr : SnapshotMgr} {r v id : ℕ} :
    tableRefs tables mgr (.ring r v) = some id ↔
      r < maxRetired ∧ (mgr.retired r).pending = true ∧ v < (mgr.retired r).numTables ∧
        (mgr.retired r).tables v = some id := by
  rw [tableRefs, Option.ite_none_right_eq_some, and_assoc, and_assoc]

/-- The places in the ring depend on the ring entries only. -/
theorem tableRefs_congr (tables : Tables) (mgr mgr' : SnapshotMgr)
    (h : mgr'.retired = mgr.retired) : tableRefs tables mgr' = tableRefs tables mgr := by
  funext p
  cases p with
  | cell w i => rfl
  | ring r v => rw [tableRefs, tableRefs, h]

/-- The tables, the ring and the heap fit together. -/
structure Owning (mgr : SnapshotMgr) (tables : Tables) (heap : Heap) : Prop where
  owned : heap.Owned (tableRefs tables mgr)
  count : mgr.retiredCount = mgr.pendingEntries.card
  geometry : ∀ w i id, tables w i = some id → (heap.table id).Geometry

/-- No more entries are pending than the ring has. -/
theorem SnapshotMgr.pendingEntries_card_le (mgr : SnapshotMgr) :
    mgr.pendingEntries.card ≤ maxRetired :=
  (Finset.card_filter_le _ _).trans (Finset.card_range maxRetired).le

namespace Owning

variable {mgr : SnapshotMgr} {tables : Tables} {heap : Heap}

/-- A table in a cell has been created. -/
theorem made (h : Owning mgr tables heap) (w i id : ℕ) (hid : tables w i = some id) :
    id < heap.next ∧ (heap.table id).Geometry :=
  ⟨h.owned.lt_next (p := .cell w i) hid, h.geometry w i id hid⟩

/-- No more entries are retired than the ring has. -/
theorem retiredCount_le (h : Owning mgr tables heap) : mgr.retiredCount ≤ maxRetired :=
  h.count ▸ mgr.pendingEntries_card_le

/-! ### Snapshots -/

section Snapped

variable {nw idx width : ℕ} {now : UInt64} {out : SnapOutcome} {new : ℕ → Option ℕ} {r : ℕ}

/-- The tables while the cells of the workers at `idx` are empty. -/
def cleared (tables : Tables) (nw idx : ℕ) : Tables :=
  fun w i => if w < nw ∧ i = idx then none else tables w i

/-- Where a snapshot moves what is in a place: the cells at `idx` are emptied into ring entry `r`. -/
def toRing (nw idx r : ℕ) : Place → Place
  | .cell w i => if w < nw ∧ i = idx then .ring r w else .cell w i
  | .ring r' v => .ring r' v

/-- The ring entry of a snapshot, which was free. -/
theorem ring_of_snapped (hs : Snapped mgr tables heap nw idx width now out new r) :
    (r < maxRetired ∧ (mgr.retired r).pending = false) ∧
      (out.mgr.retired r).pending = true ∧ (out.mgr.retired r).numTables = nw ∧
      (∀ v, (out.mgr.retired r).tables v = if v < nw then tables v idx else none) ∧
      ∀ r' ≠ r, out.mgr.retired r' = mgr.retired r' := by
  obtain ⟨hr, hfree, -⟩ := SnapshotMgr.freeEntry_eq_some_iff.mp hs.place
  have hretired : ∀ r', out.mgr.retired r' = Function.update mgr.retired r _ r' := fun r' => by
    rw [hs.mgr_eq]
  refine ⟨⟨hr, hfree⟩, ?_, ?_, fun v => ?_, fun r' hr' => ?_⟩
  · rw [hretired, Function.update_self]
  · rw [hretired, Function.update_self]
  · rw [hretired, Function.update_self]
  · rw [hretired, Function.update_of_ne hr']

/-- The old tables change place. -/
theorem owned_cleared (h : Owning mgr tables heap)
    (hs : Snapped mgr tables heap nw idx width now out new r) :
    heap.Owned (tableRefs (cleared tables nw idx) out.mgr) := by
  obtain ⟨⟨hr, hfree⟩, hpending, hnum, hring, hother⟩ := ring_of_snapped hs
  -- the tables of the column move to entry `r`, the others stay where they are
  refine h.owned.move (toRing nw idx r) ?_ ?_
  · rintro (⟨w, i⟩ | ⟨r', v⟩) id hid
    · change tables w i = some id at hid
      by_cases hwi : w < nw ∧ i = idx
      · simp only [toRing, if_pos hwi]
        rw [tableRefs_ring, hring, if_pos hwi.1, hnum]
        exact ⟨hr, hpending, hwi.1, hwi.2 ▸ hid⟩
      · simp only [toRing, if_neg hwi, tableRefs, cleared]
        exact hid
    · -- the entry was free, so a table in the ring is in another one
      have hrr : r' ≠ r := by
        rintro rfl
        rw [tableRefs_ring, hfree] at hid
        exact absurd hid.2.1 Bool.false_ne_true
      simp only [toRing]
      rw [tableRefs_ring, hother r' hrr]
      exact tableRefs_ring.mp hid
  · rintro (⟨w, i⟩ | ⟨r', v⟩) id hid
    · simp only [tableRefs, cleared] at hid
      split at hid
      · cases hid
      · rename_i hwi
        exact ⟨.cell w i, by simp only [toRing, if_neg hwi], hid⟩
    · by_cases hrr : r' = r
      · subst hrr
        rw [tableRefs_ring, hring, hnum] at hid
        obtain ⟨-, -, hv, hid⟩ := hid
        rw [if_pos hv] at hid
        exact ⟨.cell v idx, by simp only [toRing, hv, and_self, if_true], hid⟩
      · rw [tableRefs_ring, hother r' hrr] at hid
        exact ⟨.ring r' v, rfl, tableRefs_ring.mpr hid⟩

/-- The new tables are put in the cells. -/
theorem owned_snapped (h : Owning mgr tables heap)
    (hs : Snapped mgr tables heap nw idx width now out new r) :
    out.heap.Owned (tableRefs out.tables out.mgr) := by
  refine (h.owned_cleared hs).add (fun p id => ∃ w < nw, p = .cell w idx ∧ new w = some id) ?_ ?_ ?_
    hs.next_le hs.destroyed
  · rintro (⟨w, i⟩ | ⟨r', v⟩) id
    · simp only [tableRefs, cleared, hs.tables_eq]
      by_cases hwi : w < nw ∧ i = idx
      · rw [if_pos hwi, if_pos hwi]
        simp [hwi]
      · rw [if_neg hwi, if_neg hwi]
        refine (or_iff_left ?_).symm
        rintro ⟨w', hw', heq, -⟩
        cases heq
        exact hwi ⟨hw', rfl⟩
    · simp only [tableRefs, reduceCtorEq, false_and, and_false, exists_false, or_false]
  · intro id
    constructor
    · rintro ⟨p, w, hw, -, hid⟩
      obtain ⟨hge, hlt, -⟩ := hs.new_table w id hid
      exact ⟨hge, hlt⟩
    · rintro ⟨hge, hlt⟩
      obtain ⟨w, hw, hid⟩ := hs.recorded id hge hlt
      exact ⟨_, w, hw, rfl, hid⟩
  · rintro p q id ⟨u, -, rfl, hu⟩ ⟨v, -, rfl, hv⟩
    rw [hs.injective u v id hu hv]

/-- The ring has one more pending entry. -/
theorem count_snapped (h : Owning mgr tables heap)
    (hs : Snapped mgr tables heap nw idx width now out new r) :
    out.mgr.retiredCount = out.mgr.pendingEntries.card := by
  obtain ⟨⟨hr, hfree⟩, hpending, -, -, hother⟩ := ring_of_snapped hs
  have hentries : out.mgr.pendingEntries = insert r mgr.pendingEntries := by
    ext i
    simp only [SnapshotMgr.mem_pendingEntries, Finset.mem_insert]
    by_cases hi : i = r
    · subst hi
      simp [hr, hpending]
    · rw [hother i hi]
      simp [hi]
  have hnot : r ∉ mgr.pendingEntries := by
    simp [SnapshotMgr.mem_pendingEntries, hfree]
  rw [hentries, Finset.card_insert_of_notMem hnot, ← h.count, hs.mgr_eq]

/-- A successful snapshot moves the old tables to the ring and puts new ones in their cells. -/
theorem snapped (h : Owning mgr tables heap)
    (hs : Snapped mgr tables heap nw idx width now out new r) :
    Owning out.mgr out.tables out.heap where
  owned := h.owned_snapped hs
  count := h.count_snapped hs
  geometry w i id hid := by
    rw [hs.tables_eq w i] at hid
    split at hid
    · obtain ⟨-, -, old, -, hg, -⟩ := hs.new_table w id hid
      exact hg
    · obtain ⟨hlt, hg⟩ := h.made w i id hid
      rwa [hs.table_eq id hlt]

end Snapped

/-- A snapshot keeps every table owned, whether it succeeds or not. -/
theorem snapshot (h : Owning mgr tables heap) (numWorkers idx maxRules width : ℕ)
    (allocs : ℕ → Alloc) (now : UInt64) :
    let out := snapshotAndClear mgr tables heap numWorkers idx maxRules width allocs now
    Owning out.mgr out.tables out.heap := by
  intro out
  rcases snapshotAndClear_cases h.count (fun v id hid => h.made v idx id hid) numWorkers maxRules
    width allocs now with ⟨-, htables, hmgr, hheap⟩ | ⟨new, r, hs⟩
  · refine { owned := ?_, count := hmgr ▸ h.count, geometry := ?_ }
    · rw [htables, hmgr]
      exact h.owned.undone hheap
    · intro w i id hid
      rw [htables] at hid
      obtain ⟨hlt, hg⟩ := h.made w i id hid
      rwa [hheap.table_eq id hlt]
  · exact h.snapped hs

end Owning

/-! ### Freeing a ring entry -/

namespace SnapshotMgr

/-- The loop over the tables of ring entry `i`. -/
theorem forUpTo_destroyRetired (i k : ℕ) (mgr : SnapshotMgr) (heap : Heap) :
    forUpTo k (destroyRetired i) (mgr, heap) =
      ({ mgr with
          retired := Function.update mgr.retired i
            { mgr.retired i with
              tables := fun v => if v < k then none else (mgr.retired i).tables v } },
       { heap with
          destroyed := (pointees (mgr.retired i).tables k).reverse ++ heap.destroyed }) := by
  induction k with
  | zero => simp [pointees]
  | succ k ih =>
    rw [forUpTo_succ, ih, pointees_succ, destroyRetired]
    simp only [Function.update_self, lt_irrefl, if_false]
    -- pass `k` clears cell `k`, which may have held a table
    have hlt : ∀ v, v ≠ k → (v < k + 1 ↔ v < k) := fun v hv => by omega
    cases hk : (mgr.retired i).tables k with
    | none =>
      have hrow : (fun v => if v < k + 1 then none else (mgr.retired i).tables v) =
          fun v => if v < k then none else (mgr.retired i).tables v := by
        funext v
        by_cases hv : v = k
        · subst hv
          simp [hk]
        · simp only [hlt v hv]
      rw [hrow]
      simp
    | some id =>
      have hrow : (fun v => if v < k + 1 then none else (mgr.retired i).tables v) =
          Function.update (fun v => if v < k then none else (mgr.retired i).tables v) k none := by
        funext v
        by_cases hv : v = k
        · subst hv
          simp
        · rw [Function.update_of_ne hv]
          simp only [hlt v hv]
      rw [hrow]
      simp [Heap.destroy]

/-- Ring entry `i` with its tables destroyed. -/
def released (mgr : SnapshotMgr) (i : ℕ) : SnapshotMgr :=
  { mgr with
    retired := Function.update mgr.retired i
      { mgr.retired i with
        tables := fun v => if v < (mgr.retired i).numTables then none else (mgr.retired i).tables v
        pending := false } }

/-- Freeing ring entry `i` destroys the tables it holds. -/
theorem releaseEntry_eq (i : ℕ) (mgr : SnapshotMgr) (heap : Heap) :
    releaseEntry i (mgr, heap) = (mgr.released i,
      { heap with
        destroyed := (pointees (mgr.retired i).tables (mgr.retired i).numTables).reverse ++
          heap.destroyed }) := by
  simp only [releaseEntry, forUpTo_destroyRetired, clearPending, Function.update_self,
    Function.update_idem, released]

/-- An entry that is released is not pending. -/
theorem released_retired_self (mgr : SnapshotMgr) (i : ℕ) :
    ((mgr.released i).retired i).pending = false := by
  simp [released]

/-- Other entries stay when one is released. -/
theorem released_retired_of_ne (mgr : SnapshotMgr) {i r : ℕ} (h : r ≠ i) :
    (mgr.released i).retired r = mgr.retired r := by
  simp [released, h]

/-- Freeing an entry drops its tables from the places. -/
theorem released_owned {mgr : SnapshotMgr} {tables : Tables} {heap : Heap} {i : ℕ}
    (h : heap.Owned (tableRefs tables mgr)) (hi : i < maxRetired)
    (hpending : (mgr.retired i).pending = true) :
    (releaseEntry i (mgr, heap)).2.Owned (tableRefs tables (mgr.released i)) := by
  rw [releaseEntry_eq]
  refine h.drop (mgr.retired i).tables (n := (mgr.retired i).numTables)
    (fun v => .ring i v) ?_ ?_ ?_ rfl rfl
  · intro v hv
    rw [tableRefs, if_pos ⟨hi, hpending, hv⟩]
  · intro u _ v _ huv
    exact (Place.ring.inj huv).2
  · rintro (⟨w, j⟩ | ⟨r, v⟩) id
    · simp [tableRefs]
    · rw [tableRefs_ring, tableRefs_ring]
      by_cases hri : r = i
      · -- the freed entry refers to nothing any more
        subst hri
        rw [released_retired_self]
        constructor
        · rintro ⟨-, hfalse, -⟩
          exact absurd hfalse Bool.false_ne_true
        · rintro ⟨⟨-, -, hv, -⟩, hnot⟩
          exact absurd ⟨v, hv, rfl⟩ hnot
      · rw [released_retired_of_ne mgr hri]
        refine (and_iff_left ?_).symm
        rintro ⟨v', -, heq⟩
        exact hri (Place.ring.inj heq).1.symm

/-- One entry less is pending. -/
theorem released_pendingEntries (mgr : SnapshotMgr) (i : ℕ) :
    (mgr.released i).pendingEntries = mgr.pendingEntries.erase i := by
  ext r
  rw [Finset.mem_erase, mem_pendingEntries, mem_pendingEntries]
  by_cases hri : r = i
  · subst hri
    simp [released_retired_self]
  · rw [released_retired_of_ne mgr hri]
    simp [hri]

end SnapshotMgr

/-! ### Retire poll -/

/-- What a poll has done after looking at the ring entries below `k`. -/
structure Polled (mgr : SnapshotMgr) (heap : Heap) (now : UInt64) (k : ℕ) (mgr' : SnapshotMgr)
    (heap' : Heap) : Prop where
  mgr_eq : mgr' = { mgr with retired := mgr'.retired, retiredCount := mgr'.retiredCount }
  later : ∀ r, k ≤ r → mgr'.retired r = mgr.retired r
  kept : ∀ r, (mgr'.retired r).pending = true → mgr'.retired r = mgr.retired r
  next : heap'.next = heap.next
  table_eq : heap'.table = heap.table
  /-- Only tables of entries that may be reclaimed are destroyed. -/
  destroyed : ∃ l, heap'.destroyed = l ++ heap.destroyed ∧ ∀ id ∈ l, ∃ r < maxRetired,
    (mgr.retired r).pending = true ∧ mgr.reclaimable (mgr.retired r) now = true ∧
      ∃ v < (mgr.retired r).numTables, (mgr.retired r).tables v = some id

/-- The poll of one ring entry. -/
theorem Polled.step {mgr mgr' : SnapshotMgr} {tables : Tables} {heap heap' : Heap} {now : UInt64}
    {k freed : ℕ} (hp : Polled mgr heap now k mgr' heap') (ho : Owning mgr' tables heap')
    (hk : k < maxRetired) :
    Polled mgr heap now (k + 1) (SnapshotMgr.pollEntry now k (freed, mgr', heap')).2.1
        (SnapshotMgr.pollEntry now k (freed, mgr', heap')).2.2 ∧
      Owning (SnapshotMgr.pollEntry now k (freed, mgr', heap')).2.1 tables
        (SnapshotMgr.pollEntry now k (freed, mgr', heap')).2.2 := by
  have hlater : ∀ r, k + 1 ≤ r → mgr'.retired r = mgr.retired r := fun r hr =>
    hp.later r (by omega)
  rw [SnapshotMgr.pollEntry]
  split
  · exact ⟨{ hp with later := hlater }, ho⟩
  rename_i hpending
  rw [Bool.not_eq_false] at hpending
  split
  · exact ⟨{ hp with later := hlater }, ho⟩
  rename_i hrec
  rw [Bool.not_eq_false] at hrec
  -- the entry is freed
  have hown := SnapshotMgr.released_owned ho.owned hk hpending
  simp only [SnapshotMgr.releaseEntry_eq] at hown ⊢
  have hentry := hp.later k le_rfl
  obtain ⟨l, hl, hmem⟩ := hp.destroyed
  constructor
  · refine { mgr_eq := ?_, later := ?_, kept := ?_, next := hp.next, table_eq := hp.table_eq,
             destroyed := ?_ }
    · rw [hp.mgr_eq]
      rfl
    · intro r hr
      show (mgr'.released k).retired r = _
      rw [mgr'.released_retired_of_ne (by omega), hlater r hr]
    · intro r hr
      change ((mgr'.released k).retired r).pending = true at hr
      show (mgr'.released k).retired r = _
      by_cases hrk : r = k
      · subst hrk
        rw [mgr'.released_retired_self] at hr
        exact absurd hr Bool.false_ne_true
      · rw [mgr'.released_retired_of_ne hrk] at hr ⊢
        exact hp.kept r hr
    · refine ⟨(pointees (mgr'.retired k).tables (mgr'.retired k).numTables).reverse ++ l, ?_, ?_⟩
      · rw [List.append_assoc, ← hl]
      · intro id hid
        rw [List.mem_append, List.mem_reverse, mem_pointees] at hid
        rcases hid with hid | hid
        · refine ⟨k, hk, hentry ▸ hpending, ?_, hentry ▸ hid⟩
          rw [hp.mgr_eq] at hrec
          rw [← hentry]
          exact hrec
        · exact hmem id hid
  · refine { owned := ?_, count := ?_, geometry := ho.geometry }
    · rw [tableRefs_congr tables (mgr'.released k) { mgr'.released k with
        retiredCount := sub32 (mgr'.released k).retiredCount 1 } rfl]
      exact hown
    · have hin : k ∈ mgr'.pendingEntries := SnapshotMgr.mem_pendingEntries.mpr ⟨hk, hpending⟩
      have hpos : 0 < mgr'.pendingEntries.card := Finset.card_pos.mpr ⟨k, hin⟩
      have hle := mgr'.pendingEntries_card_le
      rw [SnapshotMgr.pendingEntries_congr (mgr'.released k) { mgr'.released k with
        retiredCount := sub32 (mgr'.released k).retiredCount 1 } rfl,
        mgr'.released_pendingEntries, Finset.card_erase_of_mem hin, ← ho.count]
      exact sub32_of_le (ho.count ▸ hpos) (ho.count ▸ hle.trans (by decide))

/-- A poll keeps every table owned, and destroys tables of reclaimable entries only. -/
theorem Owning.poll {mgr : SnapshotMgr} {tables : Tables} {heap : Heap} (h : Owning mgr tables heap)
    (now : UInt64) :
    Polled mgr heap now maxRetired (mgr.retirePoll heap now).2.1 (mgr.retirePoll heap now).2.2 ∧
      Owning (mgr.retirePoll heap now).2.1 tables (mgr.retirePoll heap now).2.2 := by
  refine forUpTo_induct (fun k (s : ℕ × SnapshotMgr × Heap) =>
    Polled mgr heap now k s.2.1 s.2.2 ∧ Owning s.2.1 tables s.2.2) ⟨?_, h⟩ ?_
  · exact { mgr_eq := rfl, later := fun _ _ => rfl, kept := fun _ _ => rfl, next := rfl,
            table_eq := rfl, destroyed := ⟨[], rfl, fun _ hid => absurd hid List.not_mem_nil⟩ }
  · rintro k hk ⟨freed, mgr', heap'⟩ ⟨hp, ho⟩
    exact hp.step ho hk

/-! ### The end of the manager -/

/-- `infmon_snapshot_mgr_destroy` empties the ring and keeps the other tables owned. -/
theorem Owning.destroy {mgr : SnapshotMgr} {tables : Tables} {heap : Heap}
    (h : Owning mgr tables heap) :
    Owning (mgr.destroy heap).1 tables (mgr.destroy heap).2 ∧
      (mgr.destroy heap).1.pendingEntries = ∅ := by
  have hloop := forUpTo_induct (n := maxRetired) (s := (mgr, heap))
    (f := fun i s => if (s.1.retired i).pending then SnapshotMgr.releaseEntry i s else s)
    (fun k s => s.2.Owned (tableRefs tables s.1) ∧ s.2.table = heap.table ∧
      ∀ r < k, (s.1.retired r).pending = false)
    ⟨h.owned, rfl, fun r hr => absurd hr (Nat.not_lt_zero r)⟩ ?_
  · obtain ⟨howned, htable, hfree⟩ := hloop
    have hnone : (mgr.destroy heap).1.pendingEntries = ∅ := by
      refine Finset.eq_empty_of_forall_notMem fun r hr => ?_
      obtain ⟨hr, hpending⟩ := SnapshotMgr.mem_pendingEntries.mp hr
      have := hfree r hr
      exact absurd (hpending.symm.trans this) (by decide)
    refine ⟨{ owned := ?_, count := ?_, geometry := ?_ }, hnone⟩
    · have hrefs := tableRefs_congr tables _ (mgr.destroy heap).1 rfl
      exact hrefs ▸ howned
    · rw [hnone]
      rfl
    · intro w i id hid
      show ((mgr.destroy heap).2.table id).Geometry
      rw [SnapshotMgr.destroy]
      exact htable ▸ h.geometry w i id hid
  · rintro k hk ⟨mgr', heap'⟩ ⟨howned, htable, hfree⟩
    simp only
    split
    · -- a pending entry
      rename_i hpending
      have hown := SnapshotMgr.released_owned howned hk hpending
      rw [SnapshotMgr.releaseEntry_eq] at hown ⊢
      refine ⟨hown, htable, fun r hr => ?_⟩
      by_cases hrk : r = k
      · rw [hrk, mgr'.released_retired_self]
      · rw [mgr'.released_retired_of_ne hrk]
        exact hfree r (by omega)
    · rename_i hpending
      refine ⟨howned, htable, fun r hr => ?_⟩
      by_cases hrk : r = k
      · rw [hrk]
        exact Bool.not_eq_true _ ▸ hpending
      · exact hfree r (by omega)

end InFMon
