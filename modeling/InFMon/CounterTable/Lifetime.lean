import InFMon.CounterTable.Eviction

/-! # The life of a table

What a table for keys of one length does from its creation on. It takes keys as they come until it has
as many as slots, and then its arena is used up. The first further key evicts one and is lost itself;
the slot stays free, and from then on no key comes in and none is evicted. The keys that are left count
on, except those whose search ends at the free slot.

* `MetBefore` tells which keys count on.
* `Closed` is the invariant behind the eviction.
* `GivesUpOne` is the life of a table to which more keys come than it has slots. -/

namespace InFMon

open MachineWord OpenAddressing

namespace CounterTable

variable {t : CounterTable} {hash : Key → UInt64} {width : ℕ}

/-! ### The least recently updated slot -/

/-- A slot lowers the bound of the scan to its own stamp, or is free, or is not below the bound. -/
theorem victimStep_least (t : CounterTable) (start : ℕ) (acc : Option ℕ × UInt64) (i : ℕ) :
    (t.victimStep start acc i).2 ≤ acc.2 ∧
      ((t.slots (t.probeIdx start i)).flags = .occupied →
        (t.victimStep start acc i).2 ≤ (t.slots (t.probeIdx start i)).lastUpdate) ∧
      (t.victimStep start acc i = acc ∨ t.victimStep start acc i =
        (some (t.probeIdx start i), (t.slots (t.probeIdx start i)).lastUpdate)) := by
  rw [victimStep]
  dsimp only
  split
  · split
    · rename_i hlt
      exact ⟨UInt64.le_of_lt hlt, fun _ => UInt64.le_refl _, Or.inr rfl⟩
    · rename_i hlt
      exact ⟨UInt64.le_refl _, fun _ => UInt64.not_lt.mp hlt, Or.inl rfl⟩
  · rename_i hocc
    exact ⟨UInt64.le_refl _, fun h => absurd h hocc, Or.inl rfl⟩

/-- The scan keeps a bound that no occupied slot it has passed is below. -/
theorem victimScan_least (t : CounterTable) (start : ℕ) (l : List ℕ) (acc : Option ℕ × UInt64) :
    (l.foldl (t.victimStep start) acc).2 ≤ acc.2 ∧
      (∀ i ∈ l, (t.slots (t.probeIdx start i)).flags = .occupied →
        (l.foldl (t.victimStep start) acc).2 ≤ (t.slots (t.probeIdx start i)).lastUpdate) ∧
      ((l.foldl (t.victimStep start) acc) = acc ∨ ∃ i ∈ l,
        (l.foldl (t.victimStep start) acc).1 = some (t.probeIdx start i) ∧
        (l.foldl (t.victimStep start) acc).2 = (t.slots (t.probeIdx start i)).lastUpdate) := by
  induction l generalizing acc with
  | nil => exact ⟨UInt64.le_refl _, by simp, Or.inl rfl⟩
  | cons i l ih =>
    obtain ⟨hle, hall, hlast⟩ := ih (t.victimStep start acc i)
    obtain ⟨hle_i, hall_i, hnew_i⟩ := t.victimStep_least start acc i
    rw [List.foldl_cons]
    refine ⟨UInt64.le_trans hle hle_i, List.forall_mem_cons.mpr
      ⟨fun hocc => UInt64.le_trans hle (hall_i hocc), hall⟩, ?_⟩
    rcases hlast with heq | ⟨i', hi', hslot, hstamp⟩
    · rcases hnew_i with hsame | hnew
      · exact Or.inl (heq.trans hsame)
      · refine Or.inr ⟨i, List.mem_cons_self, ?_, ?_⟩ <;> rw [heq, hnew]
    · exact Or.inr ⟨i', List.mem_cons_of_mem _ hi', hslot, hstamp⟩

/-- The victim is in the window, and of its occupied slots none was updated before it. -/
theorem lruVictim_least {start v : ℕ} (h : t.lruVictim start = some v) :
    ∃ i < t.evictWindow, v = t.probeIdx start i ∧
      ∀ d < t.evictWindow, (t.slots (t.probeIdx start d)).flags = .occupied →
        (t.slots v).lastUpdate ≤ (t.slots (t.probeIdx start d)).lastUpdate := by
  obtain ⟨-, hall, hlast⟩ :=
    t.victimScan_least start (List.range t.evictWindow) (none, 0xFFFFFFFFFFFFFFFF)
  rw [lruVictim] at h
  rcases hlast with heq | ⟨i, hi, hslot, hstamp⟩
  · rw [heq] at h
    cases h
  · obtain rfl : t.probeIdx start i = v := Option.some.inj (hslot.symm.trans h)
    exact ⟨i, List.mem_range.mp hi, rfl, fun d hd hocc =>
      hstamp ▸ hall d (List.mem_range.mpr hd) hocc⟩

/-! ### Keys that are met before a slot -/

/-- The search for a key meets it before it gets to slot `v`. -/
def MetBefore (hash : Key → UInt64) (t : CounterTable) (v : ℕ) (key : Key) : Prop :=
  ∃ d < t.numSlots, t.key (t.slots (t.probeIdx (t.homeSlot (hash key)) d)) = some key.bytes ∧
    ∀ i ≤ d, t.probeIdx (t.homeSlot (hash key)) i ≠ v

instance (hash : Key → UInt64) (t : CounterTable) (v : ℕ) (key : Key) :
    Decidable (MetBefore hash t v key) :=
  inferInstanceAs (Decidable (∃ d < t.numSlots, _ ∧ ∀ i ≤ d, _))

/-- A slot of an exact table holds the bytes of a key exactly if its cell is the key's. -/
theorem Exact.key_iff {ops : List UpdateOp} (h : t.Exact hash width ops) {j : ℕ} (hj : j < t.numSlots)
    {key : Key} : t.key (t.slots j) = some key.bytes ↔ t.cell j = .full (hash key, key.bytes) := by
  rw [h.key_eq_some_iff hj]
  constructor
  · rintro ⟨hocc, hbytes⟩
    obtain ⟨key', hkey', -⟩ := h.sound j hj _ (cell_eq_full_iff.mpr ⟨hocc, rfl⟩)
    obtain rfl : key = key' := Key.ext (by rw [← hbytes, hkey'])
    exact cell_eq_full_iff.mpr ⟨hocc, hkey'⟩
  · intro hcell
    obtain ⟨hocc, hstored⟩ := cell_eq_full_iff.mp hcell
    exact ⟨hocc, by rw [hstored]⟩

/-- A key is met before `v` if it is in another slot with `v` not on its path. -/
theorem Exact.metBefore_iff {ops : List UpdateOp} (h : t.Exact hash width ops) {v : ℕ} {key : Key} :
    MetBefore hash t v key ↔ ∃ j < t.numSlots, j ≠ v ∧ t.cell j = .full (hash key, key.bytes) ∧
      ¬ OnPath t.numSlots t.home (hash key, key.bytes) j v := by
  have hhome := h.home_lt (hash key, key.bytes)
  change t.homeSlot (hash key) < t.numSlots at hhome
  simp only [MetBefore, h.probeIdx_eq]
  constructor
  · rintro ⟨d, hd, hkey, hpath⟩
    refine ⟨_, probe_lt hhome d, hpath d le_rfl, (h.key_iff (probe_lt hhome d)).mp hkey, ?_⟩
    intro hon
    obtain ⟨i, hi, heq⟩ := (onPath_probe_iff hhome hd).mp hon
    exact hpath i hi.le heq
  · rintro ⟨j, hj, hne, hcell, hoff⟩
    refine ⟨distance t.numSlots (t.homeSlot (hash key)) j, distance_lt hhome j, ?_, fun i hi heq => ?_⟩
    · rw [probe_distance hhome hj]
      exact (h.key_iff hj).mpr hcell
    · rcases Nat.eq_or_lt_of_le hi with rfl | hlt
      · rw [probe_distance hhome hj] at heq
        exact hne heq
      · exact hoff ⟨i, hlt, heq⟩

/-! ### Full tables -/

/-- An exact table with as many keys as slots: its arena is used up, and keys of its width are
compared without overflow. -/
structure Brimful (hash : Key → UInt64) (width : ℕ) (ops : List UpdateOp) (t : CounterTable) : Prop
    extends t.Exact hash width ops where
  card : (keysOf ops).card = t.numSlots
  arena : t.keyArenaUsed = t.keyArenaCapacity
  room : t.keyArenaCapacity + width ≤ max32

/-- The updates of a run as calls. -/
theorem run_eq_calls (hash : Key → UInt64) (t : CounterTable) (ops : List UpdateOp) :
    t.run hash ops = t.calls (ops.map fun op => ⟨hash op.key, op.key, op.pktBytes, op.tick⟩) := by
  rw [run, calls, List.foldl_map]
  rfl

/-- With as many keys as slots every slot is occupied. -/
theorem Exact.occupied_of_card {ops : List UpdateOp} (h : t.Exact hash width ops)
    (hcard : (keysOf ops).card = t.numSlots) : ∀ j < t.numSlots, (t.slots j).flags = .occupied := by
  choose! slot hslot using h.complete
  -- different keys are in different slots, so their slots are all there are
  have himage : (keysOf ops).image slot = Finset.range t.numSlots := by
    refine Finset.eq_of_subset_of_card_le (fun j hj => ?_) ?_
    · obtain ⟨key, hkey, rfl⟩ := Finset.mem_image.mp hj
      exact Finset.mem_range.mpr (hslot key hkey).1
    · rw [Finset.card_range, Finset.card_image_of_injOn, hcard]
      intro key hkey key' hkey' heq
      have hcell := (hslot key hkey).2
      rw [show slot key = slot key' from heq, (hslot key' hkey').2] at hcell
      exact Key.ext (Prod.mk.inj (Cell.full.inj hcell)).2.symm
  intro j hj
  obtain ⟨key, hkey, rfl⟩ := Finset.mem_image.mp (himage ▸ Finset.mem_range.mpr hj)
  exact (cell_eq_full_iff.mp (hslot key hkey).2).1

/-- In a brimful table every slot is occupied. -/
theorem Brimful.occupied {ops : List UpdateOp} (h : t.Brimful hash width ops) {j : ℕ}
    (hj : j < t.numSlots) : (t.slots j).flags = .occupied :=
  h.occupied_of_card h.card j hj

/-- A table to which as many keys have come as it has slots. -/
theorem brimful_of_run {maxKeys : ℕ} {alloc : Alloc} (hash : Key → UInt64)
    (hcreate : counterTableCreate maxKeys width alloc = some t) {ops : List UpdateOp}
    (hlen : ∀ op ∈ ops, op.key.len = width) (hcard : (keysOf ops).card = t.numSlots) :
    (t.run hash ops).Brimful hash width ops ∧ (t.run hash ops).numSlots = t.numSlots := by
  obtain ⟨hexact, hslots⟩ :=
    (exact_of_create hash hcreate).run (fun op hop => (hlen op hop).le) hcard.le
  have hne : ∃ op, op ∈ ops := by
    have hpos := (counterTableCreate_some hcreate).2.2.2.1.numSlots_pos
    rw [← hcard, Finset.card_pos] at hpos
    obtain ⟨key, hkey⟩ := hpos
    obtain ⟨op, hop, -⟩ := mem_keysOf.mp hkey
    exact ⟨op, hop⟩
  obtain ⟨op, hop⟩ := hne
  have hwidth : width < 2 ^ 16 := hlen op hop ▸ op.key.length_lt
  have hpacked : (t.run hash ops).Packed width := by
    rw [run_eq_calls]
    refine (packed_of_create hwidth hcreate).calls fun c hc => ?_
    obtain ⟨op, hop, rfl⟩ := List.mem_map.mp hc
    exact hlen op hop
  have hcard' := hcard.trans hslots.symm
  exact ⟨{ toExact := hexact, card := hcard', room := hpacked.room,
           arena := hpacked.used_of_full (hexact.occupied_of_card hcard') }, hslots⟩

/-! ### After the eviction -/

/-- What has become of a full table behind the eviction from slot `v`: the slot is free, the others have
their keys with what has been `counted`, the arena is used up, and `misses` updates have failed. -/
structure Closed (hash : Key → UInt64) (width : ℕ) (t full : CounterTable) (v : ℕ)
    (counted : List UpdateOp) (misses : ℕ) : Prop extends t.Settled where
  width_pos : 0 < width
  numSlots : t.numSlots = full.numSlots
  slotMask : t.slotMask = full.slotMask
  arena : t.keyArenaUsed = t.keyArenaCapacity
  room : t.keyArenaCapacity + width ≤ max32
  cells : t.cell = Function.update full.cell v .free
  tally : ∀ j < t.numSlots, j ≠ v → ∀ key : Key, full.cell j = .full (hash key, key.bytes) →
    exactMap counted key = some (t.tallyAt j)
  tableFull : t.tableFull = 1
  occupiedCount : t.occupiedCount = t.numSlots - 1
  insertFailed : t.insertFailed = UInt64.ofNat misses

/-- The first key that comes to a full table and finds a victim closes it. -/
theorem Brimful.close {ops : List UpdateOp} (h : t.Brimful hash width ops) {op : UpdateOp}
    (hlen : op.key.len = width) (hnew : op.key ∉ keysOf ops) {v : ℕ}
    (hvictim : t.lruVictim (t.homeSlot (hash op.key)) = some v) :
    (t.updateOp hash op).1 = false ∧ (t.updateOp hash op).2.Closed hash width t v ops 1 := by
  have hwidth := h.width_pos
  have harena := h.arena
  have hroom := h.room
  obtain ⟨hv, hocc⟩ := lruVictim_some h.toGeometry hvictim
  -- a new key in a table without a reusable slot: the scan goes all the way round
  have hmiss : lookup t.numSlots t.home t.cell (hash op.key, op.key.bytes) = .miss none := by
    rcases h.lookup_cases (hash op.key, op.key.bytes) with ⟨j, hj, hcell, -⟩ | ⟨r, hr, hflags, -⟩ |
      ⟨-, hlook⟩
    · exact absurd (h.mem_keysOf_of_cell hj hcell) hnew
    · exact absurd (h.occupied hr) (ne_occupied_of_reusable hflags)
    · exact hlook
  rw [updateOp, h.update_eq (by omega) (by omega), hmiss]
  simp only [hvictim]
  rw [storeAt, if_neg (by change ¬ t.keyArenaUsed + op.key.len ≤ t.keyArenaCapacity; omega)]
  have hcount := h.occupiedCount.trans h.card
  have hn := h.numSlots_le
  have hpos := h.numSlots_pos
  refine ⟨rfl,
    { toSettled := (h.toSettled.note.evict v).release v, width_pos := hwidth, numSlots := rfl,
      slotMask := rfl, arena := harena, room := hroom, cells := ?_, tally := ?_, tableFull := ?_,
      occupiedCount := ?_, insertFailed := ?_ }⟩
  · rw [releaseSlot_cell, evictSlot_cell, Function.update_idem, noteFull_cell]
  · intro j hj hjv key hcell
    have hslot : ((t.noteFull.evictSlot v).releaseSlot v).slots j = t.slots j :=
      (setFlags_slot_of_ne hjv).trans (setFlags_slot_of_ne hjv)
    rw [h.exactMap_of_cell hj hcell, tallyAt, tallyAt, hslot]
  · change t.tableFull + 1 = 1
    rw [h.tableFull]
    rfl
  · change sub32 t.occupiedCount 1 = t.numSlots - 1
    rw [hcount, sub32_of_le (by omega) (by rw [max32]; omega)]
  · change t.insertFailed + 1 = _
    rw [h.insertFailed]
    rfl

section Closed

variable {full : CounterTable} {v misses : ℕ} {ops counted : List UpdateOp}

/-- The other slots have what they had in the full table. -/
theorem Closed.cell_of_ne (h : t.Closed hash width full v counted misses) {j : ℕ} (hj : j ≠ v) :
    t.cell j = full.cell j := by
  rw [h.cells, Function.update_of_ne hj]

/-- The one slot that was given up is free. -/
theorem Closed.cell_self (h : t.Closed hash width full v counted misses) : t.cell v = .free := by
  rw [h.cells, Function.update_self]

/-- A key that is in a slot was in it in the full table. -/
theorem Closed.full_cell (h : t.Closed hash width full v counted misses) {j : ℕ}
    {k : UInt64 × List UInt8} (hcell : t.cell j = .full k) : j ≠ v ∧ full.cell j = .full k := by
  have hjv : j ≠ v := by
    rintro rfl
    rw [h.cell_self] at hcell
    cases hcell
  exact ⟨hjv, (h.cell_of_ne hjv).symm.trans hcell⟩

/-- The home slots are those of the full table. -/
theorem Closed.home_eq (h : t.Closed hash width full v counted misses) : t.home = full.home := by
  funext k
  rw [home, home, homeSlot, homeSlot, h.slotMask]

/-- The keys that are met before the free slot are those that the closed table finds. -/
theorem Closed.metBefore_iff (hfull : full.Brimful hash width ops)
    (h : t.Closed hash width full v counted misses) {key : Key} :
    MetBefore hash full v key ↔
      ∃ j, lookup t.numSlots t.home t.cell (hash key, key.bytes) = .hit j := by
  have hlt := h.home_lt (hash key, key.bytes)
  rw [hfull.metBefore_iff, ← h.numSlots, ← h.home_eq]
  constructor
  · rintro ⟨j, hj, hjv, hkey, hoff⟩
    cases hlook : lookup t.numSlots t.home t.cell (hash key, key.bytes) with
    | hit j' => exact ⟨j', rfl⟩
    | miss reuse =>
      -- what has ended the search is the free slot, since the others are occupied
      obtain ⟨c, hpath, hc⟩ := lookup_miss_path hlt hlook hj ((h.cell_of_ne hjv).trans hkey)
      by_cases hcv : c = v
      · exact absurd (hcv ▸ hpath) hoff
      · have hocc := hfull.occupied (h.numSlots ▸ onPath_lt hlt hpath)
        rw [h.cell_of_ne hcv, cell_eq_free_iff, hocc] at hc
        cases hc
  · rintro ⟨j, hlook⟩
    obtain ⟨hj, hkey⟩ := lookup_hit hlt hlook
    obtain ⟨hjv, hkey'⟩ := h.full_cell hkey
    exact ⟨j, hj, hjv, hkey', fun hpath => lookup_hit_path hlt hlook hpath h.cell_self⟩

/-- A search that fails has passed the free slot, and no other that could be used. -/
theorem Closed.reuse_eq (hfull : full.Brimful hash width ops) (hv : v < full.numSlots)
    (h : t.Closed hash width full v counted misses) {k : UInt64 × List UInt8} {reuse : Option ℕ}
    (hlook : lookup t.numSlots t.home t.cell k = .miss reuse) : reuse = some v := by
  have hlt := h.home_lt k
  cases reuse with
  | none => exact absurd h.cell_self (lookup_miss_none hlt hlook v (h.numSlots ▸ hv)).ne_free
  | some r =>
    obtain ⟨hr, hreuse, -⟩ := lookup_miss_some hlt hlook
    by_contra hne
    have hrv : r ≠ v := fun heq => hne (congrArg some heq)
    have hocc := hfull.occupied (h.numSlots ▸ hr)
    rw [h.cell_of_ne hrv, cell_eq_full_iff.mpr ⟨hocc, rfl⟩] at hreuse
    rcases hreuse with hreuse | hreuse <;> cases hreuse

/-- An update whose key is found is counted. -/
theorem Closed.bump (hfull : full.Brimful hash width ops)
    (h : t.Closed hash width full v counted misses) {op : UpdateOp} {j : ℕ}
    (hlook : lookup t.numSlots t.home t.cell (hash op.key, op.key.bytes) = .hit j) :
    (t.bumpSlot j op.pktBytes op.tick).Closed hash width full v (counted ++ [op]) misses := by
  obtain ⟨hj, hkey⟩ := lookup_hit (h.home_lt _) hlook
  obtain ⟨-, hkey'⟩ := h.full_cell hkey
  refine { toSettled := h.toSettled.bump j _ _, width_pos := h.width_pos, numSlots := h.numSlots,
           slotMask := h.slotMask, arena := h.arena, room := h.room,
           cells := (bumpSlot_cell ..).trans h.cells, tally := ?_, tableFull := h.tableFull,
           occupiedCount := h.occupiedCount, insertFailed := h.insertFailed }
  intro i hi hiv key hik
  by_cases hij : i = j
  · subst hij
    obtain rfl : op.key = key := Key.ext (Prod.mk.inj (Cell.full.inj (hkey'.symm.trans hik))).2
    rw [exactMap_concat_of_some (h.tally i hi hiv _ hik)]
    simp [tallyAt, bumpSlot_slots]
  · have hne : op.key ≠ key := by
      rintro rfl
      exact hij (hfull.distinct i (h.numSlots ▸ hi) j (h.numSlots ▸ hj) _ hik hkey')
    rw [exactMap_concat_of_ne hne, h.tally i hi hiv _ hik]
    simp [tallyAt, bumpSlot_slots, hij]

/-- An update whose key is not found fails on the free slot, which stays free. -/
theorem Closed.miss (h : t.Closed hash width full v counted misses) :
    (t.releaseSlot v).Closed hash width full v counted (misses + 1) := by
  refine { toSettled := h.toSettled.release v, width_pos := h.width_pos, numSlots := h.numSlots,
           slotMask := h.slotMask, arena := h.arena, room := h.room, cells := ?_, tally := ?_,
           tableFull := h.tableFull, occupiedCount := h.occupiedCount, insertFailed := ?_ }
  · rw [releaseSlot_cell, h.cells, Function.update_idem]
  · intro i hi hiv key hik
    rw [h.tally i hi hiv key hik, tallyAt, tallyAt,
      show (t.releaseSlot v).slots i = t.slots i from setFlags_slot_of_ne hiv]
  · change t.insertFailed + 1 = _
    rw [h.insertFailed, UInt64.ofNat_add]
    rfl

/-- An update of a closed table is counted if its key is met before the free slot, and else fails with
nothing but the count of failures changed. -/
theorem Closed.step (hfull : full.Brimful hash width ops) (hv : v < full.numSlots)
    (h : t.Closed hash width full v counted misses) {op : UpdateOp} (hlen : op.key.len = width) :
    (MetBefore hash full v op.key → (t.updateOp hash op).1 = true ∧
      (t.updateOp hash op).2.Closed hash width full v (counted ++ [op]) misses) ∧
    (¬ MetBefore hash full v op.key → (t.updateOp hash op).1 = false ∧
      (t.updateOp hash op).2.Closed hash width full v counted (misses + 1)) := by
  have hwidth := h.width_pos
  have harena := h.arena
  have hroom := h.room
  rw [updateOp, h.update_eq (by omega) (by omega), h.metBefore_iff hfull]
  cases hlook : lookup t.numSlots t.home t.cell (hash op.key, op.key.bytes) with
  | hit j => exact ⟨fun _ => ⟨rfl, h.bump hfull hlook⟩, fun hnot => absurd ⟨j, rfl⟩ hnot⟩
  | miss reuse =>
    obtain rfl := h.reuse_eq hfull hv hlook
    constructor
    · rintro ⟨j, hhit⟩
      cases hhit
    · intro _
      -- the arena is used up, so the slot that is free cannot be filled
      simp only [storeAt, if_neg (show ¬ t.keyArenaUsed + op.key.len ≤ t.keyArenaCapacity by omega)]
      exact ⟨trivial, h.miss⟩

/-- A run on a closed table. -/
theorem Closed.run (hfull : full.Brimful hash width ops) (hv : v < full.numSlots)
    (h : t.Closed hash width full v counted misses) {late : List UpdateOp}
    (hlen : ∀ op ∈ late, op.key.len = width) :
    (t.run hash late).Closed hash width full v
      (counted ++ late.filter fun op => MetBefore hash full v op.key)
      (misses + (late.filter fun op => ¬ MetBefore hash full v op.key).length) := by
  induction late using List.reverseRecOn with
  | nil => simpa using h
  | append_singleton late op ih =>
    obtain ⟨hmet, hmissed⟩ := Closed.step hfull hv
      (ih fun o ho => hlen o (List.mem_append_left _ ho)) (hlen op (by simp))
    rw [run_append, run_singleton]
    by_cases hop : MetBefore hash full v op.key
    · simpa [hop, List.filter_append] using (hmet hop).2
    · simpa [hop, List.filter_append, Nat.add_assoc] using (hmissed hop).2

/-- What the slots of a closed table are. -/
theorem Closed.represents (hfull : full.Brimful hash width ops) (hv : v < full.numSlots)
    (h : t.Closed hash width full v counted misses)
    (hkeys : ∀ key : Key, key ∉ keysOf ops → exactMap counted key = none) :
    t.Represents fun key =>
      if full.key (full.slots v) = some key.bytes then none else exactMap counted key where
  sound j hj hocc := by
    have hj' := h.numSlots ▸ hj
    obtain ⟨hjv, hcell⟩ := h.full_cell (cell_eq_full_iff.mpr ⟨hocc, rfl⟩)
    obtain ⟨key, hkey, -⟩ := hfull.sound j hj' _ hcell
    rw [hkey] at hcell
    refine ⟨key, (h.key_eq_some_iff hj).mpr ⟨hocc, by rw [hkey]⟩, ?_⟩
    rw [if_neg fun hkeyv => hjv
      (hfull.distinct j hj' v hv _ hcell ((hfull.key_iff hv).mp hkeyv))]
    exact h.tally j hj hjv key hcell
  complete key hkey := by
    split at hkey
    · exact absurd rfl hkey
    rename_i hkeyv
    obtain ⟨j, hj, hcell⟩ := hfull.complete key (by
      by_contra hnot
      exact hkey (hkeys key hnot))
    have hjv : j ≠ v := by
      rintro rfl
      exact hkeyv ((hfull.key_iff hv).mpr hcell)
    rw [← h.numSlots] at hj
    obtain ⟨hocc, hstored⟩ := cell_eq_full_iff.mp ((h.cell_of_ne hjv).trans hcell)
    exact ⟨j, hj, (h.key_eq_some_iff hj).mpr ⟨hocc, by rw [hstored]⟩⟩
  unique i hi j hj key hik hjk := by
    -- the occupied slots have the keys that they had in the full table
    have hcell : ∀ j < t.numSlots, t.key (t.slots j) = some key.bytes →
        full.cell j = .full (hash key, key.bytes) := by
      intro j hj hkey
      obtain ⟨hocc, hbytes⟩ := (h.key_eq_some_iff hj).mp hkey
      obtain ⟨-, hcell⟩ := h.full_cell (cell_eq_full_iff.mpr ⟨hocc, rfl⟩)
      obtain ⟨key', hkey', -⟩ := hfull.sound j (h.numSlots ▸ hj) _ hcell
      obtain rfl : key = key' := Key.ext (by rw [← hbytes, hkey'])
      rw [hcell, hkey']
    exact hfull.distinct i (h.numSlots ▸ hi) j (h.numSlots ▸ hj) _ (hcell i hi hik) (hcell j hj hjk)

end Closed

/-! ### The whole life -/

/-- The update whose key is one more than `n`. -/
theorem exists_surplus {ops : List UpdateOp} {n : ℕ} (h : n < (keysOf ops).card) :
    ∃ early op late, ops = early ++ op :: late ∧ (keysOf early).card = n ∧ op.key ∉ keysOf early := by
  induction ops using List.reverseRecOn with
  | nil => simp [keysOf] at h
  | append_singleton ops op ih =>
    by_cases hmore : n < (keysOf ops).card
    · obtain ⟨early, op', late, rfl, hcard, hnew⟩ := ih hmore
      exact ⟨early, op', late ++ [op], by simp, hcard, hnew⟩
    · -- the last update has brought a new key
      have hnew : op.key ∉ keysOf ops := by
        intro hmem
        rw [keysOf_concat, Finset.insert_eq_of_mem hmem] at h
        exact hmore h
      rw [keysOf_concat, Finset.card_insert_of_notMem hnew] at h
      exact ⟨ops, op, [], rfl, by omega, hnew⟩

/-- A full table whose slots were updated before the last tick of all has a victim. -/
theorem Brimful.exists_victim {ops : List UpdateOp} (h : t.Brimful hash width ops)
    (htick : ∀ op ∈ ops, op.tick ≠ 0xFFFFFFFFFFFFFFFF) (start : ℕ) :
    ∃ v, t.lruVictim start = some v := by
  by_contra hnone
  push Not at hnone
  have hstamps := (lruVictim_eq_none_iff h.toGeometry (h.occupied_of_card h.card) start).mp
    (Option.eq_none_iff_forall_not_mem.mpr hnone)
  have hpos := h.numSlots_pos
  have hwindow : 0 < t.evictWindow := by
    rw [evictWindow]
    split <;> omega
  have hslot : t.probeIdx start 0 < t.numSlots := by
    rw [h.probeIdx_eq]
    exact Nat.mod_lt _ hpos
  -- the stamp of a slot is the tick of the last update of its key
  obtain ⟨key, -, hmap⟩ := h.sound _ hslot _
    (cell_eq_full_iff.mpr ⟨h.occupied hslot, rfl⟩)
  obtain ⟨last, hlast, htally⟩ := Option.map_eq_some_iff.mp hmap
  have hstamp := hstamps 0 hwindow
  rw [show (t.slots (t.probeIdx start 0)).lastUpdate = last.tick from
    (congrArg Tally.lastUpdate htally).symm] at hstamp
  exact htick last (List.mem_of_mem_filter (List.mem_of_getLast? hlast)) hstamp

/-- The life of a table `t` to which the updates `early` have brought as many keys as it has slots before
`op` brings another one: slot `v` is emptied for it, and `late` is what comes then. -/
structure GivesUpOne (hash : Key → UInt64) (t : CounterTable) (early : List UpdateOp) (op : UpdateOp)
    (late : List UpdateOp) (v : ℕ) : Prop where
  taken : (t.run hash early).Represents (exactMap early)
  /-- Slot `v` is one of those that were updated least recently, of those that eviction looks at. -/
  oldest : ∃ i < (t.run hash early).evictWindow,
    v = (t.run hash early).probeIdx ((t.run hash early).homeSlot (hash op.key)) i ∧
    ∀ d < (t.run hash early).evictWindow, ((t.run hash early).slots v).lastUpdate ≤
      ((t.run hash early).slots
        ((t.run hash early).probeIdx ((t.run hash early).homeSlot (hash op.key)) d)).lastUpdate
  lost : ((t.run hash early).updateOp hash op).1 = false
  counted : ∀ pre o post, late = pre ++ o :: post →
    (((t.run hash (early ++ op :: pre)).updateOp hash o).1 = true ↔
      MetBefore hash (t.run hash early) v o.key)
  left : (t.run hash (early ++ op :: late)).Represents fun key =>
    if (t.run hash early).key ((t.run hash early).slots v) = some key.bytes then none
    else exactMap (early ++ late.filter fun o => MetBefore hash (t.run hash early) v o.key) key
  tableFull : (t.run hash (early ++ op :: late)).tableFull = 1
  occupiedCount : (t.run hash (early ++ op :: late)).occupiedCount = t.numSlots - 1
  insertFailed : (t.run hash (early ++ op :: late)).insertFailed =
    UInt64.ofNat (1 + (late.filter fun o => ¬ MetBefore hash (t.run hash early) v o.key).length)

/-- **A table gives up one key and takes no other.** On every table for keys of one length, a run with
more distinct keys than slots, at ticks before the last one of all, is this: the first keys are counted
exactly until there is one for every slot; the next one evicts the least recently updated key in its
window and is lost itself; from then on no key comes in and none is evicted, an update is counted exactly
if the search for its key meets it before the emptied slot, and every other one is a failed insert. -/
theorem table_gives_up_one {maxKeys : ℕ} {alloc : Alloc} {table : CounterTable}
    (hcreate : counterTableCreate maxKeys width alloc = some table) (hash : Key → UInt64)
    {ops : List UpdateOp} (hlen : ∀ op ∈ ops, op.key.len = width)
    (htick : ∀ op ∈ ops, op.tick ≠ 0xFFFFFFFFFFFFFFFF) (hmany : table.numSlots < (keysOf ops).card) :
    ∃ early op late v, ops = early ++ op :: late ∧ (keysOf early).card = table.numSlots ∧
      op.key ∉ keysOf early ∧ GivesUpOne hash table early op late v := by
  obtain ⟨early, op, late, rfl, hcard, hnew⟩ := exists_surplus hmany
  have hlen_early := fun o (ho : o ∈ early) => hlen o (by simp [ho])
  have hlen_op := hlen op (by simp)
  have hlen_late := fun o (ho : o ∈ late) => hlen o (by simp [ho])
  obtain ⟨hfull, hslots⟩ := brimful_of_run hash hcreate hlen_early hcard
  obtain ⟨v, hvictim⟩ := hfull.exists_victim (fun o ho => htick o (by simp [ho]))
    ((table.run hash early).homeSlot (hash op.key))
  have hv := (lruVictim_some hfull.toGeometry hvictim).1
  obtain ⟨hlost, hclosed⟩ := hfull.close hlen_op hnew hvictim
  have hrun : ∀ pre, table.run hash (early ++ op :: pre) =
      ((table.run hash early).updateOp hash op).2.run hash pre := fun pre => run_append ..
  have hafter := Closed.run hfull hv hclosed hlen_late
  obtain ⟨i, hi, hslot, hleast⟩ := lruVictim_least hvictim
  refine ⟨early, op, late, v, rfl, hcard, hnew, hfull.represents,
    ⟨i, hi, hslot, fun d hd => hleast d hd ?_⟩, hlost, ?_, ?_, ?_, ?_, ?_⟩
  · refine hfull.occupied ?_
    rw [hfull.probeIdx_eq]
    exact Nat.mod_lt _ hfull.numSlots_pos
  · rintro pre o post rfl
    obtain ⟨hmet, hmissed⟩ := Closed.step hfull hv
      (Closed.run hfull hv hclosed fun o' ho' => hlen_late o' (List.mem_append_left _ ho'))
      (hlen_late o (by simp))
    rw [hrun]
    by_cases ho : MetBefore hash (table.run hash early) v o.key
    · exact iff_of_true (hmet ho).1 ho
    · exact iff_of_false (by rw [(hmissed ho).1]; exact Bool.false_ne_true) ho
  · rw [hrun]
    refine hafter.represents hfull hv fun key hkey => ?_
    -- a key that is not in the full table is never met
    rw [exactMap_eq_none_iff, mem_keysOf]
    rintro ⟨o, ho, rfl⟩
    rcases List.mem_append.mp ho with ho | ho
    · exact hkey (mem_keysOf.mpr ⟨o, ho, rfl⟩)
    · obtain ⟨j, hj, -, hcell, -⟩ := hfull.metBefore_iff.mp (of_decide_eq_true (List.mem_filter.mp ho).2)
      exact hkey (hfull.mem_keysOf_of_cell hj hcell)
  · rw [hrun, hafter.tableFull]
  · rw [hrun, hafter.occupiedCount, hafter.numSlots, hslots]
  · rw [hrun, hafter.insertFailed]

/-- Three keys with one home slot on a table of two slots, the first and the second one once more. -/
def surplusKey : List UpdateOp :=
  [⟨.one 0, 64, 1⟩, ⟨.one 1, 64, 2⟩, ⟨.one 2, 64, 3⟩, ⟨.one 0, 64, 4⟩, ⟨.one 1, 64, 5⟩]

/-- The third key empties the first slot. -/
theorem table_gives_up_one_two : ∃ t, counterTableCreate 2 1 ⟨true, fun _ => 0⟩ = some t ∧
    ∃ early op late v, surplusKey = early ++ op :: late ∧ (keysOf early).card = t.numSlots ∧
      op.key ∉ keysOf early ∧ GivesUpOne (fun _ => 0) t early op late v :=
  ⟨_, rfl, table_gives_up_one (show counterTableCreate 2 1 ⟨true, fun _ => 0⟩ = some _ from rfl)
    (fun _ => 0) (show ∀ op ∈ surplusKey, op.key.len = 1 by decide) (by decide) (by decide)⟩

end CounterTable

end InFMon
