import InFMon.CounterTable.Effects
import Mathlib.Data.Finset.Image

/-! # The counter table as an exact map

As long as no more distinct keys occur than the table has slots, the table is a map from the keys that
occurred to their packet count, byte count and last tick. Arbitrary hashes are allowed: all keys may
share one home slot.

* `Tally` and `exactMap` are the abstract map, a function of the list of updates alone.
* `Represents` connects the occupied slots of a table to such a map.
* `Exact` is the invariant of a run. -/

namespace InFMon

open MachineWord OpenAddressing

/-! ### The abstract map -/

/-- What is counted for a key. -/
@[ext] structure Tally where
  packets : UInt64
  bytes : UInt64
  lastUpdate : UInt64

/-- The distinct keys of a list of updates. -/
def keysOf (ops : List UpdateOp) : Finset Key := (ops.map UpdateOp.key).toFinset

/-- The map that a list of updates amounts to: the number of updates of the key and the sum of their
packet sizes, both modulo `2 ^ 64`, and the tick of the last one. -/
def exactMap (ops : List UpdateOp) (key : Key) : Option Tally :=
  let own := ops.filter fun op => op.key = key
  own.getLast?.map fun last =>
    { packets := UInt64.ofNat own.length
      bytes := UInt64.ofNat (own.map fun op => op.pktBytes.toNat).sum
      lastUpdate := last.tick }

/-- The keys of some updates. -/
theorem mem_keysOf {ops : List UpdateOp} {key : Key} :
    key ∈ keysOf ops ↔ ∃ op ∈ ops, op.key = key := by
  simp [keysOf]

/-- One key more. -/
theorem keysOf_concat (ops : List UpdateOp) (op : UpdateOp) :
    keysOf (ops ++ [op]) = insert op.key (keysOf ops) := by
  ext key
  simp [keysOf]

/-- The map is defined on the keys that occurred. -/
theorem exactMap_eq_none_iff {ops : List UpdateOp} {key : Key} :
    exactMap ops key = none ↔ key ∉ keysOf ops := by
  simp only [exactMap, Option.map_eq_none_iff, List.getLast?_eq_none_iff, List.filter_eq_nil_iff,
    mem_keysOf, decide_eq_true_eq, not_exists, not_and]

/-- An update concerns its own key only. -/
theorem exactMap_concat_of_ne {ops : List UpdateOp} {op : UpdateOp} {key : Key}
    (h : op.key ≠ key) : exactMap (ops ++ [op]) key = exactMap ops key := by
  simp [exactMap, h]

/-- The first update of a key. -/
theorem exactMap_concat_of_none {ops : List UpdateOp} {op : UpdateOp}
    (h : exactMap ops op.key = none) :
    exactMap (ops ++ [op]) op.key = some ⟨1, op.pktBytes, op.tick⟩ := by
  have hnil : ops.filter (fun o => o.key = op.key) = [] := by
    simpa [exactMap] using h
  simp [exactMap, hnil]

/-- A later update of a key. -/
theorem exactMap_concat_of_some {ops : List UpdateOp} {op : UpdateOp} {c : Tally}
    (h : exactMap ops op.key = some c) :
    exactMap (ops ++ [op]) op.key = some ⟨c.packets + 1, c.bytes + op.pktBytes, op.tick⟩ := by
  simp only [exactMap, Option.map_eq_some_iff] at h
  obtain ⟨last, -, rfl⟩ := h
  simp [exactMap, UInt64.ofNat_add]

namespace CounterTable

/-! ### Representation -/

/-- The counters of a slot. -/
def tallyAt (t : CounterTable) (j : ℕ) : Tally :=
  ⟨(t.slots j).packets, (t.slots j).bytes, (t.slots j).lastUpdate⟩

/-- The occupied slots of the table are the map `m`: each holds a key with the tally of that key, and
each key of the map has exactly one slot. -/
structure Represents (t : CounterTable) (m : Key → Option Tally) : Prop where
  sound : ∀ j < t.numSlots, (t.slots j).flags = .occupied →
    ∃ key : Key, t.key (t.slots j) = some key.bytes ∧ m key = some (t.tallyAt j)
  complete : ∀ key : Key, m key ≠ none → ∃ j < t.numSlots, t.key (t.slots j) = some key.bytes
  unique : ∀ i < t.numSlots, ∀ j < t.numSlots, ∀ key : Key,
    t.key (t.slots i) = some key.bytes → t.key (t.slots j) = some key.bytes → i = j

/-! ### The invariant -/

/-- The longest key that occurs: no longer than the table was created for, nor than a `uint16_t`
counts. -/
def keyBound (width : ℕ) : ℕ := min width (2 ^ 16 - 1)

/-- A key that is not wider than the width is within the bound. -/
theorem len_le_keyBound {key : Key} {width : ℕ} (h : key.len ≤ width) : key.len ≤ keyBound width := by
  have := key.length_lt
  rw [Key.len] at *
  rw [keyBound]
  omega

/-- What holds after the updates `ops` of a run with few distinct keys. -/
structure Exact (hash : Key → UInt64) (width : ℕ) (ops : List UpdateOp) (t : CounterTable) :
    Prop extends t.Settled where
  width_pos : 0 < width
  capacity_eq : t.keyArenaCapacity = t.numSlots * width
  intact : Intact t.numSlots t.home t.cell
  distinct : Distinct t.numSlots t.cell
  sound : ∀ j < t.numSlots, ∀ k, t.cell j = .full k →
    ∃ key : Key, k = (hash key, key.bytes) ∧ exactMap ops key = some (t.tallyAt j)
  complete : ∀ key ∈ keysOf ops, ∃ j < t.numSlots, t.cell j = .full (hash key, key.bytes)
  /-- The arena holds no more than the keys of the map. -/
  used : t.keyArenaUsed ≤ (keysOf ops).card * keyBound width
  occupiedCount : t.occupiedCount = (keysOf ops).card
  insertFailed : t.insertFailed = 0
  tableFull : t.tableFull = 0

/-- An empty table is exact for no updates. -/
theorem Empty.exact {width : ℕ} {t : CounterTable} (hash : Key → UInt64) (h : t.Empty)
    (hg : t.Geometry) (hwidth : 0 < width) (hcap : t.keyArenaCapacity = t.numSlots * width) :
    t.Exact hash width [] := by
  have hfree : ∀ j, t.cell j = .free := fun j => by
    rw [cell_eq_free_iff, h.slots j]
    rfl
  refine { toSettled := h.settled hg, width_pos := hwidth, capacity_eq := hcap,
           intact := ?_, distinct := ?_, sound := ?_, complete := ?_,
           used := by simp [h.used], occupiedCount := by simp [h.occupiedCount, keysOf],
           insertFailed := h.insertFailed, tableFull := h.tableFull }
  · intro j _ k hk
    simp [hfree j] at hk
  · intro i _ j _ k hk
    simp [hfree i] at hk
  · intro j _ k hk
    simp [hfree j] at hk
  · intro key hkey
    simp [keysOf] at hkey

/-- A new table is exact for no updates. -/
theorem exact_of_create {maxKeys width : ℕ} {alloc : Alloc} {t : CounterTable}
    (hash : Key → UInt64) (h : counterTableCreate maxKeys width alloc = some t) :
    t.Exact hash width [] := by
  obtain ⟨-, -, hwidth, hg, hfresh, -, hcap⟩ := counterTableCreate_some h
  exact hfresh.toEmpty.exact hash hg hwidth hcap

namespace Exact

variable {hash : Key → UInt64} {width : ℕ} {ops : List UpdateOp} {t : CounterTable}

/-- With `m` keys in the arena, one more fits for each slot left, and never wraps around. -/
theorem used_add_le (h : t.Exact hash width ops) {key : Key} (hlen : key.len ≤ width)
    (hcard : (keysOf ops).card ≤ t.numSlots) :
    t.keyArenaUsed + key.len ≤ max32 ∧ t.keyArenaUsed < max32 := by
  obtain ⟨k, -, hk⟩ := h.pow
  have hlt : keyBound width < 2 ^ 16 := by
    rw [keyBound]
    omega
  have hpos : 0 < keyBound width := by
    have := h.width_pos
    rw [keyBound]
    omega
  have hcap : t.numSlots * keyBound width ≤ max32 := by
    refine le_trans (Nat.mul_le_mul_left _ (Nat.min_le_left width _)) ?_
    exact h.capacity_eq ▸ h.capacity
  have hroom := capacity_add_width_le ⟨k, hk⟩ hcap hlt
  have hused := h.used.trans (Nat.mul_le_mul_right (keyBound width) hcard)
  have := len_le_keyBound hlen
  exact ⟨by omega, by omega⟩

/-- The arena has room for a further key as long as the table has a slot for it. -/
theorem fits (h : t.Exact hash width ops) {key : Key} (hlen : key.len ≤ width)
    (hcard : (keysOf ops).card < t.numSlots) : t.keyArenaUsed + key.len ≤ t.keyArenaCapacity := by
  have hused := h.used
  have hkey := len_le_keyBound hlen
  have hmul : ((keysOf ops).card + 1) * keyBound width ≤ t.numSlots * width :=
    Nat.mul_le_mul hcard (Nat.min_le_left width _)
  rw [Nat.succ_mul] at hmul
  rw [h.capacity_eq]
  omega

/-- The stored key of an update has its own tally in its slot. -/
theorem exactMap_of_cell (h : t.Exact hash width ops) {key : Key} {j : ℕ} (hj : j < t.numSlots)
    (hcell : t.cell j = .full (hash key, key.bytes)) : exactMap ops key = some (t.tallyAt j) := by
  obtain ⟨key', hkey, hmap⟩ := h.sound j hj _ hcell
  obtain rfl : key = key' := Key.ext (Prod.mk.inj hkey).2
  exact hmap

/-- A stored key has had an update. -/
theorem mem_keysOf_of_cell (h : t.Exact hash width ops) {key : Key} {j : ℕ} (hj : j < t.numSlots)
    (hcell : t.cell j = .full (hash key, key.bytes)) : key ∈ keysOf ops := by
  by_contra hnot
  have hmap := h.exactMap_of_cell hj hcell
  rw [exactMap_eq_none_iff.mpr hnot] at hmap
  cases hmap

/-- Counting a packet of a stored key. -/
theorem count (h : t.Exact hash width ops) {op : UpdateOp} {j : ℕ} (hj : j < t.numSlots)
    (hcell : t.cell j = .full (hash op.key, op.key.bytes)) :
    (t.bumpSlot j op.pktBytes op.tick).Exact hash width (ops ++ [op]) := by
  have hmap := h.exactMap_of_cell hj hcell
  have hmem := h.mem_keysOf_of_cell hj hcell
  have hkeys : keysOf (ops ++ [op]) = keysOf ops := by
    rw [keysOf_concat, Finset.insert_eq_of_mem hmem]
  refine { toSettled := h.bump j _ _, width_pos := h.width_pos, capacity_eq := h.capacity_eq,
           intact := by simpa using h.intact, distinct := by simpa using h.distinct,
           sound := ?_, complete := by simpa [hkeys] using h.complete,
           used := hkeys ▸ h.used, occupiedCount := hkeys ▸ h.occupiedCount,
           insertFailed := h.insertFailed, tableFull := h.tableFull }
  intro i hi k hk
  rw [bumpSlot_cell] at hk
  by_cases hij : i = j
  · -- the slot of the key, counted once more
    subst hij
    obtain rfl : (hash op.key, op.key.bytes) = k := by
      rw [hcell] at hk
      exact Cell.full.inj hk
    refine ⟨op.key, rfl, ?_⟩
    rw [exactMap_concat_of_some hmap]
    simp [tallyAt, bumpSlot_slots]
  · -- a slot of another key
    obtain ⟨key, rfl, hkey⟩ := h.sound i hi k hk
    refine ⟨key, rfl, ?_⟩
    have hne : op.key ≠ key := by
      rintro rfl
      exact hij (h.distinct i hi j hj _ hk hcell)
    rw [exactMap_concat_of_ne hne, hkey]
    simp [tallyAt, bumpSlot_slots, hij]

/-- Storing a key that did not occur before. -/
theorem store (h : t.Exact hash width ops) {op : UpdateOp} {r : ℕ} (hr : r < t.numSlots)
    (hlen : op.key.len ≤ width) (hcard : (keysOf (ops ++ [op])).card ≤ t.numSlots)
    (hnew : ∀ j < t.numSlots, t.cell j ≠ .full (hash op.key, op.key.bytes))
    (hreuse : t.cell r = .free ∨ t.cell r = .tomb)
    (hpath : ∀ c, OnPath t.numSlots t.home (hash op.key, op.key.bytes) r c → t.cell c ≠ .free) :
    t.keyArenaUsed + op.key.len ≤ t.keyArenaCapacity ∧
    (t.placeKey r (hash op.key) op.key op.pktBytes op.tick).Exact hash width (ops ++ [op]) := by
  have hnot : op.key ∉ keysOf ops := by
    intro hmem
    obtain ⟨j, hj, hcell⟩ := h.complete _ hmem
    exact hnew j hj hcell
  -- a new key, so the arena still has the width of one key for it
  have hcard' : (keysOf (ops ++ [op])).card = (keysOf ops).card + 1 := by
    rw [keysOf_concat, Finset.card_insert_of_notMem hnot]
  have hfits := h.fits hlen (by omega)
  have hcell := fun j hj => h.placeKey_cell r (j := j) hj (hash op.key) op.pktBytes op.tick
    op.key
  refine ⟨hfits, ?_⟩
  refine { toSettled := h.place hfits _ _ _, width_pos := h.width_pos, capacity_eq := h.capacity_eq,
           intact := (h.intact.store hpath).congr h.home_lt hcell, distinct := ?_, sound := ?_,
           complete := ?_, used := ?_, occupiedCount := ?_, insertFailed := h.insertFailed,
           tableFull := h.tableFull }
  · exact (h.distinct.store hnew).mono fun j hj k hk => hcell j hj ▸ hk
  · intro j hj k hk
    rw [hcell j hj] at hk
    by_cases hjr : j = r
    · -- the new key, counted once
      subst hjr
      rw [Function.update_self, Cell.full.injEq] at hk
      refine ⟨op.key, hk.symm, ?_⟩
      rw [exactMap_concat_of_none (exactMap_eq_none_iff.mpr hnot)]
      simp [tallyAt]
    · rw [Function.update_of_ne hjr] at hk
      obtain ⟨key, rfl, hkey⟩ := h.sound j hj k hk
      refine ⟨key, rfl, ?_⟩
      have hne : op.key ≠ key := by
        rintro rfl
        exact hnew j hj hk
      rw [exactMap_concat_of_ne hne, hkey]
      simp [tallyAt, placeKey_slot_of_ne hjr]
  · intro key hkey
    rw [keysOf_concat, Finset.mem_insert] at hkey
    rcases hkey with rfl | hkey
    · exact ⟨r, hr, by rw [hcell r hr, Function.update_self]⟩
    · obtain ⟨j, hj, hk⟩ := h.complete key hkey
      refine ⟨j, hj, ?_⟩
      have hjr : j ≠ r := by
        rintro rfl
        rcases hreuse with hr | hr <;> simp [hk] at hr
      rw [hcell j hj, Function.update_of_ne hjr, hk]
  · show t.keyArenaUsed + op.key.len ≤ _
    have hused := h.used
    have hkey := len_le_keyBound hlen
    rw [hcard', Nat.succ_mul]
    omega
  · show u32 (t.occupiedCount + 1) = _
    obtain ⟨k, hk, hpow⟩ := h.pow
    have hle : 2 ^ k ≤ 2 ^ 31 := Nat.pow_le_pow_right (by omega) hk
    rw [hcard', h.occupiedCount, u32_of_le (by simp only [max32]; omega)]

/-- One update of a run that stays within the table's slots. -/
theorem step (h : t.Exact hash width ops) {op : UpdateOp} (hlen : op.key.len ≤ width)
    (hcard : (keysOf (ops ++ [op])).card ≤ t.numSlots) :
    (t.updateOp hash op).1 = true ∧ (t.updateOp hash op).2.Exact hash width (ops ++ [op]) ∧
      (t.updateOp hash op).2.numSlots = t.numSlots := by
  have hstart := h.home_lt (hash op.key, op.key.bytes)
  have hcard' : (keysOf ops).card ≤ t.numSlots := by
    rw [keysOf_concat] at hcard
    exact (Finset.card_le_card (Finset.subset_insert _ _)).trans hcard
  obtain ⟨hroom, hused⟩ := h.used_add_le hlen hcard'
  rw [updateOp, h.update_eq hused hroom]
  cases hlook : lookup t.numSlots t.home t.cell (hash op.key, op.key.bytes) with
  | hit j =>
    obtain ⟨hj, hcell⟩ := lookup_hit hstart hlook
    exact ⟨rfl, h.count hj hcell, rfl⟩
  | miss reuse =>
    have hnew := lookup_miss hstart h.intact hlook
    cases reuse with
    | some r =>
      obtain ⟨hr, hreuse, htaken⟩ := lookup_miss_some hstart hlook
      obtain ⟨hfits, hexact⟩ := h.store hr hlen hcard hnew hreuse
        fun c hc => (htaken c hc).ne_free
      simp only [storeAt, if_pos hfits]
      exact ⟨trivial, hexact, rfl⟩
    | none =>
      -- a table taken by other keys would hold as many keys as it has slots, and this one besides
      exfalso
      let keys := (keysOf (ops ++ [op])).image fun key => (hash key, key.bytes)
      have hkeys : ∀ j < t.numSlots, ∀ k, t.cell j = .full k → k ∈ keys := by
        intro j hj k hk
        obtain ⟨key, rfl, hkey⟩ := h.sound j hj k hk
        refine Finset.mem_image_of_mem _ ?_
        rw [keysOf_concat]
        refine Finset.mem_insert_of_mem ?_
        by_contra hnot
        rw [exactMap_eq_none_iff.mpr hnot] at hkey
        cases hkey
      have hkey : (hash op.key, op.key.bytes) ∈ keys :=
        Finset.mem_image_of_mem _ (by simp [keysOf])
      obtain ⟨j, hj, hfree⟩ :=
        h.distinct.exists_not_full hkeys hkey hnew (Finset.card_image_le.trans hcard)
      have hocc := h.occupied_of_taken hj (lookup_miss_none hstart hlook j hj)
      exact hfree _ (cell_eq_full_iff.mpr ⟨hocc, rfl⟩)

/-- A run of updates that stays within the table's slots. -/
theorem run (h : t.Exact hash width []) {ops : List UpdateOp}
    (hlen : ∀ op ∈ ops, op.key.len ≤ width) (hcard : (keysOf ops).card ≤ t.numSlots) :
    (t.run hash ops).Exact hash width ops ∧ (t.run hash ops).numSlots = t.numSlots := by
  induction ops using List.reverseRecOn with
  | nil => exact ⟨h, rfl⟩
  | append_singleton ops op ih =>
    have hsub : keysOf ops ⊆ keysOf (ops ++ [op]) := by
      rw [keysOf_concat]
      exact Finset.subset_insert _ _
    obtain ⟨hexact, hslots⟩ := ih (fun op' hop' => hlen op' (List.mem_append_left _ hop'))
      ((Finset.card_le_card hsub).trans hcard)
    have hstep := hexact.step (hlen op (by simp)) (hslots ▸ hcard)
    rw [run_append, run_singleton]
    exact ⟨hstep.2.1, hstep.2.2.trans hslots⟩

/-- More updates that stay within the table's slots. -/
theorem more (h : t.Exact hash width ops) {later : List UpdateOp}
    (hlen : ∀ op ∈ later, op.key.len ≤ width) (hcard : (keysOf (ops ++ later)).card ≤ t.numSlots) :
    (t.run hash later).Exact hash width (ops ++ later) ∧ (t.run hash later).numSlots = t.numSlots := by
  induction later using List.reverseRecOn with
  | nil => exact ⟨(List.append_nil ops).symm ▸ h, rfl⟩
  | append_singleton later op ih =>
    rw [← List.append_assoc] at hcard ⊢
    have hsub : keysOf (ops ++ later) ⊆ keysOf (ops ++ later ++ [op]) := by
      rw [keysOf_concat _ op]
      exact Finset.subset_insert _ _
    obtain ⟨hexact, hslots⟩ := ih (fun op' hop' => hlen op' (List.mem_append_left _ hop'))
      ((Finset.card_le_card hsub).trans hcard)
    have hstep := hexact.step (hlen op (by simp)) (hslots ▸ hcard)
    rw [run_append, run_singleton]
    exact ⟨hstep.2.1, hstep.2.2.trans hslots⟩

/-- The slots of a table in a run are the map of the run. -/
theorem represents (h : t.Exact hash width ops) : t.Represents (exactMap ops) where
  sound j hj hocc := by
    obtain ⟨key, hkey, hmap⟩ := h.sound j hj _ (cell_eq_full_iff.mpr ⟨hocc, rfl⟩)
    exact ⟨key, (h.key_eq_some_iff hj).mpr ⟨hocc, by rw [hkey]⟩, hmap⟩
  complete key hkey := by
    obtain ⟨j, hj, hcell⟩ := h.complete key (by
      by_contra hnot
      exact hkey (exactMap_eq_none_iff.mpr hnot))
    obtain ⟨hocc, hstored⟩ := cell_eq_full_iff.mp hcell
    exact ⟨j, hj, (h.key_eq_some_iff hj).mpr ⟨hocc, by rw [hstored]⟩⟩
  unique i hi j hj key hik hjk := by
    -- a slot that holds the bytes of a key is the cell of that key
    have hcell : ∀ j < t.numSlots, t.key (t.slots j) = some key.bytes →
        t.cell j = .full (hash key, key.bytes) := by
      intro j hj hkey
      obtain ⟨hocc, hbytes⟩ := (h.key_eq_some_iff hj).mp hkey
      obtain ⟨key', hkey', -⟩ := h.sound j hj _ (cell_eq_full_iff.mpr ⟨hocc, rfl⟩)
      obtain rfl : key = key' := Key.ext (by rw [← hbytes, hkey'])
      exact cell_eq_full_iff.mpr ⟨hocc, hkey'⟩
    exact h.distinct i hi j hj _ (hcell i hi hik) (hcell j hj hjk)

end Exact

/-- Below capacity the counter table is an exact map: every update succeeds, no insert fails, the
table is never full, and the occupied slots are the map of the updates. -/
theorem exact_map {maxKeys width : ℕ} {alloc : Alloc} {t : CounterTable}
    (hcreate : counterTableCreate maxKeys width alloc = some t) (hash : Key → UInt64)
    {ops : List UpdateOp} (hlen : ∀ op ∈ ops, op.key.len ≤ width)
    (hkeys : (keysOf ops).card ≤ t.numSlots) :
    (∀ pre op, pre ++ [op] <+: ops → ((t.run hash pre).updateOp hash op).1 = true) ∧
    (∀ pre, pre <+: ops → (t.run hash pre).insertFailed = 0 ∧ (t.run hash pre).tableFull = 0) ∧
    (t.run hash ops).Represents (exactMap ops) ∧
    (t.run hash ops).occupiedCount = (keysOf ops).card := by
  -- every prefix of the run stays within the slots as well
  have hall : ∀ pre, pre <+: ops →
      (∀ op ∈ pre, op.key.len ≤ width) ∧ (keysOf pre).card ≤ t.numSlots := by
    intro pre hpre
    refine ⟨fun op hop => hlen op (hpre.subset hop), le_trans (Finset.card_le_card ?_) hkeys⟩
    intro key hkey
    obtain ⟨op, hop, rfl⟩ := mem_keysOf.mp hkey
    exact mem_keysOf.mpr ⟨op, hpre.subset hop, rfl⟩
  have hexact : ∀ pre, pre <+: ops →
      (t.run hash pre).Exact hash width pre ∧ (t.run hash pre).numSlots = t.numSlots :=
    fun pre hpre => (exact_of_create hash hcreate).run (hall pre hpre).1 (hall pre hpre).2
  refine ⟨fun pre op hpre => ?_, fun pre hpre => ?_, ?_, ?_⟩
  · obtain ⟨hlen', hcard'⟩ := hall _ hpre
    obtain ⟨hpre', hslots⟩ := hexact pre ((List.prefix_append pre [op]).trans hpre)
    exact (hpre'.step (hlen' op (by simp)) (hslots ▸ hcard')).1
  · exact ⟨(hexact pre hpre).1.insertFailed, (hexact pre hpre).1.tableFull⟩
  · exact (hexact ops List.prefix_rfl).1.represents
  · exact (hexact ops List.prefix_rfl).1.occupiedCount

/-- A completely full table of two slots whose keys share a home slot, one of them updated twice. -/
theorem exact_map_full : ∃ t, counterTableCreate 2 1 ⟨true, fun _ => 0⟩ = some t ∧
    (t.run (fun _ => 0) [⟨⟨[0], by decide⟩, 64, 1⟩, ⟨⟨[1], by decide⟩, 64, 2⟩,
      ⟨⟨[0], by decide⟩, 36, 3⟩]).Represents
      (exactMap [⟨⟨[0], by decide⟩, 64, 1⟩, ⟨⟨[1], by decide⟩, 64, 2⟩,
        ⟨⟨[0], by decide⟩, 36, 3⟩]) :=
  ⟨_, rfl, (exact_map (show counterTableCreate 2 1 ⟨true, fun _ => 0⟩ = some _ from rfl) (fun _ => 0)
    (by decide) (by decide)).2.2.1⟩

end CounterTable

end InFMon
