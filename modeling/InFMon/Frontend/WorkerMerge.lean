import InFMon.Foundations.IndexedMerge
import InFMon.Frontend.SnapshotDumps
import Mathlib.Data.List.Forall2

/-! # One entry for every key

What `merge_worker_entries` makes of the entries of all workers, and where the descriptor that is built
from it has their keys. An identity is a hash with its key, so that two keys with one hash stay apart. -/

namespace InFMon.Frontend

/-! ### Merged counts -/

/-- The identity of an entry with its counts and its time. -/
def CollectedEntry.summary (e : CollectedEntry) :
    (UInt64 × List UInt8) × UInt64 × UInt64 × UInt64 :=
  (e.identity, e.packets, e.bytes, e.lastUpdate)

/-- The entries of an identity. -/
def entriesOf (entries : List CollectedEntry) (k : UInt64 × List UInt8) : List CollectedEntry :=
  entries.filter fun e => e.identity = k

/-- What all entries of an identity come to. -/
def mergedSummary (entries : List CollectedEntry) (k : UInt64 × List UInt8) :
    (UInt64 × List UInt8) × UInt64 × UInt64 × UInt64 :=
  (k, saturatingSum ((entriesOf entries k).map CollectedEntry.packets),
    saturatingSum ((entriesOf entries k).map CollectedEntry.bytes),
    maximum ((entriesOf entries k).map CollectedEntry.lastUpdate))

/-- The values under a key are its entries. -/
theorem valuesOf_entries (entries : List CollectedEntry) (k : UInt64 × List UInt8) :
    KeyedMerge.valuesOf k (entries.map fun e => (e.identity, e)) = entriesOf entries k := by
  rw [KeyedMerge.valuesOf, List.filter_map, List.map_map]
  exact List.map_id _

/-- The larger of two time stamps, by a strict comparison. -/
theorem ite_gt_eq_max (a b : UInt64) : (if b > a then b else a) = max a b := by
  have hmax : max a b = if a ≤ b then b else a := rfl
  rw [hmax]
  by_cases hlt : a < b
  · rw [if_pos hlt, if_pos (UInt64.le_of_lt hlt)]
  · rw [if_neg hlt]
    split
    · rename_i hle
      exact UInt64.le_antisymm hle (UInt64.not_lt.mp hlt)
    · rfl

/-- Adding entries up: the counters are summed up and the newest time is kept. -/
theorem summary_foldl_add (rest : List CollectedEntry) (first : CollectedEntry) :
    (rest.foldl CollectedEntry.add first).summary =
      (first.identity, (rest.map CollectedEntry.packets).foldl satAdd64 first.packets,
        (rest.map CollectedEntry.bytes).foldl satAdd64 first.bytes,
        (rest.map CollectedEntry.lastUpdate).foldl max first.lastUpdate) := by
  induction rest generalizing first with
  | nil => rfl
  | cons e rest ih =>
    rw [List.foldl_cons, ih]
    simp only [List.map_cons, List.foldl_cons, CollectedEntry.add, ite_gt_eq_max]
    rfl

/-- The total of the entries of one key. -/
theorem total_add {group : List CollectedEntry} {m : CollectedEntry}
    (h : KeyedMerge.total CollectedEntry.add group = some m) {k : UInt64 × List UInt8}
    (hk : ∀ e ∈ group, e.identity = k) :
    m.summary = (k, saturatingSum (group.map CollectedEntry.packets),
      saturatingSum (group.map CollectedEntry.bytes),
      maximum (group.map CollectedEntry.lastUpdate)) := by
  cases group with
  | nil => cases h
  | cons first rest =>
    rw [← Option.some.inj h, summary_foldl_add, hk first List.mem_cons_self, foldl_satAdd64,
      foldl_satAdd64, foldl_max]
    rfl

/-- The merged entries: the identities in the order in which they come first, each with what all of
its entries come to. -/
theorem mergeWorkerEntries_summary (entries : List CollectedEntry) :
    (mergeWorkerEntries entries).map CollectedEntry.summary =
      (entries.map CollectedEntry.identity).eraseDups.map (mergedSummary entries) := by
  have hkeys : ((KeyedMerge.mergeAll CollectedEntry.add
      (entries.map fun e => (e.identity, e))).map Prod.fst) =
      (entries.map CollectedEntry.identity).eraseDups := by
    rw [KeyedMerge.keys_mergeAll, List.map_map]
    rfl
  rw [mergeWorkerEntries, List.map_map, ← hkeys, List.map_map]
  refine List.map_congr_left fun e he => ?_
  -- what the merge has for a key is what its entries come to
  have htotal : KeyedMerge.total CollectedEntry.add (entriesOf entries e.1) = some e.2 := by
    rw [← valuesOf_entries, ← KeyedMerge.find_mergeAll]
    exact KeyedMerge.find_of_mem (KeyedMerge.nodup_mergeAll _) he
  exact total_add htotal fun e' he' => of_decide_eq_true (List.mem_filter.mp he').2

/-! ### Laws of the merge -/

variable (entries : List CollectedEntry)

/-- The merged entries have each key once, in the order of its first entry. -/
theorem identity_mergeWorkerEntries : (mergeWorkerEntries entries).map CollectedEntry.identity =
    (entries.map CollectedEntry.identity).eraseDups := by
  have hsummary := congrArg (List.map Prod.fst) (mergeWorkerEntries_summary entries)
  rw [List.map_map, List.map_map] at hsummary
  exact hsummary.trans (List.map_id _)

/-- A merged entry sums up the entries of its key. -/
theorem summary_of_mem_merge {m : CollectedEntry} (hm : m ∈ mergeWorkerEntries entries) :
    m.summary = mergedSummary entries m.identity := by
  have hmem := List.mem_map_of_mem (f := CollectedEntry.summary) hm
  rw [mergeWorkerEntries_summary] at hmem
  obtain ⟨k, -, hk⟩ := List.mem_map.mp hmem
  have hident : k = m.identity := congrArg Prod.fst hk
  rw [← hk, hident]

/-- A sum that saturates does not depend on the order. -/
theorem saturatingSum_perm {a b : List UInt64} (h : a.Perm b) : saturatingSum a = saturatingSum b := by
  rw [saturatingSum, saturatingSum, (h.map UInt64.toNat).sum_eq]

/-- The larger of two counters is that of their numbers. -/
theorem toNat_max (a b : UInt64) : (max a b).toNat = max a.toNat b.toNat := by
  have hmax : max a b = if a ≤ b then b else a := rfl
  rw [hmax]
  split
  · rename_i hle
    exact (Nat.max_eq_right (UInt64.le_iff_toNat_le.mp hle)).symm
  · rename_i hle
    exact (Nat.max_eq_left (Nat.le_of_not_le fun h => hle (UInt64.le_iff_toNat_le.mpr h))).symm

/-- The maximum does not depend on the order. -/
theorem maximum_perm {a b : List UInt64} (h : a.Perm b) : maximum a = maximum b := by
  refine h.foldl_eq' (fun x _ y _ z => ?_) 0
  rw [← UInt64.toNat_inj, toNat_max, toNat_max, toNat_max, toNat_max]
  omega

/-- The largest time stamp bounds all of them and is one of them. -/
theorem foldl_max_spec (stamps : List UInt64) (a : UInt64) :
    (∀ b ∈ a :: stamps, b ≤ stamps.foldl max a) ∧ stamps.foldl max a ∈ a :: stamps := by
  induction stamps generalizing a with
  | nil =>
    exact ⟨fun b hb => List.mem_singleton.mp hb ▸ UInt64.le_refl _, List.mem_singleton_self a⟩
  | cons c stamps ih =>
    obtain ⟨hbound, hmem⟩ := ih (max a c)
    have hfirst := UInt64.le_iff_toNat_le.mp (hbound _ List.mem_cons_self)
    rw [toNat_max] at hfirst
    rw [List.foldl_cons]
    constructor
    · intro b hb
      rcases List.mem_cons.mp hb with rfl | hb
      · exact UInt64.le_iff_toNat_le.mpr (by omega)
      rcases List.mem_cons.mp hb with rfl | hb
      · exact UInt64.le_iff_toNat_le.mpr (by omega)
      · exact hbound b (List.mem_cons_of_mem _ hb)
    · rcases List.mem_cons.mp hmem with heq | hmem
      · rw [heq, ← ite_gt_eq_max]
        split
        · exact List.mem_cons_of_mem _ List.mem_cons_self
        · exact List.mem_cons_self
      · exact List.mem_cons_of_mem _ (List.mem_cons_of_mem _ hmem)

/-- What the entries of a key sum up to does not depend on the order. -/
theorem mergedSummary_perm {entries other : List CollectedEntry} (h : other.Perm entries)
    (k : UInt64 × List UInt8) : mergedSummary other k = mergedSummary entries k := by
  have hgroup : (entriesOf other k).Perm (entriesOf entries k) := h.filter _
  rw [mergedSummary, mergedSummary, saturatingSum_perm (hgroup.map CollectedEntry.packets),
    saturatingSum_perm (hgroup.map CollectedEntry.bytes),
    maximum_perm (hgroup.map CollectedEntry.lastUpdate)]

/-- The order of workers and slots is only the order of the result. -/
theorem mergeWorkerEntries_perm {entries other : List CollectedEntry} (h : other.Perm entries) :
    ((mergeWorkerEntries other).map CollectedEntry.summary).Perm
      ((mergeWorkerEntries entries).map CollectedEntry.summary) := by
  have hkeys : (other.map CollectedEntry.identity).eraseDups.Perm
      (entries.map CollectedEntry.identity).eraseDups := by
    rw [← identity_mergeWorkerEntries, ← identity_mergeWorkerEntries]
    refine (List.perm_ext_iff_of_nodup (mergeWorkerEntries_identity other).1
      (mergeWorkerEntries_identity entries).1).mpr fun k => ?_
    rw [(mergeWorkerEntries_identity other).2, (mergeWorkerEntries_identity entries).2]
    exact (h.map CollectedEntry.identity).mem_iff
  rw [mergeWorkerEntries_summary, mergeWorkerEntries_summary,
    List.map_congr_left fun k _ => mergedSummary_perm h k]
  exact hkeys.map _

/-- Entries that are merged are not merged any further. -/
theorem mergeWorkerEntries_idem :
    mergeWorkerEntries (mergeWorkerEntries entries) = mergeWorkerEntries entries := by
  have hnodup := (mergeWorkerEntries_identity entries).1
  generalize mergeWorkerEntries entries = merged at hnodup ⊢
  rw [mergeWorkerEntries, KeyedMerge.mergeAll_of_nodup, List.map_map]
  · exact List.map_id _
  · rwa [List.map_map]

/-- A sum that saturates is the sum, or the largest counter. -/
theorem toNat_saturatingSum (counts : List UInt64) :
    (saturatingSum counts).toNat = min (counts.map UInt64.toNat).sum (2 ^ 64 - 1) :=
  UInt64.toNat_ofNat_of_lt' (Nat.lt_of_le_of_lt (Nat.min_le_right _ _) (by decide))

/-- The counts of a merged entry are those of its group, which is not empty. -/
theorem counts_of_mem_merge {m : CollectedEntry} (hm : m ∈ mergeWorkerEntries entries) :
    m.packets = saturatingSum ((entriesOf entries m.identity).map CollectedEntry.packets) ∧
    m.bytes = saturatingSum ((entriesOf entries m.identity).map CollectedEntry.bytes) ∧
    (∀ stamp ∈ (entriesOf entries m.identity).map CollectedEntry.lastUpdate,
      stamp ≤ m.lastUpdate) ∧
    m.lastUpdate ∈ (entriesOf entries m.identity).map CollectedEntry.lastUpdate := by
  have hsummary := summary_of_mem_merge entries hm
  have hlast : m.lastUpdate =
      maximum ((entriesOf entries m.identity).map CollectedEntry.lastUpdate) :=
    congrArg (fun s => s.2.2.2) hsummary
  have hident := ((mergeWorkerEntries_identity entries).2 m.identity).mp (List.mem_map_of_mem hm)
  obtain ⟨e, he, heq⟩ := List.mem_map.mp hident
  have hgroup : e ∈ entriesOf entries m.identity := List.mem_filter.mpr ⟨he, decide_eq_true heq⟩
  refine ⟨congrArg (fun s => s.2.1) hsummary, congrArg (fun s => s.2.2.1) hsummary, ?_⟩
  rw [hlast]
  cases hcase : entriesOf entries m.identity with
  | nil => exact absurd (hcase ▸ hgroup) List.not_mem_nil
  | cons first rest =>
    rw [List.map_cons, ← foldl_max]
    exact foldl_max_spec _ _

/-- `merge_worker_entries` as it runs: `index_map` beside `merged`. -/
def mergeWorkerLoop : IndexedMerge.State (UInt64 × List UInt8) CollectedEntry :=
  IndexedMerge.mergeAll CollectedEntry.identity CollectedEntry.add entries

/-- The loop over the entries merges them. -/
theorem mergeWorkerLoop_merged : (mergeWorkerLoop entries).merged = mergeWorkerEntries entries :=
  (IndexedMerge.mergeAll_represents entries).merged

/-- Every index in the map is one of the array, so that `merged[idx]` is never out of bounds. -/
theorem mergeWorkerLoop_inBounds {k : UInt64 × List UInt8} {idx : ℕ}
    (h : (mergeWorkerLoop entries).indexOf k = some idx) :
    idx < (mergeWorkerLoop entries).merged.length :=
  (IndexedMerge.mergeAll_represents entries).lt_length h

/-! ### The keys in the arena -/

/-- The end of a slot's key in the arena. -/
def RawSlot.keyEnd (slot : RawSlot) : ℕ := slot.keyOffset.toNat + slot.keyLen.toNat

/-- The bytes of the arena in a slot's key range. -/
def RawSlot.keyRange (slot : RawSlot) (arena : List UInt8) : List UInt8 :=
  (arena.drop slot.keyOffset.toNat).take slot.keyLen.toNat

/-- The slot of a merged entry: its counts, and a range of the arena that is its key. -/
structure SlotFor (arena : List UInt8) (slot : RawSlot) (e : CollectedEntry) : Prop where
  keyHash : slot.keyHash = e.keyHash
  packets : slot.packets = e.packets
  bytes : slot.bytes = e.bytes
  lastUpdate : slot.lastUpdate = e.lastUpdate
  occupied : slot.flags = 1
  keyEnd : slot.keyEnd ≤ arena.length
  keyRange : slot.keyRange arena = e.keyBytes

/-- A slot keeps its key when the arena grows. -/
theorem SlotFor.append {arena : List UInt8} {slot : RawSlot} {e : CollectedEntry}
    (h : SlotFor arena slot e) (more : List UInt8) : SlotFor (arena ++ more) slot e := by
  have hend := h.keyEnd
  rw [RawSlot.keyEnd] at hend
  refine { h with keyEnd := ?_, keyRange := ?_ }
  · rw [RawSlot.keyEnd, List.length_append]
    omega
  · rw [← h.keyRange, RawSlot.keyRange, RawSlot.keyRange, List.drop_append_of_le_length (by omega),
      List.take_append_of_le_length]
    rw [List.length_drop]
    omega

/-- Every merged entry has its slot, and every key begins where those before it have ended. -/
theorem layoutSlots_slotFor {merged : List CollectedEntry}
    (hlen : ∀ e ∈ merged, e.keyBytes.length < 2 ^ 16)
    (harena : (layoutSlots merged).2.length < 2 ^ 32) :
    List.Forall₂ (SlotFor (layoutSlots merged).2) (layoutSlots merged).1 merged ∧
      (layoutSlots merged).1.Pairwise fun a b => a.keyEnd ≤ b.keyOffset.toNat := by
  induction merged using List.reverseRecOn with
  | nil => exact ⟨List.Forall₂.nil, List.Pairwise.nil⟩
  | append_singleton merged e ih =>
    rw [layoutSlots_concat, pushSlot] at harena ⊢
    rw [List.length_append] at harena
    have hlt := hlen e (by simp)
    obtain ⟨hslots, hpairs⟩ := ih (fun e he => hlen e (List.mem_append_left _ he)) (by omega)
    have hoff : (UInt32.ofNat (layoutSlots merged).2.length).toNat = (layoutSlots merged).2.length :=
      UInt32.toNat_ofNat_of_lt' (by rw [UInt32.size]; omega)
    have hkeyLen : (UInt16.ofNat e.keyBytes.length).toNat = e.keyBytes.length :=
      UInt16.toNat_ofNat_of_lt' (by rw [UInt16.size]; omega)
    -- all keys so far end within the arena, where the new one begins
    have hends := ((List.forall₂_and_left _ _).mp (hslots.imp fun _ _ h => ⟨h.keyEnd, h⟩)).1
    constructor
    · refine List.rel_append (hslots.imp fun _ _ h => h.append _) (.cons ?_ .nil)
      refine ⟨rfl, rfl, rfl, rfl, rfl, ?_, ?_⟩
      · rw [RawSlot.keyEnd, hoff, hkeyLen, List.length_append]
      · rw [RawSlot.keyRange, hoff, hkeyLen, List.drop_left, List.take_length]
    · refine List.pairwise_append.mpr
        ⟨hpairs, List.pairwise_singleton _ _, fun slot hslot new hnew => ?_⟩
      rw [List.mem_singleton.mp hnew, hoff]
      exact hends slot hslot

/-- A key that is merged is the key of an entry. -/
theorem keyBytes_of_mem_merge {m : CollectedEntry} (hm : m ∈ mergeWorkerEntries entries) :
    ∃ e ∈ entries, e.keyBytes = m.keyBytes := by
  have hmem := ((mergeWorkerEntries_identity entries).2 m.identity).mp (List.mem_map_of_mem hm)
  obtain ⟨e, he, heq⟩ := List.mem_map.mp hmem
  exact ⟨e, he, congrArg Prod.snd heq⟩

/-- The merge is a keyed sum. Its loop gives one entry for every distinct identity, in the order in
which the identities come first, with saturating sums of the packets and bytes and the latest update;
another order of the entries only permutes the result, merging again changes nothing, and the
descriptor's slots have disjoint ranges of the arena that are exactly their keys. -/
theorem mergeWorkerEntries_keyedSum (entries : List CollectedEntry) :
    (mergeWorkerLoop entries).merged = mergeWorkerEntries entries ∧
    (mergeWorkerEntries entries).map CollectedEntry.identity =
      (entries.map CollectedEntry.identity).eraseDups ∧
    (∀ m ∈ mergeWorkerEntries entries,
      m.packets.toNat =
        min ((entriesOf entries m.identity).map fun e => e.packets.toNat).sum (2 ^ 64 - 1) ∧
      m.bytes.toNat =
        min ((entriesOf entries m.identity).map fun e => e.bytes.toNat).sum (2 ^ 64 - 1) ∧
      (∀ e ∈ entriesOf entries m.identity, e.lastUpdate ≤ m.lastUpdate) ∧
      ∃ e ∈ entriesOf entries m.identity, e.lastUpdate = m.lastUpdate) ∧
    (∀ other : List CollectedEntry, other.Perm entries →
      ((mergeWorkerEntries other).map CollectedEntry.summary).Perm
        ((mergeWorkerEntries entries).map CollectedEntry.summary)) ∧
    mergeWorkerEntries (mergeWorkerEntries entries) = mergeWorkerEntries entries ∧
    ∀ frid desc, rawDescriptor frid entries = some desc → desc.keyArena.length < 2 ^ 32 →
      (∀ e ∈ entries, e.keyBytes.length < 2 ^ 16) →
      List.Forall₂ (SlotFor desc.keyArena) desc.slots (mergeWorkerEntries entries) ∧
        desc.slots.Pairwise fun a b => a.keyEnd ≤ b.keyOffset.toNat := by
  refine ⟨mergeWorkerLoop_merged entries, identity_mergeWorkerEntries entries, fun m hm => ?_,
    fun other => mergeWorkerEntries_perm, mergeWorkerEntries_idem entries,
    fun frid desc hdesc harena hlen => ?_⟩
  · obtain ⟨hpackets, hbytes, hlast⟩ := counts_of_mem_merge entries hm
    refine ⟨?_, ?_, ?_, ?_⟩
    · rw [hpackets, toNat_saturatingSum, List.map_map]
      rfl
    · rw [hbytes, toNat_saturatingSum, List.map_map]
      rfl
    · intro e he
      exact hlast.1 _ (List.mem_map_of_mem he)
    · exact List.mem_map.mp hlast.2
  · cases entries with
    | nil => cases hdesc
    | cons first rest =>
      obtain rfl := Option.some.inj hdesc
      -- a merged entry bears the key of an entry that was collected
      refine layoutSlots_slotFor (fun m hm => ?_) harena
      obtain ⟨e, he, heq⟩ := keyBytes_of_mem_merge _ hm
      exact heq ▸ hlen e he

end InFMon.Frontend
