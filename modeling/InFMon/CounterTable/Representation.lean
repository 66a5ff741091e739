import InFMon.CounterTable.Accounting
import InFMon.CounterTable.Reachability
import Mathlib.Algebra.BigOperators.Group.Finset.Piecewise

/-! # The representation of a table

Along a run of updates with keys of one length, the slots, the arena and the counters of a table fit
together: no key is held twice, every occupied slot refers to a part of the arena of its own with the
key that was stored there, and the count of occupied slots is right. -/

namespace InFMon

open MachineWord OpenAddressing

namespace CounterTable

/-! ### The invariant -/

/-- What holds of slots, arena and counters between two updates. -/
structure WellFormed (t : CounterTable) : Prop where
  flags : ∀ j < t.numSlots, (t.slots j).flags = .free ∨ (t.slots j).flags = .occupied ∨
    (t.slots j).flags = .tombstone
  distinct : ∀ i < t.numSlots, ∀ j < t.numSlots, (t.slots i).flags = .occupied →
    (t.slots j).flags = .occupied → t.storedKey i = t.storedKey j → i = j
  inArena : ∀ j < t.numSlots, (t.slots j).flags = .occupied →
    (t.slots j).keyOffset + (t.slots j).keyLen ≤ t.keyArenaCapacity
  disjoint : ∀ i < t.numSlots, ∀ j < t.numSlots, i ≠ j → (t.slots i).flags = .occupied →
    (t.slots j).flags = .occupied →
    (t.slots i).keyOffset + (t.slots i).keyLen ≤ (t.slots j).keyOffset ∨
      (t.slots j).keyOffset + (t.slots j).keyLen ≤ (t.slots i).keyOffset
  used_le : t.keyArenaUsed ≤ t.keyArenaCapacity
  count : t.occupiedCount =
    ((Finset.range t.numSlots).filter fun j => (t.slots j).flags = .occupied).card

/-- The part of the invariant that the update of single slots is about: occupied slots have arena
ranges of their own, and they are counted. -/
structure Layout (t : CounterTable) : Prop where
  disjoint : ∀ i < t.numSlots, ∀ j < t.numSlots, i ≠ j → (t.slots i).flags = .occupied →
    (t.slots j).flags = .occupied →
    (t.slots i).keyOffset + (t.slots i).keyLen ≤ (t.slots j).keyOffset ∨
      (t.slots j).keyOffset + (t.slots j).keyLen ≤ (t.slots i).keyOffset
  count : t.occupiedCount = held (fun _ => 1) t

variable {t : CounterTable}

/-- Counting one for every occupied slot counts the occupied slots. -/
theorem held_one (t : CounterTable) : held (fun _ => 1) t =
    ((Finset.range t.numSlots).filter fun j => (t.slots j).flags = .occupied).card := by
  rw [Finset.card_filter]
  rfl

/-- No more slots are occupied than there are. -/
theorem held_one_le (t : CounterTable) : held (fun _ => 1) t ≤ t.numSlots := by
  rw [held_one]
  exact (Finset.card_filter_le _ _).trans_eq (Finset.card_range _)

namespace Layout

/-- An empty table has no occupied slot. -/
theorem of_empty (h : t.Empty) : t.Layout where
  disjoint i _ j _ _ hi := by
    rw [h.slots i] at hi
    cases hi
  count := by
    rw [h.occupiedCount]
    refine (Finset.sum_eq_zero fun j _ => share_of_not ?_).symm
    rw [h.slots j]
    exact fun h => by cases h

/-- A table with the ranges of another one for the slots that it occupies. -/
theorem mono {t' : CounterTable} (h : t.Layout) (hn : t'.numSlots = t.numSlots)
    (hsub : ∀ j < t.numSlots, (t'.slots j).flags = .occupied → (t.slots j).flags = .occupied ∧
      (t'.slots j).keyOffset = (t.slots j).keyOffset ∧ (t'.slots j).keyLen = (t.slots j).keyLen)
    (hcount : t'.occupiedCount = held (fun _ => 1) t') : t'.Layout where
  disjoint i hi j hj hij hocci hoccj := by
    rw [hn] at hi hj
    obtain ⟨hi', hioff, hilen⟩ := hsub i hi hocci
    obtain ⟨hj', hjoff, hjlen⟩ := hsub j hj hoccj
    rw [hioff, hilen, hjoff, hjlen]
    exact h.disjoint i hi j hj hij hi' hj'
  count := hcount

/-- Counting a packet keeps the layout. -/
theorem bump (h : t.Layout) {j : ℕ} (hj : j < t.numSlots) (hocc : (t.slots j).flags = .occupied)
    (pktBytes tick : UInt64) : (t.bumpSlot j pktBytes tick).Layout := by
  refine h.mono rfl (fun i _ hi => ⟨by simpa using hi, by simp, by simp⟩) ?_
  have hsum := held_bumpSlot (w := fun _ => 1) hj hocc pktBytes tick
  have hcount := h.count
  change t.occupiedCount = _
  omega

/-- Raising a counter changes no slot. -/
theorem counters (h : t.Layout) : t.noteFull.Layout ∧ t.failInsert.Layout :=
  ⟨⟨h.disjoint, h.count⟩, ⟨h.disjoint, h.count⟩⟩

/-- Giving up a slot keeps the layout. -/
theorem release (h : t.Layout) {r : ℕ} (hr : r < t.numSlots)
    (hfree : (t.slots r).flags ≠ .occupied) : (t.releaseSlot r).Layout := by
  refine h.mono rfl (fun j _ hocc => ?_) (h.count.trans (held_releaseSlot hr hfree).symm)
  by_cases hjr : j = r
  · subst hjr
    simp [releaseSlot, failInsert] at hocc
  · have hslot : (t.releaseSlot r).slots j = t.slots j := setFlags_slot_of_ne hjr
    rw [hslot] at hocc ⊢
    exact ⟨hocc, rfl, rfl⟩

/-- Evicting a key keeps the layout. -/
theorem evict (h : t.Layout) (hs : t.Settled) {v : ℕ} (hv : v < t.numSlots)
    (hocc : (t.slots v).flags = .occupied) : (t.evictSlot v).Layout := by
  refine h.mono rfl (fun j _ hj => ?_) ?_
  · by_cases hjv : j = v
    · subst hjv
      simp [evictSlot] at hj
    · have hslot : (t.evictSlot v).slots j = t.slots j := setFlags_slot_of_ne hjv
      rw [hslot] at hj ⊢
      exact ⟨hj, rfl, rfl⟩
  · have hsum := held_evictSlot (w := fun _ => 1) hv hocc
    have hle := held_one_le t
    have hcount := h.count
    have hn := hs.numSlots_le
    change sub32 t.occupiedCount 1 = _
    rw [sub32_of_le (by omega) (by rw [max32]; omega)]
    omega

/-- A new key lies behind all keys stored before. -/
theorem place (h : t.Layout) (hs : t.Settled) {r : ℕ} (hr : r < t.numSlots)
    (hfree : (t.slots r).flags ≠ .occupied) (keyHash pktBytes tick : UInt64) (key : Key) :
    (t.placeKey r keyHash key pktBytes tick).Layout where
  disjoint i hi j hj hij hocci hoccj := by
    change i < t.numSlots at hi
    change j < t.numSlots at hj
    by_cases hir : i = r
    · subst hir
      have hji : j ≠ i := Ne.symm hij
      rw [placeKey_slot_of_ne hji] at hoccj ⊢
      rw [placeKey_slot_self]
      exact Or.inr (hs.stored j hj hoccj)
    · rw [placeKey_slot_of_ne hir] at hocci ⊢
      by_cases hjr : j = r
      · subst hjr
        rw [placeKey_slot_self]
        exact Or.inl (hs.stored i hi hocci)
      · rw [placeKey_slot_of_ne hjr] at hoccj ⊢
        exact h.disjoint i hi j hj hij hocci hoccj
  count := by
    have hsum := held_placeKey (w := fun _ => 1) hr hfree keyHash key pktBytes tick
    have hle := held_one_le t
    have hcount := h.count
    have hn := hs.numSlots_le
    change u32 (t.occupiedCount + 1) = _
    rw [u32_of_le (by rw [max32]; omega)]
    omega

end Layout

/-- Every outcome of a call keeps the layout. -/
theorem Outcome.layout {key : Key} {keyHash pktBytes tick : UInt64} {out : Bool × CounterTable}
    {victim : Option ℕ} (hout : Outcome t keyHash key pktBytes tick out victim) (hs : t.Settled)
    (h : t.Layout) : out.2.Layout := by
  cases hout with
  | counted hj hcell => exact h.bump hj (cell_eq_full_iff.mp hcell).1 _ _
  | stored hr hfree hroom => exact h.place hs hr hfree _ _ _ _
  | released hr hfree => exact h.release hr hfree
  | refused => exact h.counters.1.counters.2
  | replaced hv hocc hroom =>
    exact (h.counters.1.evict hs.note hv hocc).place (hs.note.evict _) hv (by simp [evictSlot]) _ _ _ _
  | lost hv hocc => exact (h.counters.1.evict hs.note hv hocc).release hv (by simp [evictSlot])

/-! ### The calls that store -/

/-- The call stores its key in slot `j`: it takes bytes of the arena, and behind it the slot is occupied
and refers to these bytes. -/
structure StoresIn (hash : Key → UInt64) (t : CounterTable) (op : UpdateOp) (j : ℕ) : Prop where
  taken : t.keyArenaUsed < (t.updateOp hash op).2.keyArenaUsed
  occupied : ((t.updateOp hash op).2.slots j).flags = .occupied
  offset : ((t.updateOp hash op).2.slots j).keyOffset = t.keyArenaUsed

/-- The call `op` of a run is the last one that stored its key in slot `j`. -/
def StoredBy (hash : Key → UInt64) (t : CounterTable) (ops : List UpdateOp) (j : ℕ)
    (op : UpdateOp) : Prop :=
  ∃ pre post, ops = pre ++ op :: post ∧ StoresIn hash (t.run hash pre) op j ∧
    ∀ mid op' rest, post = mid ++ op' :: rest →
      ¬ StoresIn hash (t.run hash (pre ++ op :: mid)) op' j

section Outcome

variable {key : Key} {keyHash pktBytes tick : UInt64} {out : Bool × CounterTable} {victim : Option ℕ}

/-- Behind storing a key an occupied slot has the new key, or it was occupied before with the key that it
has and lies in front of the new one. -/
theorem Settled.placeKey_occupied_cases (hs : t.Settled)
    (hkeys : ∀ j < t.numSlots, (t.slots j).flags = .occupied → 0 < (t.slots j).keyLen)
    {r j : ℕ} (hj : j < t.numSlots)
    (hocc : ((t.placeKey r keyHash key pktBytes tick).slots j).flags = .occupied) :
    (((t.placeKey r keyHash key pktBytes tick).slots j).keyOffset = t.keyArenaUsed ∧
      (t.placeKey r keyHash key pktBytes tick).storedKey j = (keyHash, key.bytes)) ∨
    (((t.placeKey r keyHash key pktBytes tick).slots j).keyOffset ≠ t.keyArenaUsed ∧
      (t.slots j).flags = .occupied ∧
      (t.placeKey r keyHash key pktBytes tick).storedKey j = t.storedKey j) := by
  by_cases hjr : j = r
  · subst hjr
    exact Or.inl ⟨by rw [placeKey_slot_self], placeKey_storedKey_self ..⟩
  · rw [placeKey_slot_of_ne hjr] at hocc
    have hstored := hs.stored j hj hocc
    have hlen := hkeys j hj hocc
    refine Or.inr ⟨?_, hocc, hs.placeKey_storedKey_of_ne hj hocc hjr _ _ _ _⟩
    rw [placeKey_slot_of_ne hjr]
    omega

/-- A slot that is occupied behind a call refers to the bytes that the call has stored in the arena, or
it was occupied before with the same key and refers to none of the call. -/
theorem Outcome.occupied_cases (hout : Outcome t keyHash key pktBytes tick out victim)
    (hs : t.Settled) (hpos : 0 < key.len)
    (hkeys : ∀ j < t.numSlots, (t.slots j).flags = .occupied → 0 < (t.slots j).keyLen)
    {j : ℕ} (hj : j < t.numSlots) (hocc : (out.2.slots j).flags = .occupied) :
    (t.keyArenaUsed < out.2.keyArenaUsed ∧ (out.2.slots j).keyOffset = t.keyArenaUsed ∧
      out.2.storedKey j = (keyHash, key.bytes)) ∨
    (¬ (t.keyArenaUsed < out.2.keyArenaUsed ∧ (out.2.slots j).keyOffset = t.keyArenaUsed) ∧
      (t.slots j).flags = .occupied ∧ out.2.storedKey j = t.storedKey j) := by
  have hgrows : t.keyArenaUsed < t.keyArenaUsed + key.len := by omega
  -- evicting a key changes the flags of its slot only
  have hevict : ∀ v, ((t.noteFull.evictSlot v).slots j).flags = .occupied →
      (t.noteFull.evictSlot v).slots j = t.slots j := by
    intro v hv
    by_cases hjv : j = v
    · subst hjv
      simp [evictSlot] at hv
    · exact setFlags_slot_of_ne hjv
  cases hout with
  | @counted i hi hcell =>
    exact Or.inr ⟨fun h => absurd h.1 (Nat.lt_irrefl _), by simpa using hocc, by simp⟩
  | @stored r hr hfree hroom =>
    rcases hs.placeKey_occupied_cases hkeys hj hocc with ⟨hoff, hkey⟩ | ⟨hoff, hbefore, hkey⟩
    · exact Or.inl ⟨hgrows, hoff, hkey⟩
    · exact Or.inr ⟨fun h => hoff h.2, hbefore, hkey⟩
  | @released r hr hfree =>
    have hjr : j ≠ r := by
      rintro rfl
      simp [releaseSlot, failInsert] at hocc
    have hslot : (t.releaseSlot r).slots j = t.slots j := setFlags_slot_of_ne hjr
    refine Or.inr ⟨fun h => absurd h.1 (Nat.lt_irrefl _), hslot ▸ hocc, ?_⟩
    rw [storedKey, hslot]
    rfl
  | refused => exact Or.inr ⟨fun h => absurd h.1 (Nat.lt_irrefl _), hocc, rfl⟩
  | @replaced v hv hocc' hroom =>
    have hkeys' : ∀ j < t.numSlots, ((t.noteFull.evictSlot v).slots j).flags = .occupied →
        0 < ((t.noteFull.evictSlot v).slots j).keyLen := by
      intro i hi hocci
      by_cases hiv : i = v
      · subst hiv
        simp [evictSlot] at hocci
      · have hslot : (t.noteFull.evictSlot v).slots i = t.slots i := setFlags_slot_of_ne hiv
        rw [hslot] at hocci ⊢
        exact hkeys i hi hocci
    rcases (hs.note.evict v).placeKey_occupied_cases hkeys' hj hocc with
      ⟨hoff, hkey⟩ | ⟨hoff, hbefore, hkey⟩
    · exact Or.inl ⟨hgrows, hoff, hkey⟩
    · have hslot := hevict v hbefore
      refine Or.inr ⟨fun h => hoff h.2, hslot ▸ hbefore, hkey.trans ?_⟩
      rw [storedKey, hslot]
      rfl
  | @lost v hv hocc' =>
    have hjv : j ≠ v := by
      rintro rfl
      simp [releaseSlot, failInsert] at hocc
    have hslot : ((t.noteFull.evictSlot v).releaseSlot v).slots j = t.slots j :=
      (setFlags_slot_of_ne hjv).trans (setFlags_slot_of_ne hjv)
    refine Or.inr ⟨fun h => absurd h.1 (Nat.lt_irrefl _), hslot ▸ hocc, ?_⟩
    rw [storedKey, hslot]
    rfl

end Outcome

/-! ### Runs -/

/-- The table behind a run of updates with keys of `width` bytes: every occupied slot has the key of the
last call that stored one in it. -/
structure Stored (hash : Key → UInt64) (width : ℕ) (t₀ : CounterTable) (ops : List UpdateOp)
    (t : CounterTable) : Prop extends t.Uniform hash width where
  layout : t.Layout
  stored_by : ∀ j < t.numSlots, (t.slots j).flags = .occupied →
    ∃ op, StoredBy hash t₀ ops j op ∧ t.storedKey j = (hash op.key, op.key.bytes)

namespace Stored

variable {hash : Key → UInt64} {width : ℕ} {t₀ : CounterTable} {ops : List UpdateOp}

/-- The length of a stored key. -/
theorem keyLen_eq (h : t.Uniform hash width) {j : ℕ} (hj : j < t.numSlots)
    (hocc : (t.slots j).flags = .occupied) : (t.slots j).keyLen = width := by
  obtain ⟨key, hlen, hkey⟩ := h.keyed j hj _ (cell_eq_full_iff.mpr ⟨hocc, rfl⟩)
  have hbytes := congrArg (fun k => k.2.length) hkey
  dsimp only [storedKey] at hbytes
  rw [ByteMemory.length_read] at hbytes
  exact hbytes.trans hlen

/-- One update more. -/
theorem step (h : Stored hash width t₀ ops (t₀.run hash ops)) {op : UpdateOp}
    (hlen : op.key.len = width) :
    Stored hash width t₀ (ops ++ [op]) (t₀.run hash (ops ++ [op])) := by
  have hrun : t₀.run hash (ops ++ [op]) = ((t₀.run hash ops).updateOp hash op).2 := by
    rw [run_append, run_singleton]
  have huniform := (h.toUniform.step hlen).1
  have hout : Outcome (t₀.run hash ops) (hash op.key) op.key op.pktBytes op.tick
      ((t₀.run hash ops).updateOp hash op) ((t₀.run hash ops).evicted (hash op.key) op.key) :=
    h.toSettled.outcome (h.used_lt hlen) (h.used_add_le hlen) _ _ _
  obtain ⟨-, hn, -⟩ := hout.settled h.toSettled
  rw [hrun]
  refine ⟨huniform, hout.layout h.toSettled h.layout, fun j hj hocc => ?_⟩
  rw [hn] at hj
  have hkeys : ∀ j < (t₀.run hash ops).numSlots, ((t₀.run hash ops).slots j).flags = .occupied →
      0 < ((t₀.run hash ops).slots j).keyLen := fun j hj hocc =>
    (keyLen_eq h.toUniform hj hocc).symm ▸ h.width_pos
  rcases hout.occupied_cases h.toSettled (hlen.symm ▸ h.width_pos) hkeys hj hocc with
    ⟨htaken, hoff, hkey⟩ | ⟨hnot, hbefore, hkey⟩
  · refine ⟨op, ⟨ops, [], rfl, ⟨htaken, hocc, hoff⟩, fun mid op' rest hsplit => ?_⟩, hkey⟩
    exact absurd (List.append_eq_nil_iff.mp hsplit.symm).2 (by simp)
  · -- the call before which the slot was filled is still the last one
    obtain ⟨first, ⟨pre, post, hops, hstores, hlast⟩, hfirst⟩ := h.stored_by j hj hbefore
    refine ⟨first, ⟨pre, post ++ [op], by rw [hops]; simp, hstores, ?_⟩, hkey.trans hfirst⟩
    intro mid op' rest hsplit
    rcases List.eq_nil_or_concat rest with rfl | ⟨rest, last, rfl⟩
    · obtain ⟨rfl, heq⟩ := List.append_inj' hsplit rfl
      obtain rfl : op = op' := (List.cons.inj heq).1
      rw [← hops]
      exact fun h => hnot ⟨h.taken, h.offset⟩
    · rw [List.concat_eq_append, ← List.cons_append, ← List.append_assoc] at hsplit
      exact hlast mid op' rest (List.append_inj' hsplit rfl).1

/-- Any number of updates. -/
theorem run (h : Stored hash width t₀ [] t₀) {ops : List UpdateOp}
    (hlen : ∀ op ∈ ops, op.key.len = width) : Stored hash width t₀ ops (t₀.run hash ops) := by
  induction ops using List.reverseRecOn with
  | nil => exact h
  | append_singleton ops op ih =>
    exact (ih fun op' hop' => hlen op' (List.mem_append_left _ hop')).step
      (hlen op (List.mem_append_right _ (List.mem_singleton_self _)))

/-- A table with what has been stored is well formed. -/
theorem wellFormed (h : Stored hash width t₀ ops t) : t.WellFormed where
  flags j hj := by
    have hno := h.noInserting j hj
    cases hflags : (t.slots j).flags with
    | free => exact Or.inl rfl
    | occupied => exact Or.inr (Or.inl rfl)
    | tombstone => exact Or.inr (Or.inr rfl)
    | inserting => exact absurd hflags hno
  distinct i hi j hj hocci hoccj hkey :=
    h.distinct i hi j hj _ (cell_eq_full_iff.mpr ⟨hocci, hkey⟩) (cell_eq_full_iff.mpr ⟨hoccj, rfl⟩)
  inArena j hj hocc := (h.toUniform.stored j hj hocc).trans h.used_le
  disjoint := h.layout.disjoint
  used_le := h.used_le
  count := h.layout.count.trans (held_one t)

end Stored

/-- On a table for at most 16 Mi keys of at most 64 bytes, behind every run of updates with keys of one
length that the table has room for, slots, arena and counters fit together, and every occupied slot has
the hash and the bytes of the key that was stored there last, which is what
`infmon_counter_table_key` returns. -/
theorem representation_kept {maxKeys width : ℕ} {alloc : Alloc} {t : CounterTable}
    (hcreate : counterTableCreate maxKeys width alloc = some t) (hkeys : maxKeys ≤ 16 * 1024 * 1024)
    (hwidth : width ≤ 64) (hash : Key → UInt64) {len : ℕ} (hpos : 1 ≤ len) (hle : len ≤ width)
    {ops : List UpdateOp} (hlen : ∀ op ∈ ops, op.key.len = len) :
    (t.run hash ops).WellFormed ∧ ∀ j < (t.run hash ops).numSlots,
      ((t.run hash ops).slots j).flags = .occupied → ∃ op, StoredBy hash t ops j op ∧
        ((t.run hash ops).slots j).keyHash = hash op.key ∧
        (t.run hash ops).keyArena.read ((t.run hash ops).slots j).keyOffset
          ((t.run hash ops).slots j).keyLen = op.key.bytes ∧
        (t.run hash ops).key ((t.run hash ops).slots j) = some op.key.bytes := by
  have hsized := sized_of_create (by omega) hwidth hcreate
  obtain ⟨-, -, -, hg, hfresh, -⟩ := counterTableCreate_some hcreate
  have hroom : ∀ key : Key, key.len = len → t.keyArenaCapacity + len ≤ max32 := fun _ _ => by
    have hcap := hsized.capacity_le
    rw [max32]
    omega
  have hstart : Stored hash len t [] t :=
    ⟨(hfresh.toEmpty.uniform hg hash hpos hroom).1, .of_empty hfresh.toEmpty, fun j _ hocc => by
      rw [hfresh.slots j] at hocc
      cases hocc⟩
  have hrun := hstart.run hlen
  refine ⟨hrun.wellFormed, fun j hj hocc => ?_⟩
  obtain ⟨op, hby, hkey⟩ := hrun.stored_by j hj hocc
  obtain ⟨hhash, hbytes⟩ := Prod.mk.inj hkey
  exact ⟨op, hby, hhash, hbytes, (hrun.key_eq_some_iff hj).mpr ⟨hocc, hbytes⟩⟩

/-- Behind the rollback of the third update the second key is still where it was stored. -/
theorem second_key_stored : ∃ t, counterTableCreate 2 1 ⟨true, fun _ => 0⟩ = some t ∧
    (t.run (fun _ => 0) threeKeys).occupiedCount = 1 ∧
    ∃ op, StoredBy (fun _ => 0) t threeKeys 1 op ∧
      (t.run (fun _ => 0) threeKeys).key ((t.run (fun _ => 0) threeKeys).slots 1) =
        some op.key.bytes := by
  refine ⟨_, rfl, by decide +kernel, ?_⟩
  obtain ⟨-, hkeys⟩ := representation_kept
    (show counterTableCreate 2 1 ⟨true, fun _ => 0⟩ = some _ from rfl) (by decide) (by decide)
    (fun _ => 0) (by decide : 1 ≤ 1) (by decide) (by decide : ∀ op ∈ threeKeys, op.key.len = 1)
  obtain ⟨op, hby, -, -, hkey⟩ := hkeys 1 (by decide +kernel) (by decide +kernel)
  exact ⟨op, hby, hkey⟩

end CounterTable

end InFMon
