import InFMon.CounterTable.Effects
import Mathlib.Algebra.BigOperators.Group.Finset.Basic
import Mathlib.Algebra.Order.BigOperators.Group.Finset

/-! # What a call can do

A call of the update on a settled table ends in one of six ways: the packet is counted, the key is
stored in a slot that was not occupied or in the slot of an evicted key, or the call fails with the
slot given up or without one. What all occupied slots hold together changes by what the call changes in
one slot. -/

namespace InFMon

open MachineWord OpenAddressing

namespace CounterTable

/-! ### The outcomes -/

/-- The slot whose key the call evicts: the call gets to `evict_lru` when the search has found neither
the key nor a slot that can be claimed. -/
def evicted (t : CounterTable) (keyHash : UInt64) (key : Key) : Option ℕ :=
  let start := t.homeSlot keyHash
  match t.searchSlot start keyHash key t.numSlots 0 none with
  | .hit _ => none
  | .miss none => t.lruVictim start
  | .miss (some idx) =>
    let f := (t.slots idx).flags
    if f = .free ∨ f = .tombstone then none else t.lruVictim start

/-- The result of a call and the table behind it, with the slot it evicts. -/
inductive Outcome (t : CounterTable) (keyHash : UInt64) (key : Key) (pktBytes tick : UInt64) :
    Bool × CounterTable → Option ℕ → Prop
  | counted {j : ℕ} (hj : j < t.numSlots) (hcell : t.cell j = .full (keyHash, key.bytes)) :
    Outcome t keyHash key pktBytes tick (true, t.bumpSlot j pktBytes tick) none
  | stored {r : ℕ} (hr : r < t.numSlots) (hfree : (t.slots r).flags ≠ .occupied)
      (hroom : t.keyArenaUsed + key.len ≤ t.keyArenaCapacity) :
    Outcome t keyHash key pktBytes tick (true, t.placeKey r keyHash key pktBytes tick) none
  | released {r : ℕ} (hr : r < t.numSlots) (hfree : (t.slots r).flags ≠ .occupied) :
    Outcome t keyHash key pktBytes tick (false, t.releaseSlot r) none
  | refused : Outcome t keyHash key pktBytes tick (false, t.noteFull.failInsert) none
  | replaced {v : ℕ} (hv : v < t.numSlots) (hocc : (t.slots v).flags = .occupied)
      (hroom : t.keyArenaUsed + key.len ≤ t.keyArenaCapacity) :
    Outcome t keyHash key pktBytes tick
      (true, (t.noteFull.evictSlot v).placeKey v keyHash key pktBytes tick) (some v)
  | lost {v : ℕ} (hv : v < t.numSlots) (hocc : (t.slots v).flags = .occupied) :
    Outcome t keyHash key pktBytes tick (false, (t.noteFull.evictSlot v).releaseSlot v) (some v)

variable {t : CounterTable} {key : Key}

/-- Every call on a settled table has one of these outcomes. -/
theorem Settled.outcome (h : t.Settled) (hused : t.keyArenaUsed < max32)
    (hroom : t.keyArenaUsed + key.len ≤ max32) (keyHash pktBytes tick : UInt64) :
    Outcome t keyHash key pktBytes tick (t.update keyHash key pktBytes tick)
      (t.evicted keyHash key) := by
  rw [h.update_eq hused hroom, evicted]
  simp only [h.search_eq]
  rcases h.lookup_cases (keyHash, key.bytes) with ⟨j, hj, hcell, hlook⟩ | ⟨r, hr, hflags, hlook⟩ |
    ⟨-, hlook⟩
  · rw [hlook]
    exact .counted hj hcell
  · have hfree := ne_occupied_of_reusable hflags
    simp only [hlook, if_pos hflags, storeAt]
    split
    · rename_i hfits
      exact .stored hr hfree hfits
    · exact .released hr hfree
  · simp only [hlook]
    cases hvictim : t.lruVictim (t.homeSlot keyHash) with
    | none => exact .refused
    | some v =>
      obtain ⟨hv, hocc⟩ := lruVictim_some h.toGeometry hvictim
      simp only [storeAt]
      split
      · rename_i hfits
        exact .replaced hv hocc hfits
      · exact .lost hv hocc

section Outcome

variable {keyHash pktBytes tick : UInt64} {out : Bool × CounterTable} {victim : Option ℕ}

/-- The table behind a call is settled and as large as before. -/
theorem Outcome.settled (hout : Outcome t keyHash key pktBytes tick out victim) (h : t.Settled) :
    out.2.Settled ∧ out.2.numSlots = t.numSlots ∧
      out.2.keyArenaCapacity = t.keyArenaCapacity := by
  cases hout with
  | counted hj hcell => exact ⟨h.bump _ _ _, rfl, rfl⟩
  | stored hr hfree hroom => exact ⟨h.place hroom _ _ _, rfl, rfl⟩
  | released hr hfree => exact ⟨h.release _, rfl, rfl⟩
  | refused => exact ⟨h.note.fail, rfl, rfl⟩
  | replaced hv hocc hroom => exact ⟨(h.note.evict _).place hroom _ _ _, rfl, rfl⟩
  | lost hv hocc => exact ⟨(h.note.evict _).release _, rfl, rfl⟩

/-- A call fails exactly when it raises `insert_failed`, which no other call touches. -/
theorem Outcome.insertFailed (hout : Outcome t keyHash key pktBytes tick out victim) :
    (out.1 = true ∧ out.2.insertFailed = t.insertFailed) ∨
      (out.1 = false ∧ out.2.insertFailed = t.insertFailed + 1) := by
  cases hout with
  | counted hj hcell => exact Or.inl ⟨rfl, rfl⟩
  | stored hr hfree hroom => exact Or.inl ⟨rfl, rfl⟩
  | released hr hfree => exact Or.inr ⟨rfl, rfl⟩
  | refused => exact Or.inr ⟨rfl, rfl⟩
  | replaced hv hocc hroom => exact Or.inl ⟨rfl, rfl⟩
  | lost hv hocc => exact Or.inr ⟨rfl, rfl⟩

end Outcome

/-! ### What the slots hold together -/

/-- A sum in which one part changes. -/
theorem sum_step {ι : Type*} [DecidableEq ι] {s : Finset ι} {f g : ι → ℕ} {i : ι} (hi : i ∈ s)
    (h : ∀ j ∈ s, j ≠ i → g j = f j) : ∑ j ∈ s, g j + f i = ∑ j ∈ s, f j + g i := by
  have hrest : ∑ j ∈ s.erase i, g j = ∑ j ∈ s.erase i, f j :=
    Finset.sum_congr rfl fun j hj => h j (Finset.mem_of_mem_erase hj) (Finset.ne_of_mem_erase hj)
  rw [← Finset.add_sum_erase s g hi, ← Finset.add_sum_erase s f hi, hrest]
  omega

/-- What a slot holds of a quantity, nothing unless it is occupied. -/
def share (w : Slot → ℕ) (slot : Slot) : ℕ := if slot.flags = .occupied then w slot else 0

/-- What all occupied slots hold of a quantity. -/
def held (w : Slot → ℕ) (t : CounterTable) : ℕ := ∑ j ∈ Finset.range t.numSlots, share w (t.slots j)

variable {w : Slot → ℕ}

/-- An occupied slot has its share. -/
theorem share_of_occupied {slot : Slot} (h : slot.flags = .occupied) : share w slot = w slot :=
  if_pos h

/-- Any other slot has none. -/
theorem share_of_not {slot : Slot} (h : slot.flags ≠ .occupied) : share w slot = 0 := if_neg h

/-- One slot is replaced. -/
theorem held_update (u : CounterTable) {r : ℕ} {slot : Slot} (hr : r < t.numSlots)
    (hn : u.numSlots = t.numSlots) (hslots : u.slots = Function.update t.slots r slot) :
    held w u + share w (t.slots r) = held w t + share w slot := by
  have hsum := sum_step (f := fun j => share w (t.slots j))
    (g := fun j => share w (Function.update t.slots r slot j)) (Finset.mem_range.mpr hr)
    fun j _ hj => by rw [Function.update_of_ne hj]
  rw [Function.update_self] at hsum
  rw [held, held, hn, hslots, hsum]

/-- Counting a packet changes what its slot holds. -/
theorem held_bumpSlot {j : ℕ} (hj : j < t.numSlots) (hocc : (t.slots j).flags = .occupied)
    (pktBytes tick : UInt64) :
    held w (t.bumpSlot j pktBytes tick) + w (t.slots j) =
      held w t + w ((t.bumpSlot j pktBytes tick).slots j) := by
  have hsum := held_update (w := w) (t.bumpSlot j pktBytes tick) hj rfl
    (bumpSlot_slots j pktBytes tick)
  rw [share_of_occupied hocc, share_of_occupied (by exact hocc)] at hsum
  rw [hsum, bumpSlot_slots, Function.update_self]

/-- A key that is stored adds what its slot holds. -/
theorem held_placeKey {r : ℕ} (hr : r < t.numSlots) (hfree : (t.slots r).flags ≠ .occupied)
    (keyHash : UInt64) (key : Key) (pktBytes tick : UInt64) :
    held w (t.placeKey r keyHash key pktBytes tick) =
      held w t + w ((t.placeKey r keyHash key pktBytes tick).slots r) := by
  have hsum := held_update (w := w) (t.placeKey r keyHash key pktBytes tick) hr rfl rfl
  rw [share_of_not hfree, share_of_occupied rfl] at hsum
  rw [placeKey_slot_self]
  exact hsum

/-- An evicted key takes what its slot held. -/
theorem held_evictSlot {v : ℕ} (hv : v < t.numSlots) (hocc : (t.slots v).flags = .occupied) :
    held w (t.evictSlot v) + w (t.slots v) = held w t := by
  have hsum := held_update (w := w) (t.evictSlot v) hv rfl rfl
  rwa [share_of_occupied hocc, share_of_not (by simp)] at hsum

/-- A slot that is given up held nothing. -/
theorem held_releaseSlot {r : ℕ} (hr : r < t.numSlots) (hfree : (t.slots r).flags ≠ .occupied) :
    held w (t.releaseSlot r) = held w t := by
  have hsum := held_update (w := w) (t.releaseSlot r) hr rfl rfl
  rwa [share_of_not hfree, share_of_not (by simp)] at hsum

end CounterTable

end InFMon
