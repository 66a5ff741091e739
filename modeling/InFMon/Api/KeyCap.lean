import InFMon.Api.Registry

/-! # The cap on keys

How many keys the current tables of a rule can hold, over every run: as many as `max_keys` rounded up to a
power of two, and a new key that finds that many others is for `evict_lru` to deal with. -/

namespace InFMon

namespace CounterTable

variable {t : CounterTable} {keyHash : UInt64} {key : Key}

/-- The number of occupied slots. -/
def residents (t : CounterTable) : ℕ :=
  ((Finset.range t.numSlots).filter fun j => (t.slots j).flags = .occupied).card

/-- No more keys are resident than there are slots. -/
theorem residents_le (t : CounterTable) : t.residents ≤ t.numSlots :=
  (Finset.card_filter_le _ _).trans_eq (Finset.card_range _)

/-- As many keys as slots occupy all slots. -/
theorem occupied_of_residents (h : t.residents = t.numSlots) {j : ℕ} (hj : j < t.numSlots) :
    (t.slots j).flags = .occupied := by
  have hall : ((Finset.range t.numSlots).filter fun j => (t.slots j).flags = .occupied) =
      Finset.range t.numSlots :=
    Finset.eq_of_subset_of_card_le (Finset.filter_subset _ _)
      (by rw [Finset.card_range]; exact h.ge)
  have hmem := Finset.mem_range.mpr hj
  rw [← hall] at hmem
  exact (Finset.mem_filter.mp hmem).2

/-- A slot matches only the key that it holds. -/
theorem key_of_keyMatches {slot : Slot} (hocc : slot.flags = .occupied)
    (h : t.keyMatches slot keyHash key = true) : t.key slot = some key.bytes := by
  rw [keyMatches] at h
  split at h
  · cases h
  split at h
  · cases h
  rename_i hlen
  rw [not_not] at hlen
  split at h
  · cases h
  rename_i hbound
  rw [CounterTable.key, if_neg (by simp [hocc]), hlen, if_neg hbound, of_decide_eq_true h]

/-- The search for a new key passes all slots of a full table. -/
theorem searchSlot_of_full (hg : t.Geometry)
    (hfull : ∀ j < t.numSlots, (t.slots j).flags = .occupied)
    (hnew : ∀ j < t.numSlots, t.key (t.slots j) ≠ some key.bytes) (keyHash : UInt64)
    (start fuel i : ℕ) :
    t.searchSlot start keyHash key fuel i none = .miss none := by
  induction fuel generalizing i with
  | zero => rfl
  | succ fuel ih =>
    have hidx : t.probeIdx start i < t.numSlots := by
      rw [hg.probeIdx_eq]
      exact Nat.mod_lt _ hg.numSlots_pos
    have hocc := hfull _ hidx
    have hmatch : t.keyMatches (t.slots (t.probeIdx start i)) keyHash key = false := by
      rw [← Bool.not_eq_true]
      exact fun h => hnew _ hidx (key_of_keyMatches hocc h)
    -- an occupied slot with another key is passed and makes no candidate
    rw [searchSlot]
    simp only [hocc, hmatch]
    exact ih (i + 1)

/-- A new key on a full table is for the eviction. -/
theorem update_of_full (hg : t.Geometry) (hfull : t.residents = t.numSlots)
    (hnew : ∀ j < t.numSlots, t.key (t.slots j) ≠ some key.bytes) (pktBytes tick : UInt64) :
    t.update keyHash key pktBytes tick =
      t.evictAndRetry (t.homeSlot keyHash) keyHash key pktBytes tick := by
  have hsearch := searchSlot_of_full hg (fun j hj => occupied_of_residents hfull hj) hnew keyHash
    (t.homeSlot keyHash) t.numSlots 0
  rw [update]
  simp only [hsearch]

end CounterTable

namespace ApiState

/-- A rule for at most three keys of one byte, and packets with four keys. -/
def fourKeys : List ApiOp :=
  .add ⟨[0x72, 0x61], [2], 3, 0, 0⟩ (some ⟨0, 1⟩) (fun _ => ⟨true, fun _ => 0⟩) ::
    [[0], [1], [2], [3]].map fun bytes =>
      .update 0 0 ⟨bytes.take 4, (List.length_take_le 4 bytes).trans_lt (by decide)⟩ 60 1

end ApiState

end InFMon
