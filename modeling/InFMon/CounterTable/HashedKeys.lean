import InFMon.CounterTable.Representation

/-! # Keys under their hash

In a table that is updated with keys under their own hash, every occupied slot has a key of the arena,
and the hash of this key. So whoever reads the slots finds one hash for every key. -/

namespace InFMon

open MachineWord OpenAddressing

namespace CounterTable

/-- A table whose keys, of 1 to 64 bytes, are stored under their hash. -/
structure HashedBy (hash : List UInt8 → UInt64) (t : CounterTable) : Prop extends t.Sized where
  hashed : ∀ j < t.numSlots, (t.slots j).flags = .occupied →
    (t.storedKey j).1 = hash (t.storedKey j).2 ∧ 0 < (t.storedKey j).2.length ∧
      (t.storedKey j).2.length ≤ 64

variable {hash : List UInt8 → UInt64} {t : CounterTable}

/-- In an empty table all keys are hashed. -/
theorem Empty.hashedBy (h : t.Empty) (hg : t.Geometry) (hcap : t.keyArenaCapacity ≤ 2 ^ 30) :
    t.HashedBy hash where
  toSettled := h.settled hg
  capacity_le := hcap
  hashed j _ hocc := by
    rw [h.slots j] at hocc
    cases hocc

namespace HashedBy

/-- The length of a stored key. -/
theorem keyLen_pos (h : t.HashedBy hash) {j : ℕ} (hj : j < t.numSlots)
    (hocc : (t.slots j).flags = .occupied) : 0 < (t.slots j).keyLen := by
  have hlen := (h.hashed j hj hocc).2.1
  rwa [storedKey, ByteMemory.length_read] at hlen

/-- A call with a key under its hash keeps all keys under theirs. -/
theorem update (h : t.HashedBy hash) {key : Key} (hpos : 0 < key.len) (hlen : key.len ≤ 64)
    (pktBytes tick : UInt64) :
    (t.update (hash key.bytes) key pktBytes tick).2.HashedBy hash := by
  have hout : Outcome t (hash key.bytes) key pktBytes tick
      (t.update (hash key.bytes) key pktBytes tick) (t.evicted (hash key.bytes) key) :=
    h.toSized.outcome (c := ⟨hash key.bytes, key, pktBytes, tick⟩) hlen
  obtain ⟨hs, hn, hcap⟩ := hout.settled h.toSettled
  refine { toSettled := hs, capacity_le := hcap.trans_le h.capacity_le, hashed := fun j hj hocc => ?_ }
  rw [hn] at hj
  rcases hout.occupied_cases h.toSettled hpos (fun _ => h.keyLen_pos) hj hocc with
    ⟨-, -, hkey⟩ | ⟨-, hbefore, hkey⟩
  · rw [hkey]
    exact ⟨rfl, hpos, hlen⟩
  · rw [hkey]
    exact h.hashed j hj hbefore

/-- The key of an occupied slot, as `infmon_counter_table_key` returns it. -/
theorem key_eq (h : t.HashedBy hash) {j : ℕ} (hj : j < t.numSlots)
    (hocc : (t.slots j).flags = .occupied) :
    ∃ bytes, t.key (t.slots j) = some bytes ∧ (t.slots j).keyHash = hash bytes ∧
      0 < bytes.length ∧ bytes.length ≤ 64 := by
  obtain ⟨hhash, hpos, hle⟩ := h.hashed j hj hocc
  exact ⟨_, (h.key_eq_some_iff hj).mpr ⟨hocc, rfl⟩, hhash, hpos, hle⟩

end HashedBy

end CounterTable

end InFMon
