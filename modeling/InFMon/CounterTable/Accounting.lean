import InFMon.CounterTable.Outcome
import InFMon.Foundations.Runs
import Mathlib.Data.Int.ModEq

/-! # Every call is accounted for

Along a run of updates with any keys and any hashes, the packets in the occupied slots, the packets that
evicted keys took with them and the failed calls add up to the calls, and so do the bytes. The counters
have 64 bits, so the sums are taken modulo `2 ^ 64`. -/

namespace InFMon

open MachineWord

/-- One call of `infmon_counter_table_update`. -/
structure UpdateCall where
  keyHash : UInt64
  key : Key
  pktBytes : UInt64
  tick : UInt64

namespace CounterTable

/-- The result of a call and the table behind it. -/
def call (t : CounterTable) (c : UpdateCall) : Bool × CounterTable :=
  t.update c.keyHash c.key c.pktBytes c.tick

/-- A run of calls by the table's writer. -/
def calls (t : CounterTable) (cs : List UpdateCall) : CounterTable :=
  cs.foldl (fun t c => (t.call c).2) t

/-! ### The ledger -/

/-- What the key that a call evicts held of a quantity at that moment. -/
def evictedShare (w : Slot → ℕ) (t : CounterTable) (c : UpdateCall) : ℕ :=
  (t.evicted c.keyHash c.key).elim 0 fun v => w (t.slots v)

/-- What all keys evicted in a run held of a quantity, each at the moment of its eviction. -/
def evictedTotal (w : Slot → ℕ) (t : CounterTable) : List UpdateCall → ℕ
  | [] => 0
  | c :: cs => evictedShare w t c + evictedTotal w (t.call c).2 cs

/-- What the failed calls of a run have of a quantity. -/
def failedTotal (f : UpdateCall → ℕ) (t : CounterTable) : List UpdateCall → ℕ
  | [] => 0
  | c :: cs => (if (t.call c).1 then 0 else f c) + failedTotal f (t.call c).2 cs

/-- The packets of a slot. -/
def slotPackets (slot : Slot) : ℕ := slot.packets.toNat

/-- The bytes of a slot. -/
def slotBytes (slot : Slot) : ℕ := slot.bytes.toNat

/-! ### One call -/

/-- A sum of 64 bits is the sum up to a wrap. -/
theorem toNat_add_modEq (a b : UInt64) : (a + b).toNat ≡ a.toNat + b.toNat [MOD 2 ^ 64] := by
  rw [UInt64.toNat_add]
  exact Nat.mod_modEq _ _

variable {t : CounterTable}

section Outcome

variable {key : Key} {keyHash pktBytes tick : UInt64} {out : Bool × CounterTable} {victim : Option ℕ}

/-- A call adds what it counts for its packet to the slots, or what it fails with to the failures, and
moves what an evicted key held out of the slots. `one` is what the quantity is raised by, and `failed`
what a failure is noted with. -/
theorem Outcome.balance (hout : Outcome t keyHash key pktBytes tick out victim)
    {w : Slot → ℕ} {one failed : ℕ}
    (hbump : ∀ j, w ((t.bumpSlot j pktBytes tick).slots j) ≡ w (t.slots j) + one [MOD 2 ^ 64])
    (hnew : ∀ (t : CounterTable) (r : ℕ),
      w ((t.placeKey r keyHash key pktBytes tick).slots r) = one)
    (hfailed : failed = if out.1 then 0 else one) :
    held w out.2 + (victim.elim 0 fun v => w (t.slots v)) + failed ≡ held w t + one
      [MOD 2 ^ 64] := by
  cases hout with
  | @counted j hj hcell =>
    have hocc := (cell_eq_full_iff.mp hcell).1
    have hsum := held_bumpSlot (w := w) hj hocc pktBytes tick
    obtain rfl : failed = 0 := hfailed
    change held w (t.bumpSlot j pktBytes tick) ≡ held w t + one [MOD 2 ^ 64]
    -- the slot's old weight stands on both sides: what it gains is `one`
    refine Nat.ModEq.add_right_cancel' (w (t.slots j)) ?_
    rw [hsum, Nat.add_assoc, Nat.add_comm one]
    exact (hbump j).add_left _
  | @stored r hr hfree hroom =>
    rw [hfailed, held_placeKey hr hfree, hnew]
    exact Nat.ModEq.refl _
  | @released r hr hfree =>
    rw [hfailed, held_releaseSlot hr hfree]
    exact Nat.ModEq.refl _
  | refused =>
    rw [hfailed, show held w t.noteFull.failInsert = held w t from rfl]
    exact Nat.ModEq.refl _
  | @replaced v hv hocc hroom =>
    have hevict := held_evictSlot (w := w) (t := t.noteFull) hv hocc
    have hplace := held_placeKey (w := w) (t := t.noteFull.evictSlot v) hv
      (by simp [evictSlot]) keyHash key pktBytes tick
    rw [hnew] at hplace
    -- the victim's weight leaves the table before the new key comes in
    change _ + w (t.slots v) = held w t at hevict
    rw [hfailed, hplace, ← hevict]
    change _ + one + w (t.slots v) ≡ _ + w (t.slots v) + one [MOD 2 ^ 64]
    rw [Nat.add_right_comm]
  | @lost v hv hocc =>
    have hevict := held_evictSlot (w := w) (t := t.noteFull) hv hocc
    have hrelease := held_releaseSlot (w := w) (t := t.noteFull.evictSlot v) hv
      (by simp [evictSlot])
    change _ + w (t.slots v) = held w t at hevict
    rw [hfailed, hrelease, ← hevict]
    exact Nat.ModEq.refl _

end Outcome

/-- A settled table with an arena that keys of 64 bytes cannot take beyond 32 bits. -/
structure Sized (t : CounterTable) : Prop extends t.Settled where
  capacity_le : t.keyArenaCapacity ≤ 2 ^ 30

/-- A new table is sized. -/
theorem sized_of_create {maxKeys width : ℕ} {alloc : Alloc} (hkeys : maxKeys ≤ 2 ^ 24)
    (hwidth : width ≤ 64) (h : counterTableCreate maxKeys width alloc = some t) : t.Sized := by
  obtain ⟨hpos, hle, -, hg, hfresh, hslots, hcap⟩ := counterTableCreate_some h
  obtain ⟨k, hk, hpow, -, hleast⟩ := nextPow2_spec hpos hle
  refine ⟨hfresh.toEmpty.settled hg, ?_⟩
  have hn : t.numSlots ≤ 2 ^ 24 := by
    rw [hslots, hpow]
    exact Nat.pow_le_pow_right (by omega) (hleast 24 hkeys)
  calc t.keyArenaCapacity = t.numSlots * width := hcap
    _ ≤ 2 ^ 24 * 64 := Nat.mul_le_mul hn hwidth
    _ = 2 ^ 30 := by norm_num

/-- A key of at most 64 bytes keeps the arena within 32 bits. -/
theorem Sized.room (h : t.Sized) {len : ℕ} (hlen : len ≤ 64) :
    t.keyArenaUsed < max32 ∧ t.keyArenaUsed + len ≤ max32 := by
  have hused := h.used_le.trans h.capacity_le
  rw [max32]
  omega

/-- A call with a key of at most 64 bytes has one of the outcomes. -/
theorem Sized.outcome (h : t.Sized) {c : UpdateCall} (hlen : c.key.len ≤ 64) :
    Outcome t c.keyHash c.key c.pktBytes c.tick (t.call c) (t.evicted c.keyHash c.key) :=
  h.toSettled.outcome (h.room hlen).1 (h.room hlen).2 _ _ _

/-- A call keeps the table sized. -/
theorem Sized.call (h : t.Sized) {c : UpdateCall} (hlen : c.key.len ≤ 64) : (t.call c).2.Sized := by
  obtain ⟨hs, -, hcap⟩ := (h.outcome hlen).settled h.toSettled
  exact ⟨hs, hcap.trans_le h.capacity_le⟩

/-- The packet of a call is counted in a slot, or the call fails. -/
theorem Sized.packets_balance (h : t.Sized) {c : UpdateCall} (hlen : c.key.len ≤ 64) :
    held slotPackets (t.call c).2 + evictedShare slotPackets t c + (if (t.call c).1 then 0 else 1) ≡
      held slotPackets t + 1 [MOD 2 ^ 64] := by
  refine (h.outcome hlen).balance (fun j => ?_) (fun t r => ?_) rfl
  · rw [bumpSlot_slots, Function.update_self]
    exact toNat_add_modEq _ _
  · rw [placeKey_slot_self]
    rfl

/-- The bytes of a call are counted in a slot, or the call fails. -/
theorem Sized.bytes_balance (h : t.Sized) {c : UpdateCall} (hlen : c.key.len ≤ 64) :
    held slotBytes (t.call c).2 + evictedShare slotBytes t c +
        (if (t.call c).1 then 0 else c.pktBytes.toNat) ≡
      held slotBytes t + c.pktBytes.toNat [MOD 2 ^ 64] := by
  refine (h.outcome hlen).balance (fun j => ?_) (fun t r => ?_) rfl
  · rw [bumpSlot_slots, Function.update_self]
    exact toNat_add_modEq _ _
  · rw [placeKey_slot_self]
    rfl

/-- A failed call raises `insert_failed` by one, and no other call changes it. -/
theorem Sized.insertFailed_call (h : t.Sized) {c : UpdateCall} (hlen : c.key.len ≤ 64) :
    (t.call c).2.insertFailed.toNat ≡ t.insertFailed.toNat + (if (t.call c).1 then 0 else 1)
      [MOD 2 ^ 64] := by
  rcases (h.outcome hlen).insertFailed with ⟨hok, heq⟩ | ⟨hfail, heq⟩
  · rw [hok, heq]
    exact Nat.ModEq.refl _
  · rw [hfail, heq]
    exact toNat_add_modEq _ _

/-! ### Runs -/

/-- What every call of a run balances, the run balances. -/
theorem Sized.run_balance {w : Slot → ℕ} {one : UpdateCall → ℕ}
    (hstep : ∀ (t : CounterTable) (c : UpdateCall), t.Sized → c.key.len ≤ 64 →
      held w (t.call c).2 + evictedShare w t c + (if (t.call c).1 then 0 else one c) ≡
        held w t + one c [MOD 2 ^ 64])
    (h : t.Sized) {cs : List UpdateCall} (hlen : ∀ c ∈ cs, c.key.len ≤ 64) :
    held w (t.calls cs) + evictedTotal w t cs + failedTotal one t cs ≡
      held w t + (cs.map one).sum [MOD 2 ^ 64] := by
  induction cs generalizing t with
  | nil => exact Nat.ModEq.refl _
  | cons c cs ih =>
    obtain ⟨hfirst, hrest⟩ := List.forall_mem_cons.mp hlen
    rw [evictedTotal, failedTotal, List.map_cons, List.sum_cons]
    change held w ((t.call c).2.calls cs) + _ + _ ≡ _ [MOD 2 ^ 64]
    have hone := hstep t c h hfirst
    have hmore := ih (h.call hfirst) hrest
    generalize (if (t.call c).1 = true then 0 else one c) = failed at hone ⊢
    calc held w ((t.call c).2.calls cs) + (evictedShare w t c + evictedTotal w (t.call c).2 cs) +
          (failed + failedTotal one (t.call c).2 cs)
        = held w ((t.call c).2.calls cs) + evictedTotal w (t.call c).2 cs +
          failedTotal one (t.call c).2 cs + (evictedShare w t c + failed) := by omega
      _ ≡ held w (t.call c).2 + (cs.map one).sum + (evictedShare w t c + failed) [MOD 2 ^ 64] :=
        hmore.add_right _
      _ = held w (t.call c).2 + evictedShare w t c + failed + (cs.map one).sum := by omega
      _ ≡ held w t + one c + (cs.map one).sum [MOD 2 ^ 64] := hone.add_right _
      _ = held w t + (one c + (cs.map one).sum) := by omega

/-- What every call for a key of an admitted length preserves, a run of such calls preserves. -/
theorem calls_of_call (L : ℕ → Prop) {I : CounterTable → Prop} (h : I t)
    (hcall : ∀ (t : CounterTable) (c : UpdateCall), I t → L c.key.len → I (t.call c).2)
    {cs : List UpdateCall} (hlen : ∀ c ∈ cs, L c.key.len) : I (t.calls cs) := by
  have hmeets : Runs.Meets (fun t c => (t.call c).2) (fun _ c => L c.key.len) t cs :=
    Runs.meets_of_forall fun c hc _ => hlen c hc
  exact Runs.invariant h hcall hmeets

/-- Any number of calls keeps the table sized. -/
theorem Sized.calls (h : t.Sized) {cs : List UpdateCall} (hlen : ∀ c ∈ cs, c.key.len ≤ 64) :
    (t.calls cs).Sized :=
  calls_of_call (· ≤ 64) h (fun _ _ h hle => h.call hle) hlen

/-- `insert_failed` counts the failed calls. -/
theorem Sized.insertFailed_calls (h : t.Sized) {cs : List UpdateCall}
    (hlen : ∀ c ∈ cs, c.key.len ≤ 64) :
    (t.calls cs).insertFailed.toNat ≡ t.insertFailed.toNat + failedTotal (fun _ => 1) t cs
      [MOD 2 ^ 64] := by
  induction cs generalizing t with
  | nil => exact Nat.ModEq.refl _
  | cons c cs ih =>
    obtain ⟨hfirst, hrest⟩ := List.forall_mem_cons.mp hlen
    rw [failedTotal, ← Nat.add_assoc]
    exact (ih (h.call hfirst) hrest).trans ((h.insertFailed_call hfirst).add_right _)

/-- Before the first call no slot holds anything. -/
theorem held_of_create {maxKeys width : ℕ} {alloc : Alloc}
    (h : counterTableCreate maxKeys width alloc = some t) (w : Slot → ℕ) : held w t = 0 := by
  obtain ⟨-, -, -, -, hfresh, -⟩ := counterTableCreate_some h
  refine Finset.sum_eq_zero fun j _ => share_of_not ?_
  rw [hfresh.slots j]
  exact fun h => by cases h

/-- On a table for at most 16 Mi keys of at most 64 bytes, the calls of a run are, modulo `2 ^ 64`, the
packets in the occupied slots and those that evicted keys held at their eviction and `insert_failed`
together; the bytes of the calls are the bytes in the occupied slots, of the evicted keys and of the
failed calls; and a call behind the run fails exactly when it raises `insert_failed` by one. -/
theorem every_call_accounted {maxKeys width : ℕ} {alloc : Alloc} {t : CounterTable}
    (hcreate : counterTableCreate maxKeys width alloc = some t) (hkeys : maxKeys ≤ 16 * 1024 * 1024)
    (hwidth : width ≤ 64) {cs : List UpdateCall} (hlen : ∀ c ∈ cs, c.key.len ≤ width) :
    held slotPackets (t.calls cs) + evictedTotal slotPackets t cs +
        (t.calls cs).insertFailed.toNat ≡ cs.length [MOD 2 ^ 64] ∧
    held slotBytes (t.calls cs) + evictedTotal slotBytes t cs +
        failedTotal (fun c => c.pktBytes.toNat) t cs ≡
      (cs.map fun c => c.pktBytes.toNat).sum [MOD 2 ^ 64] ∧
    ∀ c : UpdateCall, c.key.len ≤ width →
      (((t.calls cs).call c).1 = false ↔
        ((t.calls cs).call c).2.insertFailed = (t.calls cs).insertFailed + 1) := by
  have hsized := sized_of_create (by omega) hwidth hcreate
  have hlen' : ∀ c ∈ cs, c.key.len ≤ 64 := fun c hc => (hlen c hc).trans hwidth
  refine ⟨?_, ?_, fun c hc => ?_⟩
  · have hrun := Sized.run_balance (fun t c h => h.packets_balance) hsized hlen'
    have hfailed := hsized.insertFailed_calls hlen'
    obtain ⟨-, -, -, -, hfresh, -⟩ := counterTableCreate_some hcreate
    rw [held_of_create hcreate, Nat.zero_add, List.map_const', List.sum_replicate,
      Nat.nsmul_eq_mul, Nat.mul_one] at hrun
    rw [hfresh.insertFailed] at hfailed
    exact (hfailed.add_left _).trans (by simpa using hrun)
  · have hrun := Sized.run_balance (fun t c h => h.bytes_balance) hsized hlen'
    rwa [held_of_create hcreate, Nat.zero_add] at hrun
  · rcases ((hsized.calls hlen').outcome (hc.trans hwidth)).insertFailed with
      ⟨hok, heq⟩ | ⟨hfail, heq⟩
    · rw [hok, heq]
      exact iff_of_false (by simp) (by simp)
    · exact iff_of_true hfail heq

/-- Two calls for different keys. -/
def twoCalls : List UpdateCall :=
  [⟨0, .one 1, 60, 1⟩, ⟨0, .one 2, 90, 2⟩]

/-- The second call evicts the key of the first one and fails for want of arena. -/
theorem two_calls_accounted : ∃ t, counterTableCreate 1 1 ⟨true, fun _ => 0⟩ = some t ∧
    evictedTotal slotBytes t twoCalls = 60 ∧
    held slotBytes (t.calls twoCalls) + evictedTotal slotBytes t twoCalls +
        failedTotal (fun c => c.pktBytes.toNat) t twoCalls ≡ 150 [MOD 2 ^ 64] :=
  ⟨_, rfl, by decide +kernel, (every_call_accounted
    (show counterTableCreate 1 1 ⟨true, fun _ => 0⟩ = some _ from rfl) (by decide) (by decide)
    (fun c hc => by
      rcases List.mem_cons.mp hc with rfl | hc
      · decide
      · rw [List.mem_singleton.mp hc]
        decide)).2.1⟩

end CounterTable

end InFMon
