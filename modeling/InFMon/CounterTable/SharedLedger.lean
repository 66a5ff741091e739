import InFMon.CounterTable.Representation
import InFMon.CounterTable.SharedUpdates

/-! # What threads that update one table account for

Every packet is in one place between any two accesses that are not disturbed: in a slot whose packets
count, in a slot that was evicted, in `insert_failed`, or still with the thread that has it to count.
`occupied_count` is behind the occupied slots by what threads have published or evicted and not yet
counted. When no update is in progress nothing is with a thread any more. -/

namespace InFMon

open MachineWord

namespace Pc

/-! ### What a thread has to account for -/

/-- The packet of the call that is not in any counter yet. -/
def owes : Pc → ℕ
  | .store _ _ field => if SlotField.packets.rank < field.rank then 0 else 1
  | .countBytes _ | .stamp _ | .endWrite .. | .publish .. | .countSlot | .returned _ => 0
  | _ => 1

/-- The next access puts the packet into a slot. -/
def credits : Pc → ℕ
  | .countPacket _ | .store _ _ .packets => 1
  | _ => 0

/-- The next access puts it into `insert_failed`. -/
def fails : Pc → ℕ
  | .fail => 1
  | _ => 0

/-- The next access makes a slot occupied. -/
def publishes : Pc → ℕ
  | .publish .. => 1
  | _ => 0

/-- The next access evicts a slot. -/
def buries : Pc → ℕ
  | .bury _ => 1
  | _ => 0

/-- The next access raises `occupied_count`. -/
def raises : Pc → ℕ
  | .countSlot => 1
  | _ => 0

/-- The next access lowers `occupied_count`. -/
def lowers : Pc → ℕ
  | .uncount _ => 1
  | _ => 0

variable {pc : Pc}

/-- A slot that is being filled is claimed. -/
theorem claimed_of_filling {j : ℕ} (h : pc.filling = some j) : pc.claimed = some j := by
  cases pc with
  | store idx off field =>
    rw [filling] at h
    split at h
    · exact h
    · cases h
  | endWrite | publish => exact h
  | _ => cases h

/-- A thread that looks for a slot fills none. -/
theorem Looking.filling_eq (h : pc.Looking) : pc.filling = none := by
  cases pc <;> first | rfl | exact h.elim

/-- A thread that looks for a slot owes its packet, and no slot. -/
theorem Looking.tally (h : pc.Looking) : pc.owes = 1 ∧ pc.raises = 0 ∧ pc.lowers = 0 := by
  cases pc <;> first | exact ⟨rfl, rfl, rfl⟩ | exact h.elim

/-- A load changes no counter. -/
theorem Loads.tally (h : pc.Loads) :
    pc.credits = 0 ∧ pc.fails = 0 ∧ pc.publishes = 0 ∧ pc.buries = 0 := by
  cases pc <;> first | exact ⟨rfl, rfl, rfl, rfl⟩ | exact h.elim

end Pc

namespace CounterTable

variable {t t' : CounterTable} {c : UpdateCall} {pc pc' : Pc}

/-- A thread that copies its key owes its packet, and no slot. -/
theorem tally_nextCopy (key : Key) (idx off k : ℕ) : (nextCopy key idx off k).owes = 1 ∧
    (nextCopy key idx off k).raises = 0 ∧ (nextCopy key idx off k).lowers = 0 := by
  rw [nextCopy]
  split
  · exact ⟨rfl, rfl, rfl⟩
  · split <;> exact ⟨rfl, rfl, rfl⟩

/-- An access that puts the packet somewhere settles what the thread owes, and one that publishes or
evicts a slot is followed by the one that counts it. -/
theorem tally_access (hacc : Access c t pc (t', pc')) :
    pc'.owes + pc.credits + pc.fails = pc.owes ∧ pc'.raises = pc.publishes ∧
      pc'.lowers = pc.buries := by
  cases hacc with
  | load loads looking =>
    obtain ⟨howes, hraises, hlowers⟩ := looking.tally
    obtain ⟨hcredits, hfails, hpublishes, hburies⟩ := loads.tally
    rw [howes, hraises, hlowers, hcredits, hfails, hpublishes, hburies, loads.looking.tally.1]
    exact ⟨rfl, rfl, rfl⟩
  | claim loads =>
    obtain ⟨hcredits, hfails, hpublishes, hburies⟩ := loads.tally
    rw [hcredits, hfails, hpublishes, hburies, loads.looking.tally.1]
    exact ⟨rfl, rfl, rfl⟩
  | noteFull looksOn | endEvict _ _ looksOn =>
    obtain ⟨howes, hraises, hlowers⟩ := looksOn.looking.tally
    rw [howes, hraises, hlowers]
    exact ⟨rfl, rfl, rfl⟩
  | reserve | copy =>
    obtain ⟨howes, hraises, hlowers⟩ := tally_nextCopy c.key _ _ _
    rw [howes, hraises, hlowers]
    exact ⟨rfl, rfl, rfl⟩
  | store idx off field => cases field <;> exact ⟨rfl, rfl, rfl⟩
  | _ => exact ⟨rfl, rfl, rfl⟩

/-! ### What an access does to the counters -/

/-- One access adds to `insert_failed` what it fails. -/
theorem insertFailed_access (hacc : Access c t pc (t', pc'))
    (hwrap : pc = .fail → t.insertFailed.toNat + 1 < 2 ^ 64) :
    t'.insertFailed.toNat = t.insertFailed.toNat + pc.fails := by
  cases hacc with
  | fail => exact toNat_add_one (hwrap rfl)
  | load loads | claim loads =>
    rw [loads.tally.2.1]
    rfl
  | _ => rfl

/-- One access adds to `occupied_count` what it raises and takes what it lowers. -/
theorem occupiedCount_access (hacc : Access c t pc (t', pc')) (hle : t.occupiedCount ≤ max32) :
    t'.occupiedCount ≤ max32 ∧
      t'.occupiedCount + pc.lowers ≡ t.occupiedCount + pc.raises [MOD 2 ^ 32] := by
  cases hacc with
  | countSlot count_eq =>
    simp only [Pc.lowers, Pc.raises, Nat.ModEq, max32, u32] at *
    omega
  | uncount victim count_eq =>
    simp only [Pc.lowers, Pc.raises, Nat.ModEq, max32, sub32] at *
    omega
  | load loads | claim loads =>
    obtain ⟨-, hraises, hlowers⟩ := loads.looking.tally
    rw [hraises, hlowers]
    exact ⟨hle, rfl⟩
  | _ => exact ⟨hle, rfl⟩

/-- A thread that copies its key fills no slot yet. -/
theorem filling_nextCopy (key : Key) (idx off k : ℕ) : (nextCopy key idx off k).filling = none := by
  rw [nextCopy]
  split
  · rfl
  · split <;> rfl

/-- A slot begins to be filled with its first packet, and is filled until it is published. -/
theorem filling_access (hacc : Access c t pc (t', pc')) (j : ℕ) : pc'.filling = some j ↔
    (∃ off, pc = .store j off .packets) ∨ pc.filling = some j ∧ ∀ off, pc ≠ .publish j off := by
  have hneither : ∀ {pc pc' : Pc}, pc'.filling = none → pc.filling = none →
      (∀ off, pc ≠ .store j off .packets) → (pc'.filling = some j ↔
        (∃ off, pc = .store j off .packets) ∨ pc.filling = some j ∧ ∀ off, pc ≠ .publish j off) := by
    intro pc pc' hafter hbefore hstore
    rw [hafter, hbefore]
    refine iff_of_false nofun ?_
    rintro (⟨off, hpc⟩ | ⟨hfilling, -⟩)
    · exact hstore off hpc
    · cases hfilling
  cases hacc with
  | load loads looking =>
    refine hneither looking.filling_eq loads.looking.filling_eq fun off hpc => ?_
    rw [hpc] at loads
    exact loads
  | claim loads =>
    refine hneither rfl loads.looking.filling_eq fun off hpc => ?_
    rw [hpc] at loads
    exact loads
  | noteFull looksOn | endEvict _ _ looksOn => exact hneither looksOn.looking.filling_eq rfl nofun
  | reserve | copy => exact hneither (filling_nextCopy ..) rfl nofun
  | store idx off field =>
    cases field <;> simp [nextStore, SlotField.next, Pc.filling, SlotField.rank]
  | endWrite idx off => simp [Pc.filling]
  | publish idx off => simp [Pc.filling]
  | _ => exact hneither rfl rfl nofun

/-- The packets of a slot. -/
theorem packets_access (hacc : Access c t pc (t', pc')) {j : ℕ} (hcount : pc ≠ .countPacket j)
    (hstore : ∀ off, pc ≠ .store j off .packets) : (t'.slots j).packets = (t.slots j).packets := by
  have hmodify : ∀ (idx : ℕ) (f : Slot → Slot), (j = idx → (f (t.slots idx)).packets = (t.slots idx).packets) →
      ((t.modifySlot idx f).slots j).packets = (t.slots j).packets := by
    intro idx f hf
    rw [modifySlot_slots]
    split
    · rename_i hidx
      rw [hf hidx, hidx]
    · rfl
  cases hacc with
  | claim | unclaim | publish | bury => exact hmodify _ _ fun _ => rfl
  | countPacket idx => exact hmodify _ _ fun hidx => absurd (by rw [hidx]) hcount
  | countBytes => exact hmodify _ _ fun _ => rfl
  | stamp => exact hmodify _ _ fun _ => rfl
  | store idx off field =>
    refine hmodify _ _ fun hidx => ?_
    cases field with
    | packets => exact absurd (by rw [hidx]) (hstore off)
    | _ => rfl
  | _ => rfl

/-- The packet is counted in its slot. -/
theorem packets_countPacket {j : ℕ} (hacc : Access c t (.countPacket j) (t', pc')) :
    (t'.slots j).packets = (t.slots j).packets + 1 := by
  cases hacc with
  | load loads | claim loads => exact loads.elim
  | countPacket => rw [modifySlot_slots, if_pos rfl]

/-- A new slot starts with one packet. -/
theorem packets_store {j off : ℕ} (hacc : Access c t (.store j off .packets) (t', pc')) :
    (t'.slots j).packets = 1 := by
  cases hacc with
  | load loads | claim loads => exact loads.elim
  | store => rw [modifySlot_slots, if_pos rfl, Slot.storeField]

/-- A slot is occupied from its `publish` on, until it is evicted. -/
theorem occupied_access_iff (hacc : Access c t pc (t', pc'))
    (hclaimed : ∀ j, pc.claimed = some j → (t.slots j).flags = .inserting) (j : ℕ) :
    (t'.slots j).flags = .occupied ↔
      (∃ off, pc = .publish j off) ∨ (t.slots j).flags = .occupied ∧ pc ≠ .bury j := by
  constructor
  · intro hocc
    rcases occupied_access hacc hocc with hbefore | hpublish
    · refine Or.inr ⟨hbefore, ?_⟩
      rintro rfl
      cases hacc with
      | load loads | claim loads => exact loads
      | bury =>
        rw [setFlags_slots, if_pos rfl] at hocc
        cases hocc
    · exact Or.inl hpublish
  · rintro (⟨off, rfl⟩ | ⟨hbefore, hbury⟩)
    · cases hacc with
      | load loads | claim loads => exact loads.elim
      | publish => rw [setFlags_slots, if_pos rfl]
    · have hother : pc.claimed ≠ some j := by
        intro heq
        cases hbefore.symm.trans (hclaimed j heq)
      have hfree : ¬ (t.slots j).flags.Reusable := by
        rw [hbefore]
        rintro (hfree | hfree) <;> cases hfree
      rw [flags_access hacc hother hbury hfree, hbefore]

end CounterTable

namespace SharedTable

open CounterTable

variable {W : Type} {s : SharedTable W} {w : W}

/-! ### The slots whose packets count -/

/-- The packets in a slot, none unless they count. -/
noncomputable def part (s : SharedTable W) (j : ℕ) : ℕ :=
  open Classical in if s.Counts j then (s.table.slots j).packets.toNat else 0

/-- The packets in all slots. -/
noncomputable def counted (s : SharedTable W) : ℕ := ∑ j ∈ Finset.range s.table.numSlots, s.part j

/-- A slot that counts has its packets as its part. -/
theorem part_of_counts {j : ℕ} (h : s.Counts j) : s.part j = (s.table.slots j).packets.toNat := if_pos h

/-- Any other slot has no part. -/
theorem part_of_not {j : ℕ} (h : ¬ s.Counts j) : s.part j = 0 := if_neg h

/-- A slot whose packets are stored next has none that count. -/
theorem Owned.not_counts (h : s.Owned) {idx off : ℕ} (hpc : s.pc w = .store idx off .packets) :
    ¬ s.Counts idx := by
  have hclaimed : (s.pc w).claimed = some idx := by rw [hpc]; rfl
  rintro (hocc | ⟨v, hv⟩)
  · cases hocc.symm.trans (h.claimed w idx hclaimed)
  · obtain rfl := h.unique v w idx (Pc.claimed_of_filling hv) hclaimed
    rw [hpc] at hv
    cases hv

/-- The key of an occupied slot lies inside the arena. -/
theorem Owned.key_eq (h : s.Owned) {j : ℕ} (hj : j < s.table.numSlots)
    (hocc : (s.table.slots j).flags = .occupied) : s.table.key (s.table.slots j) =
      some (s.table.keyArena.read (s.table.slots j).keyOffset (s.table.slots j).keyLen) := by
  have hinside := h.inside j _ _ (.occupied hj hocc)
  rw [ByteMemory.length_read] at hinside
  rw [key, if_neg (not_not.mpr hocc), u32_of_le (hinside.trans h.capacity), if_neg (Nat.not_lt.mpr hinside)]

section Access

variable [DecidableEq W]

/-- After an access the slots that count are those that did, with the one just filled and without the
one just evicted. -/
theorem Owned.counts_access (h : s.Owned) (hund : s.Undisturbed (.access w)) (j : ℕ) :
    (s.access w).Counts j ↔
      (∃ off, s.pc w = .store j off .packets) ∨ s.Counts j ∧ s.pc w ≠ .bury j := by
  have hacc := (h.access_step w).1
  have hocc := occupied_access_iff hacc (h.claimed w) j
  have hfilling := filling_access hacc j
  -- a slot that is being filled is not evicted under the worker that fills it
  have hbury : ∀ v, (s.pc v).filling = some j → s.pc w ≠ .bury j := by
    intro v hv hpc
    cases (h.claimed v j (Pc.claimed_of_filling hv)).symm.trans (hund.bury hpc)
  constructor
  · rintro (hafter | ⟨v, hv⟩)
    · rcases hocc.mp hafter with ⟨off, hpc⟩ | ⟨hbefore, hne⟩
      · exact Or.inr ⟨Or.inr ⟨w, by rw [hpc]; rfl⟩, by rw [hpc]; nofun⟩
      · exact Or.inr ⟨Or.inl hbefore, hne⟩
    · by_cases hvw : v = w
      · subst hvw
        rcases hfilling.mp hv with hstore | ⟨hbefore, -⟩
        · exact Or.inl hstore
        · exact Or.inr ⟨Or.inr ⟨v, hbefore⟩, hbury v hbefore⟩
      · rw [access_pc_of_ne hvw] at hv
        exact Or.inr ⟨Or.inr ⟨v, hv⟩, hbury v hv⟩
  · rintro (hstore | ⟨hbefore | ⟨v, hv⟩, hne⟩)
    · exact Or.inr ⟨w, hfilling.mpr (Or.inl hstore)⟩
    · exact Or.inl (hocc.mpr (Or.inr ⟨hbefore, hne⟩))
    · by_cases hvw : v = w
      · subst hvw
        by_cases hpublish : ∃ off, s.pc v = .publish j off
        · exact Or.inl (hocc.mpr (Or.inl hpublish))
        · exact Or.inr ⟨v, hfilling.mpr (Or.inr ⟨hv, not_exists.mp hpublish⟩)⟩
      · exact Or.inr ⟨v, by rwa [access_pc_of_ne hvw]⟩

/-- Most accesses leave the packets in a slot alone. -/
theorem Owned.part_access (h : s.Owned) (hund : s.Undisturbed (.access w)) {j : ℕ}
    (hcount : s.pc w ≠ .countPacket j) (hstore : ∀ off, s.pc w ≠ .store j off .packets)
    (hbury : s.pc w ≠ .bury j) : (s.access w).part j = s.part j := by
  have hcounts : (s.access w).Counts j ↔ s.Counts j := by
    rw [h.counts_access hund, or_iff_right (not_exists.mpr hstore), and_iff_left hbury]
  have hpackets := packets_access (h.access_step w).1 hcount hstore
  by_cases hbefore : s.Counts j
  · rw [part_of_counts hbefore, part_of_counts (hcounts.mpr hbefore), hpackets]
  · rw [part_of_not hbefore, part_of_not fun hafter => hbefore (hcounts.mp hafter)]

/-- An access puts a packet into a slot, takes the packets of a slot out or leaves them alone. -/
theorem Owned.counted_access (h : s.Owned) (hund : s.Undisturbed (.access w)) :
    (s.access w).counted + s.buried w = s.counted + (s.pc w).credits := by
  obtain ⟨hacc, -⟩ := h.access_step w
  have hn : (s.access w).table.numSlots = s.table.numSlots := congrArg Prod.fst (shape_access hacc)
  have hvalid := h.valid w
  -- an access changes the part of one slot at most
  have hone : ∀ {idx}, idx < s.table.numSlots → (∀ j ≠ idx, (s.access w).part j = s.part j) →
      (s.access w).counted + s.part idx = s.counted + (s.access w).part idx := by
    intro idx hidx hne
    rw [counted, hn]
    exact CounterTable.sum_step (Finset.mem_range.mpr hidx) fun j _ => hne j
  have hsame : (∀ j, s.pc w ≠ .countPacket j) → (∀ j off, s.pc w ≠ .store j off .packets) →
      (∀ j, s.pc w ≠ .bury j) → (s.access w).counted = s.counted := by
    intro hcount hstore hbury
    rw [counted, hn]
    exact Finset.sum_congr rfl fun j _ => h.part_access hund (hcount j) (hstore j) (hbury j)
  have hcounts := h.counts_access hund
  cases hpc : s.pc w with
  | countPacket idx =>
    rw [hpc] at hacc hvalid hcounts
    have hsum := hone hvalid fun j hj => h.part_access hund
      (by rw [hpc]; exact fun heq => hj (Pc.countPacket.inj heq).symm) (by rw [hpc]; nofun)
      (by rw [hpc]; nofun)
    obtain ⟨hbefore, hwrap⟩ := hund.countPacket hpc
    rw [part_of_counts hbefore, part_of_counts ((hcounts idx).mpr (Or.inr ⟨hbefore, nofun⟩)),
      packets_countPacket hacc, toNat_add_one hwrap] at hsum
    simp only [buried, hpc, Pc.credits]
    omega
  | store idx off field =>
    by_cases hfield : field = .packets
    · subst hfield
      rw [hpc] at hacc hvalid hcounts
      have hsum := hone hvalid fun j hj => h.part_access hund (by rw [hpc]; nofun)
        (by rw [hpc]; exact fun off heq => hj (Pc.store.inj heq).1.symm) (by rw [hpc]; nofun)
      rw [part_of_not (h.not_counts hpc), part_of_counts ((hcounts idx).mpr (Or.inl ⟨off, rfl⟩)),
        packets_store hacc] at hsum
      simp only [buried, hpc, Pc.credits]
      exact hsum
    · have hcredits : (Pc.store idx off field).credits = 0 := by
        cases field <;> first | rfl | exact absurd rfl hfield
      rw [hsame (by rw [hpc]; nofun) (by rw [hpc]; exact fun j off heq => hfield (Pc.store.inj heq).2.2)
        (by rw [hpc]; nofun), buried, hpc, hcredits]
  | bury victim =>
    rw [hpc] at hvalid hcounts
    have hsum := hone hvalid fun j hj => h.part_access hund (by rw [hpc]; nofun) (by rw [hpc]; nofun)
      (by rw [hpc]; exact fun heq => hj (Pc.bury.inj heq).symm)
    have hafter : ¬ (s.access w).Counts victim := by
      intro hafter
      rcases (hcounts victim).mp hafter with ⟨off, heq⟩ | ⟨-, hne⟩
      · cases heq
      · exact hne rfl
    rw [part_of_counts (Or.inl (hund.bury hpc)), part_of_not hafter] at hsum
    simp only [buried, hpc, Pc.credits]
    exact hsum
  | _ =>
    rw [hsame (by rw [hpc]; nofun) (by rw [hpc]; nofun) (by rw [hpc]; nofun), buried, hpc]
    rfl

/-- A thread that starts a call fills no slot yet. -/
theorem counts_call {ok : Bool} (hpc : s.pc w = .returned ok) (c : UpdateCall) (j : ℕ) :
    (s.step (.call w c)).Counts j ↔ s.Counts j := by
  rw [step_call hpc]
  refine or_congr_right (exists_congr fun v => ?_)
  by_cases hv : v = w
  · subst hv
    simp only [Function.update_self, hpc]
    exact iff_of_false (by rw [looksOn_start.looking.filling_eq]; nofun) nofun
  · simp only [Function.update_of_ne hv]

/-- The start of a call counts nothing. -/
theorem counted_call {ok : Bool} (hpc : s.pc w = .returned ok) (c : UpdateCall) :
    (s.step (.call w c)).counted = s.counted := by
  have hpart : ∀ j, (s.step (.call w c)).part j = s.part j := by
    intro j
    have hcounts := counts_call hpc c j
    by_cases hbefore : s.Counts j
    · rw [part_of_counts hbefore, part_of_counts (hcounts.mpr hbefore), step_call hpc]
    · rw [part_of_not hbefore, part_of_not fun hafter => hbefore (hcounts.mp hafter)]
  rw [counted, counted, Finset.sum_congr rfl fun j _ => hpart j, step_call hpc]

/-! ### The occupied slots -/

/-- An access publishes a slot, evicts one or leaves the number of occupied slots alone. -/
theorem Owned.occupied_access (h : s.Owned) (hund : s.Undisturbed (.access w)) :
    held (fun _ => 1) (s.access w).table + (s.pc w).buries =
      held (fun _ => 1) s.table + (s.pc w).publishes := by
  obtain ⟨hacc, -⟩ := h.access_step w
  have hn : (s.access w).table.numSlots = s.table.numSlots := congrArg Prod.fst (shape_access hacc)
  have hvalid := h.valid w
  have hocc := occupied_access_iff hacc (h.claimed w)
  -- only publishing and burying change whether a slot is occupied
  have hshare : ∀ {j}, (∀ off, s.pc w ≠ .publish j off) → s.pc w ≠ .bury j →
      share (fun _ => 1) ((s.access w).table.slots j) = share (fun _ => 1) (s.table.slots j) := by
    intro j hpublish hbury
    have hsame := hocc j
    rw [or_iff_right (not_exists.mpr hpublish), and_iff_left hbury] at hsame
    by_cases hbefore : (s.table.slots j).flags = .occupied
    · rw [share_of_occupied hbefore, share_of_occupied (hsame.mpr hbefore)]
    · rw [share_of_not hbefore, share_of_not fun hafter => hbefore (hsame.mp hafter)]
  have hsame : (∀ j off, s.pc w ≠ .publish j off) → (∀ j, s.pc w ≠ .bury j) →
      held (fun _ => 1) (s.access w).table = held (fun _ => 1) s.table := by
    intro hpublish hbury
    rw [held, hn]
    exact Finset.sum_congr rfl fun j _ => hshare (hpublish j) (hbury j)
  cases hpc : s.pc w with
  | publish idx off =>
    rw [hpc] at hvalid hocc
    have hsum := CounterTable.sum_step (Finset.mem_range.mpr hvalid) fun j _ hj => hshare
      (by rw [hpc]; exact fun off heq => hj (Pc.publish.inj heq).1.symm)
      (by rw [hpc]; intro h; cases h)
    have hbefore : (s.table.slots idx).flags ≠ .occupied := by
      rw [h.claimed w idx (by rw [hpc]; rfl)]
      decide
    rw [share_of_not hbefore, share_of_occupied ((hocc idx).mpr (Or.inl ⟨off, rfl⟩))] at hsum
    rw [held, hn]
    exact hsum
  | bury victim =>
    rw [hpc] at hvalid hocc
    have hsum := CounterTable.sum_step (Finset.mem_range.mpr hvalid) fun j _ hj => hshare
      (by rw [hpc]; intro off h; cases h) (by rw [hpc]; exact fun heq => hj (Pc.bury.inj heq).symm)
    have hafter : ((s.access w).table.slots victim).flags ≠ .occupied := by
      intro hafter
      rcases (hocc victim).mp hafter with ⟨off, heq⟩ | ⟨-, hne⟩
      · cases heq
      · exact hne rfl
    rw [share_of_occupied (hund.bury hpc), share_of_not hafter] at hsum
    rw [held, hn]
    exact hsum
  | _ =>
    rw [hsame (by rw [hpc]; intro j off h; cases h) (by rw [hpc]; intro j h; cases h)]
    rfl

end Access

/-! ### The ledger -/

section Ledger

variable [Fintype W]

/-- What the table, its threads and the calls so far add up to. -/
structure Ledger (s : SharedTable W) : Prop extends s.Owned where
  packets : s.counted + ∑ v, (s.pc v).owes + s.evicted + s.table.insertFailed.toNat = s.performed
  count_le : s.table.occupiedCount ≤ max32
  count : s.table.occupiedCount + ∑ v, (s.pc v).raises ≡
    held (fun _ => 1) s.table + ∑ v, (s.pc v).lowers [MOD 2 ^ 32]

/-- Before the first call there is nothing to account for. -/
theorem ledger_ofTable {maxKeys width : ℕ} {alloc : Alloc} {t : CounterTable}
    (hcreate : counterTableCreate maxKeys width alloc = some t) :
    (ofTable t : SharedTable W).Ledger := by
  obtain ⟨-, -, -, hgeom, hfresh, -⟩ := counterTableCreate_some hcreate
  -- a fresh table has no occupied slot, and no worker is inside a call
  have hcounts : ∀ j, ¬ (ofTable t : SharedTable W).Counts j := by
    rintro j (hocc | ⟨w, hfilling⟩)
    · change (t.slots j).flags = .occupied at hocc
      rw [hfresh.slots j] at hocc
      cases hocc
    · cases hfilling
  have hkeeps : ∀ {j off bytes}, ¬ (ofTable t : SharedTable W).Keeps j off bytes := by
    intro j off bytes hkeeps
    cases hkeeps with
    | occupied hj hocc => exact hcounts j (Or.inl hocc)
    | filling hplaced => cases hplaced
  refine { toGeometry := hgeom, valid := fun _ => trivial, claimed := nofun, unique := nofun,
           placed := nofun, inside := ?_, apart := ?_, packets := ?_, count_le := ?_, count := ?_ }
  · exact fun j off bytes h => absurd h hkeeps
  · exact fun j off bytes j' off' bytes' h => absurd h hkeeps
  · have hcounted : (ofTable t : SharedTable W).counted = 0 :=
      Finset.sum_eq_zero fun j _ => part_of_not (hcounts j)
    have howed : ∑ v, ((ofTable t : SharedTable W).pc v).owes = 0 := Finset.sum_eq_zero fun v _ => rfl
    rw [hcounted, howed]
    change 0 + 0 + 0 + t.insertFailed.toNat = 0
    rw [hfresh.insertFailed]
    rfl
  · exact hfresh.occupiedCount.trans_le (Nat.zero_le _)
  · have hheld : held (fun _ => 1) t = 0 := held_of_create hcreate _
    change t.occupiedCount + ∑ v : W, 0 ≡ held (fun _ => 1) t + ∑ v : W, 0 [MOD 2 ^ 32]
    rw [hfresh.occupiedCount, hheld]

/-- With no update in progress nothing is with a thread. -/
theorem Ledger.consistent (h : s.Ledger) : s.Consistent := by
  intro hidle
  -- every worker has returned, so no call owes anything to the sums
  have hnone : ∀ f : Pc → ℕ, (∀ ok, f (.returned ok) = 0) → ∑ v, f (s.pc v) = 0 := by
    intro f hf
    refine Finset.sum_eq_zero fun v _ => ?_
    obtain ⟨ok, hpc⟩ := hidle v
    rw [hpc, hf]
  refine ⟨fun i hi j hj hocc hocc' hkey => ?_, ?_, ?_⟩
  · by_contra hne
    refine (h.apart i _ _ j _ _ (.occupied hi hocc) (.occupied hj hocc') hne).1 ?_
    rw [h.key_eq hi hocc, h.key_eq hj hocc'] at hkey
    exact Option.some.inj hkey
  · have hcount := h.count
    rw [hnone Pc.raises fun _ => rfl, hnone Pc.lowers fun _ => rfl] at hcount
    have hheld := held_one_le s.table
    have hslots := h.numSlots_le
    have hle := h.count_le
    simp only [Nat.ModEq, max32] at hcount hle
    omega
  · have hcounted : s.counted = held slotPackets s.table := by
      refine Finset.sum_congr rfl fun j _ => ?_
      have hcounts : s.Counts j ↔ (s.table.slots j).flags = .occupied := by
        refine or_iff_left ?_
        rintro ⟨v, hv⟩
        obtain ⟨ok, hpc⟩ := hidle v
        rw [hpc] at hv
        cases hv
      by_cases hocc : (s.table.slots j).flags = .occupied
      · rw [part_of_counts (hcounts.mpr hocc), share_of_occupied hocc, slotPackets]
      · rw [part_of_not fun hbefore => hocc (hcounts.mp hbefore), share_of_not hocc]
    have hpackets := h.packets
    rwa [hnone Pc.owes fun _ => rfl, hcounted, Nat.add_zero] at hpackets

variable [DecidableEq W]

/-- What the threads have together, when one of them goes on. -/
theorem sum_pc {s' : SharedTable W} (h : ∀ v ≠ w, s'.pc v = s.pc v) (f : Pc → ℕ) :
    ∑ v, f (s'.pc v) + f (s.pc w) = ∑ v, f (s.pc v) + f (s'.pc w) :=
  CounterTable.sum_step (f := fun v => f (s.pc v)) (g := fun v => f (s'.pc v)) (Finset.mem_univ w)
    fun v _ hv => congrArg f (h v hv)

/-- An undisturbed access keeps the ledger. -/
theorem Ledger.access (h : s.Ledger) (hund : s.Undisturbed (.access w)) : (s.access w).Ledger := by
  obtain ⟨hacc, -⟩ := h.access_step w
  obtain ⟨howes, hraises, hlowers⟩ := tally_access hacc
  obtain ⟨hle, hcount⟩ := occupiedCount_access hacc h.count_le
  have hother : ∀ v ≠ w, (s.access w).pc v = s.pc v := fun v hv => access_pc_of_ne hv
  have hsum := fun f : Pc → ℕ => sum_pc hother f
  refine { toOwned := h.toOwned.access hund, packets := ?_, count_le := hle, count := ?_ }
  · have hcounted := h.counted_access hund
    have hfailed := insertFailed_access hacc hund.fail
    have hevicted : (s.access w).evicted = s.evicted + s.buried w := rfl
    have hperformed : (s.access w).performed = s.performed := rfl
    have hbefore := h.packets
    have howed := hsum Pc.owes
    omega
  · have hoccupied := h.toOwned.occupied_access hund
    have hbefore := h.count
    have hraised := hsum Pc.raises
    have hlowered := hsum Pc.lowers
    simp only [Nat.ModEq] at hcount hbefore ⊢
    omega

/-- The packet of a new call is with the thread. -/
theorem Ledger.call (h : s.Ledger) {ok : Bool} (hpc : s.pc w = .returned ok) (c : UpdateCall) :
    (s.step (.call w c)).Ledger := by
  have hcounted := counted_call hpc c
  have hpc' : (s.step (.call w c)).pc = Function.update s.pc w s.table.start := by rw [step_call hpc]
  have htable : (s.step (.call w c)).table = s.table := by rw [step_call hpc]
  have hevicted : (s.step (.call w c)).evicted = s.evicted := by rw [step_call hpc]
  have hperformed : (s.step (.call w c)).performed = s.performed + 1 := by rw [step_call hpc]
  obtain ⟨howes, hraises, hlowers⟩ := (looksOn_start (t := s.table)).looking.tally
  have hsum : ∀ f : Pc → ℕ, ∑ v, f ((s.step (.call w c)).pc v) + f (.returned ok) =
      ∑ v, f (s.pc v) + f s.table.start := by
    intro f
    have hother : ∀ v ≠ w, (s.step (.call w c)).pc v = s.pc v := by
      intro v hv
      rw [hpc', Function.update_of_ne hv]
    have hsum := sum_pc hother f
    rwa [hpc, hpc', Function.update_self, ← hpc'] at hsum
  refine { toOwned := h.toOwned.call hpc c, packets := ?_, count_le := htable ▸ h.count_le, count := ?_ }
  · have howed : ∑ v, ((s.step (.call w c)).pc v).owes = ∑ v, (s.pc v).owes + 1 := howes ▸ hsum Pc.owes
    have hbefore := h.packets
    rw [hcounted, howed, hevicted, hperformed, htable]
    omega
  · have hraised : ∑ v, ((s.step (.call w c)).pc v).raises = ∑ v, (s.pc v).raises :=
      (hsum Pc.raises).trans (congrArg (_ + ·) hraises)
    have hlowered : ∑ v, ((s.step (.call w c)).pc v).lowers = ∑ v, (s.pc v).lowers :=
      (hsum Pc.lowers).trans (congrArg (_ + ·) hlowers)
    rw [hraised, hlowered, htable]
    exact h.count

/-- An undisturbed event keeps the ledger. -/
theorem Ledger.step (h : s.Ledger) {e : ThreadEvent W} (hund : s.Undisturbed e) :
    (s.step e).Ledger := by
  cases e with
  | access w => exact h.access hund
  | call w c =>
    cases hpc : s.pc w with
    | returned ok => exact h.call hpc c
    | _ =>
      simp only [SharedTable.step, hpc]
      exact h

/-- In every run whose accesses are not disturbed by what other threads have done, the table is consistent
whenever no update is in progress. -/
theorem consistent_of_undisturbed {maxKeys width : ℕ} {alloc : Alloc} {t : CounterTable}
    (hcreate : counterTableCreate maxKeys width alloc = some t) {events : List (ThreadEvent W)}
    (h : Runs.Meets step Undisturbed (ofTable t) events) :
    Runs.Throughout step Consistent (ofTable t) events :=
  Runs.throughout_of_meets (ledger_ofTable hcreate) (fun _ _ hledger => hledger.step)
    (fun _ hledger => hledger.consistent) h

end Ledger

/-! ### Two threads -/

/-- A key of one byte. -/
def oneByte (keyHash : UInt64) (b : UInt8) : UpdateCall :=
  ⟨keyHash, ⟨[b], Nat.lt_of_sub_eq_succ rfl⟩, 60, 1⟩

/-- Two threads take turns to insert different keys. -/
def takingTurns : List (ThreadEvent (Fin 2)) :=
  [.call 0 (oneByte 0 1), .call 1 (oneByte 1 2)] ++
    (List.replicate 15 [ThreadEvent.access 0, .access 1]).flatten

/-- Both keys are stored and counted. -/
theorem consistent_taking_turns : ∃ t, counterTableCreate 2 1 ⟨true, fun _ => 0⟩ = some t ∧
    (Runs.run step (ofTable t) takingTurns).table.occupiedCount = 2 ∧
    Runs.Throughout step Consistent (ofTable t) takingTurns :=
  ⟨_, rfl, by decide +kernel, consistent_of_undisturbed
    (show counterTableCreate 2 1 ⟨true, fun _ => 0⟩ = some _ from rfl) (by decide +kernel)⟩

/-- Two threads insert the same key. The second one passes over the slot that the first one has claimed
and not filled yet. -/
def sameKey : List (ThreadEvent (Fin 2)) :=
  [.call 0 (oneByte 0 1), .call 1 (oneByte 0 1)] ++ List.replicate 3 (.access 0) ++
    List.replicate 16 (.access 1) ++ List.replicate 12 (.access 0)

/-- A thread inserts a key and finds it again. Before it counts the second packet, another thread evicts
the key, and fails for want of arena. -/
def countedTooLate : List (ThreadEvent (Fin 2)) :=
  .call 0 (oneByte 0 1) :: List.replicate 15 (.access 0) ++ .call 0 (oneByte 0 1) ::
    List.replicate 5 (.access 0) ++ .call 1 (oneByte 1 2) :: List.replicate 16 (.access 1) ++
    List.replicate 3 (.access 0)

/-- The first two threads store the key twice; a packet of the other two is in no counter. -/
theorem not_consistent_sameKey :
    (∃ t, counterTableCreate 2 1 ⟨true, fun _ => 0⟩ = some t ∧
      let s := Runs.run step (ofTable t) sameKey
      s.Idle ∧ (∀ j < 2, (s.table.slots j).flags = .occupied ∧
        s.table.key (s.table.slots j) = some [1]) ∧
      ¬ Runs.Throughout step Consistent (ofTable t) sameKey) ∧
    ∃ t, counterTableCreate 1 1 ⟨true, fun _ => 0⟩ = some t ∧
      let s := Runs.run step (ofTable t) countedTooLate
      s.Idle ∧ held slotPackets s.table + s.evicted + s.table.insertFailed.toNat = 2 ∧
        s.performed = 3 := by
  have hidle : ∀ s : SharedTable (Fin 2), (∀ w, s.pc w = .returned true ∨ s.pc w = .returned false) →
      s.Idle := by
    intro s h w
    rcases h w with h | h
    · exact ⟨true, h⟩
    · exact ⟨false, h⟩
  refine ⟨⟨_, rfl, hidle _ (by decide +kernel), by decide +kernel, fun h => ?_⟩, _, rfl,
    hidle _ (by decide +kernel), by decide +kernel, by decide +kernel⟩
  have hkeys := (h sameKey [] (List.append_nil _).symm (hidle _ (by decide +kernel))).1 0
    (by decide +kernel) 1 (by decide +kernel) (by decide +kernel) (by decide +kernel) (by decide +kernel)
  cases hkeys

end SharedTable

end InFMon
