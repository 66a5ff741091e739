import InFMon.CounterTable.Eviction
import InFMon.CounterTable.Representation
import InFMon.CounterTable.Shape

/-! # Failed updates

Why an update fails when no other writer is at work, and what it does then to the keys in the table.
Nothing is assumed about the arena here: the lengths of the keys and what slots refer to may be anything,
so the lookup is taken by what `key_matches` answers and not by the keys that slots hold. -/

namespace InFMon

open MachineWord OpenAddressing

namespace CounterTable

/-- A table between two updates of its only writer, whatever its arena is like. -/
structure Tidy (t : CounterTable) : Prop extends t.Geometry where
  noInserting : ∀ j < t.numSlots, (t.slots j).flags ≠ .inserting
  count : t.occupiedCount = held (fun _ => 1) t

variable {t : CounterTable} {keyHash pktBytes tick : UInt64} {key : Key} {c : UpdateCall}

/-- A new table is tidy. -/
theorem tidy_of_create {maxKeys width : ℕ} {alloc : Alloc}
    (h : counterTableCreate maxKeys width alloc = some t) : t.Tidy := by
  obtain ⟨-, -, -, hgeom, hfresh, -⟩ := counterTableCreate_some h
  refine { toGeometry := hgeom, noInserting := fun j _ => ?_, count := ?_ }
  · rw [hfresh.slots j]
    decide
  · rw [hfresh.occupiedCount, held_of_create h]

/-! ### The search -/

/-- The slot array with only the answer of `key_matches` for every occupied slot. -/
def matchCell (t : CounterTable) (keyHash : UInt64) (key : Key) (j : ℕ) : Cell Bool :=
  match (t.slots j).flags with
  | .free => .free
  | .occupied => .full (t.keyMatches (t.slots j) keyHash key)
  | .tombstone => .tomb
  | .inserting => .busy

/-- A match is looked for from the home slot of the hash. -/
def matchHome (t : CounterTable) (keyHash : UInt64) (_ : Bool) : ℕ := t.homeSlot keyHash

/-- An occupied slot, whose key is the given one or not. -/
theorem matchCell_eq_full_iff {j : ℕ} {b : Bool} : t.matchCell keyHash key j = .full b ↔
    (t.slots j).flags = .occupied ∧ t.keyMatches (t.slots j) keyHash key = b := by
  unfold matchCell
  split <;> simp_all

/-- Phase 1 is the lookup of a match. -/
theorem Geometry.searchSlot_eq (h : t.Geometry) (keyHash : UInt64) (key : Key) :
    t.searchSlot (t.homeSlot keyHash) keyHash key t.numSlots 0 none =
      lookup t.numSlots (t.matchHome keyHash) (t.matchCell keyHash key) true := by
  have hloop : ∀ fuel i candidate, t.searchSlot (t.homeSlot keyHash) keyHash key fuel i candidate =
      search t.numSlots (t.matchCell keyHash key) (t.homeSlot keyHash) true fuel i candidate := by
    intro fuel
    induction fuel with
    | zero => exact fun i candidate => rfl
    | succ fuel ih =>
      intro i candidate
      rw [searchSlot, search]
      simp only [h.probeIdx_eq]
      cases hflags : (t.slots (probe t.numSlots (t.homeSlot keyHash) i)).flags with
      | free => simp only [matchCell, hflags]
      | occupied => simp only [matchCell, hflags, ih]
      | tombstone => simp only [matchCell, hflags, ih]
      | inserting => simp only [matchCell, hflags, ih]
  exact hloop _ _ _

/-- A slot that is not free for another key is occupied by one that does not match. -/
theorem Tidy.other_of_taken (h : t.Tidy) {j : ℕ} (hj : j < t.numSlots)
    (htaken : TakenFrom (t.matchCell keyHash key) true j) :
    (t.slots j).flags = .occupied ∧ t.keyMatches (t.slots j) keyHash key = false := by
  rcases htaken with hbusy | ⟨b, hb, hfull⟩
  · refine absurd ?_ (h.noInserting j hj)
    unfold matchCell at hbusy
    split at hbusy <;> simp_all
  · obtain ⟨hocc, hmatch⟩ := matchCell_eq_full_iff.mp hfull
    exact ⟨hocc, by rw [hmatch, Bool.eq_false_iff]; exact hb⟩

/-- The search of a call. -/
def find (t : CounterTable) (c : UpdateCall) : Found :=
  t.searchSlot (t.homeSlot c.keyHash) c.keyHash c.key t.numSlots 0 none

/-- The home of a match is a slot of the table. -/
theorem Geometry.matchHome_lt (h : t.Geometry) (keyHash : UInt64) (b : Bool) :
    t.matchHome keyHash b < t.numSlots :=
  h.homeSlot_lt keyHash

/-- From round `i` to round `n` of a search an occupied slot matches, and none before it is free. -/
def MatchAhead (t : CounterTable) (start : ℕ) (keyHash : UInt64) (key : Key) (n i : ℕ) : Prop :=
  ∃ k, i ≤ k ∧ k < n ∧ (t.slots (t.probeIdx start k)).flags = .occupied ∧
    t.keyMatches (t.slots (t.probeIdx start k)) keyHash key = true ∧
    ∀ l, i ≤ l → l < k → (t.slots (t.probeIdx start l)).flags ≠ .free

/-- The key of a call is in reach of its search. -/
def InReach (t : CounterTable) (c : UpdateCall) : Prop :=
  t.MatchAhead (t.homeSlot c.keyHash) c.keyHash c.key t.numSlots 0

/-- A slot that is neither free nor a match is passed. -/
theorem matchAhead_succ {start n i : ℕ} (hfree : (t.slots (t.probeIdx start i)).flags ≠ .free)
    (hmatch : (t.slots (t.probeIdx start i)).flags = .occupied →
      t.keyMatches (t.slots (t.probeIdx start i)) keyHash key ≠ true) :
    t.MatchAhead start keyHash key n (i + 1) ↔ t.MatchAhead start keyHash key n i := by
  constructor
  · rintro ⟨k, hik, hk, hocc, hm, hbefore⟩
    refine ⟨k, by omega, hk, hocc, hm, fun l hl hlk => ?_⟩
    rcases Nat.eq_or_lt_of_le hl with rfl | hlt
    · exact hfree
    · exact hbefore l hlt hlk
  · rintro ⟨k, hik, hk, hocc, hm, hbefore⟩
    rcases Nat.eq_or_lt_of_le hik with rfl | hlt
    · exact absurd hm (hmatch hocc)
    · exact ⟨k, hlt, hk, hocc, hm, fun l hl => hbefore l (by omega)⟩

/-- The search finds the key exactly when it is ahead. -/
theorem searchSlot_hit_iff (t : CounterTable) (start : ℕ) (keyHash : UInt64) (key : Key)
    {n : ℕ} (fuel i : ℕ) (candidate : Option ℕ) (hfuel : i + fuel = n) :
    (∃ j, t.searchSlot start keyHash key fuel i candidate = .hit j) ↔
      t.MatchAhead start keyHash key n i := by
  induction fuel generalizing i candidate with
  | zero =>
    refine iff_of_false (by rintro ⟨_, h⟩; cases h) ?_
    rintro ⟨k, hik, hk, -⟩
    omega
  | succ fuel ih =>
    rw [searchSlot]
    cases hflags : (t.slots (t.probeIdx start i)).flags with
    | free =>
      refine iff_of_false (by rintro ⟨_, h⟩; cases h) ?_
      rintro ⟨k, hik, -, hocc, -, hbefore⟩
      -- the scan stops at a free slot, and a match may not lie behind one
      rcases Nat.eq_or_lt_of_le hik with rfl | hlt
      · rw [hflags] at hocc
        cases hocc
      · exact hbefore i le_rfl hlt hflags
    | tombstone =>
      exact (ih (i + 1) _ (by omega)).trans
        (matchAhead_succ (by rw [hflags]; decide) (by rw [hflags]; intro h; cases h))
    | inserting =>
      exact (ih (i + 1) _ (by omega)).trans
        (matchAhead_succ (by rw [hflags]; decide) (by rw [hflags]; intro h; cases h))
    | occupied =>
      by_cases hmatch : t.keyMatches (t.slots (t.probeIdx start i)) keyHash key = true
      · simp only [if_pos hmatch]
        exact iff_of_true ⟨_, rfl⟩ ⟨i, le_rfl, by omega, hflags, hmatch, fun l hl hli => by omega⟩
      · simp only [if_neg hmatch]
        exact (ih (i + 1) _ (by omega)).trans
          (matchAhead_succ (by rw [hflags]; decide) fun _ => hmatch)

/-- A key is in reach when the search finds it. -/
theorem inReach_iff : t.InReach c ↔ ∃ j, t.find c = .hit j :=
  (searchSlot_hit_iff t _ _ _ t.numSlots 0 none (Nat.zero_add _)).symm

/-- A hit is an occupied slot that matches. -/
theorem Geometry.match_of_hit (h : t.Geometry) {j : ℕ} (hhit : t.find c = .hit j) : j < t.numSlots ∧
    (t.slots j).flags = .occupied ∧ t.keyMatches (t.slots j) c.keyHash c.key = true := by
  rw [find, h.searchSlot_eq] at hhit
  obtain ⟨hj, hcell⟩ := lookup_hit (h.matchHome_lt _ _) hhit
  exact ⟨hj, matchCell_eq_full_iff.mp hcell⟩

/-- A search that offers nothing has found all slots occupied, none of them by the key. -/
theorem Tidy.others_of_miss (h : t.Tidy) (hmiss : t.find c = .miss none) {j : ℕ} (hj : j < t.numSlots) :
    (t.slots j).flags = .occupied ∧ t.keyMatches (t.slots j) c.keyHash c.key = false := by
  rw [find, h.searchSlot_eq] at hmiss
  exact h.other_of_taken hj (lookup_miss_none (h.matchHome_lt _ _) hmiss j hj)

/-- A search that offers a slot offers one that can be claimed. -/
theorem Geometry.reusable_of_miss (h : t.Geometry) {r : ℕ} (hmiss : t.find c = .miss (some r)) :
    r < t.numSlots ∧ ((t.slots r).flags = .free ∨ (t.slots r).flags = .tombstone) := by
  rw [find, h.searchSlot_eq] at hmiss
  obtain ⟨hr, hcell, -⟩ := lookup_miss_some (h.matchHome_lt _ _) hmiss
  refine ⟨hr, ?_⟩
  unfold matchCell at hcell
  split at hcell <;> simp_all

/-! ### The ends of an update -/

/-- What a call does, by what its search finds. -/
inductive Attempt (t : CounterTable) (c : UpdateCall) : Found → Bool × CounterTable → Prop
  | counted {j : ℕ} (hj : j < t.numSlots) (hocc : (t.slots j).flags = .occupied) :
    Attempt t c (.hit j) (true, t.bumpSlot j c.pktBytes c.tick)
  | claimed {r : ℕ} (hr : r < t.numSlots) (hfree : (t.slots r).flags ≠ .occupied) :
    Attempt t c (.miss (some r))
      ((t.setFlags r .inserting).fillSlot r c.keyHash c.key c.pktBytes c.tick)
  | refused (hfull : ∀ j < t.numSlots, (t.slots j).flags = .occupied)
      (hvictim : t.lruVictim (t.homeSlot c.keyHash) = none) :
    Attempt t c (.miss none) (false, t.noteFull.failInsert)
  | reclaimed {v : ℕ} (hfull : ∀ j < t.numSlots, (t.slots j).flags = .occupied)
      (hvictim : t.lruVictim (t.homeSlot c.keyHash) = some v) :
    Attempt t c (.miss none)
      (((t.noteFull.evictSlot v).setFlags v .inserting).fillSlot v c.keyHash c.key c.pktBytes c.tick)

/-- Every call of the only writer ends in one of these ways. -/
theorem Tidy.attempt (h : t.Tidy) (c : UpdateCall) : Attempt t c (t.find c) (t.call c) := by
  have hupdate : t.call c = t.update c.keyHash c.key c.pktBytes c.tick := rfl
  rw [update, ← find] at hupdate
  rw [hupdate]
  cases hfind : t.find c with
  | hit j =>
    obtain ⟨hj, hocc, -⟩ := h.match_of_hit hfind
    exact .counted hj hocc
  | miss reuse =>
    cases reuse with
    | some r =>
      obtain ⟨hr, hflags⟩ := h.reusable_of_miss hfind
      simp only [if_pos hflags, claimSlot_uncontended]
      exact .claimed hr (ne_occupied_of_reusable hflags)
    | none =>
      -- no slot can be claimed: all are occupied, by other keys
      have hother := fun j (hj : j < t.numSlots) => h.others_of_miss hfind hj
      have hfull := fun j hj => (hother j hj).1
      simp only [evictAndRetry]
      cases hvictim : t.lruVictim (t.homeSlot c.keyHash) with
      | none =>
        rw [evictLru_none (t := t.noteFull) hvictim]
        exact .refused hfull hvictim
      | some v =>
        have hgeom : t.noteFull.Geometry := ⟨h.pow, h.mask, h.capacity⟩
        have hretry := retryScan_evictSlot (t := t.noteFull) hgeom
          (lruVictim_some h.toGeometry hvictim).1 hother c.pktBytes c.tick
        rw [evictLru_some (t := t.noteFull) hgeom hvictim]
        change Attempt t c _ ((t.noteFull.evictSlot v).retryScan (t.noteFull.homeSlot c.keyHash) c.keyHash
          c.key c.pktBytes c.tick t.noteFull.numSlots 0)
        -- the second scan stops at the slot of the victim, the only one that is not occupied
        rw [hretry]
        exact .reclaimed hfull hvictim

/-! ### Filling a claimed slot -/

/-- The arena has room for a key, as `arena_alloc` finds out: the end of the key does not exceed the
capacity, and its offset is not taken for a failure. -/
def ArenaRoom (t : CounterTable) (key : Key) : Prop :=
  u32 (t.keyArenaUsed + key.len) ≤ t.keyArenaCapacity ∧ t.keyArenaUsed ≠ max32

/-- Taking bytes from the arena leaves the slots and their number. -/
theorem arenaAlloc_frame (t : CounterTable) (key : Key) :
    (t.arenaAlloc key).2.slots = t.slots ∧ (t.arenaAlloc key).2.occupiedCount = t.occupiedCount := by
  by_cases hfits : u32 (t.keyArenaUsed + key.len) > t.keyArenaCapacity
  · simp only [arenaAlloc, if_pos hfits, and_self]
  · simp only [arenaAlloc, if_neg hfits, and_self]

/-- With room the slot is occupied in the end, and counted. -/
theorem fillSlot_of_room (h : t.ArenaRoom key) (r : ℕ) (keyHash pktBytes tick : UInt64) :
    (t.fillSlot r keyHash key pktBytes tick).1 = true ∧
    (t.fillSlot r keyHash key pktBytes tick).2.slots = Function.update t.slots r
      { keyHash := keyHash
        packets := 1
        bytes := pktBytes
        keyOffset := t.keyArenaUsed
        keyLen := key.len
        flags := .occupied
        lastUpdate := tick } ∧
    (t.fillSlot r keyHash key pktBytes tick).2.occupiedCount = u32 (t.occupiedCount + 1) := by
  obtain ⟨hslots, hcount⟩ := t.arenaAlloc_frame key
  have halloc : (t.arenaAlloc key).1 = t.keyArenaUsed := by
    rw [arenaAlloc, if_neg (Nat.not_lt.mpr h.1)]
  rw [fillSlot]
  simp only [halloc, if_neg h.2, setFlags, modifySlot, seqlockBump, hslots, hcount,
    Function.update_self, Function.update_idem, and_true]

/-- Without room the slot is free in the end, whatever it was when it was claimed. -/
theorem fillSlot_of_no_room (h : ¬t.ArenaRoom key) (r : ℕ) (keyHash pktBytes tick : UInt64) :
    (t.fillSlot r keyHash key pktBytes tick).1 = false ∧
    (t.fillSlot r keyHash key pktBytes tick).2.slots =
      Function.update t.slots r { t.slots r with flags := .free } ∧
    (t.fillSlot r keyHash key pktBytes tick).2.occupiedCount = t.occupiedCount := by
  obtain ⟨hslots, hcount⟩ := t.arenaAlloc_frame key
  have halloc : (t.arenaAlloc key).1 = max32 := by
    rw [arenaAlloc]
    split
    · rfl
    · rename_i hfits
      by_contra hne
      exact h ⟨Nat.le_of_not_lt hfits, hne⟩
  rw [fillSlot]
  simp only [halloc, if_true, failInsert, setFlags, modifySlot, hslots, hcount, and_self]

/-- A claimed slot is filled: the table is tidy again. Without room the call fails, and then the slot is
not occupied, so the table is not full. -/
theorem Tidy.fill_claimed (h : t.Tidy) {r : ℕ} (hr : r < t.numSlots)
    (hfree : (t.slots r).flags ≠ .occupied) (c : UpdateCall) :
    let out := (t.setFlags r .inserting).fillSlot r c.keyHash c.key c.pktBytes c.tick
    out.2.Tidy ∧ out.2.numSlots = t.numSlots ∧ (out.1 = true ↔ t.ArenaRoom c.key) ∧
      (out.1 = false → out.2.occupiedCount < t.numSlots) := by
  have hshape := (t.setFlags r .inserting).shape_fillSlot r c.keyHash c.key c.pktBytes c.tick
  have hn : ((t.setFlags r .inserting).fillSlot r c.keyHash c.key c.pktBytes c.tick).2.numSlots =
      t.numSlots := congrArg Prod.fst hshape
  have hslots : ∀ slot, Function.update (t.setFlags r .inserting).slots r slot =
      Function.update t.slots r slot := fun slot => Function.update_idem ..
  have hgeom := h.toGeometry.of_shape hshape
  -- the slot that is claimed was not occupied, so the table was not full
  have hle : held (fun _ => 1) t < t.numSlots := by
    have hupdate := held_update (w := fun _ => 1) (t.setFlags r .occupied) hr rfl rfl
    have hmax : _ ≤ t.numSlots := held_one_le (t.setFlags r .occupied)
    rw [share_of_not hfree, share_of_occupied rfl] at hupdate
    omega
  obtain ⟨k, hk, hpow⟩ := h.pow
  have hpow31 : 2 ^ k ≤ 2 ^ 31 := Nat.pow_le_pow_right (by omega) hk
  have hcount := h.count
  have hinserting : ∀ slot : Slot, slot.flags ≠ .inserting → ∀ j < t.numSlots,
      (Function.update t.slots r slot j).flags ≠ .inserting := by
    intro slot hslot j hj
    by_cases hjr : j = r
    · rwa [hjr, Function.update_self]
    · rw [Function.update_of_ne hjr]
      exact h.noInserting j hj
  -- with room the slot is published and counted, without it is given up
  by_cases hroom : t.ArenaRoom c.key
  · obtain ⟨hok, hupdated, hone⟩ := fillSlot_of_room (t := t.setFlags r .inserting) hroom r c.keyHash
      c.pktBytes c.tick
    rw [hslots] at hupdated
    have hheld := held_update (w := fun _ => 1) _ hr hn hupdated
    rw [share_of_not hfree, share_of_occupied rfl] at hheld
    refine ⟨{ toGeometry := hgeom, noInserting := ?_, count := ?_ }, hn, iff_of_true hok hroom, ?_⟩
    · rw [hn, hupdated]
      exact hinserting _ (by simp)
    · rw [hone]
      change u32 (t.occupiedCount + 1) = _
      rw [u32_of_le (by rw [max32]; omega)]
      omega
    · rw [hok]
      exact fun h => by cases h
  · obtain ⟨hok, hupdated, hone⟩ := fillSlot_of_no_room (t := t.setFlags r .inserting) hroom r c.keyHash
      c.pktBytes c.tick
    rw [hslots] at hupdated
    have hheld := held_update (w := fun _ => 1) _ hr hn hupdated
    rw [share_of_not hfree, share_of_not (by simp)] at hheld
    change _ = t.occupiedCount at hone
    refine ⟨{ toGeometry := hgeom, noInserting := ?_, count := ?_ }, hn,
      iff_of_false (by rw [hok]; exact Bool.false_ne_true) hroom, fun _ => ?_⟩
    · rw [hn, hupdated]
      exact hinserting _ (by simp)
    · rw [hone, hcount]
      exact hheld.symm
    · omega

/-- Counting a packet keeps the table tidy. -/
theorem Tidy.bump (h : t.Tidy) {j : ℕ} (hj : j < t.numSlots) (hocc : (t.slots j).flags = .occupied)
    (pktBytes tick : UInt64) : (t.bumpSlot j pktBytes tick).Tidy where
  toGeometry := ⟨h.pow, h.mask, h.capacity⟩
  noInserting i hi := by simpa using h.noInserting i hi
  count := by
    have hsum := held_bumpSlot (w := fun _ => 1) hj hocc pktBytes tick
    have hcount := h.count
    change t.occupiedCount = _
    omega

/-- Evicting a key keeps the table tidy. -/
theorem Tidy.evict (h : t.Tidy) {v : ℕ} (hv : v < t.numSlots)
    (hocc : (t.slots v).flags = .occupied) : (t.noteFull.evictSlot v).Tidy where
  toGeometry := ⟨h.pow, h.mask, h.capacity⟩
  noInserting j hj := by
    by_cases hjv : j = v
    · simp [hjv, evictSlot]
    · have hslot : (t.noteFull.evictSlot v).slots j = t.slots j := setFlags_slot_of_ne hjv
      rw [hslot]
      exact h.noInserting j hj
  count := by
    have hsum := held_evictSlot (w := fun _ => 1) (t := t.noteFull) hv hocc
    change _ = held (fun _ => 1) t at hsum
    have hle := held_one_le t
    have hcount := h.count
    have hn := h.numSlots_le
    change sub32 t.occupiedCount 1 = _
    rw [sub32_of_le (by omega) (by rw [max32]; omega)]
    omega

/-! ### Causes -/

/-- The call can have a slot: one is not occupied, or one of those that eviction looks at was updated
before the last tick of all. -/
def SlotToBeHad (t : CounterTable) (c : UpdateCall) : Prop :=
  (∃ j < t.numSlots, (t.slots j).flags ≠ .occupied) ∨
    ∃ i < t.evictWindow,
      (t.slots (t.probeIdx (t.homeSlot c.keyHash) i)).lastUpdate ≠ 0xFFFFFFFFFFFFFFFF

/-- The call does not find its key and can have a slot for it, but the arena has no room. -/
structure Starved (t : CounterTable) (c : UpdateCall) : Prop where
  missed : ¬t.InReach c
  slot : t.SlotToBeHad c
  noRoom : ¬t.ArenaRoom c.key

/-- In a full table every slot holds one. -/
theorem held_one_of_full (hfull : ∀ j < t.numSlots, (t.slots j).flags = .occupied) :
    held (fun _ => 1) t = t.numSlots := by
  rw [held, Finset.sum_congr rfl fun j hj => share_of_occupied (hfull j (Finset.mem_range.mp hj)),
    Finset.sum_const, Finset.card_range, Nat.nsmul_eq_mul, Nat.mul_one]

/-- A starved call fails and leaves a slot that is not occupied; any other call that fails has found all
slots occupied and leaves them so. -/
theorem Tidy.call_cause (h : t.Tidy) (c : UpdateCall) :
    (t.call c).2.Tidy ∧ (t.Starved c → (t.call c).1 = false) ∧
      ((t.call c).1 = false → ((t.call c).2.numSlots ≤ (t.call c).2.occupiedCount ↔ ¬t.Starved c)) := by
  have hattempt := h.attempt c
  generalize hfind : t.find c = found at hattempt
  generalize t.call c = out at hattempt ⊢
  -- a search that has missed says that the key is not in reach
  have hmissed : ∀ reuse, found = .miss reuse → ¬t.InReach c := by
    intro reuse heq hreach
    obtain ⟨j, hhit⟩ := inReach_iff.mp hreach
    rw [hfind, heq] at hhit
    cases hhit
  cases hattempt with
  | counted hj hocc =>
    refine ⟨h.bump hj hocc _ _, fun hstarved => ?_, fun hfail => by cases hfail⟩
    exact absurd (inReach_iff.mpr ⟨_, hfind⟩) hstarved.missed
  | @claimed r hr hfree =>
    obtain ⟨htidy, hn, hok, hcount⟩ := h.fill_claimed hr hfree c
    refine ⟨htidy, fun hstarved => ?_, fun hfail => ?_⟩
    · rw [← Bool.not_eq_true, hok]
      exact hstarved.noRoom
    · have hlt := hcount hfail
      rw [← Bool.not_eq_true, hok] at hfail
      exact iff_of_false (by omega) (not_not.mpr ⟨hmissed _ rfl, Or.inl ⟨r, hr, hfree⟩, hfail⟩)
  | refused hfull hvictim =>
    refine ⟨⟨⟨h.pow, h.mask, h.capacity⟩, h.noInserting, h.count⟩, fun _ => rfl, fun _ => ?_⟩
    have hcount := h.count
    rw [held_one_of_full hfull] at hcount
    refine iff_of_true hcount.ge fun hstarved => ?_
    rcases hstarved.slot with ⟨j, hj, hfree⟩ | ⟨i, hi, htick⟩
    · exact hfree (hfull j hj)
    · exact htick ((lruVictim_eq_none_iff h.toGeometry hfull _).mp hvictim i hi)
  | @reclaimed v hfull hvictim =>
    obtain ⟨hv, hocc⟩ := lruVictim_some h.toGeometry hvictim
    obtain ⟨htidy, hn, hok, hcount⟩ := (h.evict hv hocc).fill_claimed hv (by simp [evictSlot]) c
    refine ⟨htidy, fun hstarved => ?_, fun hfail => ?_⟩
    · rw [← Bool.not_eq_true, hok]
      exact hstarved.noRoom
    · have hlt := hcount hfail
      rw [← Bool.not_eq_true, hok] at hfail
      have hslot : t.SlotToBeHad c := by
        refine Or.inr ?_
        by_contra hnone
        push Not at hnone
        rw [(lruVictim_eq_none_iff h.toGeometry hfull _).mpr hnone] at hvictim
        cases hvictim
      exact iff_of_false (by omega) (not_not.mpr ⟨hmissed _ rfl, hslot, hfail⟩)

/-- Any number of calls keeps the table tidy. -/
theorem Tidy.calls (h : t.Tidy) (cs : List UpdateCall) : (t.calls cs).Tidy :=
  Runs.always h (fun _ c h => (h.call_cause c).1) cs

/-! ### The arena of a created table -/

/-- A table between two updates, with an arena for the keys of all slots, of which no more is used than
there is. -/
structure Contained (width : ℕ) (t : CounterTable) : Prop extends t.Tidy where
  used_le : t.keyArenaUsed ≤ t.keyArenaCapacity
  capacity_eq : t.keyArenaCapacity = t.numSlots * width

variable {width : ℕ}

/-- A new table is contained. -/
theorem contained_of_create {maxKeys : ℕ} {alloc : Alloc}
    (h : counterTableCreate maxKeys width alloc = some t) : t.Contained width := by
  obtain ⟨-, -, -, -, hfresh, -, hcap⟩ := counterTableCreate_some h
  refine { toTidy := tidy_of_create h, used_le := ?_, capacity_eq := hcap }
  rw [hfresh.used]
  exact Nat.zero_le _

/-- A request to the arena takes what the check allows, or gives back what it took. -/
theorem arenaAlloc_used_le (hused : t.keyArenaUsed ≤ t.keyArenaCapacity)
    (hcap : t.keyArenaCapacity ≤ max32) (key : Key) :
    (t.arenaAlloc key).2.keyArenaUsed ≤ t.keyArenaCapacity := by
  by_cases hfits : u32 (t.keyArenaUsed + key.len) > t.keyArenaCapacity
  · simp only [arenaAlloc, if_pos hfits]
    rwa [sub32_u32_add (hused.trans hcap) (key_len_le key)]
  · simp only [arenaAlloc, if_neg hfits]
    exact Nat.le_of_not_lt hfits

/-- Filling a slot does to the arena what the request does. -/
theorem fillSlot_arena (t : CounterTable) (r : ℕ) (keyHash : UInt64) (key : Key)
    (pktBytes tick : UInt64) :
    (t.fillSlot r keyHash key pktBytes tick).2.keyArenaUsed = (t.arenaAlloc key).2.keyArenaUsed ∧
      (t.fillSlot r keyHash key pktBytes tick).2.keyArena = (t.arenaAlloc key).2.keyArena := by
  unfold fillSlot
  simp only
  split
  · exact ⟨rfl, rfl⟩
  · exact ⟨rfl, rfl⟩

/-- No call uses more of the arena than there is. -/
theorem Contained.call (h : t.Contained width) (c : UpdateCall) : (t.call c).2.Contained width := by
  have htidy := (h.toTidy.call_cause c).1
  have hshape : (t.call c).2.shape = t.shape := t.shape_update c.keyHash c.key c.pktBytes c.tick
  simp only [shape, Prod.mk.injEq] at hshape
  obtain ⟨hn, -, hcap, -⟩ := hshape
  refine { toTidy := htidy, used_le := ?_, capacity_eq := by rw [hcap, hn, h.capacity_eq] }
  rw [hcap]
  -- only a call that fills a slot takes bytes from the arena
  have hattempt := h.toTidy.attempt c
  generalize t.find c = found at hattempt
  generalize t.call c = out at hattempt
  cases hattempt with
  | counted => exact h.used_le
  | claimed =>
    rw [(fillSlot_arena ..).1]
    exact arenaAlloc_used_le (t := t.setFlags _ .inserting) h.used_le h.capacity c.key
  | refused => exact h.used_le
  | @reclaimed v =>
    rw [(fillSlot_arena ..).1]
    exact arenaAlloc_used_le (t := (t.noteFull.evictSlot v).setFlags v .inserting) h.used_le h.capacity
      c.key

/-- Any number of calls keeps the table contained. -/
theorem Contained.calls (h : t.Contained width) (cs : List UpdateCall) : (t.calls cs).Contained width :=
  Runs.always h (fun _ c h => h.call c) cs

/-- Only the arena of a table with one slot can be used up to the last offset of 32 bits: with more slots
the capacity is even. -/
theorem Contained.one_slot (h : t.Contained width) (hused : t.keyArenaUsed = max32) :
    t.numSlots = 1 := by
  have hfull : t.keyArenaCapacity = max32 := Nat.le_antisymm h.capacity (hused ▸ h.used_le)
  have hsize := h.capacity_eq
  obtain ⟨k, -, hk⟩ := h.pow
  cases k with
  | zero => exact hk
  | succ k =>
    have heven : Even (t.numSlots * width) := by
      rw [hk]
      exact ((Nat.even_pow.mpr ⟨even_two, k.succ_ne_zero⟩).mul_right width)
    rw [← hsize, hfull] at heven
    exact absurd heven (by decide)

/-- A request that fails leaves the bytes of the arena as they are, unless the arena is used up to the last
offset. -/
theorem arenaAlloc_of_no_room {key : Key} (hroom : ¬t.ArenaRoom key) (hused : t.keyArenaUsed ≠ max32) :
    (t.arenaAlloc key).2.keyArena = t.keyArena := by
  have hfits : u32 (t.keyArenaUsed + key.len) > t.keyArenaCapacity := by
    by_contra hle
    exact hroom ⟨Nat.le_of_not_lt hle, hused⟩
  simp only [arenaAlloc, if_pos hfits]

/-! ### Harm -/

/-- A call leaves all keys in the table as they are, and their number. -/
structure Unharmed (t t' : CounterTable) : Prop where
  kept : ∀ bytes tally, t.Holds bytes tally → t'.Holds bytes tally
  count : t'.occupiedCount = t.occupiedCount

/-- A slot that was not occupied is claimed, and without room for the key it is freed again. -/
theorem Contained.unharmed_of_no_room (h : t.Contained width) {r : ℕ} (hr : r < t.numSlots)
    (hfree : (t.slots r).flags ≠ .occupied) {key : Key} (hroom : ¬t.ArenaRoom key)
    (keyHash pktBytes tick : UInt64) :
    Unharmed t ((t.setFlags r .inserting).fillSlot r keyHash key pktBytes tick).2 := by
  obtain ⟨-, hslots, hcount⟩ := fillSlot_of_no_room (t := t.setFlags r .inserting) hroom r keyHash
    pktBytes tick
  have hshape := (t.setFlags r .inserting).shape_fillSlot r keyHash key pktBytes tick
  have harena := ((t.setFlags r .inserting).fillSlot_arena r keyHash key pktBytes tick).2
  generalize (t.setFlags r .inserting).fillSlot r keyHash key pktBytes tick = out at *
  simp only [shape, Prod.mk.injEq] at hshape
  obtain ⟨hn, -, hcap, -⟩ := hshape
  change _ = t.keyArenaCapacity at hcap
  refine { kept := ?_, count := hcount }
  rintro bytes tally ⟨j, hj, hkey, htally⟩
  have hjr : j ≠ r := by
    rintro rfl
    rw [CounterTable.key, if_pos hfree] at hkey
    cases hkey
  have hslot : out.2.slots j = t.slots j := by
    rw [hslots, Function.update_of_ne hjr]
    exact setFlags_slot_of_ne hjr
  have hused : t.keyArenaUsed ≠ max32 := by
    -- else the claimed slot is the only one
    intro hused
    have hone := h.one_slot hused
    omega
  have hsame : out.2.keyArena = t.keyArena :=
    harena.trans (arenaAlloc_of_no_room (t := t.setFlags r .inserting) hroom hused)
  refine ⟨j, hn ▸ hj, ?_, by rw [tallyAt, hslot]; exact htally⟩
  rw [hslot, ← hkey, CounterTable.key, CounterTable.key, hcap, hsame]

/-- One less is another number of 32 bits. -/
theorem sub32_one_ne (n : ℕ) : sub32 n 1 ≠ n := by
  rw [sub32]
  omega

/-- A failed call leaves the keys in the table as they are exactly if some slot was not occupied, or
eviction found no slot that was updated before the last tick. -/
theorem Contained.unharmed_iff (h : t.Contained width) (hfail : (t.call c).1 = false) :
    Unharmed t (t.call c).2 ↔ (∃ j < t.numSlots, (t.slots j).flags ≠ .occupied) ∨
      t.lruVictim (t.homeSlot c.keyHash) = none := by
  have hattempt := h.toTidy.attempt c
  revert hfail
  generalize t.find c = found at hattempt
  generalize t.call c = out at hattempt ⊢
  intro hfail
  cases hattempt with
  | counted => cases hfail
  | @claimed r hr hfree =>
    rw [← Bool.not_eq_true, (h.toTidy.fill_claimed hr hfree c).2.2.1] at hfail
    exact iff_of_true (h.unharmed_of_no_room hr hfree hfail _ _ _) (Or.inl ⟨r, hr, hfree⟩)
  | refused hfull hvictim => exact iff_of_true ⟨fun _ _ h => h, rfl⟩ (Or.inr hvictim)
  | @reclaimed v hfull hvictim =>
    -- one key is missing, so the number of keys is another one
    have hv := lruVictim_some h.toGeometry hvictim
    rw [← Bool.not_eq_true,
      ((h.toTidy.evict hv.1 hv.2).fill_claimed hv.1 (by simp [evictSlot]) c).2.2.1] at hfail
    have hcount := (fillSlot_of_no_room (t := (t.noteFull.evictSlot v).setFlags v .inserting) hfail v
      c.keyHash c.pktBytes c.tick).2.2
    refine iff_of_false (fun hun => sub32_one_ne _ (hcount.symm.trans hun.count)) ?_
    rintro (⟨j, hj, hfree⟩ | hnone)
    · exact hfree (hfull j hj)
    · rw [hvictim] at hnone
      cases hnone

/-- **When a failed call harms nobody.** On any table that is created, a failed call behind any run leaves
the keys in the table as they are exactly if some slot was not occupied, or the slots that eviction looks
at were all updated at the last tick there is. -/
theorem failed_call_unharmed_iff {maxKeys : ℕ} {alloc : Alloc} {table : CounterTable}
    (hcreate : counterTableCreate maxKeys width alloc = some table) (cs : List UpdateCall)
    (hfail : ((table.calls cs).call c).1 = false) :
    Unharmed (table.calls cs) ((table.calls cs).call c).2 ↔
      (∃ j < (table.calls cs).numSlots, ((table.calls cs).slots j).flags ≠ .occupied) ∨
        ∀ i < (table.calls cs).evictWindow,
          ((table.calls cs).slots ((table.calls cs).probeIdx
            ((table.calls cs).homeSlot c.keyHash) i)).lastUpdate = 0xFFFFFFFFFFFFFFFF := by
  have h := (contained_of_create hcreate).calls cs
  rw [h.unharmed_iff hfail]
  by_cases hfull : ∀ j < (table.calls cs).numSlots, ((table.calls cs).slots j).flags = .occupied
  · exact or_congr_right (lruVictim_eq_none_iff h.toGeometry hfull _)
  · push Not at hfull
    exact iff_of_true (Or.inl hfull) (Or.inl hfull)

/-- The call for another key evicts the first one and fails. -/
theorem failed_call_unharmed_iff_one :
    Unharmed oneKey (oneKey.call otherKey).2 ↔
      (∃ j < oneKey.numSlots, (oneKey.slots j).flags ≠ .occupied) ∨
        ∀ i < oneKey.evictWindow,
          (oneKey.slots (oneKey.probeIdx (oneKey.homeSlot otherKey.keyHash) i)).lastUpdate =
            0xFFFFFFFFFFFFFFFF :=
  failed_call_unharmed_iff (show counterTableCreate 1 1 ⟨true, fun _ => 0⟩ = some _ from rfl) _
    (by decide +kernel)

/-- The first key is gone after the call that fails. -/
theorem failed_call_harms : ∃ t, counterTableCreate 1 1 ⟨true, fun _ => 0⟩ = some t ∧
    ((t.calls [⟨0, ⟨[1], by decide⟩, 60, 1⟩]).call otherKey).1 = false ∧
    ¬Unharmed (t.calls [⟨0, ⟨[1], by decide⟩, 60, 1⟩])
      ((t.calls [⟨0, ⟨[1], by decide⟩, 60, 1⟩]).call otherKey).2 :=
  ⟨_, rfl, by decide +kernel, fun h => absurd h.count (by decide +kernel)⟩

end CounterTable

end InFMon
