import InFMon.CounterTable.FailedUpdates
import InFMon.CounterTable.SoleWriter
import InFMon.CounterTable.StepRefinement

/-! # The arena and its bounds

Every sum of an offset and a length that the update computes has 32 bits. A request to the arena is
checked after it was added to `key_arena_used`, so the check is passed when the sum wraps. This decides
whether the writes of `arena_alloc` stay inside the arena. -/

namespace InFMon

open MachineWord OpenAddressing SmallStep

namespace CounterTable

variable {t : CounterTable} {c : UpdateCall}

/-! ### In bounds -/

/-- The next access computes no sum that wraps, and writes no byte outside the arena. -/
def InBounds (c : UpdateCall) : CounterTable × Pc → Prop
  | (t, .alloc _) => t.keyArenaUsed + c.key.len ≤ max32
  | (t, .compare _ idx .keyOffset) => (t.slots idx).keyOffset + c.key.len ≤ max32
  | (t, .copy _ off k) => off + k < t.keyArenaCapacity
  | _ => True

/-- A call in bounds: every access is, the sum of `infmon_counter_table_key` does not wrap for any
occupied slot at any time, and `key_arena_used` does not exceed the capacity behind the call. -/
structure CallInBounds (t : CounterTable) (c : UpdateCall) : Prop where
  accesses : ∀ m, InBounds c ((step c)^[m] (t, t.start))
  keys : ∀ m, let table := ((step c)^[m] (t, t.start)).1
    ∀ j < table.numSlots, (table.slots j).flags = .occupied →
      (table.slots j).keyOffset + (table.slots j).keyLen ≤ max32
  used : (t.call c).2.keyArenaUsed ≤ (t.call c).2.keyArenaCapacity

/-- What is in bounds fits. -/
theorem InBounds.fits {s : CounterTable × Pc} (h : InBounds c s) : Fits c s := by
  obtain ⟨t, pc⟩ := s
  cases pc <;> first | exact h | trivial

/-- Where nothing is taken from the arena, the call fits. -/
theorem NoAlloc.fits {s : CounterTable × Pc} (h : NoAlloc s) : Fits c s := by
  obtain ⟨t, pc⟩ := s
  cases pc <;> first | exact h.elim | trivial

/-- What the only writer does is in bounds, unless a request to the arena wraps. -/
theorem SoleWriter.inBounds {pc : Pc} (h : SoleWriter c t pc) (hfits : Fits c (t, pc)) :
    InBounds c (t, pc) := by
  cases pc with
  | alloc idx => exact hfits
  | compare site idx load =>
    cases load with
    | keyOffset =>
      obtain ⟨hocc, hlen⟩ := h.compares
      have hstored := h.stored idx h.valid.1 hocc
      rw [hlen] at hstored
      exact hstored.trans (h.used_le.trans h.capacity)
    | _ => trivial
  | copy idx off k =>
    have hk := (h.placed idx off rfl).copying k rfl
    have hend := h.within idx off rfl
    have hused : t.keyArenaUsed ≤ t.keyArenaCapacity := h.used_le
    change off + k < t.keyArenaCapacity
    omega
  | _ => trivial

/-! ### From call to call -/

/-- When no request to the arena wraps, the call is in bounds and leaves a settled table. -/
theorem Settled.call_inBounds (h : t.Settled) (hfits : ∀ m, Fits c ((step c)^[m] (t, t.start))) :
    CallInBounds t c ∧ (t.call c).2.Settled := by
  have hsole : ∀ m, SoleWriter c ((step c)^[m] (t, t.start)).1 ((step c)^[m] (t, t.start)).2 := by
    intro m
    exact SmallStep.invariant (I := fun s => SoleWriter c s.1 s.2) (C := Fits c) (h.soleWriter c)
      (fun s hs hfits => hs.access hfits) fun m _ => hfits m
  obtain ⟨n, hn, -⟩ := (steps_call t c).exists_iterate
  have hend := hsole n
  rw [hn] at hend
  refine ⟨⟨fun m => (hsole m).inBounds (hfits m), fun m j hj hocc => ?_, hend.used_le⟩, hend.settled⟩
  exact ((hsole m).stored j hj hocc).trans ((hsole m).used_le.trans (hsole m).capacity)

/-! ### Calls that ask for room -/

/-- Without a slot to be had a call that does not find its key has no victim either. -/
theorem Geometry.lruVictim_eq_none (h : t.Geometry) (hfull : ∀ j < t.numSlots, (t.slots j).flags = .occupied)
    (hslot : ¬t.SlotToBeHad c) : t.lruVictim (t.homeSlot c.keyHash) = none := by
  refine (lruVictim_eq_none_iff h hfull _).mpr fun i hi => ?_
  by_contra hne
  exact hslot (Or.inr ⟨i, hi, hne⟩)

/-- A call that finds its key, or can have no slot for it, ends without asking the arena for room. -/
theorem Tidy.passes_end (h : t.Tidy) (hend : t.InReach c ∨ ¬t.SlotToBeHad c) :
    ∃ t' ok, Passes c (t, t.start) (t', .returned ok) := by
  have hfind := passes_find t c
  rcases hend with hreach | hslot
  · obtain ⟨j, hhit⟩ := inReach_iff.mp hreach
    rw [hhit] at hfind
    exact ⟨_, _, hfind.trans (passes_count t c j)⟩
  · cases hmiss : t.find c with
    | hit j =>
      rw [hmiss] at hfind
      exact ⟨_, _, hfind.trans (passes_count t c j)⟩
    | miss reuse =>
      cases reuse with
      | some r =>
        obtain ⟨hr, hflags⟩ := h.reusable_of_miss hmiss
        exact absurd (Or.inl ⟨r, hr, ne_occupied_of_reusable hflags⟩) hslot
      | none =>
        have hvictim := h.lruVictim_eq_none (fun j hj => (h.others_of_miss hmiss hj).1) hslot
        have hevict := passes_evict t c
        rw [evictLru_none (t := t.noteFull) hvictim] at hevict
        rw [hmiss] at hfind
        exact ⟨_, _, (hfind.trans hevict).trans (.single trivial rfl)⟩

/-- Any other call asks the arena for room, with an arena as it was at the start. -/
theorem Tidy.passes_alloc (h : t.Tidy) (hmissed : ¬t.InReach c) (hslot : t.SlotToBeHad c) :
    ∃ t' idx, Passes c (t, t.start) (t', .alloc idx) ∧ t'.keyArenaUsed = t.keyArenaUsed ∧
      t'.keyArenaCapacity = t.keyArenaCapacity := by
  have hfind := passes_find t c
  cases hmiss : t.find c with
  | hit j => exact absurd (inReach_iff.mpr ⟨j, hmiss⟩) hmissed
  | miss reuse =>
    rw [hmiss] at hfind
    cases reuse with
    | some r =>
      obtain ⟨hr, hflags⟩ := h.reusable_of_miss hmiss
      have hreload := passes_reload t c r
      rw [if_pos hflags] at hreload
      exact ⟨t.setFlags r .inserting, r, hfind.trans hreload, rfl, rfl⟩
    | none =>
      -- no slot is free on the way round, so the call evicts or fails
      have hother := fun j (hj : j < t.numSlots) => h.others_of_miss hmiss hj
      have hhome := h.homeSlot_lt c.keyHash
      cases hvictim : t.lruVictim (t.homeSlot c.keyHash) with
      | none =>
        have hticks := (lruVictim_eq_none_iff h.toGeometry (fun j hj => (hother j hj).1) _).mp hvictim
        rcases hslot with ⟨j, hj, hfree⟩ | ⟨i, hi, htick⟩
        · exact absurd (hother j hj).1 hfree
        · exact absurd (hticks i hi) htick
      | some v =>
        have hv := (lruVictim_some h.toGeometry hvictim).1
        have hgeom : t.noteFull.Geometry := ⟨h.pow, h.mask, h.capacity⟩
        have hevict := passes_evict t c
        rw [evictLru_some (t := t.noteFull) hgeom hvictim] at hevict
        have hrescan := passes_rescan (t.noteFull.evictSlot v) c t.numSlots 0 (Nat.zero_add _)
        have hretry := retryFind_evictSlot (t := t.noteFull) hgeom hv hother
        change (t.noteFull.evictSlot v).retryFind ((t.noteFull.evictSlot v).homeSlot c.keyHash) c.keyHash
          c.key t.numSlots 0 = _ at hretry
        rw [hretry] at hrescan
        exact ⟨_, v, (hfind.trans hevict).trans hrescan, rfl, rfl⟩

/-! ### Wrap-around -/

/-- The call does not make a request to the arena that wraps: its key is in reach, or it can have no
slot, or `key_arena_used` plus the length of the key has 32 bits. -/
def NoWrap (t : CounterTable) (c : UpdateCall) : Prop :=
  t.InReach c ∨ ¬t.SlotToBeHad c ∨ t.keyArenaUsed + c.key.len ≤ max32

/-- No request of a call wraps exactly when it meets the condition. -/
theorem Tidy.fits_iff (h : t.Tidy) (c : UpdateCall) :
    (∀ m, Fits c ((step c)^[m] (t, t.start))) ↔ t.NoWrap c := by
  by_cases hend : t.InReach c ∨ ¬t.SlotToBeHad c
  · refine iff_of_true (fun m => ?_) (hend.imp_right Or.inl)
    obtain ⟨t', ok, hpasses⟩ := h.passes_end hend
    exact (hpasses.throughout rfl trivial m).fits
  · rw [not_or, not_not] at hend
    obtain ⟨t', idx, hpasses, hused, -⟩ := h.passes_alloc hend.1 hend.2
    have hwrap : t.NoWrap c ↔ Fits c (t', .alloc idx) := by
      rw [NoWrap, or_iff_right hend.1, or_iff_right (not_not.mpr hend.2), ← hused]
      rfl
    rw [hwrap]
    constructor
    · intro hfits
      obtain ⟨n, hn, -⟩ := hpasses.exists_iterate
      rw [← hn]
      exact hfits n
    · intro hfits m
      have hway := (hpasses.mono fun _ => NoAlloc.fits).trans
        (.head hfits ((passes_fill t' c idx).mono fun _ => NoAlloc.fits))
      exact hway.throughout rfl trivial m

/-- A call is in bounds exactly when it meets the condition, and then the table stays settled. -/
theorem Settled.inBounds_iff (h : t.Settled) (htidy : t.Tidy) (c : UpdateCall) :
    CallInBounds t c ↔ t.NoWrap c := by
  rw [← htidy.fits_iff]
  exact ⟨fun hbounds m => (hbounds.accesses m).fits, fun hfits => (h.call_inBounds hfits).1⟩

/-- Every access of every call of a run is in bounds if and only if every call meets the condition. -/
theorem arena_inBounds_iff {maxKeys width : ℕ} {alloc : Alloc}
    (h : counterTableCreate maxKeys width alloc = some t) (cs : List UpdateCall) :
    Runs.Meets (fun t c => (t.call c).2) CallInBounds t cs ↔
      Runs.Meets (fun t c => (t.call c).2) NoWrap t cs := by
  obtain ⟨-, -, -, hgeom, hfresh, -⟩ := counterTableCreate_some h
  refine Runs.meets_congr (I := fun t => t.Settled ∧ t.Tidy) (E := fun _ => True)
    ⟨hfresh.toEmpty.settled hgeom, tidy_of_create h⟩ (fun t c hI _ hwrap => ?_)
    (fun t c hI _ => hI.1.inBounds_iff hI.2 c) fun _ _ => trivial
  exact ⟨(hI.1.call_inBounds ((hI.2.fits_iff c).mpr hwrap)).2, (hI.2.call_cause c).1⟩

/-- Two calls on a table for one key of one byte: the arena is full behind the first one. -/
theorem arena_inBounds_iff_two : ∃ t, counterTableCreate 1 1 ⟨true, fun _ => 0⟩ = some t ∧
    Runs.Meets (fun t c => (t.call c).2) CallInBounds t twoCalls := by
  refine ⟨_, rfl, (@arena_inBounds_iff _ 1 1 ⟨true, fun _ => 0⟩ rfl twoCalls).mpr ?_⟩
  rw [twoCalls, Runs.meets_cons, Runs.meets_cons]
  exact ⟨Or.inr (Or.inr (by decide)), Or.inr (Or.inr (by decide +kernel)), Runs.meets_nil⟩

/-! ### A table that gets there -/

/-- One of two keys of 65535 bytes. -/
def wideKey (b : UInt8) : Key := ⟨List.replicate 65535 b, by rw [List.length_replicate]; norm_num⟩

/-- Calls with one key and the other in turn. -/
def wideCall (n : ℕ) : UpdateCall where
  keyHash := UInt64.ofNat (n % 2)
  key := wideKey (UInt8.ofNat (n % 2))
  pktBytes := 64
  tick := 1

/-- The first calls of them. -/
def wideCalls (n : ℕ) : List UpdateCall := (List.range n).map wideCall

/-- The keys have the largest length that there is. -/
theorem wideCall_len (n : ℕ) : (wideCall n).key.len = 65535 := List.length_replicate

/-- One call more. -/
theorem wideCalls_succ (n : ℕ) : wideCalls (n + 1) = wideCalls n ++ [wideCall n] := by
  rw [wideCalls, List.range_succ, List.map_append]
  rfl

/-- A table of one slot and the largest arena, behind `n` of these calls. Its slot, if it is occupied, has
the key of the last one. -/
structure Worn (n : ℕ) (t : CounterTable) : Prop where
  tidy : t.Tidy
  one : t.numSlots = 1
  capacity : t.keyArenaCapacity = max32
  used : t.keyArenaUsed = n * 65535
  last : (t.slots 0).flags = .occupied →
    (t.slots 0).keyHash = UInt64.ofNat ((n + 1) % 2) ∧ (t.slots 0).lastUpdate = 1

/-- Two calls in a row have different hashes. -/
theorem hash_ne (n : ℕ) : UInt64.ofNat (n % 2) ≠ UInt64.ofNat ((n + 1) % 2) := by
  rcases Nat.mod_two_eq_zero_or_one n with h | h
  · rw [Nat.add_mod, h]
    decide
  · rw [Nat.add_mod, h]
    decide

/-- The next key is not in the table. -/
theorem Worn.missed {n : ℕ} (h : t.Worn n) : ¬t.InReach (wideCall n) := by
  intro hreach
  obtain ⟨j, hhit⟩ := inReach_iff.mp hreach
  obtain ⟨hj, hocc, hmatch⟩ := h.tidy.match_of_hit hhit
  obtain rfl : j = 0 := by
    have := h.one
    omega
  refine hash_ne n ((h.last hocc).1.symm.trans ?_).symm
  rw [keyMatches] at hmatch
  split at hmatch
  · cases hmatch
  · rename_i heq
    exact not_not.mp heq

/-- The next key can have a slot. -/
theorem Worn.slotToBeHad {n : ℕ} (h : t.Worn n) : t.SlotToBeHad (wideCall n) := by
  have hone := h.one
  by_cases hocc : (t.slots 0).flags = .occupied
  · refine Or.inr ⟨0, by rw [evictWindow, hone]; decide, ?_⟩
    have hprobe := h.tidy.probeIdx_lt (t.homeSlot (wideCall n).keyHash) 0
    obtain hzero : t.probeIdx (t.homeSlot (wideCall n).keyHash) 0 = 0 := by omega
    rw [hzero, (h.last hocc).2]
    decide
  · exact Or.inl ⟨0, by omega, hocc⟩

/-- A key that fits is stored. -/
theorem Worn.stored {n : ℕ} (h : t.Worn n) (hn : n ≤ 65536) {u : CounterTable} {r : ℕ} (hr : r < t.numSlots)
    (hone : u.numSlots = t.numSlots) (hcap : u.keyArenaCapacity = t.keyArenaCapacity)
    (hused : u.keyArenaUsed = t.keyArenaUsed)
    (hcall : t.call (wideCall n) = (u.setFlags r .inserting).fillSlot r (wideCall n).keyHash
      (wideCall n).key (wideCall n).pktBytes (wideCall n).tick) : (t.call (wideCall n)).2.Worn (n + 1) := by
  have hlen := wideCall_len n
  have hn1 := h.one
  have hused' := h.used
  have hcap' := h.capacity
  have hmax : max32 = 65537 * 65535 := rfl
  obtain rfl : r = 0 := by omega
  have hroom : u.keyArenaUsed + (wideCall n).key.len ≤ max32 := by omega
  have htidy := (h.tidy.call_cause (wideCall n)).1
  rw [fillSlot_claimed (by omega) hroom, storeAt, if_pos (by omega)] at hcall
  rw [hcall] at htidy ⊢
  refine { tidy := htidy, one := hone.trans hn1, capacity := hcap.trans hcap', used := ?_, last := fun _ => ?_ }
  · change u.keyArenaUsed + (wideCall n).key.len = _
    omega
  · simp only [placeKey, Function.update_self]
    have hparity : (n + 1 + 1) % 2 = n % 2 := by omega
    rw [hparity]
    exact ⟨rfl, rfl⟩

/-- The next call evicts the key of the call before it and takes as many bytes again. -/
theorem Worn.call {n : ℕ} (h : t.Worn n) (hn : n ≤ 65536) : (t.call (wideCall n)).2.Worn (n + 1) := by
  have hattempt := h.tidy.attempt (wideCall n)
  generalize hfind : t.find (wideCall n) = found at hattempt
  generalize hcall : t.call (wideCall n) = out at hattempt
  cases hattempt with
  | counted hj hocc => exact absurd (inReach_iff.mpr ⟨_, hfind⟩) h.missed
  | claimed hr hfree => exact hcall ▸ h.stored hn hr rfl rfl rfl hcall
  | refused hfull hvictim =>
    rcases h.slotToBeHad with ⟨j, hj, hfree⟩ | ⟨i, hi, htick⟩
    · exact absurd (hfull j hj) hfree
    · exact absurd ((lruVictim_eq_none_iff h.tidy.toGeometry hfull _).mp hvictim i hi) htick
  | @reclaimed v hfull hvictim =>
    have hv := (lruVictim_some h.tidy.toGeometry hvictim).1
    exact hcall ▸ h.stored (u := t.noteFull.evictSlot v) hn hv rfl rfl rfl hcall

/-- Behind 65537 calls the arena is used up to its last byte. -/
theorem worn_of_create (h : counterTableCreate 1 max32 ⟨true, fun _ => 0⟩ = some t) {n : ℕ}
    (hn : n ≤ 65537) : (Runs.run (fun t c => (t.call c).2) t (wideCalls n)).Worn n := by
  induction n with
  | zero =>
    obtain ⟨-, -, -, -, hfresh, hslots, hcap⟩ := counterTableCreate_some h
    have hone : t.numSlots = 1 := hslots
    refine { tidy := tidy_of_create h, one := hone, capacity := ?_, used := hfresh.used, last := ?_ }
    · rw [hone, Nat.one_mul] at hcap
      exact hcap
    · change (t.slots 0).flags = .occupied → _
      rw [hfresh.slots 0]
      nofun
  | succ n ih =>
    rw [wideCalls_succ, Runs.run_concat]
    exact (ih (by omega)).call (by omega)

/-- A full arena of the largest size takes in one more key: the sum wraps, and the first byte of the key
is written behind the end of the arena. -/
theorem arena_write_out_of_bounds : ∃ t, counterTableCreate 1 max32 ⟨true, fun _ => 0⟩ = some t ∧
    ¬Runs.Meets (fun t c => (t.call c).2) CallInBounds t (wideCalls 65538) ∧
    let full := t.calls (wideCalls 65537)
    ∃ m idx, ((step (wideCall 65537))^[m] (full, full.start)).2 = .copy idx full.keyArenaCapacity 0 := by
  have hcreate : (counterTableCreate 1 max32 ⟨true, fun _ => 0⟩).isSome = true :=
    counterTableCreate_isSome (by decide) (by decide) (by decide) (by decide) rfl
  obtain ⟨t, ht⟩ := Option.isSome_iff_exists.mp hcreate
  have hworn : (t.calls (wideCalls 65537)).Worn 65537 := worn_of_create ht le_rfl
  have hlen := wideCall_len 65537
  have hused : (t.calls (wideCalls 65537)).keyArenaUsed = max32 := hworn.used
  have hcap : (t.calls (wideCalls 65537)).keyArenaCapacity = max32 := hworn.capacity
  refine ⟨t, ht, fun hmeets => ?_, ?_⟩
  · rw [show wideCalls 65538 = _ from wideCalls_succ 65537, Runs.meets_concat] at hmeets
    have hfits := (hworn.tidy.fits_iff _).mp fun m => (hmeets.2.accesses m).fits
    rcases hfits with hhit | hslot | hwrap
    · exact hworn.missed hhit
    · exact hslot hworn.slotToBeHad
    · rw [hworn.used, hlen] at hwrap
      exact absurd hwrap (by decide)
  · obtain ⟨t', idx, hpasses, hused', hcap'⟩ := hworn.tidy.passes_alloc hworn.missed hworn.slotToBeHad
    obtain ⟨m, hm, -⟩ := hpasses.exists_iterate
    refine ⟨m + 1, idx, ?_⟩
    have hoff : t'.keyArenaUsed = max32 := hused'.trans hused
    have hend : t'.keyArenaCapacity = max32 := hcap'.trans hcap
    have hwrap : ¬u32 (max32 + 65535) > max32 := by decide
    rw [Function.iterate_succ_apply', hm, hcap]
    simp only [step, hoff, hend, hlen, if_neg hwrap, nextCopy]
    exact if_pos (by decide)

end CounterTable

end InFMon
