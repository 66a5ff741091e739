import InFMon.CounterTable.FailedUpdates
import InFMon.CounterTable.Steps

/-! # The accesses of an update make up the update

Without another writer in between, the machine of the single accesses gets from the start of an update to
its end, and the table behind it is the one that the update computes as a whole. This holds for every
table. On the way the arena is asked for room at most once, and `key_arena_used` is then what it was at
the start. -/

namespace InFMon

open MachineWord OpenAddressing SmallStep

namespace CounterTable

variable {t : CounterTable} {c : UpdateCall}

/-- The next access is not the one that asks the arena for room. -/
def NoAlloc : CounterTable × Pc → Prop
  | (_, .alloc _) => False
  | _ => True

/-- A way of the machine on which the arena is not asked for room. -/
abbrev Passes (c : UpdateCall) : CounterTable × Pc → CounterTable × Pc → Prop :=
  Through (step c) NoAlloc

/-! ### Comparing and counting -/

/-- The loads of `key_matches`. -/
theorem passes_compare (t : CounterTable) (c : UpdateCall) (site : Site) (idx : ℕ) :
    Passes c (t, .compare site idx .keyHash)
      (t, if t.keyMatches (t.slots idx) c.keyHash c.key then .countPacket idx
        else t.mismatch idx site) := by
  have hstep : ∀ load s, Passes c (t, stepCompare c t site idx load) s →
      Passes c (t, .compare site idx load) s := fun load s h => .head trivial h
  rw [keyMatches]
  refine hstep .keyHash _ ?_
  by_cases hhash : (t.slots idx).keyHash ≠ c.keyHash
  · simp only [stepCompare, if_pos hhash, Bool.false_eq_true, if_false]
    exact .refl _
  simp only [stepCompare, if_neg hhash]
  refine hstep .keyLen _ ?_
  by_cases hlen : (t.slots idx).keyLen ≠ c.key.len
  · simp only [stepCompare, if_pos hlen, Bool.false_eq_true, if_false]
    exact .refl _
  simp only [stepCompare, if_neg hlen]
  refine hstep .keyOffset _ ?_
  by_cases hoff : u32 ((t.slots idx).keyOffset + c.key.len) > t.keyArenaCapacity
  · simp only [stepCompare, if_pos hoff, Bool.false_eq_true, if_false]
    exact .refl _
  simp only [stepCompare, if_neg hoff]
  refine hstep .keyBytes _ ?_
  simp only [stepCompare, decide_eq_true_eq]
  exact .refl _

/-- A packet is counted. -/
theorem passes_count (t : CounterTable) (c : UpdateCall) (idx : ℕ) :
    Passes c (t, .countPacket idx) (t.bumpSlot idx c.pktBytes c.tick, .returned true) := by
  refine .head trivial (.head trivial (.single trivial ?_))
  simp only [step, bumpSlot, modifySlot, Function.update_self, Function.update_idem]

/-! ### Phase 1 -/

/-- Where the search leads. -/
def afterSearch : Found → Pc
  | .hit idx => .countPacket idx
  | .miss candidate => afterScan candidate

/-- The rounds of phase 1. -/
theorem passes_scan (t : CounterTable) (c : UpdateCall) (fuel i : ℕ) (candidate : Option ℕ)
    (hfuel : i + fuel = t.numSlots) :
    Passes c (t, t.nextScan i candidate) (t, afterSearch
      (t.searchSlot (t.homeSlot c.keyHash) c.keyHash c.key fuel i candidate)) := by
  induction fuel generalizing i candidate with
  | zero =>
    rw [nextScan, if_neg (by omega), searchSlot]
    exact .refl _
  | succ fuel ih =>
    rw [nextScan, if_pos (by omega), searchSlot]
    refine .head trivial ?_
    simp only [step]
    cases hflags : (t.slots (t.probeIdx (t.homeSlot c.keyHash) i)).flags with
    | free => exact .refl _
    | tombstone => exact ih (i + 1) _ (by omega)
    | inserting => exact ih (i + 1) _ (by omega)
    | occupied =>
      refine (passes_compare t c _ _).trans ?_
      by_cases hmatch : t.keyMatches (t.slots (t.probeIdx (t.homeSlot c.keyHash) i)) c.keyHash c.key
      · simp only [if_pos hmatch]
        exact .refl _
      · simp only [if_neg hmatch]
        exact ih (i + 1) _ (by omega)

/-- The search of a call. -/
theorem passes_find (t : CounterTable) (c : UpdateCall) :
    Passes c (t, t.start) (t, afterSearch (t.find c)) :=
  passes_scan t c t.numSlots 0 none (Nat.zero_add _)

/-! ### Filling a claimed slot -/

/-- The key is copied byte by byte. -/
theorem passes_copy (t : CounterTable) (c : UpdateCall) (idx off k : ℕ) :
    Passes c (t, nextCopy c.key idx off k)
      ({ t with keyArena := t.keyArena.write (off + k) (c.key.bytes.drop k) },
        nextCopy c.key idx off c.key.len) := by
  by_cases hk : k < c.key.len
  · have hone := t.keyArena.write_append (off + k) [c.key.bytes.getD k 0] (c.key.bytes.drop (k + 1))
    have hdrop : [c.key.bytes.getD k 0] ++ c.key.bytes.drop (k + 1) = c.key.bytes.drop k := by
      have hlt : k < c.key.bytes.length := hk
      rw [List.getD_eq_getElem _ _ hlt, List.singleton_append, ← List.drop_eq_getElem_cons hlt]
    rw [hdrop] at hone
    have hrest := passes_copy
      { t with keyArena := t.keyArena.write (off + k) [c.key.bytes.getD k 0] } c idx off (k + 1)
    rw [← hone]
    have hnext : nextCopy c.key idx off k = .copy idx off k := if_pos hk
    rw [hnext]
    exact .head trivial hrest
  · have hdrop : c.key.bytes.drop k = [] := List.drop_eq_nil_of_le (by rw [Key.len] at hk; omega)
    have hnext : ∀ {k}, ¬k < c.key.len → nextCopy c.key idx off k =
        if off = max32 then .unclaim idx else .beginWrite idx off := fun h => if_neg h
    rw [hdrop, ByteMemory.write_nil, hnext hk, hnext (lt_irrefl _)]
    exact .refl _
termination_by c.key.len - k

/-- The slot is given up. -/
theorem passes_unclaim (t : CounterTable) (c : UpdateCall) (idx : ℕ) :
    Passes c (t, .unclaim idx) ((t.setFlags idx .free).failInsert, .returned false) :=
  .head trivial (.single trivial rfl)

/-- The slot is written and published. -/
theorem passes_write (t : CounterTable) (c : UpdateCall) (idx off : ℕ) :
    Passes c (t, .beginWrite idx off)
      (let t := t.seqlockBump (idx / slotsPerGroup)
       let t := t.modifySlot idx fun slot =>
        { slot with
          keyHash := c.keyHash
          packets := 1
          bytes := c.pktBytes
          keyOffset := off
          keyLen := c.key.len
          lastUpdate := c.tick }
       let t := t.seqlockBump (idx / slotsPerGroup)
       let t := t.setFlags idx .occupied
       ({ t with occupiedCount := u32 (t.occupiedCount + 1) }, .returned true)) := by
  refine .head trivial (.head trivial (.head trivial (.head trivial (.head trivial (.head trivial
    (.head trivial (.head trivial (.head trivial (.single trivial ?_)))))))))
  simp only [step, nextStore, SlotField.next, Slot.storeField, modifySlot, seqlockBump, setFlags,
    Function.update_self, Function.update_idem]

/-- Once the arena has been asked for room the slot is filled or given up. -/
theorem passes_fill (t : CounterTable) (c : UpdateCall) (idx : ℕ) :
    Passes c (step c (t, .alloc idx))
      ((t.fillSlot idx c.keyHash c.key c.pktBytes c.tick).2,
        .returned (t.fillSlot idx c.keyHash c.key c.pktBytes c.tick).1) := by
  rw [fillSlot, arenaAlloc, step]
  by_cases hcap : u32 (t.keyArenaUsed + c.key.len) > t.keyArenaCapacity
  · simp only [if_pos hcap, if_true]
    exact .head trivial (passes_unclaim _ c idx)
  · simp only [if_neg hcap]
    refine (passes_copy _ c idx t.keyArenaUsed 0).trans ?_
    rw [nextCopy, if_neg (lt_irrefl _)]
    by_cases hmax : t.keyArenaUsed = max32
    · simp only [if_pos hmax]
      exact passes_unclaim _ c idx
    · simp only [if_neg hmax]
      exact passes_write _ c idx t.keyArenaUsed

/-! ### Eviction -/

/-- The rounds of the victim scan. -/
theorem passes_inspect (t : CounterTable) (c : UpdateCall) (fuel i : ℕ) (acc : Option ℕ × UInt64)
    (hfuel : i + fuel = t.evictWindow) :
    Passes c (t, t.nextInspect i acc.1 acc.2)
      (t, match ((List.range' i fuel).foldl (t.victimStep (t.homeSlot c.keyHash)) acc).1 with
        | some v => .beginEvict v
        | none => .fail) := by
  induction fuel generalizing i acc with
  | zero =>
    rw [nextInspect.eq_def, if_neg (by omega)]
    exact .refl _
  | succ fuel ih =>
    rw [nextInspect.eq_def, if_pos (by omega), List.range'_succ, List.foldl_cons, victimStep]
    refine .head trivial ?_
    simp only [step]
    by_cases hocc : (t.slots (t.probeIdx (t.homeSlot c.keyHash) i)).flags = .occupied
    · simp only [if_pos hocc]
      refine .head trivial ?_
      simp only [step]
      by_cases hlt : (t.slots (t.probeIdx (t.homeSlot c.keyHash) i)).lastUpdate < acc.2
      · simp only [if_pos hlt]
        exact ih (i + 1) (some _, _) (by omega)
      · simp only [if_neg hlt]
        exact ih (i + 1) _ (by omega)
    · simp only [if_neg hocc]
      exact ih (i + 1) _ (by omega)

/-- `evict_lru`, called when the table is full. -/
theorem passes_evict (t : CounterTable) (c : UpdateCall) :
    Passes c (t, .noteFull)
      (match t.noteFull.evictLru (t.homeSlot c.keyHash) with
        | (false, t') => (t', .fail)
        | (true, t') => (t', t'.nextRescan 0)) := by
  have hscan := passes_inspect t.noteFull c t.evictWindow 0 (none, 0xFFFFFFFFFFFFFFFF)
    (Nat.zero_add _)
  rw [← List.range_eq_range'] at hscan
  refine .head trivial (Through.trans hscan ?_)
  change Passes c (t.noteFull, match t.noteFull.lruVictim (t.homeSlot c.keyHash) with
    | some v => .beginEvict v
    | none => .fail) _
  cases hvictim : t.noteFull.lruVictim (t.homeSlot c.keyHash) with
  | none =>
    rw [evictLru_none hvictim]
    exact .refl _
  | some v =>
    refine .head trivial (.head trivial ?_)
    rw [evictLru, hvictim]
    simp only [step]
    by_cases hocc : ((t.noteFull.seqlockBump (v / slotsPerGroup)).slots v).flags ≠ .occupied
    · simp only [if_pos hocc]
      exact .single trivial rfl
    · simp only [if_neg hocc]
      exact .head trivial (.head trivial (.single trivial rfl))

/-! ### The retry -/

/-- Where the retry leads. -/
def afterRetry (t : CounterTable) : Found → CounterTable × Pc
  | .hit idx => (t, .countPacket idx)
  | .miss (some idx) => (t.setFlags idx .inserting, .alloc idx)
  | .miss none => (t, .fail)

/-- The rounds of the retry. -/
theorem passes_rescan (t : CounterTable) (c : UpdateCall) (fuel i : ℕ)
    (hfuel : i + fuel = t.numSlots) :
    Passes c (t, t.nextRescan i)
      (t.afterRetry (t.retryFind (t.homeSlot c.keyHash) c.keyHash c.key fuel i)) := by
  induction fuel generalizing i with
  | zero =>
    rw [nextRescan, if_neg (by omega), retryFind]
    exact .refl _
  | succ fuel ih =>
    rw [nextRescan, if_pos (by omega), retryFind]
    refine .head trivial ?_
    simp only [step]
    cases hflags : (t.slots (t.probeIdx (t.homeSlot c.keyHash) i)).flags with
    | free =>
      refine .single trivial ?_
      simp only [step, casFlags, hflags, if_true, afterRetry]
    | tombstone =>
      refine .single trivial ?_
      simp only [step, casFlags, hflags, if_true, afterRetry]
    | inserting => exact ih (i + 1) (by omega)
    | occupied =>
      refine (passes_compare t c _ _).trans ?_
      by_cases hmatch : t.keyMatches (t.slots (t.probeIdx (t.homeSlot c.keyHash) i)) c.keyHash c.key
      · simp only [if_pos hmatch]
        exact .refl _
      · simp only [if_neg hmatch]
        exact ih (i + 1) (by omega)

/-! ### The whole update -/

/-- The candidate slot is claimed if its flags still allow it. -/
theorem passes_reload (t : CounterTable) (c : UpdateCall) (idx : ℕ) :
    Passes c (t, .reload idx)
      (if (t.slots idx).flags = .free ∨ (t.slots idx).flags = .tombstone then
        (t.setFlags idx .inserting, .alloc idx)
      else (t, .noteFull)) := by
  refine .head trivial ?_
  simp only [step]
  by_cases hflags : (t.slots idx).flags = .free ∨ (t.slots idx).flags = .tombstone
  · simp only [if_pos hflags]
    refine .single trivial ?_
    simp only [step, casFlags, if_true]
  · simp only [if_neg hflags]
    exact .refl _

/-- A way of the machine. -/
abbrev Steps (c : UpdateCall) : CounterTable × Pc → CounterTable × Pc → Prop :=
  Through (step c) fun _ => True

/-- A way without a request to the arena is a way. -/
theorem Passes.steps {s s' : CounterTable × Pc} (h : Passes c s s') : Steps c s s' :=
  Through.mono (fun _ _ => trivial) h

/-- A claimed slot is filled or given up. -/
theorem steps_fill (t : CounterTable) (c : UpdateCall) (idx : ℕ) :
    Steps c (t, .alloc idx) ((t.fillSlot idx c.keyHash c.key c.pktBytes c.tick).2,
      .returned (t.fillSlot idx c.keyHash c.key c.pktBytes c.tick).1) :=
  .head trivial (passes_fill t c idx).steps

/-- The end of an update that could not use a candidate slot. -/
theorem steps_evictAndRetry (t : CounterTable) (c : UpdateCall) :
    Steps c (t, .noteFull)
      ((t.evictAndRetry (t.homeSlot c.keyHash) c.keyHash c.key c.pktBytes c.tick).2,
        .returned (t.evictAndRetry (t.homeSlot c.keyHash) c.keyHash c.key c.pktBytes c.tick).1) := by
  have hevict := (passes_evict t c).steps
  have hshape := t.noteFull.shape_evictLru (t.homeSlot c.keyHash)
  rw [evictAndRetry]
  generalize t.noteFull.evictLru (t.homeSlot c.keyHash) = out at hevict hshape
  obtain ⟨ok, t'⟩ := out
  refine Through.trans hevict ?_
  cases ok with
  | false => exact .single trivial rfl
  | true =>
    have hmask : t'.slotMask = t.slotMask := congrArg (fun shape => shape.2.1) hshape
    have hhome : t'.homeSlot c.keyHash = t.homeSlot c.keyHash := congrArg (_ &&& ·) hmask
    refine (passes_rescan t' c t'.numSlots 0 (Nat.zero_add _)).steps.trans ?_
    simp only [retryScan_eq_find, ← hhome]
    cases t'.retryFind (t'.homeSlot c.keyHash) c.keyHash c.key t'.numSlots 0 with
    | hit idx => exact (passes_count t' c idx).steps
    | miss reuse =>
      cases reuse with
      | some idx => exact steps_fill _ c idx
      | none => exact .single trivial rfl

/-- The machine gets from the start of a call to its end, and the call is then complete: the table is as
the update leaves it, and the result is the result of the update. -/
theorem steps_call (t : CounterTable) (c : UpdateCall) :
    Steps c (t, t.start) ((t.call c).2, .returned (t.call c).1) := by
  refine (passes_find t c).steps.trans ?_
  rw [call, update, find]
  cases t.searchSlot (t.homeSlot c.keyHash) c.keyHash c.key t.numSlots 0 none with
  | hit idx => exact (passes_count t c idx).steps
  | miss candidate =>
    cases candidate with
    | none => exact steps_evictAndRetry t c
    | some idx =>
      refine (passes_reload t c idx).steps.trans ?_
      by_cases hflags : (t.slots idx).flags = .free ∨ (t.slots idx).flags = .tombstone
      · simp only [if_pos hflags, claimSlot_uncontended]
        exact steps_fill _ c idx
      · simp only [if_neg hflags]
        exact steps_evictAndRetry t c

end CounterTable

end InFMon
