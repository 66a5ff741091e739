import InFMon.CounterTable.Accounting
import InFMon.Plugin.Handlers

/-! # What a slot is made of

Every update that succeeds is credited to the slot in which it counts its packet, and an evicted key
takes with it what its slot was credited with. The counters of an occupied slot are what its credits
amount to, modulo `2 ^ 64`. -/

namespace InFMon

open MachineWord OpenAddressing

/-- An update, with its place in the order of all updates and the rule it counts for. -/
structure CountedUpdate where
  number : ℕ
  rule : FlowRuleId
  keyHash : UInt64
  key : Key
  pktBytes : UInt64
  deriving DecidableEq

namespace CounterTable

/-! ### Where an update counts -/

/-- The slot in which a call counts its packet: the slot with the key, or the slot that takes the key,
provided that the arena has room for it. -/
def countsIn (t : CounterTable) (keyHash : UInt64) (key : Key) : Option ℕ :=
  let start := t.homeSlot keyHash
  match t.searchSlot start keyHash key t.numSlots 0 none with
  | .hit j => some j
  | .miss reuse =>
    if t.keyArenaUsed + key.len ≤ t.keyArenaCapacity then reuse.or (t.lruVictim start) else none

/-- How a call that succeeds counts its packet in slot `r`, with the slot it evicts. -/
inductive Landed (t : CounterTable) (keyHash : UInt64) (key : Key) (pktBytes tick : UInt64) (r : ℕ) :
    CounterTable → Option ℕ → Prop
  | counted (hcell : t.cell r = .full (keyHash, key.bytes)) :
    Landed t keyHash key pktBytes tick r (t.bumpSlot r pktBytes tick) none
  | stored (hfree : (t.slots r).flags ≠ .occupied)
      (hroom : t.keyArenaUsed + key.len ≤ t.keyArenaCapacity) :
    Landed t keyHash key pktBytes tick r (t.placeKey r keyHash key pktBytes tick) none
  | replaced (hroom : t.keyArenaUsed + key.len ≤ t.keyArenaCapacity) :
    Landed t keyHash key pktBytes tick r
      ((t.noteFull.evictSlot r).placeKey r keyHash key pktBytes tick) (some r)

variable {t : CounterTable} {key : Key}

/-- A call succeeds exactly when there is a slot in which it counts, and it counts there. -/
theorem Settled.countsIn_spec (h : t.Settled) (hused : t.keyArenaUsed < max32)
    (hroom : t.keyArenaUsed + key.len ≤ max32) (keyHash pktBytes tick : UInt64) :
    (t.update keyHash key pktBytes tick).1 = (t.countsIn keyHash key).isSome ∧
      ∀ r, t.countsIn keyHash key = some r → r < t.numSlots ∧
        Landed t keyHash key pktBytes tick r (t.update keyHash key pktBytes tick).2
          (t.evicted keyHash key) := by
  rw [h.update_eq hused hroom, evicted, countsIn]
  simp only [h.search_eq]
  rcases h.lookup_cases (keyHash, key.bytes) with ⟨j, hj, hcell, hlook⟩ | ⟨r, hr, hflags, hlook⟩ |
    ⟨-, hlook⟩
  · rw [hlook]
    refine ⟨rfl, fun r hr => ?_⟩
    obtain rfl := Option.some.inj hr
    exact ⟨hj, .counted hcell⟩
  · have hfree := ne_occupied_of_reusable hflags
    simp only [hlook, if_pos hflags, storeAt]
    by_cases hfits : t.keyArenaUsed + key.len ≤ t.keyArenaCapacity
    · rw [if_pos hfits, if_pos hfits]
      refine ⟨rfl, fun r' hr' => ?_⟩
      obtain rfl : r = r' := Option.some.inj hr'
      exact ⟨hr, .stored hfree hfits⟩
    · rw [if_neg hfits, if_neg hfits]
      exact ⟨rfl, fun r' hr' => by cases hr'⟩
  · simp only [hlook]
    cases hvictim : t.lruVictim (t.homeSlot keyHash) with
    | none =>
      rw [Option.or_none, ite_self]
      exact ⟨rfl, fun r' hr' => by cases hr'⟩
    | some v =>
      obtain ⟨hv, -⟩ := lruVictim_some h.toGeometry hvictim
      -- the eviction leaves the arena as it is
      have harena : (t.noteFull.evictSlot v).keyArenaUsed + key.len ≤
          (t.noteFull.evictSlot v).keyArenaCapacity ↔
          t.keyArenaUsed + key.len ≤ t.keyArenaCapacity := Iff.rfl
      simp only [storeAt]
      by_cases hfits : t.keyArenaUsed + key.len ≤ t.keyArenaCapacity
      · rw [if_pos hfits, if_pos (harena.mpr hfits)]
        refine ⟨rfl, fun r' hr' => ?_⟩
        obtain rfl : v = r' := Option.some.inj hr'
        exact ⟨hv, .replaced hfits⟩
      · rw [if_neg hfits, if_neg fun h => hfits (harena.mp h)]
        exact ⟨rfl, fun r' hr' => by cases hr'⟩

/-! ### Credits -/

/-- The credits of the slots behind an update. -/
def credit (t : CounterTable) (u : CountedUpdate) (c : ℕ → List CountedUpdate) :
    ℕ → List CountedUpdate :=
  let kept := (t.evicted u.keyHash u.key).elim c fun v => Function.update c v []
  (t.countsIn u.keyHash u.key).elim kept fun r => Function.update kept r (kept r ++ [u])

/-- The credits that a key evicted by an update takes with it. -/
def forfeited (t : CounterTable) (u : CountedUpdate) (c : ℕ → List CountedUpdate) :
    List CountedUpdate :=
  (t.evicted u.keyHash u.key).elim [] c

section Credits

variable {t : CounterTable} {u v : CountedUpdate} {c : ℕ → List CountedUpdate} {r : ℕ}

/-- What an update forfeits are the credits of the slot that it evicts. -/
theorem mem_forfeited : v ∈ t.forfeited u c ↔ ∃ r, t.evicted u.keyHash u.key = some r ∧ v ∈ c r := by
  rw [forfeited]
  cases t.evicted u.keyHash u.key with
  | none => simp
  | some e => simp

/-- A slot keeps its credits unless it is evicted, and the update is credited where it counts. -/
theorem credit_apply : t.credit u c r =
    (if t.evicted u.keyHash u.key = some r then [] else c r) ++
      if t.countsIn u.keyHash u.key = some r then [u] else [] := by
  have hkept : (t.evicted u.keyHash u.key).elim c (fun v => Function.update c v []) r =
      if t.evicted u.keyHash u.key = some r then [] else c r := by
    cases t.evicted u.keyHash u.key with
    | none => rfl
    | some e =>
      by_cases her : e = r
      · subst her
        simp
      · simp [her, Function.update_of_ne (Ne.symm her)]
  rw [credit, ← hkept]
  cases t.countsIn u.keyHash u.key with
  | none => simp
  | some i =>
    by_cases hir : i = r
    · subst hir
      simp
    · simp [hir, Function.update_of_ne (Ne.symm hir)]

/-- The credits of a slot: those that it had and keeps, and the update that it counts. -/
theorem mem_credit : v ∈ t.credit u c r ↔ (v ∈ c r ∧ t.evicted u.keyHash u.key ≠ some r) ∨
    v = u ∧ t.countsIn u.keyHash u.key = some r := by
  rw [credit_apply, List.mem_append]
  refine or_congr ?_ ?_
  · split
    · rename_i hevicted
      simp [hevicted]
    · rename_i hevicted
      exact (and_iff_left hevicted).symm
  · split
    · rename_i hin
      simp [hin]
    · rename_i hin
      simp [hin]

/-- An update that is new is credited once. -/
theorem nodup_credit (h : (c r).Nodup) (hu : u ∉ c r) : (t.credit u c r).Nodup := by
  rw [credit_apply]
  have hkept : (if t.evicted u.keyHash u.key = some r then [] else c r).Nodup := by
    split
    · exact List.nodup_nil
    · exact h
  have hnew : u ∉ if t.evicted u.keyHash u.key = some r then [] else c r := by
    split
    · exact List.not_mem_nil
    · exact hu
  generalize (if t.evicted u.keyHash u.key = some r then [] else c r) = kept at hkept hnew ⊢
  split
  · rw [← List.concat_eq_append]
    exact hkept.concat hnew
  · rwa [List.append_nil]

end Credits

/-- The counters of a slot that some credits amount to. -/
structure AmountsTo (credits : List CountedUpdate) (packets bytes : UInt64) : Prop where
  packets : packets = UInt64.ofNat credits.length
  bytes : bytes = UInt64.ofNat (credits.map fun u => u.pktBytes.toNat).sum

/-- One update more is one packet more, and its bytes. -/
theorem AmountsTo.concat {credits : List CountedUpdate} {packets bytes : UInt64}
    (h : AmountsTo credits packets bytes) (u : CountedUpdate) :
    AmountsTo (credits ++ [u]) (packets + 1) (bytes + u.pktBytes) where
  packets := by
    rw [h.packets, List.length_append, UInt64.ofNat_add]
    rfl
  bytes := by
    rw [h.bytes, List.map_append, List.sum_append, UInt64.ofNat_add]
    simp

/-- Only occupied slots have credits, and an occupied slot has the key of its credits and the counters
that they amount to. -/
structure Tallies (c : ℕ → List CountedUpdate) (t : CounterTable) : Prop where
  occupied : ∀ r, c r ≠ [] → r < t.numSlots ∧ (t.slots r).flags = .occupied
  amounts : ∀ r < t.numSlots, (t.slots r).flags = .occupied →
    AmountsTo (c r) (t.slots r).packets (t.slots r).bytes
  keys : ∀ r, ∀ u ∈ c r, t.cell r = .full (u.keyHash, u.key.bytes)

/-- A table without keys has no credits. -/
theorem Empty.tallies (h : t.Empty) {c : ℕ → List CountedUpdate} (hc : ∀ r, c r = []) :
    Tallies c t where
  occupied r hr := absurd (hc r) hr
  amounts r _ hocc := by
    rw [h.slots r] at hocc
    cases hocc
  keys r u hu := by
    rw [hc r] at hu
    cases hu

namespace Tallies

variable {c : ℕ → List CountedUpdate} {t' : CounterTable} {r : ℕ}

/-- A slot that is not occupied has no credits. -/
theorem nil_of_not (h : Tallies c t) (hfree : (t.slots r).flags ≠ .occupied) : c r = [] := by
  by_contra hne
  exact hfree (h.occupied r hne).2

/-- One slot changes, with its credits. -/
theorem update (h : Tallies c t) (hn : t'.numSlots = t.numSlots)
    (hslots : ∀ j, j ≠ r → t'.slots j = t.slots j)
    (hcells : ∀ j < t.numSlots, j ≠ r → t'.cell j = t.cell j) {credits : List CountedUpdate}
    (hocc : credits ≠ [] → r < t.numSlots ∧ (t'.slots r).flags = .occupied)
    (hamounts : (t'.slots r).flags = .occupied →
      AmountsTo credits (t'.slots r).packets (t'.slots r).bytes)
    (hkeys : ∀ u ∈ credits, t'.cell r = .full (u.keyHash, u.key.bytes)) :
    Tallies (Function.update c r credits) t' where
  occupied j hj := by
    -- only slot `r` is credited anew
    by_cases hjr : j = r
    · subst hjr
      rw [Function.update_self] at hj
      exact hn ▸ hocc hj
    · rw [Function.update_of_ne hjr] at hj
      rw [hn, hslots j hjr]
      exact h.occupied j hj
  amounts j hj hflags := by
    by_cases hjr : j = r
    · subst hjr
      rw [Function.update_self]
      exact hamounts hflags
    · rw [hslots j hjr] at hflags ⊢
      rw [Function.update_of_ne hjr]
      exact h.amounts j (hn ▸ hj) hflags
  keys j u hu := by
    by_cases hjr : j = r
    · subst hjr
      rw [Function.update_self] at hu
      exact hkeys u hu
    · rw [Function.update_of_ne hjr] at hu
      have hlt := (h.occupied j (List.ne_nil_of_mem hu)).1
      rw [hcells j hlt hjr]
      exact h.keys j u hu

/-- A packet is counted in the slot of its key. -/
theorem bump (h : Tallies c t) {u : CountedUpdate} (hr : r < t.numSlots)
    (hcell : t.cell r = .full (u.keyHash, u.key.bytes)) (tick : UInt64) :
    Tallies (Function.update c r (c r ++ [u])) (t.bumpSlot r u.pktBytes tick) := by
  have hocc := (cell_eq_full_iff.mp hcell).1
  have hn : (t.bumpSlot r u.pktBytes tick).numSlots = t.numSlots := rfl
  refine h.update hn (fun j hj => ?_) (fun j _ _ => ?_) (fun _ => ⟨hr, ?_⟩) (fun _ => ?_) ?_
  · rw [bumpSlot_slots, Function.update_of_ne hj]
  · rw [bumpSlot_cell]
  · rw [bumpSlot_slot_flags]
    exact hocc
  · rw [bumpSlot_slots, Function.update_self]
    exact (h.amounts r hr hocc).concat u
  · intro v hv
    rw [bumpSlot_cell]
    rcases List.mem_append.mp hv with hv | hv
    · exact h.keys r v hv
    · rw [List.mem_singleton.mp hv]
      exact hcell

/-- A key is stored in a slot without credits. -/
theorem place (h : Tallies c t) (hs : t.Settled) {u : CountedUpdate} (hr : r < t.numSlots)
    (hnil : c r = []) (tick : UInt64) :
    Tallies (Function.update c r (c r ++ [u])) (t.placeKey r u.keyHash u.key u.pktBytes tick) := by
  have hcell := fun j hj => hs.placeKey_cell r (j := j) hj u.keyHash u.pktBytes tick u.key
  have hn : (t.placeKey r u.keyHash u.key u.pktBytes tick).numSlots = t.numSlots := rfl
  rw [hnil, List.nil_append]
  refine h.update hn (fun j hj => placeKey_slot_of_ne hj) (fun j hj hjr => ?_)
    (fun _ => ⟨hr, ?_⟩) (fun _ => ?_) ?_
  · rw [hcell j hj, Function.update_of_ne hjr]
  · rw [placeKey_slot_self]
  · rw [placeKey_slot_self]
    exact ⟨rfl, by simp⟩
  · intro v hv
    rw [List.mem_singleton.mp hv, hcell r hr, Function.update_self]

/-- A slot is given up with its credits. -/
theorem clear (h : Tallies c t) (hn : t'.numSlots = t.numSlots)
    (hslots : ∀ j, j ≠ r → t'.slots j = t.slots j)
    (hcells : ∀ j < t.numSlots, j ≠ r → t'.cell j = t.cell j)
    (hfree : (t'.slots r).flags ≠ .occupied) : Tallies (Function.update c r []) t' :=
  h.update hn hslots hcells (fun hne => absurd rfl hne) (fun hocc => absurd hocc hfree)
    fun _ hu => absurd hu List.not_mem_nil

/-- An evicted slot has no credits any more. -/
theorem evict (h : Tallies c t) (r : ℕ) : Tallies (Function.update c r []) (t.evictSlot r) := by
  refine h.clear rfl (fun j hj => setFlags_slot_of_ne hj) (fun j _ hj => ?_) ?_
  · rw [evictSlot_cell, Function.update_of_ne hj]
  · simp [evictSlot]

/-- A slot that is given up has no credits any more. -/
theorem release (h : Tallies c t) (r : ℕ) : Tallies (Function.update c r []) (t.releaseSlot r) := by
  refine h.clear rfl (fun j hj => setFlags_slot_of_ne hj) (fun j _ hj => ?_) ?_
  · rw [releaseSlot_cell, Function.update_of_ne hj]
  · simp [releaseSlot, failInsert]

/-- The note that the table is full leaves the credits. -/
theorem note (h : Tallies c t) : Tallies c t.noteFull := ⟨h.occupied, h.amounts, h.keys⟩

/-- A failed insertion leaves the credits. -/
theorem fail (h : Tallies c t) : Tallies c t.failInsert := ⟨h.occupied, h.amounts, h.keys⟩

/-- The credits behind an update are those of the table behind it. -/
theorem step (h : Tallies c t) (hs : t.Settled) (u : CountedUpdate)
    (hused : t.keyArenaUsed < max32) (hroom : t.keyArenaUsed + u.key.len ≤ max32) (tick : UInt64) :
    Tallies (t.credit u c) (t.update u.keyHash u.key u.pktBytes tick).2 := by
  obtain ⟨hok, hlanded⟩ := hs.countsIn_spec hused hroom u.keyHash u.pktBytes tick
  rw [credit]
  cases hin : t.countsIn u.keyHash u.key with
  | some r =>
    obtain ⟨hr, hland⟩ := hlanded r hin
    generalize (t.update u.keyHash u.key u.pktBytes tick).2 = t' at hland
    generalize t.evicted u.keyHash u.key = victim at hland
    cases hland with
    | counted hcell => exact h.bump hr hcell tick
    | stored hfree hroom => exact h.place hs hr (h.nil_of_not hfree) tick
    | replaced hroom =>
      exact (h.note.evict r).place (hs.note.evict r) hr (Function.update_self ..) tick
  | none =>
    -- a call that fails gives up a slot at most
    rw [hin] at hok
    have hout := hs.outcome hused hroom u.keyHash u.pktBytes tick
    generalize t.update u.keyHash u.key u.pktBytes tick = out at hok hout
    generalize t.evicted u.keyHash u.key = victim at hout
    cases hout with
    | counted hj hcell => cases hok
    | stored hr hfree hroom => cases hok
    | replaced hv hocc hroom => cases hok
    | @released r hr hfree =>
      have hrelease := h.release r
      rwa [← h.nil_of_not hfree, Function.update_eq_self] at hrelease
    | refused => exact h.note.fail
    | @lost v hv hocc =>
      have hrelease := (h.note.evict v).release v
      rwa [Function.update_idem] at hrelease

/-- The message for a slot with credits has their key and the counters that they amount to. -/
theorem slotDetails (h : Tallies c t) (hs : t.Settled) {desc : StatsDescriptor} {m : InlineDetails}
    (hr : r < t.numSlots) (hm : Plugin.slotDetails desc t r = some m) :
    m.flowRuleId = desc.flowRuleId ∧ AmountsTo (c r) m.packets m.bytes ∧
      ∀ u ∈ c r, m.keyHash = u.keyHash ∧ m.keyData = u.key.bytes := by
  rw [Plugin.slotDetails] at hm
  split at hm
  · cases hm
  · rename_i hocc
    cases hm
    refine ⟨rfl, h.amounts r hr (not_not.mp hocc), fun u hu => ?_⟩
    obtain ⟨hflags, hstored⟩ := cell_eq_full_iff.mp (h.keys r u hu)
    have hkey : t.key (t.slots r) = some u.key.bytes :=
      (hs.key_eq_some_iff hr).mpr ⟨hflags, congrArg Prod.snd hstored⟩
    exact ⟨congrArg Prod.fst hstored, by rw [hkey]; rfl⟩

end Tallies

end CounterTable

end InFMon
