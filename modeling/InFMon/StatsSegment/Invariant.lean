import InFMon.StatsSegment.Model

/-! # The count of the active descriptors

The registry keeps the number of its active descriptors apart from their flags. The two stay in step
over every history of calls, and so enumeration, capacity and lookup are what the flags say. -/

namespace InFMon

open CountedLoop MachineWord SparseArray

namespace FlowRuleId

/-- The comparison of ids decides their equality. -/
theorem eq_iff {a b : FlowRuleId} : a.eq b = true ↔ a = b := by
  rw [FlowRuleId.eq, Bool.and_eq_true, beq_iff_eq, beq_iff_eq, FlowRuleId.ext_iff]

end FlowRuleId

namespace SegmentDescriptor

variable {d : SegmentDescriptor} {id : FlowRuleId} {generation : UInt64}

/-- An active descriptor of this rule. -/
theorem isOf_iff : d.isOf id = true ↔ d.active = true ∧ d.flowRuleId = id := by
  rw [isOf, Bool.and_eq_true, FlowRuleId.eq_iff]

/-- An active descriptor of this rule and this generation. -/
theorem isAt_iff : d.isAt id generation = true ↔
    d.active = true ∧ d.flowRuleId = id ∧ d.generation = generation := by
  rw [isAt, Bool.and_eq_true, Bool.and_eq_true, FlowRuleId.eq_iff, beq_iff_eq, and_assoc]

end SegmentDescriptor

namespace StatsRegistry

/-- The slots of the active descriptors, in order. -/
def activeSlots (reg : StatsRegistry) : List ℕ :=
  liveCells SegmentDescriptor.isActive statsMaxDescriptors reg.descriptors

/-- The count is the number of active descriptors. -/
def WellCounted (reg : StatsRegistry) : Prop := reg.count = reg.activeSlots.length

variable {reg : StatsRegistry} {id : FlowRuleId} {generation : UInt64} {i : ℕ}

/-- The slots whose descriptors are active. -/
theorem mem_activeSlots : i ∈ reg.activeSlots ↔
    i < statsMaxDescriptors ∧ (reg.descriptors i).active = true := mem_liveCells

/-- No more descriptors are counted than there are slots. -/
theorem WellCounted.count_le (h : reg.WellCounted) : reg.count ≤ statsMaxDescriptors :=
  h.trans_le length_liveCells_le

/-! ### One descriptor -/

/-- Other slots keep their descriptors. -/
theorem setDescriptor_of_ne {j : ℕ} (h : j ≠ i) (d : SegmentDescriptor) :
    (reg.setDescriptor i d).descriptors j = reg.descriptors j := Function.update_of_ne h _ _

/-- The slot has the new descriptor. -/
@[simp] theorem setDescriptor_self (d : SegmentDescriptor) :
    (reg.setDescriptor i d).descriptors i = d := Function.update_self ..

/-- A write changes the number of active descriptors by what it changes of the flag. -/
theorem length_activeSlots_setDescriptor (reg : StatsRegistry) (hi : i < statsMaxDescriptors)
    (d : SegmentDescriptor) :
    (reg.setDescriptor i d).activeSlots.length + (reg.descriptors i).active.toNat =
      reg.activeSlots.length + d.active.toNat := length_liveCells_update hi d

/-- A slot that is given up keeps its descriptor, which is not active any more. -/
theorem deactivate_descriptors : (reg.deactivate i).descriptors =
    (reg.setDescriptor i { reg.descriptors i with active := false }).descriptors := rfl

/-- Other slots keep their descriptors when one is given up. -/
theorem deactivate_of_ne {j : ℕ} (h : j ≠ i) :
    (reg.deactivate i).descriptors j = reg.descriptors j := by
  rw [deactivate_descriptors, setDescriptor_of_ne h]

/-- The slot itself is not active any more. -/
theorem deactivate_self :
    (reg.deactivate i).descriptors i = { reg.descriptors i with active := false } := by
  rw [deactivate_descriptors, setDescriptor_self]

/-- Giving up an active slot keeps the count right. -/
theorem WellCounted.deactivate (h : reg.WellCounted) (hi : i < statsMaxDescriptors)
    (hactive : (reg.descriptors i).active = true) : (reg.deactivate i).WellCounted := by
  have hlen : (reg.deactivate i).activeSlots.length + 1 = reg.activeSlots.length + 0 := by
    have hset := reg.length_activeSlots_setDescriptor hi { reg.descriptors i with active := false }
    rw [hactive] at hset
    rw [activeSlots, deactivate_descriptors]
    exact hset
  have hle := h.count_le
  have hcount : (reg.deactivate i).count = sub32 reg.count 1 := rfl
  rw [WellCounted] at h ⊢
  rw [hcount, sub32_of_le (by omega) (Nat.le_trans hle (by decide))]
  omega

/-! ### Publish -/

/-- The first slot that is not active is found. -/
theorem freeSlot_eq_some_iff : reg.freeSlot = some i ↔ i < statsMaxDescriptors ∧
    (reg.descriptors i).active = false ∧ ∀ j < i, (reg.descriptors j).active = true := by
  rw [freeSlot, List.find?_range_eq_some]
  simp [and_left_comm]

/-- There is a free slot as long as the registry is not full. -/
theorem WellCounted.freeSlot (h : reg.WellCounted) (hlt : reg.count < statsMaxDescriptors) :
    ∃ i, reg.freeSlot = some i := by
  -- without one all slots would be active, and counted
  refine Option.ne_none_iff_exists'.mp fun hnone => ?_
  have hall : reg.activeSlots.length = (List.range statsMaxDescriptors).length := by
    refine List.length_filter_eq_length_iff.mpr fun i hi => ?_
    have hactive := List.find?_eq_none.mp hnone i hi
    rwa [Bool.not_eq_true', Bool.not_eq_false] at hactive
  rw [List.length_range] at hall
  exact absurd (h.trans hall) (Nat.ne_of_lt hlt)

/-- The registry with a table published in a slot. -/
def published (reg : StatsRegistry) (i : ℕ) (t : SegmentTable) (id : FlowRuleId) (index : ℕ) :
    StatsRegistry :=
  { reg.setDescriptor i (.ofTable reg.segmentBase t id index) with count := reg.count + 1 }

/-- The descriptor of the table stands in the slot that was found. -/
theorem published_descriptors (t : SegmentTable) (id : FlowRuleId) (index : ℕ) :
    (reg.published i t id index).descriptors =
      (reg.setDescriptor i (.ofTable reg.segmentBase t id index)).descriptors := rfl

/-- A full registry refuses a table. -/
theorem publish_of_full (hfull : statsMaxDescriptors ≤ reg.count) (t : SegmentTable)
    (id : FlowRuleId) (index : ℕ) :
    reg.publish (some t) id index = (.errRegistryFull, reg) := by
  rw [publish]
  exact if_pos hfull

/-- Otherwise the table gets the first free slot. -/
theorem WellCounted.publish_eq (h : reg.WellCounted) (hlt : reg.count < statsMaxDescriptors)
    (t : SegmentTable) (id : FlowRuleId) (index : ℕ) : ∃ i, reg.freeSlot = some i ∧
      reg.publish (some t) id index = (.ok, reg.published i t id index) := by
  obtain ⟨i, hi⟩ := h.freeSlot hlt
  have hcount : u32 (reg.count + 1) = reg.count + 1 :=
    u32_of_small (Nat.le_trans (Nat.succ_le_succ h.count_le) (by decide))
  refine ⟨i, hi, ?_⟩
  rw [publish]
  dsimp only
  rw [if_neg (Nat.not_le.mpr hlt), hi]
  dsimp only
  rw [published, ← hcount]
  rfl

/-- Publishing in a free slot keeps the count right. -/
theorem WellCounted.published (h : reg.WellCounted) (hi : reg.freeSlot = some i) (t : SegmentTable)
    (id : FlowRuleId) (index : ℕ) : (reg.published i t id index).WellCounted := by
  obtain ⟨hlt, hfree, -⟩ := freeSlot_eq_some_iff.mp hi
  have hlen : (reg.published i t id index).activeSlots.length + 0 = reg.activeSlots.length + 1 := by
    have hset := reg.length_activeSlots_setDescriptor hlt
      (.ofTable reg.segmentBase t id index)
    rw [hfree] at hset
    rw [activeSlots, published_descriptors]
    exact hset
  exact (congrArg (· + 1) h).trans hlen.symm

/-! ### Lookup -/

/-- The first slot of this rule and generation is found. -/
theorem find_eq_some_iff : reg.find id generation = some i ↔ i < statsMaxDescriptors ∧
    (reg.descriptors i).isAt id generation = true ∧
      ∀ j < i, (reg.descriptors j).isAt id generation = false := by
  rw [find, List.find?_range_eq_some]
  simp [and_left_comm]

/-- Nothing is found when no slot is of this rule and generation. -/
theorem find_eq_none_iff : reg.find id generation = none ↔
    ∀ i < statsMaxDescriptors, (reg.descriptors i).isAt id generation = false := by
  rw [find, List.find?_eq_none]
  simp

/-- Of the descriptors of a rule in front of slot `n`, the one with the largest generation. -/
def IsLatest (reg : StatsRegistry) (id : FlowRuleId) (n : ℕ) : Option ℕ → Prop
  | none => ∀ j < n, (reg.descriptors j).isOf id = false
  | some b => b < n ∧ (reg.descriptors b).isOf id = true ∧
      ∀ j < n, (reg.descriptors j).isOf id = true →
        (reg.descriptors j).generation ≤ (reg.descriptors b).generation

/-- One more slot looked at. -/
theorem IsLatest.step {n : ℕ} {best : Option ℕ} (h : reg.IsLatest id n best) :
    reg.IsLatest id (n + 1) (reg.latestStep id n best) := by
  unfold latestStep
  split
  · rename_i hof
    cases best with
    | none =>
      refine ⟨Nat.lt_succ_self n, hof, Nat.forall_lt_succ_right.mpr ⟨fun j hj hjof => ?_, ?_⟩⟩
      · rw [h j hj] at hjof
        cases hjof
      · exact fun _ => UInt64.le_refl _
    | some b =>
      -- a tie leaves the one in front
      obtain ⟨hb, hbof, hbest⟩ := h
      dsimp only
      split
      · rename_i hgt
        refine ⟨Nat.lt_succ_self n, hof, Nat.forall_lt_succ_right.mpr ⟨fun j hj hjof => ?_, ?_⟩⟩
        · exact UInt64.le_trans (hbest j hj hjof) (UInt64.le_of_lt hgt)
        · exact fun _ => UInt64.le_refl _
      · rename_i hngt
        refine ⟨Nat.lt_succ_of_lt hb, hbof, Nat.forall_lt_succ_right.mpr ⟨hbest, ?_⟩⟩
        exact fun _ => UInt64.not_lt.mp hngt
  · rename_i hof
    cases best with
    | none => exact Nat.forall_lt_succ_right.mpr ⟨h, Bool.eq_false_iff.mpr hof⟩
    | some b =>
      obtain ⟨hb, hbof, hbest⟩ := h
      exact ⟨Nat.lt_succ_of_lt hb, hbof,
        Nat.forall_lt_succ_right.mpr ⟨hbest, fun hnof => absurd hnof hof⟩⟩

/-- The slot with the highest generation of a rule is found. -/
theorem isLatest_findLatest (reg : StatsRegistry) (id : FlowRuleId) :
    reg.IsLatest id statsMaxDescriptors (reg.findLatest id) :=
  forUpTo_induct (reg.IsLatest id) (fun j hj => absurd hj (Nat.not_lt_zero j))
    fun _ _ _ h => h.step

/-- Enumeration goes through the active descriptors in order. -/
theorem get_eq (reg : StatsRegistry) (index : ℕ) : reg.get index = reg.activeSlots[index]? := by
  rw [get, scan_eq (Nat.zero_le index)]
  rfl

/-! ### Unpublish -/

/-- What `infmon_stats_unpublish_all` has done of a registry in front of slot `n`. -/
structure Cleared (reg : StatsRegistry) (id : FlowRuleId) (n : ℕ) (s : ℕ × StatsRegistry) : Prop where
  removed : s.1 = ((List.range n).filter fun i => (reg.descriptors i).isOf id).length
  descriptors : ∀ i, s.2.descriptors i =
    if i < n ∧ (reg.descriptors i).isOf id = true then
      { reg.descriptors i with active := false }
    else reg.descriptors i
  counted : s.2.WellCounted

/-- One more slot cleared of a rule. -/
theorem Cleared.step {n : ℕ} {s : ℕ × StatsRegistry} (h : reg.Cleared id n s)
    (hn : n < statsMaxDescriptors) : reg.Cleared id (n + 1) (unpublishStep id n s) := by
  -- the slots from `n` on are still as they were
  have hself : s.2.descriptors n = reg.descriptors n := by
    rw [h.descriptors, if_neg fun hand => Nat.lt_irrefl n hand.1]
  rw [unpublishStep, hself]
  split
  · rename_i hof
    have hactive : (s.2.descriptors n).active = true :=
      hself ▸ (SegmentDescriptor.isOf_iff.mp hof).1
    refine ⟨?_, fun i => ?_, h.counted.deactivate hn hactive⟩
    · rw [h.removed, List.range_succ, List.filter_append, List.length_append,
        List.filter_singleton, hof]
      rfl
    · by_cases hi : i = n
      · subst hi
        rw [deactivate_self, hself, if_pos ⟨Nat.lt_succ_self i, hof⟩]
      · rw [deactivate_of_ne hi, h.descriptors]
        exact if_congr (and_congr_left' (by omega)) rfl rfl
  · rename_i hof
    refine ⟨?_, fun i => ?_, h.counted⟩
    · rw [h.removed, List.range_succ, List.filter_append, List.filter_singleton,
        Bool.eq_false_iff.mpr hof]
      exact congrArg List.length (List.append_nil _).symm
    · rw [h.descriptors]
      refine if_congr ⟨fun hand => ⟨Nat.lt_succ_of_lt hand.1, hand.2⟩, fun hand => ⟨?_, hand.2⟩⟩
        rfl rfl
      -- slot `n` is not one of the rule
      refine Nat.lt_of_le_of_ne (Nat.le_of_lt_succ hand.1) ?_
      rintro rfl
      exact hof hand.2

/-- All descriptors of a rule are given up, and the count stays right. -/
theorem WellCounted.unpublishAll (h : reg.WellCounted) (id : FlowRuleId) :
    reg.Cleared id statsMaxDescriptors (reg.unpublishAll id) := by
  refine forUpTo_induct (reg.Cleared id) ⟨rfl, fun i => ?_, h⟩ fun _ hi _ hs => hs.step hi
  exact (if_neg fun hand => Nat.not_lt_zero i hand.1).symm

/-! ### Refresh and destroy -/

/-- A new descriptor that is active when the old one was keeps the count right. -/
theorem WellCounted.setDescriptor (h : reg.WellCounted) (hi : i < statsMaxDescriptors)
    {d : SegmentDescriptor} (hd : d.active = (reg.descriptors i).active) :
    (reg.setDescriptor i d).WellCounted := by
  have hlen := reg.length_activeSlots_setDescriptor hi d
  rw [hd] at hlen
  exact h.trans (Nat.add_right_cancel hlen).symm

/-- Destroying the registry gives up every slot. -/
theorem destroy_descriptors (hi : i < statsMaxDescriptors) :
    reg.destroy.descriptors i = { reg.descriptors i with active := false } := if_pos hi

/-- A destroyed registry counts no descriptors, and has none. -/
theorem wellCounted_destroy (reg : StatsRegistry) : reg.destroy.WellCounted := by
  refine (List.length_eq_zero_iff.mpr (List.eq_nil_iff_forall_not_mem.mpr fun i hi => ?_)).symm
  obtain ⟨hlt, hactive⟩ := mem_activeSlots.mp hi
  rw [destroy_descriptors hlt] at hactive
  cases hactive

/-! ### Runs -/

/-- A new registry counts no descriptors, and has none. -/
theorem wellCounted_init (segmentBase : UInt64) : (init segmentBase).WellCounted := by
  refine (List.length_eq_zero_iff.mpr (List.eq_nil_iff_forall_not_mem.mpr fun i hi => ?_)).symm
  cases (mem_activeSlots.mp hi).2

/-- Every call keeps count and flags in step. -/
theorem WellCounted.step (h : reg.WellCounted) (op : RegistryOp) : (reg.step op).WellCounted := by
  cases op with
  | publish table id index =>
    cases table with
    | none => exact h
    | some t =>
      rcases Nat.lt_or_ge reg.count statsMaxDescriptors with hlt | hfull
      · obtain ⟨i, hi, heq⟩ := h.publish_eq hlt t id index
        rw [StatsRegistry.step, heq]
        exact h.published hi t id index
      · rw [StatsRegistry.step, publish_of_full hfull]
        exact h
  | unpublish id generation =>
    rw [StatsRegistry.step, unpublish]
    cases hfind : reg.find id generation with
    | none => exact h
    | some i =>
      obtain ⟨hlt, hat, -⟩ := find_eq_some_iff.mp hfind
      exact h.deactivate hlt (SegmentDescriptor.isAt_iff.mp hat).1
  | unpublishAll id => exact (h.unpublishAll id).counted
  | refresh id generation table =>
    cases table with
    | none => exact h
    | some t =>
      rw [StatsRegistry.step, refresh]
      cases hfind : reg.find id generation with
      | none => exact h
      | some i => exact h.setDescriptor (find_eq_some_iff.mp hfind).1 rfl
  | destroy => exact reg.wellCounted_destroy

/-- The descriptors that a call names: the one of the first free slot, the one that is found for an id
and a generation, all active ones of a rule, or all active ones. -/
def Names (reg : StatsRegistry) : RegistryOp → ℕ → Prop
  | .publish _ _ _, i => reg.freeSlot = some i
  | .unpublish id generation, i => reg.find id generation = some i
  | .unpublishAll id, i => i < statsMaxDescriptors ∧ (reg.descriptors i).isOf id = true
  | .refresh id generation _, i => reg.find id generation = some i
  | .destroy, i => i < statsMaxDescriptors ∧ (reg.descriptors i).active = true

/-- A call changes nothing but the descriptors that it names. -/
theorem WellCounted.step_frame (h : reg.WellCounted) {op : RegistryOp} (hi : ¬ reg.Names op i) :
    (reg.step op).descriptors i = reg.descriptors i := by
  -- an operation writes the slots that it names, and no others
  cases op with
  | publish table id index =>
    cases table with
    | none => rfl
    | some t =>
      rcases Nat.lt_or_ge reg.count statsMaxDescriptors with hlt | hfull
      · obtain ⟨j, hj, heq⟩ := h.publish_eq hlt t id index
        rw [StatsRegistry.step, heq, published_descriptors, setDescriptor_of_ne]
        rintro rfl
        exact hi hj
      · rw [StatsRegistry.step, publish_of_full hfull]
  | unpublish id generation =>
    rw [StatsRegistry.step, unpublish]
    cases hfind : reg.find id generation with
    | none => rfl
    | some j =>
      refine deactivate_of_ne ?_
      rintro rfl
      exact hi hfind
  | unpublishAll id =>
    rw [StatsRegistry.step, (h.unpublishAll id).descriptors]
    exact if_neg hi
  | refresh id generation table =>
    cases table with
    | none => rfl
    | some t =>
      rw [StatsRegistry.step, refresh]
      cases hfind : reg.find id generation with
      | none => rfl
      | some j =>
        refine setDescriptor_of_ne ?_ _
        rintro rfl
        exact hi hfind
  | destroy =>
    rcases Nat.lt_or_ge i statsMaxDescriptors with hlt | hge
    · have hfalse : (reg.descriptors i).active = false :=
        Bool.eq_false_iff.mpr fun hactive => hi ⟨hlt, hactive⟩
      rw [StatsRegistry.step, destroy_descriptors hlt, ← hfalse]
    · exact if_neg (Nat.not_lt.mpr hge)

/-- A registry whose count, queries and calls are what its active descriptors say. -/
structure Consistent (reg : StatsRegistry) : Prop where
  count : reg.count = reg.activeSlots.length
  count_le : reg.count ≤ statsMaxDescriptors
  /-- Every active descriptor has one index of the enumeration. -/
  enumerated : ∀ i < statsMaxDescriptors, (reg.descriptors i).active = true →
    ∃! k, k < reg.count ∧ reg.get k = some i
  get_active : ∀ k < reg.count, ∃ i < statsMaxDescriptors,
    (reg.descriptors i).active = true ∧ reg.get k = some i
  get_none : ∀ k, reg.count ≤ k → reg.get k = none
  latest : ∀ id, reg.IsLatest id statsMaxDescriptors (reg.findLatest id)
  full : ∀ t id index, (reg.publish (some t) id index).1 = .errRegistryFull ↔
    reg.activeSlots.length = statsMaxDescriptors
  removed : ∀ id, (reg.unpublishAll id).1 =
    ((List.range statsMaxDescriptors).filter fun i => (reg.descriptors i).isOf id).length
  cleared : ∀ id, ∀ i < statsMaxDescriptors,
    ((reg.unpublishAll id).2.descriptors i).isOf id = false
  frame : ∀ op i, ¬ reg.Names op i → (reg.step op).descriptors i = reg.descriptors i

/-- A registry that counts right is consistent. -/
theorem WellCounted.consistent (h : reg.WellCounted) : reg.Consistent where
  count := h
  count_le := h.count_le
  enumerated i hi hactive := by
    obtain ⟨k, hk⟩ := List.getElem?_of_mem (mem_activeSlots.mpr ⟨hi, hactive⟩)
    have hlt : k < reg.activeSlots.length := (List.getElem?_eq_some_iff.mp hk).1
    refine ⟨k, ⟨h ▸ hlt, (reg.get_eq k).trans hk⟩, ?_⟩
    rintro k' ⟨hk', hget⟩
    rw [get_eq, ← hk] at hget
    exact ((List.getElem?_inj hlt nodup_liveCells).mp hget.symm).symm
  get_active k hk := by
    have hlt : k < reg.activeSlots.length := lt_of_lt_of_eq hk h
    have hget := List.getElem?_eq_getElem hlt
    obtain ⟨hi, hactive⟩ := mem_activeSlots.mp (List.getElem_mem hlt)
    exact ⟨_, hi, hactive, (reg.get_eq k).trans hget⟩
  get_none k hk := by
    rw [get_eq]
    exact List.getElem?_eq_none (h ▸ hk)
  latest id := reg.isLatest_findLatest id
  full t id index := by
    rw [← h]
    rcases Nat.lt_or_ge reg.count statsMaxDescriptors with hlt | hfull
    · obtain ⟨i, -, heq⟩ := h.publish_eq hlt t id index
      rw [heq]
      exact iff_of_false StatsResult.noConfusion (Nat.ne_of_lt hlt)
    · rw [publish_of_full hfull]
      exact iff_of_true rfl (Nat.le_antisymm h.count_le hfull)
  removed id := (h.unpublishAll id).removed
  cleared id i hi := by
    rw [(h.unpublishAll id).descriptors]
    split
    · rfl
    · rename_i hnot
      exact Bool.eq_false_iff.mpr fun hof => hnot ⟨hi, hof⟩
  frame op i := h.step_frame

end StatsRegistry

/-- Over every history of calls, the count is the number of active descriptors, enumeration goes through
each of them once, the latest descriptor of a rule is found, only a full registry refuses a table, all
descriptors of a rule can be removed, and no call touches a descriptor that it does not name. -/
theorem registry_consistent (segmentBase : UInt64) (ops : List RegistryOp) :
    (Runs.run StatsRegistry.step (.init segmentBase) ops).Consistent :=
  (Runs.always (StatsRegistry.wellCounted_init segmentBase) (fun _ op h => h.step op) ops).consistent

end InFMon
