import InFMon.StatsSegment.Invariant

/-! # One descriptor for a rule and a generation

A descriptor is published under its rule and its generation, and it is looked up, refreshed and removed
by them. Publishing does not look whether there is one already, so the identity is as unique as the
callers keep it. -/

namespace InFMon

namespace StatsRegistry

variable {reg reg' : StatsRegistry} {id : FlowRuleId} {generation : UInt64}

/-- No two active descriptors have the same rule and generation. -/
def OnePerIdentity (reg : StatsRegistry) : Prop :=
  ∀ id generation, ∀ i < statsMaxDescriptors, ∀ j < statsMaxDescriptors,
    (reg.descriptors i).isAt id generation = true →
      (reg.descriptors j).isAt id generation = true → i = j

/-- Identities stay unique when none comes in. -/
theorem OnePerIdentity.mono (h : reg.OnePerIdentity)
    (hsub : ∀ id generation, ∀ i < statsMaxDescriptors,
      (reg'.descriptors i).isAt id generation = true →
        (reg.descriptors i).isAt id generation = true) : reg'.OnePerIdentity :=
  fun id generation i hi j hj hati hatj =>
    h id generation i hi j hj (hsub id generation i hi hati) (hsub id generation j hj hatj)

/-- A table can be published next to descriptors that are all of another identity. -/
theorem OnePerIdentity.published (h : reg.OnePerIdentity) {i : ℕ} {t : SegmentTable}
    (hnew : reg.find id t.table.generation = none) (index : ℕ) :
    (reg.published i t id index).OnePerIdentity := by
  -- what has the new identity is the new descriptor
  have hkey : ∀ id' generation, ∀ j < statsMaxDescriptors,
      ((reg.published i t id index).descriptors j).isAt id' generation = true →
      ((reg.published i t id index).descriptors i).isAt id' generation = true → j = i := by
    intro id' generation j hj hatj hati
    by_contra hne
    rw [published_descriptors, setDescriptor_of_ne hne] at hatj
    rw [published_descriptors, setDescriptor_self] at hati
    obtain ⟨-, hid, hgen⟩ := SegmentDescriptor.isAt_iff.mp hati
    obtain rfl : id = id' := hid
    obtain rfl : t.table.generation = generation := hgen
    rw [find_eq_none_iff.mp hnew j hj] at hatj
    cases hatj
  intro id' generation a ha b hb hata hatb
  by_cases hai : a = i
  · subst hai
    exact (hkey id' generation b hb hatb hata).symm
  by_cases hbi : b = i
  · subst hbi
    exact hkey id' generation a ha hata hatb
  rw [published_descriptors, setDescriptor_of_ne hai] at hata
  rw [published_descriptors, setDescriptor_of_ne hbi] at hatb
  exact h id' generation a ha b hb hata hatb

/-- Two descriptors with one identity are there after a second one is published. -/
theorem not_onePerIdentity_published {i : ℕ} (hi : reg.freeSlot = some i) {t : SegmentTable}
    {j : ℕ} (hj : reg.find id t.table.generation = some j) (index : ℕ) :
    ¬ (reg.published i t id index).OnePerIdentity := by
  intro h
  obtain ⟨hilt, hfree, -⟩ := freeSlot_eq_some_iff.mp hi
  obtain ⟨hjlt, hat, -⟩ := find_eq_some_iff.mp hj
  -- one of the two is active and the other one free
  have hne : j ≠ i := by
    rintro rfl
    rw [(SegmentDescriptor.isAt_iff.mp hat).1] at hfree
    cases hfree
  refine hne (h id t.table.generation j hjlt i hilt ?_ ?_)
  · rw [published_descriptors, setDescriptor_of_ne hne]
    exact hat
  · rw [published_descriptors, setDescriptor_self]
    exact SegmentDescriptor.isAt_iff.mpr ⟨rfl, rfl, rfl⟩

/-- The call does not publish a table under an identity that is taken, unless it is refused. -/
def Fresh (reg : StatsRegistry) : RegistryOp → Prop
  | .publish (some t) id _ =>
    reg.count < statsMaxDescriptors → reg.find id t.table.generation = none
  | _ => True

/-- A descriptor that is not active is of no rule. -/
theorem isAt_deactivated {d : SegmentDescriptor} :
    SegmentDescriptor.isAt { d with active := false } id generation = false := rfl

/-- What is found after a slot was given up was there before, in another slot. -/
theorem isAt_deactivate {i j : ℕ}
    (h : ((reg.deactivate i).descriptors j).isAt id generation = true) :
    j ≠ i ∧ (reg.descriptors j).isAt id generation = true := by
  by_cases hj : j = i
  · subst hj
    rw [deactivate_self, isAt_deactivated] at h
    cases h
  · rw [deactivate_of_ne hj] at h
    exact ⟨hj, h⟩

/-- Every call but a publication of a taken identity keeps the identities unique. -/
theorem OnePerIdentity.step (h : reg.OnePerIdentity) (hcounted : reg.WellCounted) {op : RegistryOp}
    (hfresh : reg.Fresh op) : (reg.step op).OnePerIdentity := by
  -- only a publication adds an active descriptor, and it is fresh
  cases op with
  | publish table id index =>
    cases table with
    | none => exact h
    | some t =>
      rcases Nat.lt_or_ge reg.count statsMaxDescriptors with hlt | hfull
      · obtain ⟨i, -, heq⟩ := hcounted.publish_eq hlt t id index
        rw [StatsRegistry.step, heq]
        exact h.published (hfresh hlt) index
      · rw [StatsRegistry.step, publish_of_full hfull]
        exact h
  | unpublish id generation =>
    rw [StatsRegistry.step, unpublish]
    cases reg.find id generation with
    | none => exact h
    | some i => exact h.mono fun _ _ _ _ hat => (isAt_deactivate hat).2
  | unpublishAll id =>
    refine h.mono fun id' generation i hi hat => ?_
    rw [StatsRegistry.step, (hcounted.unpublishAll id).descriptors] at hat
    split at hat
    · rw [isAt_deactivated] at hat
      cases hat
    · exact hat
  | refresh id generation table =>
    cases table with
    | none => exact h
    | some t =>
      rw [StatsRegistry.step, refresh]
      cases reg.find id generation with
      | none => exact h
      | some i =>
        refine h.mono fun id' generation' j _ hat => ?_
        dsimp only at hat
        by_cases hj : j = i
        · subst hj
          rwa [setDescriptor_self] at hat
        · rwa [setDescriptor_of_ne hj] at hat
  | destroy =>
    refine h.mono fun id' generation i hi hat => ?_
    rw [StatsRegistry.step, destroy_descriptors hi, isAt_deactivated] at hat
    cases hat

/-! ### What unique identities are good for -/

/-- Identities are unique; what is removed is not found any more; and a refresh writes to the only
descriptor of its identity. -/
structure Unambiguous (reg : StatsRegistry) : Prop where
  one : reg.OnePerIdentity
  removed : ∀ id generation, (reg.unpublish id generation).1 = .ok →
    (reg.unpublish id generation).2.find id generation = none
  refreshed : ∀ id generation t, (reg.refresh id generation (some t)).1 = .ok →
    ∃ i < statsMaxDescriptors, (reg.descriptors i).isAt id generation = true ∧
      (∀ j < statsMaxDescriptors, (reg.descriptors j).isAt id generation = true → j = i) ∧
      (reg.refresh id generation (some t)).2.descriptors i = (reg.descriptors i).refreshed t ∧
      ∀ j, j ≠ i →
        (reg.refresh id generation (some t)).2.descriptors j = reg.descriptors j

/-- With one descriptor for each identity none is ambiguous. -/
theorem OnePerIdentity.unambiguous (h : reg.OnePerIdentity) : reg.Unambiguous where
  one := h
  removed id generation hok := by
    rw [unpublish] at hok ⊢
    cases hfind : reg.find id generation with
    | none =>
      rw [hfind] at hok
      cases hok
    | some i =>
      obtain ⟨hi, hat, -⟩ := find_eq_some_iff.mp hfind
      refine find_eq_none_iff.mpr fun j hj => Bool.eq_false_iff.mpr fun hatj => ?_
      obtain ⟨hne, hatj⟩ := isAt_deactivate hatj
      exact hne (h id generation j hj i hi hatj hat)
  refreshed id generation t hok := by
    rw [refresh] at hok ⊢
    cases hfind : reg.find id generation with
    | none =>
      rw [hfind] at hok
      cases hok
    | some i =>
      obtain ⟨hi, hat, -⟩ := find_eq_some_iff.mp hfind
      exact ⟨i, hi, hat, fun j hj hatj => h id generation j hj i hi hatj hat,
        setDescriptor_self _, fun j hj => setDescriptor_of_ne hj _⟩

end StatsRegistry

/-- Over every history of calls, identities are unique in every state, and removing and refreshing are
unambiguous, exactly when no table is published under an identity that is taken. -/
theorem unambiguous_throughout_iff (segmentBase : UInt64) (ops : List RegistryOp) :
    Runs.Throughout StatsRegistry.step StatsRegistry.Unambiguous (.init segmentBase) ops ↔
      Runs.Meets StatsRegistry.step StatsRegistry.Fresh (.init segmentBase) ops := by
  have hinit : (StatsRegistry.init segmentBase).OnePerIdentity := by
    intro id generation i hi j hj hat
    cases (SegmentDescriptor.isAt_iff.mp hat).1
  refine Runs.throughout_iff_meets
    (I := fun reg => reg.WellCounted ∧ reg.OnePerIdentity)
    ⟨StatsRegistry.wellCounted_init segmentBase, hinit⟩
    (fun reg op h hfresh => ⟨h.1.step op, h.2.step h.1 hfresh⟩)
    (fun reg h => h.2.unambiguous) fun reg op h hnot hstep => ?_
  cases op with
  | publish table id index =>
    cases table with
    | none => exact hnot trivial
    | some t =>
      -- there is room, so the second descriptor gets in
      obtain ⟨hlt, htaken⟩ := Classical.not_imp.mp hnot
      obtain ⟨j, hj⟩ := Option.ne_none_iff_exists'.mp htaken
      obtain ⟨i, hi, heq⟩ := h.1.publish_eq hlt t id index
      rw [StatsRegistry.step, heq] at hstep
      exact StatsRegistry.not_onePerIdentity_published hi hj index hstep.one
  | unpublish id generation => exact hnot trivial
  | unpublishAll id => exact hnot trivial
  | refresh id generation table => exact hnot trivial
  | destroy => exact hnot trivial

/-- A table is published twice under one rule. One of the two descriptors is removed, and the other one
is still found. -/
theorem removed_and_found : ∃ t, counterTableCreate 16 32 ⟨true, fun _ => 0⟩ = some t ∧
    let publish : RegistryOp := .publish (some ⟨t, 0x1000, 0x2000⟩) ⟨0, 1⟩ 0
    let reg := Runs.run StatsRegistry.step (.init 0) [publish, publish]
    ¬ reg.OnePerIdentity ∧ (reg.unpublish ⟨0, 1⟩ t.generation).1 = .ok ∧
      (reg.unpublish ⟨0, 1⟩ t.generation).2.find ⟨0, 1⟩ t.generation = some 1 := by
  refine ⟨_, rfl, fun h => ?_, by decide +kernel, by decide +kernel⟩
  exact absurd (h ⟨0, 1⟩ 0 0 (by decide) 1 (by decide) (by decide +kernel) (by decide +kernel))
    Nat.zero_ne_one

end InFMon
