import InFMon.DataPath.Keys
import InFMon.Plugin.Frames

/-! # The plugin's budget of snapshots

Every successful snapshot takes an entry of the ring of retired tables. In the plugin nothing gives an
entry back: no handler and no graph node polls the ring, and no frame raises a worker's epoch. So a
plugin answers sixteen snapshot requests, however far apart they are. -/

namespace InFMon

open CountedLoop MachineWord

/-! ### Snapshots with memory -/

/-- With memory for every table, the allocation pass creates all of them. -/
theorem allocPass_ok {heap : Heap} {tables : Tables} {idx width : ℕ} {allocs : ℕ → Alloc} (n : ℕ)
    (hmade : ∀ v id, tables v idx = some id → id < heap.next ∧ (heap.table id).Geometry)
    (hwidth : 0 < width)
    (hcap : ∀ v id, tables v idx = some id → (heap.table id).numSlots * width ≤ max32)
    (hallocs : ∀ w < n, (allocs w).ok = true) :
    ∃ p, forUpToExcept n (allocStep tables idx width allocs)
      { heap := heap, newTables := fun _ => none, oldTables := fun _ => none } = .ok p := by
  rcases forUpToExcept_induct (Allocated heap tables idx width) (n := n)
    (f := allocStep tables idx width allocs) (Allocated.start heap tables idx width)
    (fun w _ p p' hp hstep => hp.step (hmade w) hstep) with ⟨p, hpass, -⟩ | ⟨e, -, w, hwn, p, hp, hstep⟩
  · exact ⟨p, hpass⟩
  · -- no worker's table can fail
    rw [allocStep] at hstep
    cases hw : tables w idx with
    | none =>
      rw [hw] at hstep
      cases hstep
    | some old =>
      rw [hw] at hstep
      dsimp only at hstep
      obtain ⟨hlt, hgeom⟩ := hmade w old hw
      obtain ⟨k, hk, hpow⟩ := hgeom.pow
      have hslots : nextPow2 (heap.table old).numSlots = (heap.table old).numSlots := by
        rw [hpow, nextPow2_two_pow hk]
      have hsome : (counterTableCreate (heap.table old).numSlots width (allocs w)).isSome = true := by
        refine counterTableCreate_isSome hgeom.numSlots_pos ?_ hwidth ?_ (hallocs w hwn)
        · rw [hpow]
          exact Nat.pow_le_pow_right (by omega) hk
        · rw [hslots]
          exact hcap w old hw
      split at hstep
      · rename_i heap' hcreate
        rw [hp.table_eq old hlt, Heap.create] at hcreate
        split at hcreate
        · rename_i hnone
          rw [hnone] at hsome
          cases hsome
        · cases hcreate
      · cases hstep

/-- With memory, a snapshot of a rule with a table fails only when the ring is full. -/
theorem snapshotAndClear_result {mgr : SnapshotMgr} {tables : Tables} {heap : Heap}
    {numWorkers idx maxRules width : ℕ} {allocs : ℕ → Alloc} {now : UInt64} (hidx : idx < maxRules)
    (hfirst : tables 0 idx ≠ none)
    (hmade : ∀ v id, tables v idx = some id → id < heap.next ∧ (heap.table id).Geometry)
    (hwidth : 0 < width)
    (hcap : ∀ v id, tables v idx = some id → (heap.table id).numSlots * width ≤ max32)
    (hallocs : ∀ w < workersServed numWorkers, (allocs w).ok = true) :
    (snapshotAndClear mgr tables heap numWorkers idx maxRules width allocs now).reply.result =
      if mgr.retiredCount ≥ maxRetired then .tooManyRetired else .ok := by
  rw [snapshotAndClear, if_neg (by omega)]
  dsimp only
  rw [if_neg hfirst]
  by_cases hfull : mgr.retiredCount ≥ maxRetired
  · rw [if_pos hfull, if_pos hfull]
    rfl
  · rw [if_neg hfull, if_neg hfull]
    obtain ⟨p, hp⟩ := allocPass_ok (workersServed numWorkers) hmade hwidth hcap hallocs
    rw [hp]

namespace ApiState

variable {st : ApiState} {es : List RuleEntry}

/-- With memory, a snapshot of an existing rule fails only when its id is zero or the ring is full. -/
theorem Aligned.snapshotAndClear_result (h : st.Aligned es) (hmgr : st.ctx.hasSnapMgr = true)
    (hreg : st.ctx.hasStatsReg = true) {id : FlowRuleId} (hid : ∃ e ∈ es, e.id = id)
    {allocs : ℕ → Alloc} (hallocs : ∀ w < st.nw, (allocs w).ok = true) (now : UInt64) :
    (st.snapshotAndClear id allocs now).1.result =
      if id.isZero then .errNotFound
      else if st.mgr.retiredCount ≥ maxRetired then .errTooManyRetired else .ok := by
  rw [snapshotAndClear, if_neg (by simp [hmgr])]
  by_cases hzero : id.isZero = true
  · rw [if_pos hzero, if_pos hzero]
    rfl
  rw [if_neg hzero, if_neg hzero]
  -- the rule is found
  obtain ⟨i, hfind⟩ : ∃ i, st.findRuleIndexById id = some i := by
    rw [← Option.isSome_iff_exists, findRuleIndexById, List.find?_isSome]
    obtain ⟨e, he, rfl⟩ := hid
    obtain ⟨i, hi, rfl⟩ := List.getElem_of_mem he
    refine ⟨i, List.mem_range.mpr (h.count_eq ▸ hi), ?_⟩
    rw [h.id_eq hi]
    simp [FlowRuleId.eq]
  obtain ⟨hi, -, -⟩ := h.arranged.findRuleIndexById_eq_some_iff.mp hfind
  have hget : st.ruleSet.get i = some es[i].rule := by
    rw [h.rules.get_eq (by simpa using hi), List.getElem_map]
  have hregistered := h.rules.registered _ (List.mem_map.mpr ⟨_, List.getElem_mem hi, rfl⟩)
  have hserved := h.served _ (List.getElem_mem hi)
  have hmade : ∀ v t, st.ctx.tables v i = some t →
      t < st.heap.next ∧ (st.heap.table t).Geometry := fun v t ht => h.owning.made v i t ht
  have hcap : ∀ v t, st.ctx.tables v i = some t →
      (st.heap.table t).numSlots * es[i].rule.keyWidth ≤ max32 := by
    intro v t ht
    have hcapacity := hserved.capacity v t (h.table_eq hi v ▸ ht)
    rw [← hcapacity]
    exact (hmade v t ht).2.capacity
  have hfirst : st.ctx.tables 0 i ≠ none := by
    obtain ⟨t, ht⟩ := hserved.exists_table st.nw_pos
    rw [h.table_eq hi, ht]
    exact Option.some_ne_none t
  have hlt : i < flowRuleSetMax := by
    have := h.rules.length_le
    rw [List.length_map] at this
    omega
  have hresult : (InFMon.snapshotAndClear st.mgr st.ctx.tables st.heap st.nw i flowRuleSetMax
      es[i].rule.keyWidth allocs now).reply.result = _ :=
    InFMon.snapshotAndClear_result hlt hfirst hmade hregistered.keyWidth_pos hcap
      (by rwa [workersServed, if_pos st.nw_pos])
  rw [hfind]
  dsimp only
  rw [if_neg (by simp [hreg]), hget]
  dsimp only
  by_cases hfull : st.mgr.retiredCount ≥ maxRetired
  · rw [if_pos hfull] at hresult ⊢
    rw [hresult, if_pos (by simp)]
    rfl
  · rw [if_neg hfull] at hresult ⊢
    rw [hresult, if_neg (by simp)]

end ApiState

/-! ### Snapshot requests -/

/-- The environment and the id of a snapshot request. -/
def PluginEvent.snapshot? : PluginEvent → Option (ApiEnv × FlowRuleId)
  | .request (.snapshotAndClear env id) => some (env, id)
  | .request (.snapshotInlineDump env id) => some (env, id)
  | _ => none

/-- Every table that the event asks for can be allocated. -/
def PluginEvent.HasMemory (e : PluginEvent) : Prop :=
  ∀ env id, e.snapshot? = some (env, id) → ∀ w, (env.allocs w).ok = true

/-- The event is a request for a snapshot of an existing rule. -/
def AsksForSnapshot (s : PluginSystem) (e : PluginEvent) : Prop :=
  ∃ q ∈ e.snapshot?, s.plugin.HasRule q.2

instance (s : PluginSystem) (e : PluginEvent) : Decidable (AsksForSnapshot s e) :=
  match h : e.snapshot? with
  | none => .isFalse fun ⟨q, hq, _⟩ => by
      rw [h] at hq
      cases hq
  | some q => decidable_of_iff (s.plugin.HasRule q.2) (by simp [AsksForSnapshot, h])

/-- A request for a snapshot of an existing rule succeeds. -/
def SnapshotAnswered (s : PluginSystem) (e : PluginEvent) : Prop :=
  ∀ env id, e.snapshot? = some (env, id) → s.plugin.HasRule id →
    (s.plugin.snapshotRequest env id).1.result = .ok

/-- A request for a snapshot of an existing rule does not go by the id that stands for no id. -/
def NamesRule (s : PluginSystem) (e : PluginEvent) : Prop :=
  ∀ env id, e.snapshot? = some (env, id) → s.plugin.HasRule id → id.isZero = false

/-- The number of requests for a snapshot of an existing rule in a run. -/
def snapshotRequests (s : PluginSystem) : List PluginEvent → ℕ
  | [] => 0
  | e :: events => (if AsksForSnapshot s e then 1 else 0) + snapshotRequests (s.step e) events

/-! ### The budget -/

namespace PluginSystem

variable {s : PluginSystem} {es : List RuleEntry}

/-- With memory, a snapshot request for an existing rule succeeds exactly when its id is not zero and
the ring has room. -/
theorem snapshotRequest_ok_iff {p : Plugin} (h : p.Sound es) {env : ApiEnv} {id : FlowRuleId}
    (hid : p.HasRule id) (hallocs : ∀ w < p.api.nw, (env.allocs w).ok = true) :
    (p.snapshotRequest env id).1.result = .ok ↔
      id.isZero = false ∧ p.api.mgr.retiredCount < maxRetired := by
  have hex := h.hasRule_iff.mp hid
  have hready : p.ready = true := by
    by_contra hf
    obtain ⟨rfl, -⟩ := h.fresh (by simpa using hf)
    obtain ⟨e, he, -⟩ := hex
    exact absurd he List.not_mem_nil
  obtain ⟨hmgr, hreg, -⟩ := h.context hready
  have hensure : p.apiCtxEnsure env.memory = p := by rw [Plugin.apiCtxEnsure, if_pos hready]
  have hresult := h.aligned.snapshotAndClear_result hmgr hreg hex hallocs env.now
  rw [Plugin.snapshotRequest, hensure]
  show (p.api.snapshotAndClear id env.allocs env.now).1.result = .ok ↔ _
  rw [hresult]
  by_cases hzero : id.isZero = true
  · simp [hzero]
  · rw [if_neg hzero]
    by_cases hfull : p.api.mgr.retiredCount ≥ maxRetired
    · simp [hfull]
    · rw [if_neg hfull]
      simp only [true_iff]
      exact ⟨by simpa using hzero, Nat.lt_of_not_le hfull⟩

/-- What an event does to the number of retired entries: a successful snapshot request adds one, and
everything else leaves it. -/
theorem step_cases (h : s.plugin.Sound es) (e : PluginEvent) :
    (e.snapshot? = none ∧ (s.step e).plugin.api.mgr.retiredCount = s.plugin.api.mgr.retiredCount) ∨
    ∃ env id, e.snapshot? = some (env, id) ∧
      (s.step e).plugin = (s.plugin.snapshotRequest env id).2 := by
  cases e with
  | frame w buffers =>
    refine Or.inl ⟨rfl, ?_⟩
    rcases s.frame_plugin w buffers with heq | ⟨scratch, heq⟩
    · exact congrArg (fun p : Plugin => p.api.mgr.retiredCount) heq
    · show (s.frame w buffers).plugin.api.mgr.retiredCount = _
      rw [heq, Plugin.countFrame_mgr]
  | request request =>
    cases request with
    | flowRuleAdd env mp =>
      exact Or.inl ⟨rfl, (Plugin.flowRuleAddHandler_cases h env mp).1⟩
    | flowRuleDel env id =>
      exact Or.inl ⟨rfl, (Plugin.flowRuleDelHandler_cases h env id).1⟩
    | snapshotAndClear env id => exact Or.inr ⟨env, id, rfl, rfl⟩
    | snapshotInlineDump env id =>
      exact Or.inr ⟨env, id, rfl, Plugin.snapshotInlineDumpHandler_snd env id s.plugin⟩

/-- An answered event takes one entry of the ring if it asks for a snapshot, and none otherwise. -/
theorem retiredCount_step (h : s.plugin.Sound es) {e : PluginEvent} (hans : SnapshotAnswered s e) :
    (s.step e).plugin.api.mgr.retiredCount =
      s.plugin.api.mgr.retiredCount + if AsksForSnapshot s e then 1 else 0 := by
  rcases step_cases h e with ⟨hnone, hcount⟩ | ⟨env, id, hsome, hstep⟩
  · rw [hcount, if_neg (by simp [AsksForSnapshot, hnone])]
    rfl
  · have hasks : AsksForSnapshot s e ↔ s.plugin.HasRule id := by simp [AsksForSnapshot, hsome]
    rw [hstep]
    rcases Plugin.snapshotRequest_cases h env id with ⟨herr, -, hcount⟩ |
      ⟨i, hi, -, hid, -, -, hcount⟩
    · rw [hcount, if_neg fun hask => herr (hans env id hsome (hasks.mp hask))]
      rfl
    · rw [hcount, if_pos (hasks.mpr (h.hasRule_iff.mpr ⟨_, List.getElem_mem hi, hid⟩))]

/-- Nothing that happens to the plugin gives an entry of the ring back. -/
theorem retiredCount_le_run (h : s.plugin.Sound es) (events : List PluginEvent) :
    s.plugin.api.mgr.retiredCount ≤ (Runs.run step s events).plugin.api.mgr.retiredCount := by
  induction events generalizing s es with
  | nil => exact Nat.le_refl _
  | cons e events ih =>
    obtain ⟨es', hs'⟩ := sound_step h e
    refine Nat.le_trans ?_ (ih hs')
    rcases step_cases h e with ⟨-, hcount⟩ | ⟨env, id, -, hstep⟩
    · exact hcount.ge
    · rw [hstep]
      rcases Plugin.snapshotRequest_cases h env id with ⟨-, -, hcount⟩ | ⟨i, hi, -, -, -, -, hcount⟩
      · exact hcount.ge
      · rw [hcount]
        exact Nat.le_succ _

/-- An answered event names its rule. -/
theorem namesRule_of_answered (h : s.plugin.Sound es) {e : PluginEvent} (hmemory : e.HasMemory)
    (hans : SnapshotAnswered s e) : NamesRule s e := fun env id hsome hid =>
  ((snapshotRequest_ok_iff h hid fun w _ => hmemory env id hsome w).mp (hans env id hsome hid)).1

/-- The requests of a run that are all answered fit in the ring. -/
theorem requests_le_of_answered (h : s.plugin.Sound es) {events : List PluginEvent}
    (hmemory : ∀ e ∈ events, e.HasMemory)
    (hans : Runs.Meets PluginSystem.step SnapshotAnswered s events) :
    Runs.Meets PluginSystem.step NamesRule s events ∧
      s.plugin.api.mgr.retiredCount + snapshotRequests s events ≤ maxRetired := by
  induction events generalizing s es with
  | nil => exact ⟨Runs.meets_nil, h.aligned.owning.retiredCount_le⟩
  | cons e events ih =>
    obtain ⟨hfirst, hrest⟩ := Runs.meets_cons.mp hans
    obtain ⟨es', hs'⟩ := sound_step h e
    obtain ⟨hnames, hle⟩ := ih hs' (fun e he => hmemory e (List.mem_cons_of_mem _ he)) hrest
    refine ⟨Runs.meets_cons.mpr ⟨?_, hnames⟩, ?_⟩
    · exact namesRule_of_answered h (hmemory e List.mem_cons_self) hfirst
    · rw [retiredCount_step h hfirst] at hle
      rw [snapshotRequests]
      omega

/-- The requests of a run are all answered when they fit in the ring and name their rules. -/
theorem answered_of_requests_le (h : s.plugin.Sound es) {events : List PluginEvent}
    (hmemory : ∀ e ∈ events, e.HasMemory)
    (hnames : Runs.Meets PluginSystem.step NamesRule s events)
    (hle : s.plugin.api.mgr.retiredCount + snapshotRequests s events ≤ maxRetired) :
    Runs.Meets PluginSystem.step SnapshotAnswered s events := by
  induction events generalizing s es with
  | nil => exact Runs.meets_nil
  | cons e events ih =>
    obtain ⟨hfirst, hrest⟩ := Runs.meets_cons.mp hnames
    obtain ⟨es', hs'⟩ := sound_step h e
    rw [snapshotRequests] at hle
    have hans : SnapshotAnswered s e := by
      intro env id hsome hid
      have hasks : AsksForSnapshot s e := ⟨(env, id), hsome, hid⟩
      rw [if_pos hasks] at hle
      rw [snapshotRequest_ok_iff h hid fun w _ => hmemory e List.mem_cons_self env id hsome w]
      exact ⟨hfirst env id hsome hid, by omega⟩
    refine Runs.meets_cons.mpr ⟨hans, ?_⟩
    refine ih hs' (fun e he => hmemory e (List.mem_cons_of_mem _ he)) hrest ?_
    rw [retiredCount_step h hans]
    omega

end PluginSystem

/-- Snapshot requests are more than a grace period apart, and every worker has processed a frame in
between: `last` is the clock of the last request and `seen` the workers with a frame since then. -/
def spacedFrom (numWorkers : ℕ) (last : Option UInt64) (seen : List ℕ) : List PluginEvent → Bool
  | [] => true
  | e :: events =>
    match e.snapshot?, e with
    | some (env, _), _ =>
      (match last with
        | none => true
        | some t => decide (t.toNat + 1000000000 < env.now.toNat) &&
            (List.range numWorkers).all fun w => decide (w ∈ seen)) &&
        spacedFrom numWorkers (some env.now) [] events
    | none, .frame w _ => spacedFrom numWorkers last (w :: seen) events
    | none, _ => spacedFrom numWorkers last seen events

/-- An environment with memory, at a reading of the clock. -/
def envAt (now : UInt64) : ApiEnv where
  memory := true
  allocs := fun _ => ⟨true, fun _ => 0⟩
  cpuTimeHi := 1
  cpuTimeLo := 0xdeadbeefcafebabe
  clientIndex := 0
  now := now

/-- A request for a rule `ab` on the protocol with two keys. -/
def protoRuleMsg : FlowRuleAddMsg where
  name := #v[0x61, 0x62, 0, 0, 0, 0, 0, 0, 0, 0, 0, 0, 0, 0, 0, 0, 0, 0, 0, 0, 0, 0, 0, 0, 0, 0, 0,
    0, 0, 0, 0, 0]
  fieldCount := 1
  fields := #v[2, 0, 0, 0, 0, 0, 0, 0]
  maxKeys := 2
  evictionPolicy := 0

/-- The id of that rule when it is the first. -/
def protoRuleId : FlowRuleId := ⟨1, 0⟩

/-- A frame of the main thread's worker, and a dump two seconds after the last. -/
def frameAndDump (i : ℕ) : List PluginEvent :=
  [.frame 0 [udpPacket 0x30 0x39],
    .request (.snapshotInlineDump (envAt (UInt64.ofNat (2000000000 * (i + 1)))) protoRuleId)]

/-- A rule is added, then `n` dumps are requested with a frame in front of each. -/
def dumps (n : ℕ) : List PluginEvent :=
  .request (.flowRuleAdd (envAt 0) protoRuleMsg) :: (List.range n).flatMap frameAndDump

/-- Each dump snapshots the rule, with memory for its tables. -/
theorem dumps_snapshot {n : ℕ} {e : PluginEvent} (he : e ∈ dumps n) {env : ApiEnv}
    {id : FlowRuleId} (hsome : e.snapshot? = some (env, id)) :
    id = protoRuleId ∧ ∀ w, (env.allocs w).ok = true := by
  rw [dumps, List.mem_cons, List.mem_flatMap] at he
  rcases he with rfl | ⟨i, -, hi⟩
  · cases hsome
  · rw [frameAndDump, List.mem_cons, List.mem_singleton] at hi
    rcases hi with rfl | rfl
    · cases hsome
    · obtain ⟨rfl, rfl⟩ := Prod.mk.inj (Option.some.inj hsome)
      exact ⟨rfl, fun _ => rfl⟩

/-- Each dump has the memory that it needs. -/
theorem dumps_hasMemory (n : ℕ) : ∀ e ∈ dumps n, e.HasMemory :=
  fun _ he _ _ hsome => (dumps_snapshot he hsome).2

end InFMon
