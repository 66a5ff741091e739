import InFMon.Api.Registry
import InFMon.Plugin.Handlers

/-! # The API context along requests

A plugin without rules from the CLI: the API context is set up at most once, on an empty heap, and from
then on holds the entries of the API operations. For every handler there is one statement of what it
does to the entries. -/

namespace InFMon

open DenseArray

namespace Plugin

/-! ### The context holds a list of entries -/

/-- The API context holds the entries `es`. Before it is ready, nothing has been created. -/
structure Sound (p : Plugin) (es : List RuleEntry) : Prop where
  aligned : p.api.Aligned es
  fresh : p.ready = false → es = [] ∧ p.heap.next = 0 ∧ p.heap.destroyed = [] ∧
    p.api.ctx.hasSnapMgr = false ∧ p.api.mgr.retiredCount = 0
  context : p.ready = true → p.api.ctx.hasSnapMgr = true ∧ p.api.ctx.hasStatsReg = true ∧
    p.api.ctx.workerCount = p.vlibNumWorkers + 1

/-- A context without rules and tables, on a heap on which nothing was created. -/
theorem aligned_of_heap {set : FlowRuleSet} (hset : set.Holds []) (numWorkers : ℕ)
    (graceNs : UInt64) (workerCount : ℕ) (hasStatsReg hasSnapMgr : Bool) {heap : Heap}
    (hnext : heap.next = 0) (hdestroyed : heap.destroyed = []) :
    ({ ApiState.init set (.init numWorkers graceNs) workerCount hasStatsReg hasSnapMgr with
      heap := heap } : ApiState).Aligned [] where
  rules := hset
  ids := rfl
  tables _ := rfl
  served e he := absurd he List.not_mem_nil
  owning :=
    { owned :=
        { sound := fun p t hp => by
            cases p with
            | cell w i => cases hp
            | ring r v => exact absurd (tableRefs_ring.mp hp).2.1 Bool.false_ne_true
          injective := fun p q t hp _ => by
            cases p with
            | cell w i => cases hp
            | ring r v => exact absurd (tableRefs_ring.mp hp).2.1 Bool.false_ne_true
          complete := fun t ht => by
            have hlt : t < 0 := hnext ▸ ht.1
            exact absurd hlt (Nat.not_lt_zero t)
          nodup := by
            show heap.destroyed.Nodup
            rw [hdestroyed]
            exact List.nodup_nil
          created := fun t ht => by
            change t ∈ heap.destroyed at ht
            rw [hdestroyed] at ht
            exact absurd ht List.not_mem_nil }
      count := rfl
      geometry := fun w i t ht => by cases ht }

/-- A rule set without rules holds none. -/
theorem holds_noRules : noRules.Holds [] where
  rules := rfl
  count := rfl
  usedKeys := rfl
  usedKeys_le := Nat.le_refl _
  budget_le := Nat.zero_le _
  names := List.nodup_nil
  length_le := Nat.zero_le _
  registered := fun _ hr => absurd hr List.not_mem_nil

/-- The plugin is sound when it is loaded. -/
theorem sound_start (vlibNumWorkers : ℕ) : (start vlibNumWorkers).Sound [] where
  aligned := aligned_of_heap holds_noRules 0 0 0 false false rfl rfl
  fresh _ := ⟨rfl, rfl, rfl, rfl, rfl⟩
  context h := by cases h

variable {p : Plugin} {es : List RuleEntry}

/-- Setting up the context is one step from nothing to an empty context. -/
theorem apiCtxEnsure_cases (memory : Bool) (p : Plugin) :
    p.apiCtxEnsure memory = p ∨
    p.ready = false ∧ ∃ ruleSet, FlowRuleSet.create flowRuleMaxKeysBudget = some ruleSet ∧
      p.apiCtxEnsure memory =
        { p with
          api :=
            { ApiState.init ruleSet (.init (p.vlibNumWorkers + 1) 1000000000)
                (p.vlibNumWorkers + 1) true true with
              heap := p.api.heap }
          main := { p.main with numWorkers := p.vlibNumWorkers + 1 }
          ready := true } := by
  unfold apiCtxEnsure
  cases hready : p.ready with
  | true => exact Or.inl rfl
  | false =>
    cases memory with
    | false => exact Or.inl rfl
    | true =>
      cases hset : FlowRuleSet.create flowRuleMaxKeysBudget with
      | none => exact Or.inl rfl
      | some ruleSet => exact Or.inr ⟨rfl, ruleSet, rfl, rfl⟩

/-- Setting up the context keeps the plugin sound. -/
theorem Sound.ensure (h : p.Sound es) (memory : Bool) : (p.apiCtxEnsure memory).Sound es := by
  rcases apiCtxEnsure_cases memory p with heq | ⟨hready, ruleSet, hset, heq⟩
  · rw [heq]
    exact h
  · obtain ⟨rfl, hnext, hdestroyed, -⟩ := h.fresh hready
    rw [heq]
    exact
      { aligned := aligned_of_heap (.of_create hset) _ _ _ true true hnext hdestroyed
        fresh := fun hf => by cases hf
        context := fun _ => ⟨rfl, rfl, rfl⟩ }

/-- Setting up the context retires nothing. -/
theorem Sound.ensure_retiredCount (h : p.Sound es) (memory : Bool) :
    (p.apiCtxEnsure memory).api.mgr.retiredCount = p.api.mgr.retiredCount := by
  rcases apiCtxEnsure_cases memory p with heq | ⟨hready, ruleSet, -, heq⟩
  · rw [heq]
  · obtain ⟨-, -, -, -, hcount⟩ := h.fresh hready
    rw [heq, hcount]
    rfl

/-- Publishing and counting ids do not touch the context. -/
theorem Sound.congr (h : p.Sound es) {q : Plugin} (hapi : q.api = p.api) (hready : q.ready = p.ready)
    (hworkers : q.vlibNumWorkers = p.vlibNumWorkers) : q.Sound es where
  aligned := hapi ▸ h.aligned
  fresh hf := by
    rw [heap, hapi]
    exact h.fresh (hready ▸ hf)
  context ht := by
    rw [hapi, hworkers]
    exact h.context (hready ▸ ht)

/-- Publishing leaves the API's state. -/
@[simp] theorem publishIf_api (result : ApiResult) (p : Plugin) : (p.publishIf result).api = p.api := by
  unfold publishIf
  split
  · rfl
  · rfl

/-- Publishing leaves whether the context is there. -/
@[simp] theorem publishIf_ready (result : ApiResult) (p : Plugin) :
    (p.publishIf result).ready = p.ready := by
  unfold publishIf
  split
  · rfl
  · rfl

/-- Publishing leaves the number of workers. -/
@[simp] theorem publishIf_vlibNumWorkers (result : ApiResult) (p : Plugin) :
    (p.publishIf result).vlibNumWorkers = p.vlibNumWorkers := by
  unfold publishIf
  split
  · rfl
  · rfl

/-- A success and nothing else returns no error. -/
theorem apiResultToRetval_eq_none_iff {result : ApiResult} :
    apiResultToRetval result = none ↔ result = .ok := by
  cases result <;> simp [apiResultToRetval]

/-! ### Adding and deleting -/

/-- A ready context may be replaced by one with the same flags. -/
theorem Sound.replace (h : p.Sound es) (hready : p.ready = true) {q : Plugin} {es' : List RuleEntry}
    (hq : q.ready = true) (hworkers : q.vlibNumWorkers = p.vlibNumWorkers)
    (haligned : q.api.Aligned es') (hmgr : q.api.ctx.hasSnapMgr = p.api.ctx.hasSnapMgr)
    (hreg : q.api.ctx.hasStatsReg = p.api.ctx.hasStatsReg)
    (hcount : q.api.ctx.workerCount = p.api.ctx.workerCount) : q.Sound es' where
  aligned := haligned
  fresh hf := by
    rw [hq] at hf
    cases hf
  context _ := by
    rw [hmgr, hreg, hcount, hworkers]
    exact h.context hready

/-- A request to add a rule appends an entry with the rule of the message and the id of the reply, or
it is refused and changes no entry. -/
theorem flowRuleAddHandler_cases (h : p.Sound es) (env : ApiEnv) (mp : FlowRuleAddMsg) :
    let out := p.flowRuleAddHandler env mp
    out.2.api.mgr.retiredCount = p.api.mgr.retiredCount ∧
    ((out.1.retval ≠ none ∧ out.1.flowRuleId = .zero ∧ out.2.Sound es) ∨
    ∃ tables, out.1 = ⟨none, newRuleId env (p.apiCtxEnsure env.memory).idSeq⟩ ∧
      out.2.Sound (es ++ [⟨(messageRule mp).register, out.1.flowRuleId, tables⟩])) := by
  have hq := h.ensure env.memory
  rw [← h.ensure_retiredCount env.memory]
  unfold flowRuleAddHandler
  dsimp only
  generalize p.apiCtxEnsure env.memory = q at hq
  cases hready : q.ready with
  | false =>
    refine ⟨by simp, Or.inl ⟨by simp [apiResultToRetval], by simp, ?_⟩⟩
    exact hq.congr (by simp) (by simp [hready]) (by simp)
  | true =>
    simp only [if_true]
    rcases q.api.flowRuleAdd_cases hq.aligned.arranged (messageRule mp) (some (newRuleId env q.idSeq))
      env.allocs with ⟨herr, heap, hundone, hst⟩ | ⟨set, s, hset, hadded, heq⟩
    · rw [hst]
      refine ⟨by simp, Or.inl
        ⟨fun hnone => herr (apiResultToRetval_eq_none_iff.mp hnone), if_neg herr, ?_⟩⟩
      refine hq.replace hready (by simp) (by simp) ?_ (by simp) (by simp) (by simp)
      rw [publishIf_api]
      exact hq.aligned.undone hundone
    · rw [heq]
      refine ⟨by simp, Or.inr
        ⟨fun w => if w < q.api.nw then some (q.api.heap.next + w) else none, ?_, ?_⟩⟩
      · simp [apiResultToRetval]
      · refine hq.replace hready (by simp) (by simp) ?_ (by simp) (by simp) (by simp)
        rw [publishIf_api]
        exact hq.aligned.added hset hadded

/-- A rule of the API has the id. -/
def HasRule (p : Plugin) (id : FlowRuleId) : Prop :=
  ∃ i < p.api.ruleSet.count, p.api.ctx.flowRuleIds i = id

instance (p : Plugin) (id : FlowRuleId) : Decidable (p.HasRule id) :=
  inferInstanceAs (Decidable (∃ i < p.api.ruleSet.count, p.api.ctx.flowRuleIds i = id))

/-- A rule is there when an entry has its id. -/
theorem Sound.hasRule_iff (h : p.Sound es) {id : FlowRuleId} :
    p.HasRule id ↔ ∃ e ∈ es, e.id = id := by
  rw [HasRule, h.aligned.count_eq]
  constructor
  · rintro ⟨i, hi, hid⟩
    exact ⟨_, List.getElem_mem hi, h.aligned.id_eq hi ▸ hid⟩
  · rintro ⟨e, he, hid⟩
    obtain ⟨i, hi, rfl⟩ := List.getElem_of_mem he
    exact ⟨i, hi, h.aligned.id_eq hi ▸ hid⟩

/-- Setting up the context neither adds nor removes a rule. -/
theorem Sound.ensure_hasRule (h : p.Sound es) (memory : Bool) (id : FlowRuleId) :
    (p.apiCtxEnsure memory).HasRule id ↔ p.HasRule id := by
  rw [(h.ensure memory).hasRule_iff, h.hasRule_iff]

/-- Setting up the context leaves the published tables and the tables of the context. -/
theorem Sound.ensure_tables (h : p.Sound es) (memory : Bool) :
    (p.apiCtxEnsure memory).main.tables = p.main.tables ∧
      (p.apiCtxEnsure memory).api.ctx.tables = p.api.ctx.tables ∧
      (p.apiCtxEnsure memory).heap = p.heap := by
  rcases apiCtxEnsure_cases memory p with heq | ⟨hready, ruleSet, -, heq⟩
  · rw [heq]
    exact ⟨rfl, rfl, rfl⟩
  · obtain ⟨rfl, -⟩ := h.fresh hready
    rw [heq]
    refine ⟨rfl, ?_, rfl⟩
    funext w i
    exact (h.aligned.table_of_ge (Nat.zero_le i) w).symm

/-- The deletion handler finds a name for every id of a rule but zero. -/
theorem Sound.nameOfId_isSome (h : p.Sound es) {id : FlowRuleId} (hzero : id.isZero = false)
    (hid : p.HasRule id) : ∃ name, p.nameOfId id = some name := by
  obtain ⟨j, hj, hjid⟩ := hid
  have hcount := h.aligned.count_eq
  have hle : es.length ≤ flowRuleSetMax := by simpa using h.aligned.rules.length_le
  unfold nameOfId
  split
  · rename_i hnone
    rw [List.find?_eq_none] at hnone
    exact absurd (by simp [FlowRuleId.eq, hjid]) (hnone j (List.mem_range.mpr (by omega)))
  · rename_i i hfind
    have hfound := List.find?_some hfind
    have hi : i < es.length := by
      by_contra hge
      rw [h.aligned.ids, ofList_of_ge (by simpa using hge)] at hfound
      simp only [FlowRuleId.eq, FlowRuleId.zero, Bool.and_eq_true, beq_iff_eq] at hfound
      simp [FlowRuleId.isZero, ← hfound.1, ← hfound.2] at hzero
    rw [h.aligned.rules.get_eq (by simpa using hi)]
    exact ⟨_, rfl⟩

/-- The name that a deletion looks up is the name of an entry with the id. -/
theorem Sound.nameOfId_eq_some (h : p.Sound es) {id : FlowRuleId} {name : List UInt8}
    (hname : p.nameOfId id = some name) :
    ∃ i, ∃ hi : i < es.length, es[i].id = id ∧ es[i].rule.name = name := by
  unfold nameOfId at hname
  split at hname
  · cases hname
  · rename_i i hfind
    have hid := List.find?_some hfind
    by_cases hi : i < es.length
    · rw [h.aligned.rules.get_eq (by simpa using hi), List.getElem_map] at hname
      refine ⟨i, hi, ?_, Option.some.inj hname⟩
      rw [h.aligned.id_eq hi] at hid
      simpa [FlowRuleId.eq, FlowRuleId.ext_iff] using hid
    · rw [FlowRuleSet.get, if_pos (by rw [h.aligned.count_eq]; omega)] at hname
      cases hname

/-- A request to delete a rule takes out the entry whose name the handler finds for the id, or it
changes nothing: the id is zero or belongs to no rule. -/
theorem flowRuleDelHandler_cases (h : p.Sound es) (env : ApiEnv) (id : FlowRuleId) :
    let out := p.flowRuleDelHandler env id
    out.2.api.mgr.retiredCount = p.api.mgr.retiredCount ∧
    ((out.1 ≠ none ∧ out.2.Sound es ∧ out.2 = p.apiCtxEnsure env.memory ∧
        (id.isZero = true ∨ (p.apiCtxEnsure env.memory).nameOfId id = none)) ∨
    ∃ i, ∃ hi : i < es.length, es[i].id = id ∧ id.isZero = false ∧
      (p.apiCtxEnsure env.memory).nameOfId id = some es[i].rule.name ∧ out.1 = none ∧
      out.2.Sound (es.eraseIdx i)) := by
  have hq := h.ensure env.memory
  rw [← h.ensure_retiredCount env.memory]
  unfold flowRuleDelHandler
  dsimp only
  generalize p.apiCtxEnsure env.memory = q at hq
  split
  · rename_i hzero
    exact ⟨rfl, Or.inl ⟨by simp, hq, rfl, Or.inl hzero⟩⟩
  rename_i hzero
  rw [Bool.not_eq_true] at hzero
  cases hname : q.nameOfId id with
  | none => exact ⟨rfl, Or.inl ⟨by simp, hq, rfl, Or.inr rfl⟩⟩
  | some name =>
    obtain ⟨i, hi, hid, hin⟩ := hq.nameOfId_eq_some hname
    have hready : q.ready = true := by
      by_contra hf
      obtain ⟨rfl, -⟩ := hq.fresh (by simpa using hf)
      exact absurd hi (Nat.not_lt_zero i)
    dsimp only
    rcases q.api.flowRuleDel_cases hq.aligned name with ⟨heq, hfree⟩ | ⟨j, hj, set, hjn, hset, heq⟩
    · exact absurd (hin ▸ List.mem_map.mpr ⟨_, List.getElem_mem hi, rfl⟩) hfree
    -- names are unique, so the rule that goes is the one with the id
    · obtain rfl : j = i := by
        refine hq.aligned.rules.name_inj (by simpa using hj) (by simpa using hi) ?_
        simpa using hjn.trans hin.symm
      rw [heq]
      refine ⟨by simp [ApiState.without],
        Or.inr ⟨j, hj, hid, hzero, congrArg some hin.symm, by simp [apiResultToRetval], ?_⟩⟩
      refine hq.replace hready (by simpa using hready) (by simp) ?_ (by simp [ApiState.without])
        (by simp [ApiState.without]) (by simp [ApiState.without])
      rw [publishIf_api]
      exact hq.aligned.deleted hset

/-! ### Snapshots -/

/-- A request for a snapshot exchanges the tables of the first entry with the id, or it fails and
changes no entry. -/
theorem snapshotRequest_cases (h : p.Sound es) (env : ApiEnv) (id : FlowRuleId) :
    let out := p.snapshotRequest env id
    (out.1.result ≠ .ok ∧ out.2.Sound es ∧
      out.2.api.mgr.retiredCount = p.api.mgr.retiredCount) ∨
    ∃ (i : ℕ) (hi : i < es.length) (tables : ℕ → Option ℕ), es[i].id = id ∧
      out.1.result = .ok ∧ out.2.Sound (es.set i (es[i].swap tables)) ∧
      out.2.api.mgr.retiredCount = p.api.mgr.retiredCount + 1 := by
  have hq := h.ensure env.memory
  rw [← h.ensure_retiredCount env.memory]
  unfold snapshotRequest
  dsimp only
  generalize p.apiCtxEnsure env.memory = q at hq
  rcases q.api.snapshotAndClear_cases hq.aligned.arranged id env.allocs env.now with
    ⟨herr, heap, hundone, hst⟩ | ⟨i, hi, out, new, r, hid, -, hs, hok, -, -, hst⟩
  · refine Or.inl ⟨herr, ?_, ?_⟩
    · rw [hst]
      cases hready : q.ready with
      | true =>
        refine hq.replace hready (by simp) (by simp) ?_ (by simp) (by simp) (by simp)
        rw [publishIf_api]
        exact hq.aligned.undone hundone
      | false =>
        -- without a snapshot manager nothing was tried
        obtain ⟨-, -, -, hmgr, -⟩ := hq.fresh hready
        have hsame : (q.api.snapshotAndClear id env.allocs env.now).2 = q.api := by
          rw [ApiState.snapshotAndClear, if_pos hmgr]
        rw [← hst, hsame]
        exact hq.congr (by simp) (by simp [hready]) (by simp)
    · rw [hst, publishIf_api]
  · have hready : q.ready = true := by
      by_contra hf
      obtain ⟨rfl, -⟩ := hq.fresh (by simpa using hf)
      exact absurd hi (Nat.not_lt_zero i)
    refine Or.inr ⟨i, hi, new, hid, hok, ?_, ?_⟩
    · rw [hst]
      refine hq.replace hready (by simpa using hready) (by simp) ?_ (by simp [ApiState.swapped])
        (by simp [ApiState.swapped]) (by simp [ApiState.swapped])
      rw [publishIf_api]
      exact hq.aligned.snapped hi hs
    · rw [hst, publishIf_api]
      show out.mgr.retiredCount = _
      rw [hs.mgr_eq]

/-! ### Requests -/

/-- After every request the context holds a list of entries. -/
theorem Sound.serve (h : p.Sound es) (request : Request) : ∃ es', (p.serve request).Sound es' := by
  cases request with
  | flowRuleAdd env mp =>
    rcases (flowRuleAddHandler_cases h env mp).2 with ⟨-, -, hs⟩ | ⟨tables, -, hs⟩
    · exact ⟨_, hs⟩
    · exact ⟨_, hs⟩
  | flowRuleDel env id =>
    rcases (flowRuleDelHandler_cases h env id).2 with ⟨-, hs, -⟩ | ⟨i, hi, -, -, -, -, hs⟩
    · exact ⟨_, hs⟩
    · exact ⟨_, hs⟩
  | snapshotAndClear env id =>
    rcases snapshotRequest_cases h env id with ⟨-, hs, -⟩ | ⟨i, hi, tables, -, -, hs, -⟩
    · exact ⟨_, hs⟩
    · exact ⟨_, hs⟩
  | snapshotInlineDump env id =>
    rw [Plugin.serve, snapshotInlineDumpHandler_snd]
    rcases snapshotRequest_cases h env id with ⟨-, hs, -⟩ | ⟨i, hi, tables, -, -, hs, -⟩
    · exact ⟨_, hs⟩
    · exact ⟨_, hs⟩

end Plugin

end InFMon
