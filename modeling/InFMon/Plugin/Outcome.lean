import InFMon.Plugin.Interleaving

/-! # The operation behind a request

Every handler sets up the context, runs one API operation and publishes if that succeeded, at once or
store by store. -/

namespace InFMon

namespace Plugin

/-- The environment of a request. -/
def Request.env : Request → ApiEnv
  | .flowRuleAdd env _ | .flowRuleDel env _ | .snapshotAndClear env _ | .snapshotInlineDump env _ =>
    env

/-- The API operation behind a request. -/
def outcome (q : Plugin) : Request → ApiResult × ApiState
  | .flowRuleAdd env mp =>
    if q.ready then q.api.flowRuleAdd (messageRule mp) (some (newRuleId env q.idSeq)) env.allocs
    else (.errInternal, q.api)
  | .flowRuleDel _ id =>
    if id.isZero then (.errNotFound, q.api)
    else
      match q.nameOfId id with
      | none => (.errNotFound, q.api)
      | some name => q.api.flowRuleDel name
  | .snapshotAndClear env id | .snapshotInlineDump env id =>
    ((q.api.snapshotAndClear id env.allocs env.now).1.result,
      (q.api.snapshotAndClear id env.allocs env.now).2)

/-- A request sets up the context, runs its operation and publishes if that succeeded. -/
theorem serve_eq (p : Plugin) (request : Request) :
    p.serve request =
      { p.apiCtxEnsure request.env.memory with
        api := ((p.apiCtxEnsure request.env.memory).outcome request).2
        idSeq := (p.serve request).idSeq }.publishIf
          ((p.apiCtxEnsure request.env.memory).outcome request).1 := by
  have hkeep : ∀ (result : ApiResult) (q : Plugin), (q.publishIf result).idSeq = q.idSeq := by
    intro result q
    unfold publishIf
    split
    · rfl
    · rfl
  cases request with
  | flowRuleAdd env mp =>
    simp only [serve, flowRuleAddHandler, hkeep]
    rfl
  | flowRuleDel env id =>
    simp only [serve, flowRuleDelHandler, outcome, Request.env]
    split
    · rfl
    cases (p.apiCtxEnsure env.memory).nameOfId id with
    | none => rfl
    | some name => simp only [hkeep]
  | snapshotAndClear env id =>
    simp only [serve, snapshotAndClearHandler, snapshotRequest, hkeep]
    rfl
  | snapshotInlineDump env id =>
    simp only [serve, snapshotInlineDumpHandler_snd, snapshotRequest, hkeep]
    rfl

variable {p q : Plugin} {es : List RuleEntry}

/-- The deletion of no rule changes nothing. -/
theorem flowRuleDel_failed {st : ApiState} {name : List UInt8}
    (h : (st.flowRuleDel name).1 ≠ .ok) : (st.flowRuleDel name).2 = st := by
  revert h
  unfold ApiState.flowRuleDel
  split
  · exact fun _ => rfl
  dsimp only
  split
  · exact fun h => absurd rfl h
  · exact fun _ => rfl

/-- An operation that fails has undone what it did. -/
theorem outcome_failed (h : q.api.Arranged es) {request : Request}
    (hne : (q.outcome request).1 ≠ .ok) : ∃ heap, q.heap.Undone heap ∧
      (q.outcome request).2 = { q.api with heap := heap } := by
  have hsame : ∃ heap, q.heap.Undone heap ∧ q.api = { q.api with heap := heap } :=
    ⟨q.heap, Heap.Undone.refl q.heap, rfl⟩
  -- the two snapshot requests fail in the same way
  have hsnapshot : ∀ (env : ApiEnv) (id : FlowRuleId),
      (q.api.snapshotAndClear id env.allocs env.now).1.result ≠ .ok → ∃ heap, q.heap.Undone heap ∧
        (q.api.snapshotAndClear id env.allocs env.now).2 = { q.api with heap := heap } := by
    intro env id hne
    rcases q.api.snapshotAndClear_cases h id env.allocs env.now with
      ⟨-, heap, hundone, hst⟩ | ⟨i, hi, out, new, r, -, -, -, hok, -⟩
    · exact ⟨heap, hundone, hst⟩
    · exact absurd hok hne
  cases request with
  | flowRuleAdd env mp =>
    rw [outcome] at hne ⊢
    split
    · rename_i hready
      rw [if_pos hready] at hne
      rcases q.api.flowRuleAdd_cases h (messageRule mp) (some (newRuleId env q.idSeq)) env.allocs
        with ⟨-, heap, hundone, hst⟩ | ⟨set, s, -, -, heq⟩
      · exact ⟨heap, hundone, hst⟩
      · rw [heq] at hne
        exact absurd rfl hne
    · exact hsame
  | flowRuleDel env id =>
    rw [outcome] at hne ⊢
    split
    · exact hsame
    rename_i hzero
    rw [if_neg hzero] at hne
    cases hname : q.nameOfId id with
    | none => exact hsame
    | some name =>
      rw [hname] at hne
      rw [flowRuleDel_failed hne]
      exact hsame
  | snapshotAndClear env id => exact hsnapshot env id hne
  | snapshotInlineDump env id => exact hsnapshot env id hne

/-- The slots that the request walks behind the publication. -/
def walk (q : Plugin) : Request → List MainStep
  | .snapshotInlineDump env id =>
    walkSteps (q.api.snapshotAndClear id env.allocs env.now).2.heap
      (q.api.snapshotAndClear id env.allocs env.now).1
  | _ => []

/-- Step by step, a request sets up the context, runs its operation, and publishes and walks. -/
theorem operate_eq (p : Plugin) (request : Request) :
    p.operate request =
      ({ p.apiCtxEnsure request.env.memory with
          api := ((p.apiCtxEnsure request.env.memory).outcome request).2
          idSeq := (p.operate request).1.idSeq },
        (if ((p.apiCtxEnsure request.env.memory).outcome request).1 = .ok then
          publishSteps ((p.apiCtxEnsure request.env.memory).outcome request).2.nw else []) ++
            (p.apiCtxEnsure request.env.memory).walk request) := by
  cases request with
  | flowRuleAdd env mp =>
    simp only [walk, List.append_nil]
    rfl
  | flowRuleDel env id =>
    simp only [walk, List.append_nil, operate, outcome, Request.env]
    by_cases hzero : id.isZero = true
    · simp only [if_pos hzero]
      rfl
    · simp only [if_neg hzero]
      cases (p.apiCtxEnsure env.memory).nameOfId id with
      | none => rfl
      | some name => rfl
  | snapshotAndClear env id =>
    simp only [walk, List.append_nil]
    rfl
  | snapshotInlineDump env id => rfl

/-- An operation that fails walks nothing. -/
theorem walk_failed {request : Request} (hne : (q.outcome request).1 ≠ .ok) :
    q.walk request = [] := by
  cases request with
  | snapshotInlineDump env id =>
    change (q.api.snapshotAndClear id env.allocs env.now).1.result ≠ .ok at hne
    rw [walk, walkSteps]
    split
    · rfl
    · rw [if_pos (Or.inl hne)]
  | _ => rfl

/-- The operation of a request leaves the context that its handler leaves. -/
theorem operate_api (p : Plugin) (request : Request) :
    (p.operate request).1.api = (p.serve request).api ∧
      (p.operate request).1.ready = (p.serve request).ready ∧
      (p.operate request).1.vlibNumWorkers = (p.serve request).vlibNumWorkers := by
  rw [← p.foldl_operate request]
  generalize (p.operate request).2 = steps
  generalize (p.operate request).1 = q
  induction steps generalizing q with
  | nil => exact ⟨rfl, rfl, rfl⟩
  | cons step steps ih =>
    obtain ⟨hapi, hready, hworkers⟩ := ih (q.store step)
    rw [store_api] at hapi
    rw [store_ready] at hready
    rw [store_vlibNumWorkers] at hworkers
    exact ⟨hapi, hready, hworkers⟩

/-- After the operation of a request the context holds a list of entries. -/
theorem sound_operate (h : p.Sound es) (request : Request) :
    ∃ es', (p.operate request).1.Sound es' := by
  obtain ⟨es', hs⟩ := h.serve request
  obtain ⟨hapi, hready, hworkers⟩ := operate_api p request
  exact ⟨es', hs.congr hapi hready hworkers⟩

/-! ### What a successful operation does -/

/-- The id that a snapshot request is for. -/
def Request.snapshot? : Request → Option (ApiEnv × FlowRuleId)
  | .snapshotAndClear env id | .snapshotInlineDump env id => some (env, id)
  | _ => none

/-- What becomes of the API state and its entries: a rule behind the others, with new tables; one rule
less; or new tables for one rule. -/
inductive Changed (q : Plugin) (es : List RuleEntry) :
    Request → ApiState → List RuleEntry → Prop
  | added (env : ApiEnv) (mp : FlowRuleAddMsg) (set : FlowRuleSet) (s : Tables × Heap)
      (hready : q.ready = true)
      (hset : set.Holds (es.map RuleEntry.rule ++ [(messageRule mp).register]))
      (hs : Added q.api.ctx.tables q.api.heap es.length (messageRule mp).register q.api.nw s) :
      Changed q es (.flowRuleAdd env mp)
        { q.api with
          ctx := { q.api.ctx with
            tables := s.1
            flowRuleIds := Function.update q.api.ctx.flowRuleIds es.length
              (newRuleId env q.idSeq) }
          ruleSet := set
          heap := s.2 }
        (es ++ [⟨(messageRule mp).register, newRuleId env q.idSeq,
          fun w => if w < q.api.nw then some (q.api.heap.next + w) else none⟩])
  | deleted (env : ApiEnv) (id : FlowRuleId) (i : ℕ) (hi : i < es.length) (set : FlowRuleSet)
      (hid : es[i].id = id) (hzero : id.isZero = false)
      (hname : q.nameOfId id = some es[i].rule.name)
      (hset : set.Holds ((es.map RuleEntry.rule).eraseIdx i)) :
      Changed q es (.flowRuleDel env id) (q.api.without i set) (es.eraseIdx i)
  | swapped (request : Request) (env : ApiEnv) (id : FlowRuleId) (i : ℕ) (hi : i < es.length)
      (out : SnapOutcome) (new : ℕ → Option ℕ) (r : ℕ)
      (hrequest : request.snapshot? = some (env, id))
      (hid : es[i].id = id) (hfirst : ∀ j (hj : j < es.length), j < i → es[j].id ≠ id)
      (hs : Snapped q.api.mgr q.api.ctx.tables q.api.heap q.api.nw i es[i].rule.keyWidth env.now out
        new r) :
      Changed q es request (q.api.swapped out) (es.set i (es[i].swap new))

/-- A successful snapshot swaps the tables of a rule. -/
theorem changed_of_snapshot (h : q.Sound es) {request : Request} {env : ApiEnv} {id : FlowRuleId}
    (hsome : request.snapshot? = some (env, id))
    (hok : (q.api.snapshotAndClear id env.allocs env.now).1.result = .ok) : ∃ es',
      Changed q es request (q.api.snapshotAndClear id env.allocs env.now).2 es' ∧
        (q.api.snapshotAndClear id env.allocs env.now).2.Aligned es' := by
  rcases q.api.snapshotAndClear_cases h.aligned.arranged id env.allocs env.now with
    ⟨herr, -⟩ | ⟨i, hi, out, new, r, hid, hfirst, hs, -, -, -, hst⟩
  · exact absurd hok herr
  · rw [hst]
    exact ⟨_, .swapped request env id i hi out new r hsome hid (fun j _ hji => hfirst j hji) hs,
      h.aligned.snapped hi hs⟩

/-- An operation fails and undoes its work, or changes the state and the entries. -/
theorem outcome_cases (h : q.Sound es) (request : Request) :
    ((q.outcome request).1 ≠ .ok ∧ ∃ heap, q.heap.Undone heap ∧
      (q.outcome request).2 = { q.api with heap := heap }) ∨
    (q.outcome request).1 = .ok ∧ ∃ es', Changed q es request (q.outcome request).2 es' ∧
      (q.outcome request).2.Aligned es' := by
  by_cases hok : (q.outcome request).1 = .ok
  swap
  · exact Or.inl ⟨hok, outcome_failed h.aligned.arranged hok⟩
  refine Or.inr ⟨hok, ?_⟩
  cases request with
  | flowRuleAdd env mp =>
    rw [outcome] at hok ⊢
    cases hready : q.ready with
    | false =>
      rw [hready] at hok
      cases hok
    | true =>
      rw [hready] at hok
      simp only [if_true] at hok ⊢
      rcases q.api.flowRuleAdd_cases h.aligned.arranged (messageRule mp)
        (some (newRuleId env q.idSeq)) env.allocs with ⟨herr, -⟩ | ⟨set, s, hset, hs, heq⟩
      · exact absurd hok herr
      · rw [heq]
        exact ⟨_, .added env mp set s hready hset hs, h.aligned.added hset hs⟩
  | flowRuleDel env id =>
    rw [outcome] at hok ⊢
    cases hzero : id.isZero with
    | true =>
      rw [hzero] at hok
      cases hok
    | false =>
      rw [hzero] at hok
      simp only [Bool.false_eq_true, if_false] at hok ⊢
      cases hname : q.nameOfId id with
      | none =>
        rw [hname] at hok
        cases hok
      | some name =>
        dsimp only
        -- the rule with the id and the rule with the name are one
        obtain ⟨j, hj, hid, hjn⟩ := h.nameOfId_eq_some hname
        rcases q.api.flowRuleDel_cases h.aligned name with ⟨heq, hfree⟩ |
          ⟨i, hi, set, hin, hset, heq⟩
        · exact absurd (hjn ▸ List.mem_map.mpr ⟨_, List.getElem_mem hj, rfl⟩) hfree
        · obtain rfl : i = j := by
            refine h.aligned.rules.name_inj (by simpa using hi) (by simpa using hj) ?_
            simpa using hin.trans hjn.symm
          rw [heq]
          exact ⟨_, .deleted env id i hi set hid hzero (hin.symm ▸ hname) hset,
            h.aligned.deleted hset⟩
  | snapshotAndClear env id => exact changed_of_snapshot h rfl hok
  | snapshotInlineDump env id => exact changed_of_snapshot h rfl hok

end Plugin

end InFMon
