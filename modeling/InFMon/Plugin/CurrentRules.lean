import InFMon.Plugin.Attribution

/-! # The current rules

At every moment of a run one list of rules is the current one: the array in memory holds it once the
assignments that are left are made, and the tables of the context were made for it. A request makes
another list the current one; unless it deletes a rule, it only appends. -/

namespace InFMon

open DenseArray

namespace Attribution

/-! ### The invariant -/

/-- A version that a frame may work with: it is the beginning of the current rules, and no assignment
that is left touches it. -/
structure Readable (s : Attribution) (cur version : List MarkedRule) : Prop where
  mem : version ∈ s.versions
  isPrefix : version <+: cur
  untouched : ∀ write ∈ s.writes, version.length ≤ write.place

/-- What a stage says about the current rules. -/
def StageOk (s : Attribution) (cur : List MarkedRule) : WorkerStage → Prop
  | .idle => True
  | .matching frame => frame.source ≠ some .cli ∧
      (frame.count = none →
        frame.read = [] ∧ frame.encodedBy = [] ∧ frame.pass.scratch.entries = []) ∧
      ∃ version, s.Readable cur version ∧ (∀ n, frame.count = some n → n = version.length) ∧
        (∀ pair ∈ frame.read, version[pair.1]? = some pair.2) ∧
        List.Forall₂ (fun e rule => version[e.flowRuleIndex]? = some rule)
          frame.pass.scratch.entries frame.encodedBy
  | .loading row _ todo | .counting row _ todo =>
      (∀ pair ∈ todo, cur[pair.1.flowRuleIndex]? = some pair.2) ∧
      ∀ i t, row i = some t → t < s.plugin.heap.next ∧ cur[i]? = some (s.madeFor t)

/-- The current rules are `cur`: the array of rules will hold them, the tables of the context were made
for them, and unless a rule is being deleted, so were the tables that are published. -/
structure Current (s : Attribution) (cur : List MarkedRule) : Prop where
  sound : ∃ es, s.plugin.Sound es
  rules : s.plugin.api.ruleSet.Holds (cur.map MarkedRule.rule)
  memory : RuleWrite.applyAll s.rules s.writes = ofList .zero cur
  mem : cur ∈ s.versions
  nil_mem : [] ∈ s.versions
  source : s.plugin.main.flowRuleSet ≠ some .cli
  published : s.deleting = false →
    ∃ version, s.Readable cur version ∧ s.plugin.apiRef.count = version.length
  count : .refCount ∉ s.stores → s.plugin.apiRef.count = cur.length
  made : ∀ w i t, s.plugin.api.ctx.tables w i = some t → cur[i]? = some (s.madeFor t)
  old : ∀ w i t, s.plugin.main.tables w i = some t → t < s.plugin.heap.next
  synced : ∀ w i, .cell w i ∉ s.stores →
    s.plugin.main.tables w i = Plugin.cellOf s.plugin.api.ctx.tables w i
  tables : s.deleting = false →
    ∀ w i t, s.plugin.main.tables w i = some t → cur[i]? = some (s.madeFor t)
  alone : s.deleting = true → (s.writes ≠ [] ∨ s.stores ≠ []) → ∀ w, s.workers w = .idle
  workers : ∀ w, s.StageOk cur (s.workers w)
  counted : ∀ pair ∈ s.applied, pair.1 = pair.2

variable {s s' : Attribution} {cur cur' version : List MarkedRule}

/-- A prefix of a list has the same entries. -/
theorem getElem?_of_prefix {α : Type*} {l l' : List α} (h : l <+: l') {i : ℕ} {x : α}
    (hx : l[i]? = some x) : l'[i]? = some x := by
  obtain ⟨rest, rfl⟩ := h
  rw [List.getElem?_append_left (List.getElem?_eq_some_iff.mp hx).1, hx]

/-- At the start there are no rules. -/
theorem current_start (vlibNumWorkers : ℕ) : (start vlibNumWorkers).Current [] where
  sound := ⟨[], Plugin.sound_start vlibNumWorkers⟩
  rules := Plugin.holds_noRules
  memory := rfl
  mem := List.mem_singleton_self _
  nil_mem := List.mem_singleton_self _
  source h := by cases h
  published _ := ⟨[], ⟨List.mem_singleton_self _, List.nil_prefix, fun _ h => by cases h⟩, rfl⟩
  count _ := rfl
  made _ _ _ h := by cases h
  old _ _ _ h := by cases h
  synced w i _ := by
    rw [Plugin.cellOf]
    exact (ite_self none).symm
  tables _ _ _ _ h := by cases h
  alone h := by cases h
  workers _ := trivial
  counted _ h := by cases h

/-- What is read at a place of a readable version. -/
theorem Current.rules_eq (h : s.Current cur) (hv : s.Readable cur version) {i : ℕ}
    (hi : i < version.length) : version[i]? = some (s.rules i) := by
  have hplace : s.rules i = ofList .zero cur i := by
    rw [← h.memory]
    refine (RuleWrite.applyAll_of_ne fun write hwrite => ?_).symm
    exact (Nat.lt_of_lt_of_le hi (hv.untouched write hwrite)).ne
  have hget := getElem?_of_prefix hv.isPrefix (List.getElem?_eq_getElem hi)
  rw [hplace, ofList, hget, Option.getD_some, List.getElem?_eq_getElem hi]

/-- The rules of the property. -/
theorem Current.attributed (h : s.Current cur) : s.Attributed where
  counted := h.counted
  whole w frame hw := by
    have hok := h.workers w
    rw [hw] at hok
    obtain ⟨-, -, version, hv, hcount, hread, -⟩ := hok
    exact ⟨version, hv.mem, fun _ => hcount, hread⟩

/-! ### What a stage depends on -/

/-- The rules of one state begin those of another, and nothing that a frame relies on is different. -/
structure Extends (s : Attribution) (cur : List MarkedRule) (s' : Attribution)
    (cur' : List MarkedRule) : Prop where
  versions : ∀ version ∈ s.versions, version ∈ s'.versions
  isPrefix : cur <+: cur'
  untouched : ∀ version, s.Readable cur version → ∀ write ∈ s'.writes, version.length ≤ write.place
  next_le : s.plugin.heap.next ≤ s'.plugin.heap.next
  madeFor : ∀ t < s.plugin.heap.next, s'.madeFor t = s.madeFor t

/-- A version that may be read may be read later. -/
theorem Extends.readable (h : s.Extends cur s' cur') (hv : s.Readable cur version) :
    s'.Readable cur' version :=
  ⟨h.versions version hv.mem, hv.isPrefix.trans h.isPrefix, h.untouched version hv⟩

/-- A table stays recorded for its rule. -/
theorem Extends.row (h : s.Extends cur s' cur') {i t : ℕ}
    (ht : t < s.plugin.heap.next ∧ cur[i]? = some (s.madeFor t)) :
    t < s'.plugin.heap.next ∧ cur'[i]? = some (s'.madeFor t) := by
  refine ⟨Nat.lt_of_lt_of_le ht.1 h.next_le, ?_⟩
  rw [h.madeFor t ht.1]
  exact getElem?_of_prefix h.isPrefix ht.2

/-- A worker's stage stays right. -/
theorem Extends.stageOk (h : s.Extends cur s' cur') {stage : WorkerStage}
    (hok : s.StageOk cur stage) : s'.StageOk cur' stage := by
  cases stage with
  | idle => trivial
  | matching frame =>
    obtain ⟨hsource, hnone, version, hv, hframe⟩ := hok
    exact ⟨hsource, hnone, version, h.readable hv, hframe⟩
  | loading row loaded todo =>
    exact ⟨fun pair hpair => getElem?_of_prefix h.isPrefix (hok.1 pair hpair),
      fun i t ht => h.row (hok.2 i t ht)⟩
  | counting row tick todo =>
    exact ⟨fun pair hpair => getElem?_of_prefix h.isPrefix (hok.1 pair hpair),
      fun i t ht => h.row (hok.2 i t ht)⟩

/-! ### Assignments and stores -/

/-- The main thread makes an assignment. -/
theorem Current.write (h : s.Current cur) {write : RuleWrite} {writes : List RuleWrite}
    (hwrites : s.writes = write :: writes) :
    ({ s with rules := write.apply s.rules, writes := writes } : Attribution).Current cur := by
  have hext : s.Extends cur { s with rules := write.apply s.rules, writes := writes } cur :=
    { versions := fun _ hv => hv
      isPrefix := List.prefix_rfl
      untouched := fun version hv w hw => hv.untouched w (hwrites ▸ List.mem_cons_of_mem _ hw)
      next_le := Nat.le_refl _
      madeFor := fun _ _ => rfl }
  have hmemory := h.memory
  rw [hwrites] at hmemory
  exact
    { h with
      memory := hmemory
      published := fun hdel => (h.published hdel).imp fun _ hv => ⟨hext.readable hv.1, hv.2⟩
      alone := fun hdel _ => h.alone hdel (Or.inl (by simp [hwrites]))
      workers := fun w => hext.stageOk (h.workers w) }

/-- The number of rules that is published next. -/
theorem Current.ruleCount_eq (h : s.Current cur) : s.plugin.ruleCount = cur.length := by
  have hcount : s.plugin.api.ruleSet.count = cur.length := by rw [h.rules.count, List.length_map]
  rw [Plugin.ruleCount]
  split
  · exact hcount
  · rename_i hready
    obtain ⟨es, hs⟩ := h.sound
    obtain ⟨rfl, -⟩ := hs.fresh (by simpa using hready)
    rw [← hcount, hs.aligned.count_eq, List.length_nil]

/-- A store of the main thread leaves a published cell or writes to it what the context has. -/
theorem store_cells (p : Plugin) (next : MainStep) (w i : ℕ) :
    (p.store next).main.tables w i = p.main.tables w i ∨
      (p.store next).main.tables w i = Plugin.cellOf p.api.ctx.tables w i := by
  cases next with
  | cell v j =>
    have hcell : (p.store (.cell v j)).main.tables w i =
        if w = v ∧ i = j then Plugin.cellOf p.api.ctx.tables v j else p.main.tables w i :=
      setTable_apply ..
    rw [hcell]
    split
    · rename_i hvj
      obtain ⟨rfl, rfl⟩ := hvj
      exact Or.inr rfl
    · exact Or.inl rfl
  | _ => exact Or.inl rfl

/-- A store that publishes a cell makes it the cell of the context. -/
theorem store_cell_self (p : Plugin) (w i : ℕ) :
    (p.store (.cell w i)).main.tables w i = Plugin.cellOf p.api.ctx.tables w i := by
  show Plugin.publishCell p.api.ctx.tables w i p.main.tables w i = _
  rw [Plugin.publishCell, setTable_apply, if_pos ⟨rfl, rfl⟩]

/-- A table of the context that may be published was made for the current rule at its index. -/
theorem Current.cell_made (h : s.Current cur) {w i t : ℕ}
    (ht : Plugin.cellOf s.plugin.api.ctx.tables w i = some t) :
    t < s.plugin.heap.next ∧ cur[i]? = some (s.madeFor t) := by
  obtain ⟨-, ht⟩ := Option.ite_none_right_eq_some.mp ht
  obtain ⟨es, hs⟩ := h.sound
  exact ⟨(hs.aligned.owning.made w i t ht).1, h.made w i t ht⟩

/-- The main thread makes a store. -/
theorem Current.store (h : s.Current cur) {next : MainStep} {stores : List MainStep}
    (hwrites : s.writes = []) (hstores : s.stores = next :: stores) :
    ({ s with plugin := s.plugin.store next, stores := stores } : Attribution).Current cur := by
  have hapi := s.plugin.store_api next
  have hheap : (s.plugin.store next).heap = s.plugin.heap := congrArg ApiState.heap hapi
  have hext : s.Extends cur { s with plugin := s.plugin.store next, stores := stores } cur :=
    { versions := fun _ hv => hv
      isPrefix := List.prefix_rfl
      untouched := fun version hv => hv.untouched
      next_le := by rw [hheap]
      madeFor := fun _ _ => rfl }
  have hrest : ∀ step, step ∉ stores → step = next ∨ step ∉ s.stores := by
    intro step hstep
    rw [hstores, List.mem_cons, not_or]
    by_cases heq : step = next
    · exact Or.inl heq
    · exact Or.inr ⟨heq, hstep⟩
  exact
    { sound := by
        obtain ⟨es, hs⟩ := h.sound
        exact ⟨es, hs.congr hapi (by simp) (by simp)⟩
      rules := hapi ▸ h.rules
      memory := h.memory
      mem := h.mem
      nil_mem := h.nil_mem
      source := by
        cases next with
        | refPointer =>
          intro hcli
          cases hcli
        | _ => exact h.source
      published := by
        intro hdel
        cases next with
        | refCount =>
          -- the count now covers all current rules, and no assignment is left
          refine ⟨cur, ⟨h.mem, List.prefix_rfl, fun write hwrite => ?_⟩, h.ruleCount_eq⟩
          change write ∈ s.writes at hwrite
          rw [hwrites] at hwrite
          cases hwrite
        | _ => exact (h.published hdel).imp fun _ hv => ⟨hext.readable hv.1, hv.2⟩
      count := by
        intro hcount
        rcases hrest _ hcount with rfl | hnot
        · exact h.ruleCount_eq
        · cases next with
          | refCount => exact h.ruleCount_eq
          | _ => exact h.count hnot
      made := hapi ▸ h.made
      old := by
        intro w i t ht
        rw [hheap]
        rcases store_cells s.plugin next w i with heq | heq
        · exact h.old w i t (heq ▸ ht)
        · exact (h.cell_made (heq ▸ ht)).1
      synced := by
        intro w i hcell
        rw [hapi]
        rcases hrest _ hcell with rfl | hnot
        · exact store_cell_self s.plugin w i
        · rcases store_cells s.plugin next w i with heq | heq
          · exact heq.trans (h.synced w i hnot)
          · exact heq
      tables := by
        intro hdel w i t ht
        rcases store_cells s.plugin next w i with heq | heq
        · exact h.tables hdel w i t (heq ▸ ht)
        · exact (h.cell_made (heq ▸ ht)).2
      alone := fun hdel _ => h.alone hdel (Or.inr (by simp [hstores]))
      workers := fun w => hext.stageOk (h.workers w)
      counted := h.counted }

/-! ### Requests -/

/-- The version that a request brings about. -/
theorem version_eq (l : List MarkedRule) {n : ℕ} (hn : n = l.length) :
    (List.range n).map (ofList .zero l) = l := by
  subst hn
  refine List.ext_getElem (by simp) fun i hi hi' => ?_
  rw [List.getElem_map, List.getElem_range, ofList_of_lt hi']

/-- Setting up the context publishes no rules. -/
theorem ensure_published (memory : Bool) (p : Plugin) :
    (p.apiCtxEnsure memory).main.flowRuleSet = p.main.flowRuleSet ∧
      (p.apiCtxEnsure memory).apiRef = p.apiRef := by
  rcases Plugin.apiCtxEnsure_cases memory p with heq | ⟨-, ruleSet, -, heq⟩
  · rw [heq]
    exact ⟨rfl, rfl⟩
  · rw [heq]
    exact ⟨rfl, rfl⟩

/-- A request that fails leaves the rules in memory as they were, and a deletion that fails does not
touch them. -/
theorem ruleWrites_failed {q : Plugin} {es : List RuleEntry} (h : q.Sound es)
    (hcur : q.api.ruleSet.Holds (cur.map MarkedRule.rule)) {request : Plugin.Request} (mark : ℕ)
    (hne : (q.outcome request).1 ≠ .ok) :
    RuleWrite.applyAll (ofList .zero cur) (q.ruleWrites mark request) = ofList .zero cur ∧
      (∀ write ∈ q.ruleWrites mark request, cur.length ≤ write.place) ∧
      (request.isDel = true → q.ruleWrites mark request = []) := by
  have hnone : ∀ writes : List RuleWrite, writes = [] →
      RuleWrite.applyAll (ofList .zero cur) writes = ofList .zero cur ∧
        (∀ write ∈ writes, cur.length ≤ write.place) ∧ (request.isDel = true → writes = []) := by
    rintro _ rfl
    exact ⟨rfl, fun _ hw => absurd hw List.not_mem_nil, fun _ => rfl⟩
  -- only an addition writes before it fails, and it writes behind the rules that are there
  cases request with
  | flowRuleAdd env mp =>
    rw [Plugin.ruleWrites]
    split
    · rename_i hadd
      obtain ⟨hwrites, hmemory⟩ := FlowRuleSet.applyAll_add_rm hcur mark hadd.2
      rw [hwrites] at hmemory ⊢
      refine ⟨hmemory, ?_, fun hdel => by cases hdel⟩
      intro write hwrite
      rcases List.mem_pair.mp hwrite with rfl | rfl
      · exact Nat.le_refl _
      · exact Nat.le_refl _
    · exact hnone _ rfl
  | flowRuleDel env id =>
    refine hnone _ ?_
    rw [Plugin.outcome] at hne
    rw [Plugin.ruleWrites]
    split
    · rfl
    rename_i hzero
    rw [if_neg hzero] at hne
    cases hname : q.nameOfId id with
    | none => rfl
    | some name =>
      rw [hname] at hne
      dsimp only at hne ⊢
      rcases q.api.flowRuleDel_cases h.aligned name with ⟨-, hfree⟩ | ⟨i, hi, set, -, -, heq⟩
      · rw [FlowRuleSet.rmWrites, h.aligned.rules.indexOf_eq_none_iff.mpr (by simpa using hfree)]
      · rw [heq] at hne
        exact absurd rfl hne
  | snapshotAndClear env id => exact hnone _ rfl
  | snapshotInlineDump env id => exact hnone _ rfl

/-- What has to be known of a request for its rules to be the current ones. -/
theorem Current.served (h : s.Current cur) (hwrites : s.writes = []) (hstores : s.stores = [])
    {request : Plugin.Request} (hsound : ∃ es, (s.serve request).plugin.Sound es)
    (hrules : (s.serve request).plugin.api.ruleSet.Holds (cur'.map MarkedRule.rule))
    (hmemory : RuleWrite.applyAll s.rules (s.serve request).writes = ofList .zero cur')
    (hmade : ∀ w i t, (s.serve request).plugin.api.ctx.tables w i = some t →
      cur'[i]? = some ((s.serve request).madeFor t))
    (hnext : s.plugin.heap.next ≤ (s.serve request).plugin.heap.next)
    (hpublished : (s.serve request).stores = [] ∧ cur' = cur ∨
      MainStep.refCount ∈ (s.serve request).stores)
    (hcells : ∀ w i, MainStep.cell w i ∉ (s.serve request).stores →
      Plugin.cellOf (s.serve request).plugin.api.ctx.tables w i =
        Plugin.cellOf s.plugin.api.ctx.tables w i)
    (hgrows : request.isDel = false ∨
      ((s.serve request).writes = [] ∧ (s.serve request).stores = []) →
      cur <+: cur' ∧ ∀ write ∈ (s.serve request).writes, cur.length ≤ write.place)
    (halone : request.isDel = true →
      ((s.serve request).writes ≠ [] ∨ (s.serve request).stores ≠ []) →
      ∀ w, s.workers w = .idle) :
    (s.serve request).Current cur' := by
  obtain ⟨hmain, hctx, hheap⟩ := h.sound.choose_spec.ensure_tables request.env.memory
  obtain ⟨hsource, href⟩ := ensure_published request.env.memory s.plugin
  have hmain' : (s.serve request).plugin.main = (s.plugin.apiCtxEnsure request.env.memory).main := by
    rw [serve, Plugin.operate_eq]
  have href' : (s.serve request).plugin.apiRef = s.plugin.apiRef := by
    rw [serve, Plugin.operate_eq, ← href]
  have htables : (s.serve request).plugin.main.tables = s.plugin.main.tables := by
    rw [hmain', hmain]
  -- between two requests every store has reached the main struct
  have hquiet : ∀ w i, s.plugin.main.tables w i = Plugin.cellOf s.plugin.api.ctx.tables w i :=
    fun w i => h.synced w i (by simp [hstores])
  have hcount : s.plugin.apiRef.count = cur.length := h.count (by simp [hstores])
  have hmadeFor : ∀ t < s.plugin.heap.next, (s.serve request).madeFor t = s.madeFor t :=
    fun t ht => if_pos ht
  have hmem : cur' ∈ (s.serve request).versions := by
    have hversion : (List.range (s.serve request).plugin.api.ruleSet.count).map
        (RuleWrite.applyAll s.rules (s.serve request).writes) = cur' := by
      rw [hmemory]
      exact version_eq cur' (by rw [hrules.count, List.length_map])
    exact List.mem_append_right _ (List.mem_singleton.mpr hversion.symm)
  have hextends : request.isDel = false ∨
      ((s.serve request).writes = [] ∧ (s.serve request).stores = []) →
      s.Extends cur (s.serve request) cur' := by
    intro hgo
    obtain ⟨hfirst, huntouched⟩ := hgrows hgo
    exact
      { versions := fun _ hv => List.mem_append_left _ hv
        isPrefix := hfirst
        untouched := fun version hv write hwrite =>
          hv.isPrefix.length_le.trans (huntouched write hwrite)
        next_le := hnext
        madeFor := hmadeFor }
  exact
    { sound := hsound
      rules := hrules
      memory := hmemory
      mem := hmem
      nil_mem := List.mem_append_left _ h.nil_mem
      source := by
        rw [hmain', hsource]
        exact h.source
      published := by
        intro hdel
        have hext := hextends (Or.inl hdel)
        refine ⟨cur, hext.readable ⟨h.mem, List.prefix_rfl, fun write hwrite => ?_⟩, ?_⟩
        · rw [hwrites] at hwrite
          cases hwrite
        · rw [href', hcount]
      count := by
        intro hnot
        rcases hpublished with ⟨-, rfl⟩ | hin
        · rw [href', hcount]
        · exact absurd hin hnot
      made := hmade
      old := by
        intro w i t ht
        rw [htables] at ht
        exact Nat.lt_of_lt_of_le (h.old w i t ht) hnext
      synced := by
        intro w i hnot
        rw [htables, hquiet, hcells w i hnot]
      tables := by
        intro hdel w i t ht
        rw [htables] at ht
        have hlt := h.old w i t ht
        rw [hquiet] at ht
        exact ((hextends (Or.inl hdel)).row ⟨hlt, (h.cell_made ht).2⟩).2
      alone := halone
      workers := by
        intro w
        by_cases hgo : request.isDel = false ∨
            ((s.serve request).writes = [] ∧ (s.serve request).stores = [])
        · exact (hextends hgo).stageOk (h.workers w)
        · -- a rule is being deleted, so no frame is under way
          rw [not_or, Bool.not_eq_false, not_and_or] at hgo
          have hidle := halone hgo.1 hgo.2 w
          show (s.serve request).StageOk cur' (s.workers w)
          rw [hidle]
          trivial
      counted := h.counted }

/-- The cells that are not stored are those of no worker or no rule. -/
theorem cell_of_not_mem {q : Plugin} {es es' : List RuleEntry} {st : ApiState} {walk : List MainStep}
    (h : q.api.Aligned es) (h' : st.Aligned es') (hnw : st.nw = q.api.nw) {w i : ℕ}
    (hnot : MainStep.cell w i ∉ Plugin.publishSteps st.nw ++ walk) :
    Plugin.cellOf st.ctx.tables w i = Plugin.cellOf q.api.ctx.tables w i := by
  rw [Plugin.cellOf, Plugin.cellOf]
  by_cases hi : i < flowRuleSetMax
  · have hw : st.nw ≤ w := by
      by_contra hlt
      have hi' : i < maxActiveFlowRules := Nat.lt_of_lt_of_le hi (by decide)
      refine hnot (List.mem_append_left _ (List.mem_append_right _ (List.mem_flatMap.mpr ?_)))
      exact ⟨w, List.mem_range.mpr (Nat.lt_of_not_le hlt),
        List.mem_map.mpr ⟨i, List.mem_range.mpr hi', rfl⟩⟩
    rw [if_pos hi, if_pos hi, h'.row_of_ge hw, h.row_of_ge (hnw ▸ hw)]
  · rw [if_neg hi, if_neg hi]

/-- What the cases of a request start from: the context is set up, and its tables are those of the
current rules. -/
structure Taken (s : Attribution) (cur : List MarkedRule) (request : Plugin.Request) (q : Plugin)
    (es : List RuleEntry) : Prop where
  eq : s.plugin.apiCtxEnsure request.env.memory = q
  sound : q.Sound es
  rules : q.api.ruleSet.Holds (cur.map MarkedRule.rule)
  length_eq : es.length = cur.length
  memory : s.rules = ofList .zero cur
  next : q.heap.next = s.plugin.heap.next
  tables : q.api.ctx.tables = s.plugin.api.ctx.tables
  hasRule : ∀ id, q.HasRule id ↔ s.plugin.HasRule id
  made : ∀ w i t, q.api.ctx.tables w i = some t → t < q.heap.next ∧ cur[i]? = some (s.madeFor t)

/-- A request that is taken up has a sound plugin to work on. -/
theorem Current.taken (h : s.Current cur) (hwrites : s.writes = []) (request : Plugin.Request) :
    ∃ es, s.Taken cur request (s.plugin.apiCtxEnsure request.env.memory) es := by
  obtain ⟨es, hs⟩ := h.sound
  have hq := hs.ensure request.env.memory
  obtain ⟨-, hctx, hheap⟩ := hs.ensure_tables request.env.memory
  have hlist : cur.map MarkedRule.rule = es.map RuleEntry.rule := h.rules.eq hs.aligned.rules
  have hmemory := h.memory
  rw [hwrites] at hmemory
  refine ⟨es, ⟨rfl, hq, hlist ▸ hq.aligned.rules, ?_, hmemory, by rw [hheap], hctx,
    hs.ensure_hasRule request.env.memory, fun w i t ht => ?_⟩⟩
  · rw [← List.length_map RuleEntry.rule, ← hlist, List.length_map]
  · exact ⟨(hq.aligned.owning.made w i t ht).1, h.made w i t (hctx ▸ ht)⟩

namespace Taken

variable {request : Plugin.Request} {q : Plugin} {es : List RuleEntry}

/-- The API's state is what the request leaves. -/
theorem api_eq (h : s.Taken cur request q es) :
    (s.serve request).plugin.api = (q.outcome request).2 := by
  show (s.plugin.operate request).1.api = _
  rw [Plugin.operate_eq, h.eq]

/-- A success publishes, and the request walks through its tables. -/
theorem stores_eq (h : s.Taken cur request q es) : (s.serve request).stores =
    (if (q.outcome request).1 = .ok then Plugin.publishSteps (q.outcome request).2.nw else []) ++
      q.walk request := by
  show (s.plugin.operate request).2 = _
  rw [Plugin.operate_eq, h.eq]

/-- The assignments to the array of rules are those of the request. -/
theorem writes_eq (h : s.Taken cur request q es) :
    (s.serve request).writes = q.ruleWrites (s.requests + 1) request := by
  show (s.plugin.apiCtxEnsure request.env.memory).ruleWrites _ _ = _
  rw [h.eq]

/-- What was there stays recorded. -/
theorem madeFor_of_lt (h : s.Taken cur request q es) {t : ℕ} (ht : t < q.heap.next) :
    (s.serve request).madeFor t = s.madeFor t := if_pos (h.next ▸ ht)

/-- New tables are recorded for the rule of the request. -/
theorem madeFor_of_ge (h : s.Taken cur request q es) {t : ℕ} (ht : q.heap.next ≤ t) :
    (s.serve request).madeFor t = q.tablesFor s.rules (s.requests + 1) request := by
  rw [← h.eq]
  exact if_neg (Nat.not_lt.mpr (h.next ▸ ht))

/-- A table of before was made for the rule at its index. -/
theorem made_served (h : s.Taken cur request q es) {w i t : ℕ}
    (ht : q.api.ctx.tables w i = some t) : cur[i]? = some ((s.serve request).madeFor t) := by
  obtain ⟨hlt, hget⟩ := h.made w i t ht
  rw [h.madeFor_of_lt hlt, hget]

end Taken

/-- A request that fails keeps the current rules. -/
theorem Current.failed (h : s.Current cur) (hwrites : s.writes = []) (hstores : s.stores = [])
    {request : Plugin.Request} {q : Plugin} {es : List RuleEntry} (ht : s.Taken cur request q es)
    (hne : (q.outcome request).1 ≠ .ok) {heap : Heap} (hundone : q.heap.Undone heap)
    (hout : (q.outcome request).2 = { q.api with heap := heap }) :
    (s.serve request).Current cur := by
  obtain ⟨hmem, hplaces, hnone⟩ := ruleWrites_failed ht.sound ht.rules (s.requests + 1) hne
  have hapi := ht.api_eq
  have hstores' := ht.stores_eq
  rw [hout] at hapi
  rw [if_neg hne, Plugin.walk_failed hne] at hstores'
  refine h.served hwrites hstores (Plugin.sound_operate h.sound.choose_spec request) ?_ ?_ ?_ ?_
    (Or.inl ⟨hstores', rfl⟩) ?_ ?_ ?_
  · rw [hapi]
    exact ht.rules
  · rw [ht.writes_eq, ht.memory, hmem]
  · rw [hapi]
    exact fun w i t htable => ht.made_served htable
  · show s.plugin.heap.next ≤ (s.serve request).plugin.api.heap.next
    rw [hapi, ← ht.next]
    exact hundone.next_le
  · intro w i _
    rw [hapi, ht.tables]
  · intro _
    rw [ht.writes_eq]
    exact ⟨List.prefix_rfl, hplaces⟩
  · intro hisDel hgo
    rcases hgo with hgo | hgo
    · exact absurd (ht.writes_eq.trans (hnone hisDel)) hgo
    · exact absurd hstores' hgo

/-- The stores behind a successful operation begin with the publication. -/
theorem refCount_mem (nw : ℕ) (walk : List MainStep) :
    MainStep.refCount ∈ Plugin.publishSteps nw ++ walk := by
  simp [Plugin.publishSteps]

/-- What has to be known of a request that succeeds, which publishes what it has changed. -/
theorem Current.succeeded (h : s.Current cur) (hwrites : s.writes = []) (hstores : s.stores = [])
    {request : Plugin.Request} {q : Plugin} {es es' : List RuleEntry} {st : ApiState}
    (ht : s.Taken cur request q es) (hok : (q.outcome request).1 = .ok)
    (hout : (q.outcome request).2 = st) (hal : st.Aligned es') (hnw : st.nw = q.api.nw)
    (hnext : q.heap.next ≤ st.heap.next)
    (hrules : st.ruleSet.Holds (cur'.map MarkedRule.rule))
    (hmemory : RuleWrite.applyAll s.rules (s.serve request).writes = ofList .zero cur')
    (hmade : ∀ w i t, st.ctx.tables w i = some t → cur'[i]? = some ((s.serve request).madeFor t))
    (hgrows : request.isDel = false →
      cur <+: cur' ∧ ∀ write ∈ (s.serve request).writes, cur.length ≤ write.place)
    (halone : request.isDel = true → ∀ w, s.workers w = .idle) : (s.serve request).Current cur' := by
  have hapi := ht.api_eq
  have hstores' := ht.stores_eq
  rw [if_pos hok, hout] at hstores'
  rw [hout] at hapi
  have hpublished : MainStep.refCount ∈ (s.serve request).stores :=
    hstores' ▸ refCount_mem st.nw (q.walk request)
  refine h.served hwrites hstores (Plugin.sound_operate h.sound.choose_spec request) (hapi ▸ hrules)
    hmemory (hapi ▸ hmade) ?_ (Or.inr hpublished) ?_ ?_ fun hisDel _ => halone hisDel
  · show s.plugin.heap.next ≤ (s.serve request).plugin.api.heap.next
    rwa [hapi, ← ht.next]
  · intro w i hnot
    rw [hstores'] at hnot
    rw [hapi, ← ht.tables]
    exact cell_of_not_mem ht.sound.aligned hal hnw hnot
  · rintro (hno | ⟨-, hnone⟩)
    · exact hgrows hno
    · rw [hnone] at hpublished
      cases hpublished

section Changed

variable {q : Plugin} {es es' : List RuleEntry}

/-- A rule that is added stands behind the current ones. -/
theorem Current.added (h : s.Current cur) (hwrites : s.writes = []) (hstores : s.stores = [])
    {env : ApiEnv} {mp : FlowRuleAddMsg} (ht : s.Taken cur (.flowRuleAdd env mp) q es)
    {set : FlowRuleSet} {sa : Tables × Heap} (hready : q.ready = true)
    (hset : set.Holds (es.map RuleEntry.rule ++ [(Plugin.messageRule mp).register]))
    (hs : Added q.api.ctx.tables q.api.heap es.length (Plugin.messageRule mp).register q.api.nw sa)
    (hok : (q.outcome (.flowRuleAdd env mp)).1 = .ok) {ids : ℕ → FlowRuleId} {st : ApiState}
    (hst : st = { q.api with
      ctx := { q.api.ctx with tables := sa.1, flowRuleIds := ids }, ruleSet := set, heap := sa.2 })
    (hout : (q.outcome (.flowRuleAdd env mp)).2 = st) (hal : st.Aligned es') :
    (s.serve (.flowRuleAdd env mp)).Current
      (cur ++ [⟨(Plugin.messageRule mp).register, s.requests + 1⟩]) := by
  have hadd : (q.api.ruleSet.add (Plugin.messageRule mp)).1 = .ok := by
    rw [Plugin.outcome, if_pos hready] at hok
    exact ApiState.add_ok_of_flowRuleAdd_ok hok
  have hput : (s.serve (.flowRuleAdd env mp)).writes =
      [.put cur.length ⟨(Plugin.messageRule mp).register, s.requests + 1⟩] := by
    rw [ht.writes_eq, Plugin.ruleWrites, if_pos ⟨hready, hadd⟩, if_pos hok, List.append_nil,
      FlowRuleSet.addWrites, if_pos hadd, ht.rules.count, List.length_map]
  subst hst
  refine h.succeeded hwrites hstores ht hok hout hal rfl ?_ ?_ ?_ ?_ ?_ fun hisDel => by cases hisDel
  · have hnew := hs.next
    show q.api.heap.next ≤ sa.2.next
    omega
  · rw [List.map_append, ht.rules.eq ht.sound.aligned.rules]
    exact hset
  · rw [hput, ht.memory, ofList_concat]
    rfl
  · intro w i t htable
    change sa.1 w i = some t at htable
    rw [hs.tables_eq] at htable
    dsimp only at htable
    split at htable
    · -- a table of the new rule
      rename_i hwi
      obtain rfl := Option.some.inj htable
      have hge : q.heap.next ≤ q.api.heap.next + w := Nat.le_add_right _ _
      rw [hwi.2, ht.length_eq, ht.madeFor_of_ge hge]
      exact List.getElem?_concat_length
    · exact getElem?_of_prefix (List.prefix_append _ _) (ht.made_served htable)
  · -- the only write is behind the rules that there are
    intro _
    rw [hput]
    refine ⟨List.prefix_append _ _, fun write hwrite => ?_⟩
    obtain rfl := List.mem_singleton.mp hwrite
    exact Nat.le_refl _

/-- A rule that is deleted is taken out, while every worker is idle. -/
theorem Current.deleted (h : s.Current cur) (hwrites : s.writes = []) (hstores : s.stores = [])
    {env : ApiEnv} {id : FlowRuleId} (ht : s.Taken cur (.flowRuleDel env id) q es) {i : ℕ}
    (hi : i < es.length) {set : FlowRuleSet} (hid : es[i].id = id) (hzero : id.isZero = false)
    (hname : q.nameOfId id = some es[i].rule.name)
    (hset : set.Holds ((es.map RuleEntry.rule).eraseIdx i))
    (hok : (q.outcome (.flowRuleDel env id)).1 = .ok)
    (hout : (q.outcome (.flowRuleDel env id)).2 = q.api.without i set)
    (hal : (q.api.without i set).Aligned es')
    (hidle : s.plugin.HasRule id → ∀ w, s.workers w = .idle) :
    (s.serve (.flowRuleDel env id)).Current (cur.eraseIdx i) := by
  have hfind : q.api.ruleSet.indexOf es[i].rule.name = some i := by
    rw [ht.sound.aligned.rules.indexOf_eq_some_iff]
    exact ⟨by simpa using hi, by simp⟩
  have hrm : (s.serve (.flowRuleDel env id)).writes = q.api.ruleSet.rmWrites es[i].rule.name := by
    rw [ht.writes_eq]
    simp only [Plugin.ruleWrites, hzero, hname, Bool.false_eq_true, if_false]
  refine h.succeeded hwrites hstores ht hok hout hal rfl (Nat.le_refl _) ?_ ?_ ?_ ?_ fun _ => ?_
  · rw [← List.eraseIdx_map, ht.rules.eq ht.sound.aligned.rules]
    exact hset
  · rw [hrm, ht.memory]
    refine FlowRuleSet.applyAll_rmWrites ?_ hfind (ht.length_eq ▸ hi)
    rw [ht.rules.count, List.length_map]
  · -- the tables behind the deleted rule have moved up with their rules
    intro w j t htable
    have hget := ht.made_served (w := w) (i := skip i j) htable
    rw [List.getElem?_eraseIdx]
    rw [skip] at hget
    split
    · rename_i hlt
      rwa [if_pos hlt] at hget
    · rename_i hlt
      rwa [if_neg hlt] at hget
  · exact fun hno => by cases hno
  · refine hidle ((ht.hasRule id).mp ?_)
    exact ht.sound.hasRule_iff.mpr ⟨_, List.getElem_mem hi, hid⟩

/-- A snapshot writes no rule, and the new tables are made for the rule of the old ones. -/
theorem Current.swapped (h : s.Current cur) (hwrites : s.writes = []) (hstores : s.stores = [])
    {request : Plugin.Request} (ht : s.Taken cur request q es) {env : ApiEnv} {id : FlowRuleId}
    {i : ℕ} (hi : i < es.length) {out : SnapOutcome} {new : ℕ → Option ℕ} {r : ℕ}
    (hrequest : request.snapshot? = some (env, id)) (hid : es[i].id = id)
    (hfirst : ∀ j (hj : j < es.length), j < i → es[j].id ≠ id)
    (hs : Snapped q.api.mgr q.api.ctx.tables q.api.heap q.api.nw i es[i].rule.keyWidth env.now out
      new r)
    (hok : (q.outcome request).1 = .ok) (hout : (q.outcome request).2 = q.api.swapped out)
    (hal : (q.api.swapped out).Aligned es') : (s.serve request).Current cur := by
  have hi' : i < cur.length := ht.length_eq ▸ hi
  have hfind : q.api.findRuleIndexById id = some i :=
    ht.sound.aligned.arranged.findRuleIndexById_eq_some_iff.mpr
      ⟨hi, hid, fun j hji => hfirst j (hji.trans hi) hji⟩
  -- both snapshot requests write no rule, and make the tables for the rule with the id
  have hnone : request.isDel = false ∧ (s.serve request).writes = [] ∧
      q.tablesFor s.rules (s.requests + 1) request = cur[i] := by
    have hrule : s.rules i = cur[i] := by rw [ht.memory, ofList_of_lt hi']
    rw [ht.writes_eq]
    cases request with
    | snapshotAndClear env id =>
      obtain ⟨rfl, rfl⟩ := Prod.mk.inj (Option.some.inj hrequest)
      refine ⟨rfl, rfl, ?_⟩
      rw [Plugin.tablesFor, hfind]
      exact hrule
    | snapshotInlineDump env id =>
      obtain ⟨rfl, rfl⟩ := Prod.mk.inj (Option.some.inj hrequest)
      refine ⟨rfl, rfl, ?_⟩
      rw [Plugin.tablesFor, hfind]
      exact hrule
    | _ => cases hrequest
  obtain ⟨hisDel, hnil, hrule⟩ := hnone
  refine h.succeeded hwrites hstores ht hok hout hal rfl hs.next_le ht.rules ?_ ?_ ?_ ?_
  · rw [hnil]
    exact ht.memory
  · intro w j t htable
    change out.tables w j = some t at htable
    rw [hs.tables_eq] at htable
    split at htable
    · -- a new table of the rule
      rename_i hwj
      obtain ⟨hge, -⟩ := hs.new_table w t htable
      rw [hwj.2, ht.madeFor_of_ge hge, hrule, List.getElem?_eq_getElem hi']
    · exact ht.made_served htable
  · intro _
    rw [hnil]
    exact ⟨List.prefix_rfl, fun _ hw => absurd hw List.not_mem_nil⟩
  · intro hdel
    rw [hisDel] at hdel
    cases hdel

end Changed

/-- A request that succeeds makes other rules the current ones. -/
theorem Current.changed (h : s.Current cur) (hwrites : s.writes = []) (hstores : s.stores = [])
    {request : Plugin.Request} {q : Plugin} {es es' : List RuleEntry} {st : ApiState}
    (ht : s.Taken cur request q es) (hok : (q.outcome request).1 = .ok)
    (hout : (q.outcome request).2 = st) (hal : st.Aligned es')
    (hchanged : Plugin.Changed q es request st es')
    (hdel : ∀ env id, request = .flowRuleDel env id → id.isZero = false → s.plugin.HasRule id →
      ∀ w, s.workers w = .idle) : ∃ cur', (s.serve request).Current cur' := by
  cases hchanged with
  | added env mp set sa hready hset hs =>
    exact ⟨_, h.added hwrites hstores ht hready hset hs hok rfl hout hal⟩
  | deleted env id i hi set hid hzero hname hset =>
    exact ⟨_, h.deleted hwrites hstores ht hi hid hzero hname hset hok hout hal
      (hdel env id rfl hzero)⟩
  | swapped request env id i hi out new r hrequest hid hfirst hs =>
    exact ⟨_, h.swapped hwrites hstores ht hi hrequest hid hfirst hs hok hout hal⟩

/-- The main thread takes up a request: the rules that it leaves are the current ones. -/
theorem Current.request (h : s.Current cur) (hwrites : s.writes = []) (hstores : s.stores = [])
    (request : Plugin.Request)
    (hdel : ∀ env id, request = .flowRuleDel env id → id.isZero = false → s.plugin.HasRule id →
      ∀ w, s.workers w = .idle) : ∃ cur', (s.serve request).Current cur' := by
  obtain ⟨es, ht⟩ := h.taken hwrites request
  rcases Plugin.outcome_cases ht.sound request with
    ⟨hne, heap, hundone, hout⟩ | ⟨hok, es', hchanged, hal⟩
  · exact ⟨cur, h.failed hwrites hstores ht hne hundone hout⟩
  · exact h.changed hwrites hstores ht hok rfl hal hchanged hdel

end Attribution

end InFMon
