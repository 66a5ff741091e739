import InFMon.Plugin.Cli
import InFMon.Plugin.Outcome
import InFMon.Plugin.SnapshotBudget

/-! # What operations need

A request of the binary API or a command of the debug CLI changes something only if the rule set takes
its rule, or the rule it names is there, and if there is memory for the tables and room in the ring. -/

namespace InFMon

open CountedLoop DenseArray

namespace Plugin

/-! ### When an operation changes what is served -/

/-- What a request needs to succeed, in the state behind the set-up of the context. -/
def Admits (q : Plugin) : Request → Prop
  | .flowRuleAdd env mp => q.ready = true ∧ q.api.ruleSet.Takes (messageRule mp) ∧
      ∀ w < q.api.nw, (env.allocs w).ok = true
  | .flowRuleDel _ id => id.isZero = false ∧ q.HasRule id
  | .snapshotAndClear env id | .snapshotInlineDump env id => id.isZero = false ∧ q.HasRule id ∧
      q.api.mgr.retiredCount < maxRetired ∧ ∀ w < q.api.nw, (env.allocs w).ok = true

/-- The CLI's rule set takes the rule of the command. -/
def CliAdmits (p : Plugin) (memory : Bool) (args : CliArgs) : Prop :=
  ∃ spec set, cliRule args = .ok spec ∧ p.cliSetEnsure memory = some set ∧ set.Takes spec

/-- Memory for every table. -/
def plenty : ℕ → Alloc := fun _ => ⟨true, fun _ => 0⟩

/-! ### What a successful request had -/

variable {p q : Plugin} {es : List RuleEntry}

/-- A table that was created had memory. -/
theorem addTable_alloc {idx w : ℕ} {inserted : FlowRule} {allocs : ℕ → Alloc} {s s' : Tables × Heap}
    (h : addTable idx inserted allocs w s = .ok s') : (allocs w).ok = true := by
  rw [addTable] at h
  split at h
  · cases h
  · rename_i id heap hcreate
    obtain ⟨-, t, ht, -⟩ := Heap.create_some (by rw [hcreate])
    exact counterTableCreate_alloc ht

/-- What a successful addition needs. -/
theorem flowRuleAdd_needs {st : ApiState} {rule : FlowRule} {id : Option FlowRuleId}
    {allocs : ℕ → Alloc} (h : (st.flowRuleAdd rule id allocs).1 = .ok) :
    st.ruleSet.Takes rule ∧ ∀ w < st.nw, (allocs w).ok = true := by
  have hadd := ApiState.add_ok_of_flowRuleAdd_ok h
  refine ⟨(st.ruleSet.add_ok_iff rule).mp hadd, fun w hw => ?_⟩
  rw [ApiState.flowRuleAdd] at h
  split at h
  · dsimp only at h
    split at h
    · cases h
    split at h
    · cases h
    split at h
    · cases h
    -- the loop over the workers has come to its end, so it has passed worker `w`
    · rename_i hloop
      obtain ⟨s₁, s₂, hpass⟩ := forUpToExcept_passes hloop w hw
      exact addTable_alloc hpass
  · rename_i hrefused heq
    rw [heq] at hadd
    exact (hrefused hadd).elim

/-- What a successful swap needs. -/
theorem snapshotAndClear_needs {mgr : SnapshotMgr} {tables : Tables} {heap : Heap}
    {numWorkers idx maxRules width : ℕ} {allocs : ℕ → Alloc} {now : UInt64}
    (h : (InFMon.snapshotAndClear mgr tables heap numWorkers idx maxRules width allocs
      now).reply.result = .ok) :
    mgr.retiredCount < maxRetired ∧ ∀ w < workersServed numWorkers, ∀ old, tables w idx = some old →
      (allocs w).ok = true := by
  rw [InFMon.snapshotAndClear] at h
  split at h
  · cases h
  dsimp only at h
  split at h
  · cases h
  split at h
  · cases h
  rename_i hroom
  refine ⟨Nat.lt_of_not_le hroom, fun w hw old hold => ?_⟩
  split at h
  · cases h
  rename_i hloop
  obtain ⟨p₁, p₂, hpass⟩ := forUpToExcept_passes hloop w hw
  -- the round of this worker has replaced the old table by a new one
  rw [allocStep, hold] at hpass
  dsimp only at hpass
  split at hpass
  · cases hpass
  · rename_i hcreate
    obtain ⟨-, t, ht, -⟩ := Heap.create_some (by rw [hcreate])
    exact counterTableCreate_alloc ht

/-- The name that a deletion looks up belongs to a rule with the id. -/
theorem hasRule_of_nameOfId {id : FlowRuleId} {name : List UInt8}
    (hname : q.nameOfId id = some name) : q.HasRule id := by
  unfold nameOfId at hname
  split at hname
  · cases hname
  · rename_i i hfind
    have hid := List.find?_some hfind
    by_cases hi : i < q.api.ruleSet.count
    · exact ⟨i, hi, by simpa [FlowRuleId.eq, FlowRuleId.ext_iff] using hid⟩
    · rw [FlowRuleSet.get, if_pos (Nat.le_of_not_lt hi)] at hname
      cases hname

/-- What a successful snapshot had: the id of a rule, a place in the ring and memory. -/
theorem admits_of_snapshot (h : q.api.Arranged es) (hserved : ∀ e ∈ es, e.Served q.heap q.api.nw)
    {env : ApiEnv} {id : FlowRuleId}
    (hok : (q.api.snapshotAndClear id env.allocs env.now).1.result = .ok) :
    id.isZero = false ∧ q.HasRule id ∧ q.api.mgr.retiredCount < maxRetired ∧
      ∀ w < q.api.nw, (env.allocs w).ok = true := by
  unfold ApiState.snapshotAndClear at hok
  split at hok
  · cases hok
  split at hok
  · cases hok
  rename_i hzero
  split at hok
  · cases hok
  rename_i i hfind
  obtain ⟨hi, hid, -⟩ := h.findRuleIndexById_eq_some_iff.mp hfind
  split at hok
  · cases hok
  split at hok
  · cases hok
  dsimp only at hok
  split at hok
  · rename_i herr
    exact absurd hok (fun hok => herr (ApiState.mapSnapResult_eq_ok_iff.mp hok))
  · -- the manager has swapped the tables, and every worker has one
    rename_i hswap
    rw [not_not] at hswap
    obtain ⟨hroom, hallocs⟩ := snapshotAndClear_needs hswap
    refine ⟨by simpa using hzero, ⟨i, h.count_eq ▸ hi, (h.id_eq hi).trans hid⟩, hroom,
      fun w hw => ?_⟩
    obtain ⟨old, hold⟩ := (hserved _ (List.getElem_mem hi)).exists_table hw
    refine hallocs w ?_ old ?_
    · rwa [workersServed, if_pos q.api.nw_pos]
    · rw [h.tables, ofList_of_lt (by simpa using hi), List.getElem_map, hold]

/-- An operation that succeeds had what it needed. -/
theorem admits_of_outcome (h : q.api.Arranged es) (hserved : ∀ e ∈ es, e.Served q.heap q.api.nw)
    {request : Request} (hok : (q.outcome request).1 = .ok) : q.Admits request := by
  cases request with
  | flowRuleAdd env mp =>
    rw [outcome] at hok
    split at hok
    · rename_i hready
      -- the set was there, it took the rule, and every worker had memory
      obtain ⟨htakes, hallocs⟩ := flowRuleAdd_needs hok
      exact ⟨hready, htakes, hallocs⟩
    · cases hok
  | flowRuleDel env id =>
    rw [outcome] at hok
    split at hok
    · cases hok
    rename_i hzero
    split at hok
    · cases hok
    · rename_i name hname
      exact ⟨by simpa using hzero, hasRule_of_nameOfId hname⟩
  | snapshotAndClear env id => exact admits_of_snapshot h hserved hok
  | snapshotInlineDump env id => exact admits_of_snapshot h hserved hok

/-! ### What a command does -/

/-- A command gives the CLI's rule set one rule more, or leaves its rules and everything else. -/
theorem cliFlowRuleAdd_cases {rs : List FlowRule} (h : (p.rulesOf .cli).Holds rs) (memory : Bool)
    (args : CliArgs) (allocs : ℕ → Alloc) :
    (¬ p.CliAdmits memory args ∧ ∃ cliRuleSet : Option FlowRuleSet,
      (cliRuleSet.getD noRules).Holds rs ∧
      (p.cliFlowRuleAdd memory args allocs).2 = { p with cliRuleSet := cliRuleSet }) ∨
    ∃ (spec : FlowRule) (old set : FlowRuleSet), cliRule args = .ok spec ∧
      p.cliSetEnsure memory = some old ∧ old.Holds rs ∧ old.Takes spec ∧
      set.Holds (rs ++ [spec.register]) ∧
      (p.cliFlowRuleAdd memory args allocs).2 =
        (({ p with cliRuleSet := some set }).cliCreateTables set allocs).cliPublishRules set := by
  have hsame : ∃ cliRuleSet : Option FlowRuleSet, (cliRuleSet.getD noRules).Holds rs ∧
      p = { p with cliRuleSet := cliRuleSet } := ⟨p.cliRuleSet, h, rfl⟩
  have hensure : ∀ set, p.cliSetEnsure memory = some set → set.Holds rs := by
    intro set hset
    unfold cliSetEnsure at hset
    rw [rulesOf] at h
    split at hset
    · rename_i heq
      rw [heq] at h
      exact Option.some.inj hset ▸ h
    · rename_i heq
      rw [heq] at h
      -- without a rule set there are no rules yet
      obtain rfl : rs = [] := List.length_eq_zero_iff.mp h.count.symm
      exact .of_create (Option.ite_none_right_eq_some.mp hset).2
  unfold cliFlowRuleAdd CliAdmits
  cases hspec : cliRule args with
  | error e =>
    refine Or.inl ⟨?_, hsame⟩
    rintro ⟨_, _, hok, -⟩
    cases hok
  | ok spec =>
    dsimp only
    cases hset : p.cliSetEnsure memory with
    | none =>
      refine Or.inl ⟨?_, hsame⟩
      rintro ⟨_, _, -, hsome, -⟩
      cases hsome
    | some set =>
      dsimp only
      rcases (hensure set hset).add spec with ⟨hok, hholds, -⟩ | ⟨hne, hsame⟩
      · obtain ⟨set', hadd⟩ : ∃ set', set.add spec = (.ok, set') := ⟨_, Prod.ext hok rfl⟩
        rw [hadd] at hholds ⊢
        exact Or.inr ⟨spec, set, set', rfl, rfl, hensure set hset, (set.add_ok_iff spec).mp hok,
          hholds, rfl⟩
      · refine Or.inl ⟨?_, some set, hensure set hset, ?_⟩
        · rintro ⟨_, _, hok, hsome, htakes⟩
          cases hok
          cases hsome
          exact hne ((set.add_ok_iff spec).mpr htakes)
        · split
          · rename_i hadd
            exact absurd (congrArg Prod.fst hadd) hne
          · rename_i hadd
            rw [← hsame, hadd]

/-- The arena of a table for a registered rule is far from its limit. -/
theorem arena_le {rule : FlowRule} (h : rule.Registered) :
    nextPow2 rule.maxKeys * rule.keyWidth ≤ MachineWord.max32 :=
  h.capacity_le.trans (by decide)

/-- A table for a registered rule is refused for want of memory only. -/
theorem addTable_error {idx w : ℕ} {inserted : FlowRule} (hreg : inserted.Registered)
    {allocs : ℕ → Alloc} {s e : Tables × Heap} (h : addTable idx inserted allocs w s = .error e) :
    (allocs w).ok = false := by
  by_contra hok
  rw [Bool.not_eq_false] at hok
  have hsome := counterTableCreate_isSome hreg.maxKeys_pos
    (hreg.maxKeys_le.trans (by decide)) hreg.keyWidth_pos (arena_le hreg) hok
  obtain ⟨t, ht⟩ := Option.isSome_iff_exists.mp hsome
  rw [addTable, Heap.create, ht] at h
  cases h

/-- With memory for all of them, the tables of the newest rule are created. -/
theorem cliCreateTables_eq {rs : List FlowRule} {rule : FlowRule} {set : FlowRuleSet}
    (hset : set.Holds (rs ++ [rule])) {allocs : ℕ → Alloc}
    (hallocs : ∀ w < p.cliWorkers, (allocs w).ok = true) :
    ∃ s, Added p.main.tables p.heap rs.length rule p.cliWorkers s ∧
      p.cliCreateTables set allocs =
        { p with
          main := { p.main with tables := s.1 }
          api := { p.api with heap := s.2 } } := by
  have hcount : set.count - 1 = rs.length := by
    rw [hset.count, List.length_append, List.length_singleton, Nat.add_sub_cancel]
  have hget : set.get rs.length = some rule := by
    rw [hset.get_eq (by simp)]
    simp
  have hreg := hset.registered rule (by simp)
  unfold cliCreateTables
  rw [hcount, hget]
  dsimp only
  have hlt : rs.length < maxActiveFlowRules := by
    have := hset.length_le
    simp only [List.length_append, List.length_singleton, flowRuleSetMax] at this
    exact Nat.lt_of_lt_of_le this (by decide)
  rw [if_pos hlt]
  -- the loop adds one table for each worker; it could stop only for want of memory
  rcases forUpToExcept_induct (Added p.main.tables p.heap rs.length rule)
    (f := addTable rs.length rule allocs) (n := p.cliWorkers) (Added.start _ _ _ _)
    (fun w _ s s' hs hstep => hs.step hstep) with ⟨s, hloop, hadded⟩ | ⟨e, hloop, w, hw, s, -, hstep⟩
  · rw [hloop]
    exact ⟨s, hadded, rfl⟩
  · have hok := hallocs w hw
    rw [addTable_error hreg hstep] at hok
    cases hok

end Plugin

end InFMon
