import InFMon.Plugin.Admission
import InFMon.Plugin.RuleDescription

/-! # The two front doors

The debug CLI and the binary API have a rule set each. Along every run both sets hold lists under the
full budget, so that each door's answer to a description depends on the list, the description and the
memory only, and it can be said when the two answers are the same. -/

namespace InFMon

open CountedLoop

/-! ### Lists that take a rule -/

/-- A set with the full budget that holds the list takes the rule. -/
structure FlowRule.FitsIn (rule : FlowRule) (rs : List FlowRule) : Prop where
  valid : flowRuleValidate rule = .ok
  place : rs.length < flowRuleSetMax
  name : rule.name ∉ rs.map FlowRule.name
  keys : (rs.map FlowRule.maxKeys).sum + rule.maxKeys ≤ flowRuleMaxKeysBudget

namespace FlowRuleSet

/-- The set holds the list under the full budget. -/
structure HoldsAll (set : FlowRuleSet) (rs : List FlowRule) : Prop extends set.Holds rs where
  budget_eq : set.maxKeysBudget = flowRuleMaxKeysBudget

variable {set : FlowRuleSet} {rs : List FlowRule}

/-- A rule set takes the rules that fit in. -/
theorem HoldsAll.takes_iff (h : set.HoldsAll rs) (rule : FlowRule) :
    set.Takes rule ↔ rule.FitsIn rs := by
  have hname : (set.find rule.name).isSome = false ↔ rule.name ∉ rs.map FlowRule.name := by
    rw [← h.indexOf_eq_none_iff, find, Option.isSome_map, Option.isSome_eq_false_iff,
      Option.isNone_iff_eq_none]
  constructor
  · rintro ⟨hvalid, hplace, hfree, hkeys⟩
    exact ⟨hvalid, h.count ▸ hplace, hname.mp hfree, by rwa [← h.usedKeys, ← h.budget_eq]⟩
  · rintro ⟨hvalid, hplace, hfree, hkeys⟩
    exact ⟨hvalid, by rwa [h.count], hname.mpr hfree, by rwa [h.usedKeys, h.budget_eq]⟩

/-- What `infmon_flow_rule_add` leaves. -/
theorem HoldsAll.add (h : set.HoldsAll rs) (rule : FlowRule) :
    ((set.add rule).1 = .ok ∧ (set.add rule).2.HoldsAll (rs ++ [rule.register])) ∨
      ((set.add rule).1 ≠ .ok ∧ (set.add rule).2 = set) := by
  rcases h.toHolds.add rule with ⟨hok, hholds, hbudget⟩ | hrefused
  · exact Or.inl ⟨hok, hholds, hbudget.trans h.budget_eq⟩
  · exact Or.inr hrefused

/-- A new rule set holds no rules. -/
theorem holdsAll_of_create (h : create flowRuleMaxKeysBudget = some set) : set.HoldsAll [] where
  toHolds := .of_create h
  budget_eq := by
    rw [create, if_neg (Nat.lt_irrefl _)] at h
    cases h
    rfl

/-- There is a rule set with the full budget. -/
theorem exists_create : ∃ set, create flowRuleMaxKeysBudget = some set :=
  ⟨_, if_neg (Nat.lt_irrefl _)⟩

end FlowRuleSet

/-! ### The rule set of the API -/

namespace ApiState

variable {st : ApiState} {rs : List FlowRule}

/-- An addition succeeds for a rule that the set takes when there is memory for its tables. The set
keeps the rule if it succeeds, and is as before if not. -/
theorem flowRuleAdd_ruleSet (h : st.ruleSet.Holds rs) (rule : FlowRule) (id : Option FlowRuleId)
    (allocs : ℕ → Alloc) :
    ((st.flowRuleAdd rule id allocs).1 = .ok ∧ st.ruleSet.Takes rule ∧
      (∀ w < st.nw, (allocs w).ok = true) ∧
      (st.flowRuleAdd rule id allocs).2.ruleSet = (st.ruleSet.add rule).2) ∨
    ((st.flowRuleAdd rule id allocs).1 ≠ .ok ∧
      ¬ (st.ruleSet.Takes rule ∧ ∀ w < st.nw, (allocs w).ok = true) ∧
      (st.flowRuleAdd rule id allocs).2.ruleSet = st.ruleSet) := by
  rcases h.add rule with ⟨hok, hholds, -⟩ | ⟨hne, -⟩
  · obtain ⟨hadd, hundo⟩ := flowRuleAdd_of_added h hok id allocs
    have hreg := hholds.registered rule.register (by simp)
    rcases forUpToExcept_induct (fun _ _ => True) (f := addTable rs.length rule.register allocs)
      (n := st.nw) (s := (st.ctx.tables, st.heap)) trivial (fun _ _ _ _ _ _ => trivial) with
      ⟨s, hloop, -⟩ | ⟨e, hloop, w, hw, s, -, hpass⟩
    · have heq := hadd s hloop
      obtain ⟨htakes, hallocs⟩ := Plugin.flowRuleAdd_needs (congrArg Prod.fst heq)
      exact Or.inl ⟨congrArg Prod.fst heq, htakes, hallocs, by rw [heq]⟩
    · -- a table is missing: the rule is taken out again
      have heq := hundo e hloop
      refine Or.inr ⟨?_, fun hall => ?_, by rw [heq]⟩
      · rw [heq]
        exact ApiResult.noConfusion
      · have hmem := hall.2 w hw
        rw [Plugin.addTable_error hreg hpass] at hmem
        cases hmem
  · refine Or.inr ⟨mt add_ok_of_flowRuleAdd_ok hne,
      fun hall => hne ((st.ruleSet.add_ok_iff rule).mpr hall.1), ?_⟩
    rw [flowRuleAdd_refused hne]

/-- A deletion takes one rule out of the set, or none. -/
theorem flowRuleDel_ruleSet (h : st.ruleSet.Holds rs) (name : List UInt8) :
    (st.flowRuleDel name).2.ruleSet = st.ruleSet ∨
      ∃ i, st.ruleSet.indexOf name = some i ∧
        (st.flowRuleDel name).2.ruleSet = (st.ruleSet.rm name).2 := by
  rw [flowRuleDel]
  split
  · exact Or.inl rfl
  · rename_i i hi
    obtain ⟨hok, -⟩ := h.rm hi
    split
    · rename_i set hrm
      exact Or.inr ⟨i, hi, (congrArg Prod.snd hrm).symm⟩
    · exact Or.inl rfl

/-- A snapshot leaves the rules. -/
theorem snapshotAndClear_ruleSet (id : FlowRuleId) (now : UInt64) :
    (st.snapshotAndClear id allocs now).2.ruleSet = st.ruleSet := by
  unfold snapshotAndClear
  split
  · rfl
  split
  · rfl
  split
  · rfl
  split
  · rfl
  split
  · rfl
  dsimp only
  split
  · rfl
  · rfl

end ApiState

namespace Plugin

/-! ### Both rule sets along a run -/

/-- The API's rule set holds the first list and the CLI's the second. A rule set that is not there yet
holds nothing. -/
structure HoldsRules (p : Plugin) (api cli : List FlowRule) : Prop where
  api : if p.ready then p.api.ruleSet.HoldsAll api else p.api.ruleSet.Holds [] ∧ api = []
  cli : match p.cliRuleSet with
    | some set => set.HoldsAll cli
    | none => cli = []

variable {p : Plugin} {api cli : List FlowRule}

/-- The API holds its rules. -/
theorem HoldsRules.api_holds (h : p.HoldsRules api cli) : p.api.ruleSet.Holds api := by
  have hapi := h.api
  split at hapi
  · exact hapi.toHolds
  · exact hapi.2 ▸ hapi.1

/-- The CLI holds its rules. -/
theorem HoldsRules.cli_holds (h : p.HoldsRules api cli) : (p.rulesOf .cli).Holds cli := by
  have hcli := h.cli
  rw [rulesOf]
  split at hcli
  · rename_i set heq
    rw [heq]
    exact hcli.toHolds
  · rename_i heq
    rw [heq, hcli]
    exact holds_noRules

/-- Setting up the context creates an empty rule set, with memory. -/
theorem HoldsRules.ensure (h : p.HoldsRules api cli) (memory : Bool) :
    (p.apiCtxEnsure memory).HoldsRules api cli ∧
      (p.apiCtxEnsure memory).ready = (p.ready || memory) := by
  have hapi := h.api
  obtain ⟨set, hset⟩ := FlowRuleSet.exists_create
  cases hready : p.ready with
  | true =>
    have heq : p.apiCtxEnsure memory = p := by rw [apiCtxEnsure, if_pos hready]
    rw [heq]
    exact ⟨h, hready⟩
  | false =>
    rw [hready] at hapi
    cases memory with
    | false =>
      have heq : p.apiCtxEnsure false = p := by rw [apiCtxEnsure, hready]; rfl
      rw [heq]
      exact ⟨h, hready⟩
    | true =>
      rw [apiCtxEnsure, hready, if_pos rfl, hset]
      obtain ⟨-, rfl⟩ : _ ∧ api = [] := by simpa using hapi
      exact ⟨⟨FlowRuleSet.holdsAll_of_create hset, h.cli⟩, rfl⟩

/-- The rule set that the CLI works with, if it has one or gets one. -/
theorem HoldsRules.cliSetEnsure (h : p.HoldsRules api cli) (memory : Bool) :
    (p.cliRuleSet.isSome || memory) = true ∧
        (∃ set, p.cliSetEnsure memory = some set ∧ set.HoldsAll cli) ∨
      (p.cliRuleSet.isSome || memory) = false ∧ p.cliSetEnsure memory = none := by
  have hcli := h.cli
  obtain ⟨set, hset⟩ := FlowRuleSet.exists_create
  unfold Plugin.cliSetEnsure
  split at hcli
  · rename_i set' heq
    rw [heq]
    exact Or.inl ⟨rfl, set', rfl, hcli⟩
  · rename_i heq
    rw [heq, hcli]
    cases memory with
    | false => exact Or.inr ⟨rfl, rfl⟩
    | true => exact Or.inl ⟨rfl, set, hset, FlowRuleSet.holdsAll_of_create hset⟩

/-! ### The CLI's answer -/

/-- Neither the tables nor the publication touch a rule set. -/
theorem cliPublishRules_rules (set set' : FlowRuleSet) (allocs : ℕ → Alloc) :
    let q := (p.cliCreateTables set allocs).cliPublishRules set'
    q.api.ruleSet = p.api.ruleSet ∧ q.ready = p.ready ∧ q.cliRuleSet = p.cliRuleSet := by
  dsimp only
  unfold cliCreateTables
  split
  · exact ⟨rfl, rfl, rfl⟩
  split
  · split
    · exact ⟨rfl, rfl, rfl⟩
    · exact ⟨rfl, rfl, rfl⟩
  · exact ⟨rfl, rfl, rfl⟩

/-- The command succeeds for a rule that fits, and the CLI's rule set has it then. -/
theorem cliFlowRuleAdd_answer (h : p.HoldsRules api cli) (memory : Bool) {args : CliArgs}
    {spec : FlowRule} (hspec : cliRule args = .ok spec) (allocs : ℕ → Alloc) :
    let out := p.cliFlowRuleAdd memory args allocs
    (out.1 = .ok () ∧ ((p.cliRuleSet.isSome || memory) = true ∧ spec.FitsIn cli) ∧
      out.2.HoldsRules api (cli ++ [spec.register])) ∨
    (out.1 ≠ .ok () ∧ ¬ ((p.cliRuleSet.isSome || memory) = true ∧ spec.FitsIn cli) ∧
      out.2.HoldsRules api cli) := by
  dsimp only
  unfold cliFlowRuleAdd
  rw [hspec]
  dsimp only
  rcases h.cliSetEnsure memory with ⟨hthere, set, hset, hholds⟩ | ⟨hthere, hset⟩
  · rw [hset]
    dsimp only
    rcases hholds.add spec with ⟨hok, hadded⟩ | ⟨hne, heq⟩
    · -- the publication behind the addition leaves the rule sets
      obtain ⟨set', hadd⟩ : ∃ set', set.add spec = (.ok, set') := ⟨_, Prod.ext hok rfl⟩
      rw [hadd] at hadded ⊢
      obtain ⟨hruleSet, hready, hcli⟩ :=
        cliPublishRules_rules (p := { p with cliRuleSet := some set' }) set' set' allocs
      refine Or.inl ⟨rfl, ⟨hthere, (hholds.takes_iff spec).mp ((set.add_ok_iff spec).mp hok)⟩, ?_, ?_⟩
      · dsimp only
        rw [hready, hruleSet]
        exact h.api
      · dsimp only
        rw [hcli]
        exact hadded
    · -- the rule is refused, and the set is as before
      have hno : ¬ spec.FitsIn cli := fun hfits =>
        hne ((set.add_ok_iff spec).mpr ((hholds.takes_iff spec).mpr hfits))
      refine Or.inr ?_
      split
      · rename_i hadd
        exact absurd (congrArg Prod.fst hadd) hne
      · rename_i hadd
        have hsame := congrArg Prod.snd hadd
        rw [heq] at hsame
        refine ⟨by simp, fun hall => hno hall.2, h.api, ?_⟩
        dsimp only at hsame ⊢
        exact hsame ▸ hholds
  · -- there is no memory for the CLI's rule set
    rw [hset]
    refine Or.inr ⟨by simp, fun hall => ?_, h⟩
    rw [hthere] at hall
    cases hall.1

/-! ### The API's answer -/

/-- Publishing leaves the CLI's rule set. -/
theorem publishIf_cliRuleSet (result : ApiResult) (p : Plugin) :
    (p.publishIf result).cliRuleSet = p.cliRuleSet := by
  unfold publishIf
  split
  · rfl
  · rfl

/-- A request leaves the CLI's rule set. -/
theorem HoldsRules.replaced (h : p.HoldsRules api cli) {q : Plugin} {api' : List FlowRule}
    (hready : q.ready = p.ready) (hcli : q.cliRuleSet = p.cliRuleSet)
    (hapi : if p.ready then q.api.ruleSet.HoldsAll api'
      else q.api.ruleSet.Holds [] ∧ api' = []) : q.HoldsRules api' cli where
  api := hready ▸ hapi
  cli := by
    rw [hcli]
    exact h.cli

/-- What the API needs besides a rule that fits: its rule set, and memory for the tables. -/
def ApiMemory (p : Plugin) (env : ApiEnv) : Prop :=
  (p.ready || env.memory) = true ∧
    ∀ w < (p.apiCtxEnsure env.memory).api.nw, (env.allocs w).ok = true

/-- The request succeeds for a rule that fits when there is memory, and the API's rule set has it
then. -/
theorem flowRuleAddHandler_answer (h : p.HoldsRules api cli) (env : ApiEnv) (mp : FlowRuleAddMsg) :
    let out := p.flowRuleAddHandler env mp
    (out.1.retval = none ∧ (p.ApiMemory env ∧ (messageRule mp).FitsIn api) ∧
      out.2.HoldsRules (api ++ [(messageRule mp).register]) cli) ∨
    (out.1.retval ≠ none ∧ ¬ (p.ApiMemory env ∧ (messageRule mp).FitsIn api) ∧
      out.2.HoldsRules api cli) := by
  dsimp only
  unfold flowRuleAddHandler ApiMemory
  dsimp only
  obtain ⟨hq, hqready⟩ := h.ensure env.memory
  generalize p.apiCtxEnsure env.memory = q at hq hqready
  rw [← hqready]
  have hapi := hq.api
  cases hready : q.ready with
  | false =>
    -- the context could not be set up
    rw [hready] at hapi
    refine Or.inr ⟨by simp [apiResultToRetval], fun hall => by simpa using hall.1.1, ?_⟩
    refine hq.replaced (by simp [hready]) (publishIf_cliRuleSet _ _) ?_
    rw [hready, publishIf_api]
    exact hapi
  | true =>
    rw [hready, if_pos rfl] at hapi
    simp only [if_true]
    rcases ApiState.flowRuleAdd_ruleSet hapi.toHolds (messageRule mp)
      (some (newRuleId env q.idSeq)) env.allocs with ⟨hok, htakes, hmem, hset⟩ | ⟨hne, hno, hset⟩
    · refine Or.inl ⟨apiResultToRetval_eq_none_iff.mpr hok,
        ⟨⟨trivial, hmem⟩, (hapi.takes_iff _).mp htakes⟩,
        hq.replaced (by simp [hready]) (publishIf_cliRuleSet _ _) ?_⟩
      rw [hready, if_pos rfl, publishIf_api, hset]
      rcases hapi.add (messageRule mp) with ⟨-, hadded⟩ | ⟨hne, -⟩
      · exact hadded
      · exact absurd ((q.api.ruleSet.add_ok_iff _).mpr htakes) hne
    · refine Or.inr ⟨fun hnone => hne (apiResultToRetval_eq_none_iff.mp hnone),
        fun hall => hno ⟨(hapi.takes_iff _).mpr hall.2, hall.1.2⟩,
        hq.replaced (by simp [hready]) (publishIf_cliRuleSet _ _) ?_⟩
      rw [hready, if_pos rfl, publishIf_api, hset]
      exact hapi

/-! ### Runs -/

/-- A deletion or a snapshot leaves the API's rule set, or takes a rule out of it. -/
theorem outcome_ruleSet {q : Plugin} {rs : List FlowRule} (h : q.api.ruleSet.Holds rs)
    (request : Request) (hadd : ∀ env mp, request ≠ .flowRuleAdd env mp) :
    (q.outcome request).2.ruleSet = q.api.ruleSet ∨
      ∃ name i, q.api.ruleSet.indexOf name = some i ∧
        (q.outcome request).2.ruleSet = (q.api.ruleSet.rm name).2 := by
  cases request with
  | flowRuleAdd env mp => exact absurd rfl (hadd env mp)
  | flowRuleDel env id =>
    rw [Plugin.outcome]
    split
    · exact Or.inl rfl
    split
    · exact Or.inl rfl
    · rename_i name hname
      exact (ApiState.flowRuleDel_ruleSet h name).imp_right fun hrm => ⟨name, hrm⟩
  | snapshotAndClear env id => exact Or.inl (ApiState.snapshotAndClear_ruleSet id env.now)
  | snapshotInlineDump env id => exact Or.inl (ApiState.snapshotAndClear_ruleSet id env.now)

/-- A request changes the API's rules only. -/
theorem HoldsRules.serve (h : p.HoldsRules api cli) (request : Request) :
    ∃ api', (p.serve request).HoldsRules api' cli := by
  by_cases hadd : ∃ env mp, request = .flowRuleAdd env mp
  · obtain ⟨env, mp, rfl⟩ := hadd
    rcases flowRuleAddHandler_answer h env mp with ⟨-, -, hq⟩ | ⟨-, -, hq⟩
    · exact ⟨_, hq⟩
    · exact ⟨_, hq⟩
  · -- any other request takes out a rule at most
    have hq := (h.ensure request.env.memory).1
    rw [serve_eq]
    generalize p.apiCtxEnsure request.env.memory = q at hq
    have hapi := hq.api
    rcases outcome_ruleSet hq.api_holds request fun env mp heq => hadd ⟨env, mp, heq⟩ with
      heq | ⟨name, i, hi, heq⟩
    · refine ⟨api, hq.replaced (publishIf_ready _ _) (publishIf_cliRuleSet _ _) ?_⟩
      rw [publishIf_api, heq]
      exact hapi
    · refine ⟨api.eraseIdx i, hq.replaced (publishIf_ready _ _) (publishIf_cliRuleSet _ _) ?_⟩
      rw [publishIf_api, heq]
      split at hapi
      · rename_i hready
        rw [if_pos hready]
        obtain ⟨-, hset, hbudget⟩ := hapi.toHolds.rm hi
        exact ⟨hset, hbudget.trans hapi.budget_eq⟩
      · -- without a context there is no rule to delete
        obtain ⟨hlt, -⟩ := hapi.1.indexOf_eq_some_iff.mp hi
        exact absurd hlt (Nat.not_lt_zero i)

/-- An operation changes the rules on its own side only. -/
theorem HoldsRules.control (h : p.HoldsRules api cli) (op : ControlOp) :
    ∃ api' cli', (p.control op).HoldsRules api' cli' := by
  cases op with
  | cli memory args allocs =>
    cases hspec : cliRule args with
    | error e =>
      refine ⟨api, cli, ?_⟩
      show (p.cliFlowRuleAdd memory args allocs).2.HoldsRules api cli
      rw [cliFlowRuleAdd, hspec]
      exact h
    | ok spec =>
      rcases cliFlowRuleAdd_answer h memory hspec allocs with ⟨-, -, hq⟩ | ⟨-, -, hq⟩
      · exact ⟨_, _, hq⟩
      · exact ⟨_, _, hq⟩
  | request request =>
    obtain ⟨api', hq⟩ := h.serve request
    exact ⟨api', cli, hq⟩

/-- In every run both rule sets hold lists. -/
theorem holdsRules_run (vlibNumWorkers : ℕ) (ops : List ControlOp) :
    ∃ api cli, (Runs.run Plugin.control (start vlibNumWorkers) ops).HoldsRules api cli := by
  refine Runs.always (I := fun p : Plugin => ∃ api cli, p.HoldsRules api cli) ?_ ?_ ops
  · exact ⟨[], [], ⟨⟨holds_noRules, rfl⟩, rfl⟩⟩
  · rintro p op ⟨api, cli, h⟩
    exact h.control op

/-! ### The same description at both doors -/

/-- What is compared of the newest rule of a set: name, fields, limit and key width. -/
def newest (set : FlowRuleSet) : Option (List UInt8 × List ℕ × ℕ × ℕ) :=
  (set.get (set.count - 1)).map fun rule => (rule.name, rule.fields, rule.maxKeys, rule.keyWidth)

/-- The newest rule is the last one. -/
theorem newest_eq {set : FlowRuleSet} {rs : List FlowRule} {rule : FlowRule}
    (h : set.Holds (rs ++ [rule])) :
    newest set = some (rule.name, rule.fields, rule.maxKeys, rule.keyWidth) := by
  have hcount : set.count - 1 = rs.length := by
    rw [h.count, List.length_append, List.length_singleton, Nat.add_sub_cancel]
  rw [newest, hcount, h.get_eq (by simp)]
  simp

/-- The command and the message for a description are both refused, or both accepted and stored
alike. -/
def DoorsAgree (p : Plugin) (d : RuleDescription) (memory : Bool) (allocs : ℕ → Alloc)
    (env : ApiEnv) : Prop :=
  let cli := p.cliFlowRuleAdd memory d.cliArgs allocs
  let api := p.flowRuleAddHandler env d.message
  (cli.1 = .ok () ↔ api.1.retval = none) ∧
    (cli.1 = .ok () → newest (cli.2.rulesOf .cli) = newest api.2.api.ruleSet)

/-- The name has at most 30 characters, the limit is not 0 and, if the rule fits, both doors have their
rule set and the API memory for the tables; or each door has a reason to refuse what it makes of the
description. -/
def DoorsMeet (p : Plugin) (d : RuleDescription) (memory : Bool) (env : ApiEnv) : Prop :=
  (d.name.length ≤ flowRuleNameMax - 1 ∧ d.maxKeys ≠ 0 ∧
    (d.apiRule.FitsIn p.api.ruleSet.list →
      (p.cliRuleSet.isSome || memory) = true ∧ p.ApiMemory env)) ∨
  (¬ ((p.cliRuleSet.isSome || memory) = true ∧ d.cutRule.FitsIn p.api.ruleSet.list) ∧
    ¬ (p.ApiMemory env ∧ d.apiRule.FitsIn p.api.ruleSet.list))

/-- In every state in which both rule sets have the same contents, the debug CLI and the binary API give
the same answer to a description exactly under that condition. -/
theorem doorsAgree_iff (vlibNumWorkers : ℕ) (ops : List ControlOp) (d : RuleDescription)
    (memory : Bool) (allocs : ℕ → Alloc) (env : ApiEnv)
    (hsame : ((Runs.run Plugin.control (start vlibNumWorkers) ops).rulesOf .cli).list =
      (Runs.run Plugin.control (start vlibNumWorkers) ops).api.ruleSet.list) :
    (Runs.run Plugin.control (start vlibNumWorkers) ops).DoorsAgree d memory allocs env ↔
      (Runs.run Plugin.control (start vlibNumWorkers) ops).DoorsMeet d memory env := by
  obtain ⟨rs, cli, h⟩ := holdsRules_run vlibNumWorkers ops
  generalize Runs.run Plugin.control (start vlibNumWorkers) ops = p at h hsame
  obtain rfl : cli = rs := by rw [← h.cli_holds.list_eq, hsame, h.api_holds.list_eq]
  have hapi := flowRuleAddHandler_answer h env d.message
  have hcli := cliFlowRuleAdd_answer h memory d.cliRule_eq allocs
  rw [d.messageRule_eq] at hapi
  rw [DoorsAgree, DoorsMeet, h.api_holds.list_eq]
  dsimp only at hapi hcli ⊢
  rcases hcli with ⟨hok, hfits, hq⟩ | ⟨hne, hno, hq⟩
  · rcases hapi with ⟨hok', hfits', hq'⟩ | ⟨hne', hno', -⟩
    · -- both accept
      rw [newest_eq hq.cli_holds, newest_eq hq'.api_holds]
      constructor
      -- with equal names nothing was cut off, and the command takes no limit of 0
      · rintro ⟨-, hstored⟩
        have hname : d.name.take (flowRuleNameMax - 1) = d.name :=
          congrArg Prod.fst (Option.some.inj (hstored hok))
        have hkeys := (flowRuleValidate_ok_iff.mp hfits.2.valid).maxKeys_ne
        refine Or.inl ⟨(List.take_eq_self_iff _).mp hname, fun hzero => hkeys ?_,
          fun _ => ⟨hfits.1, hfits'.1⟩⟩
        show d.maxKeys.toNat = 0
        rw [hzero]
        rfl
      · rintro (⟨hname, hkeys, -⟩ | ⟨hno, -⟩)
        · rw [d.cutRule_eq_apiRule hname hkeys]
          exact ⟨iff_of_true hok hok', fun _ => rfl⟩
        · exact absurd hfits hno
    · -- only the command is accepted
      refine iff_of_false (fun hagree => hne' (hagree.1.mp hok)) ?_
      rintro (⟨hname, hkeys, hmem⟩ | ⟨hno, -⟩)
      · rw [d.cutRule_eq_apiRule hname hkeys] at hfits
        exact hno' ⟨(hmem hfits.2).2, hfits.2⟩
      · exact hno hfits
  · rcases hapi with ⟨hok', hfits', -⟩ | ⟨hne', hno', -⟩
    · -- only the message is accepted
      refine iff_of_false (fun hagree => hne (hagree.1.mpr hok')) ?_
      rintro (⟨hname, hkeys, hmem⟩ | ⟨-, hno'⟩)
      · rw [d.cutRule_eq_apiRule hname hkeys] at hno
        exact hno ⟨(hmem hfits'.2).1, hfits'.2⟩
      · exact hno' hfits'
    · -- both refuse
      exact iff_of_true ⟨iff_of_false hne hne', fun hok => absurd hok hne⟩ (Or.inr ⟨hno, hno'⟩)

/-- A rule over the source address. -/
def sourceRule (name : List UInt8) (maxKeys : UInt32) (hname : nameValid name = true) :
    RuleDescription where
  name := name
  fields := [0]
  maxKeys := maxKeys
  name_valid := hname
  fields_ne := by decide
  fields_le := by decide

/-- A rule `ab` on the protocol from either door. -/
def protoAtBoth : List ControlOp :=
  [.request (.flowRuleAdd (envAt 0) protoRuleMsg),
    .cli true { unknownInput := false, name := some [0x61, 0x62],
                fields := some (asciiBytes "ip_proto"), maxKeys := 2 } plenty]

/-- Behind them both doors store a rule `aa`. -/
theorem sourceRule_agrees :
    (Runs.run Plugin.control (start 1) protoAtBoth).DoorsAgree
      (sourceRule [0x61, 0x61] 2 (by decide)) true plenty (envAt 0) :=
  (doorsAgree_iff 1 protoAtBoth (sourceRule [0x61, 0x61] 2 (by decide)) true plenty (envAt 0)
    (by decide +kernel)).mpr (Or.inl ⟨by decide, by decide, fun _ => ⟨rfl, rfl, fun _ _ => rfl⟩⟩)

/-- On empty rule sets, a name of 31 characters is stored in two ways, the limit 0 is taken by the API
only, and a rule without memory for its tables by the CLI only. -/
theorem doors_disagree :
    ((start 0).rulesOf .cli).list = (start 0).api.ruleSet.list ∧
      ¬ (start 0).DoorsAgree (sourceRule (List.replicate 31 0x61) 2 (by decide)) true plenty
        (envAt 0) ∧
      ¬ (start 0).DoorsAgree (sourceRule [0x61, 0x61] 0 (by decide)) true plenty (envAt 0) ∧
      ¬ (start 0).DoorsAgree (sourceRule [0x61, 0x61] 2 (by decide)) true (fun _ => ⟨false, fun _ => 0⟩)
        { envAt 0 with allocs := fun _ => ⟨false, fun _ => 0⟩ } := by
  refine ⟨rfl, fun h => ?_, fun h => ?_, fun h => ?_⟩
  · have hstored := h.2 (by decide +kernel)
    revert hstored
    decide +kernel
  · have hcli := h.1.mpr (by decide +kernel)
    revert hcli
    decide +kernel
  · have hapi := h.1.mp (by decide +kernel)
    revert hapi
    decide +kernel

end Plugin

end InFMon
