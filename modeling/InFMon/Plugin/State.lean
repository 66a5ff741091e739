import InFMon.Api.Handler
import InFMon.DataPath.FlowMatch

/-! # The plugin's shared state

What the binary-API handlers, the debug CLI and the graph nodes of the VPP plugin share: the plugin
main with the published rules and tables, the API context, which is set up on first use, and the rule
set of the CLI. -/

namespace InFMon

open CountedLoop

/-! ### Data -/

/-- `infmon_flow_rule_set_ref_t`: whether its pointer goes to the first rule of a rule set or is
`NULL`, and the number of rules. -/
structure RuleSetRef where
  rules : Bool
  count : ℕ
  deriving DecidableEq, Repr

/-- A reference as static memory starts out. -/
def RuleSetRef.zero : RuleSetRef := ⟨false, 0⟩

/-- The two references that `flow_rule_set` can point to: `infmon_vpp_rule_set_ref` of the API and
`infmon_cli_rule_set_ref` of the debug CLI. -/
inductive RuleSource where
  | api
  | cli
  deriving DecidableEq, Repr

/-- `infmon_plugin_main_t`. -/
structure PluginMain where
  flowRuleSet : Option RuleSource
  tables : Tables
  tick : UInt64
  numWorkers : ℕ

/-- The plugin: `infmon_plugin_main`, the API context with its ready flag and reference, the CLI's
rule set and reference, the sequence number of rule ids, and the answer of `vlib_num_workers`. The heap
of the API state is the heap of the process, and its rule set is there once the context is ready. -/
structure Plugin where
  main : PluginMain
  api : ApiState
  ready : Bool
  apiRef : RuleSetRef
  cliRuleSet : Option FlowRuleSet
  cliRef : RuleSetRef
  idSeq : UInt64
  vlibNumWorkers : ℕ

namespace Plugin

/-- A rule set without rules and without a budget. -/
def noRules : FlowRuleSet := ⟨fun _ => .zero, 0, 0, 0⟩

/-- The plugin as it is loaded. -/
def start (vlibNumWorkers : ℕ) : Plugin where
  main := { flowRuleSet := none, tables := fun _ _ => none, tick := 0, numWorkers := 0 }
  api := .init noRules (.init 0 0) 0 false false
  ready := false
  apiRef := .zero
  cliRuleSet := none
  cliRef := .zero
  idSeq := 0
  vlibNumWorkers := vlibNumWorkers

/-- The heap of the process. -/
def heap (p : Plugin) : Heap := p.api.heap

/-! ### The API context -/

/-- `infmon_vpp_api_ctx_ensure`, with `memory` for whether the rule set can be allocated. -/
def apiCtxEnsure (memory : Bool) (p : Plugin) : Plugin :=
  if p.ready then p
  else
    -- a failure is tried again at the next request
    match if memory then FlowRuleSet.create flowRuleMaxKeysBudget else none with
    | none => p
    | some ruleSet =>
      { p with
        -- the grace period is one second
        api :=
          { ApiState.init ruleSet (.init (p.vlibNumWorkers + 1) 1000000000) (p.vlibNumWorkers + 1)
              true true with
            heap := p.api.heap }
        main := { p.main with numWorkers := p.vlibNumWorkers + 1 }
        ready := true }

/-! ### Publication -/

/-- The first half of `infmon_vpp_publish_rules`: the reference. -/
def publishRef (p : Plugin) : Plugin :=
  let n := if p.ready then p.api.ruleSet.count else 0
  { p with
    apiRef := { rules := decide (n > 0), count := n }
    main := { p.main with flowRuleSet := some .api } }

/-- The pointer to publish for worker `w` and index `i`. -/
def cellOf (ctx : Tables) (w i : ℕ) : Option ℕ := if i < flowRuleSetMax then ctx w i else none

/-- Store the pointer for worker `w` and index `i`. -/
def publishCell (ctx : Tables) (w i : ℕ) (tables : Tables) : Tables :=
  setTable tables w i (cellOf ctx w i)

/-- The second half of `infmon_vpp_publish_rules`: the tables of all workers. -/
def publishTables (p : Plugin) : Plugin :=
  { p with
    main := { p.main with
      tables := forUpTo p.api.nw
        (fun w tables => forUpTo maxActiveFlowRules (publishCell p.api.ctx.tables w) tables)
        p.main.tables } }

/-- `infmon_vpp_publish_rules`. -/
def publishRules (p : Plugin) : Plugin := p.publishRef.publishTables

/-! ### What the graph nodes find -/

/-- The rule set that a source names. -/
def rulesOf (p : Plugin) : RuleSource → FlowRuleSet
  | .api => p.api.ruleSet
  | .cli => p.cliRuleSet.getD noRules

/-- The reference that a source names. -/
def refOf (p : Plugin) : RuleSource → RuleSetRef
  | .api => p.apiRef
  | .cli => p.cliRef

/-- The number of rules that a flow-match frame works with. -/
def publishedCount (p : Plugin) : ℕ :=
  match p.main.flowRuleSet with
  | none => 0
  -- a reference without a rule pointer counts no rules
  | some source => if (p.refOf source).rules then (p.refOf source).count else 0

/-- The rules that a flow-match frame works with. -/
def publishedRules (p : Plugin) : ℕ → FlowRule :=
  match p.main.flowRuleSet with
  | none => fun _ => .zero
  | some source => (p.rulesOf source).rules

/-! ### The stored pointers -/

/-- The first cells of one worker are published. -/
theorem forUpTo_publishCell (ctx tables : Tables) (w k v j : ℕ) :
    forUpTo k (publishCell ctx w) tables v j =
      if v = w ∧ j < k then cellOf ctx w j else tables v j := by
  induction k with
  | zero => rw [forUpTo_zero, if_neg (by omega)]
  | succ k ih =>
    rw [forUpTo_succ, publishCell, setTable]
    by_cases hv : v = w
    · subst hv
      rw [Function.update_self]
      by_cases hj : j = k
      · subst hj
        rw [Function.update_self, if_pos ⟨rfl, Nat.lt_succ_self _⟩]
      · rw [Function.update_of_ne hj, ih]
        by_cases hlt : j < k
        · rw [if_pos ⟨rfl, hlt⟩, if_pos ⟨rfl, by omega⟩]
        · rw [if_neg (by omega), if_neg (by omega)]
    · rw [Function.update_of_ne hv, ih, if_neg (by omega), if_neg (by omega)]

/-- After a publication the plugin main has the pointers of the API context in the rows of the workers
served. -/
theorem publishTables_apply (p : Plugin) (v j : ℕ) :
    p.publishTables.main.tables v j =
      if v < p.api.nw ∧ j < maxActiveFlowRules then cellOf p.api.ctx.tables v j
      else p.main.tables v j := by
  show forUpTo p.api.nw _ p.main.tables v j = _
  generalize p.api.nw = n
  induction n with
  | zero => rw [forUpTo_zero, if_neg (by omega)]
  | succ n ih =>
    rw [forUpTo_succ, forUpTo_publishCell, ih]
    by_cases hv : v = n
    · subst hv
      by_cases hj : j < maxActiveFlowRules
      · rw [if_pos ⟨rfl, hj⟩, if_pos ⟨Nat.lt_succ_self _, hj⟩]
      · rw [if_neg (by omega), if_neg (by omega), if_neg (by omega)]
    · rw [if_neg (by omega)]
      by_cases hlt : v < n ∧ j < maxActiveFlowRules
      · rw [if_pos hlt, if_pos ⟨by omega, hlt.2⟩]
      · rw [if_neg hlt, if_neg (by omega)]

/-- Publishing the tables leaves the API's state. -/
@[simp] theorem publishTables_api (p : Plugin) : p.publishTables.api = p.api := rfl

/-- Publishing the rule set leaves the API's state. -/
@[simp] theorem publishRef_api (p : Plugin) : p.publishRef.api = p.api := rfl

/-- Publishing leaves the API's state. -/
@[simp] theorem publishRules_api (p : Plugin) : p.publishRules.api = p.api := rfl

/-- Publishing leaves whether the context is there. -/
@[simp] theorem publishRules_ready (p : Plugin) : p.publishRules.ready = p.ready := rfl

/-- Publishing leaves the number of workers. -/
@[simp] theorem publishRules_vlibNumWorkers (p : Plugin) :
    p.publishRules.vlibNumWorkers = p.vlibNumWorkers := rfl

end Plugin

end InFMon
