import InFMon.Plugin.Admission
import InFMon.Plugin.ApiPhase
import InFMon.Plugin.CurrentRules

/-! # Coherence of what is published

The binary API and the debug CLI have a rule set each and publish to the same pointers. A record of the
run says which rule each table was created for. As long as the CLI has no rule, or the API changes
nothing any more, every published rule has the tables that were created for it, and no table is lost. -/

namespace InFMon

open CountedLoop DenseArray

/-! ### The record of a run -/

/-- The plugin, and a record of the run: the rules in the arrays of the two rule sets, with the number of
the operation that each came with, how many operations there were, and the rule that each table was
created for. -/
structure Controlled where
  plugin : Plugin
  rules : RuleSource → ℕ → MarkedRule
  ops : ℕ
  madeFor : ℕ → MarkedRule

namespace Plugin

/-- The assignments to the array of the CLI's rule set that a command makes. -/
def cliRuleWrites (p : Plugin) (memory : Bool) (args : CliArgs) (mark : ℕ) : List RuleWrite :=
  match cliRule args, p.cliSetEnsure memory with
  | .ok spec, some set => set.addWrites spec mark
  | _, _ => []

/-- The rule that a command creates tables for. -/
def cliTablesFor (args : CliArgs) (mark : ℕ) : MarkedRule :=
  match cliRule args with
  | .ok spec => ⟨spec.register, mark⟩
  | .error _ => .zero

/-- The table is as large as the rule asks for. -/
def SizedFor (heap : Heap) (t : ℕ) (rule : FlowRule) : Prop :=
  (heap.table t).numSlots = nextPow2 rule.maxKeys ∧
    (heap.table t).keyArenaCapacity = (heap.table t).numSlots * rule.keyWidth

/-- The plugin main, a cell of the API context or an entry of the snapshot ring refers to the table. -/
def Reached (p : Plugin) (t : ℕ) : Prop :=
  (∃ w i, p.main.tables w i = some t) ∨
    ∃ place, tableRefs p.api.ctx.tables p.api.mgr place = some t

/-- A rule that the CLI takes gets the tables it needs. Once the CLI has a rule, no request of the API
changes rules or tables, and none sets up the context for more workers than the CLI has served. -/
def Orderly (p : Plugin) : ControlOp → Prop
  | .cli memory args allocs => p.CliAdmits memory args → ∀ w < p.cliWorkers, (allocs w).ok = true
  | .request request => (p.rulesOf .cli).count = 0 ∨
      ¬ (p.apiCtxEnsure request.env.memory).Admits request ∧
        (p.ready = true ∨ request.env.memory = false ∨ p.vlibNumWorkers = 0)

end Plugin

/-- Whose rule set an operation works on. -/
def ControlOp.source : ControlOp → RuleSource
  | .cli _ _ _ => .cli
  | .request _ => .api

namespace Controlled

/-- The plugin as it is loaded. -/
def start (vlibNumWorkers : ℕ) : Controlled where
  plugin := .start vlibNumWorkers
  rules := fun _ _ => .zero
  ops := 0
  madeFor := fun _ => .zero

/-- The assignments that an operation makes to the array of its rule set. -/
def writes (s : Controlled) : ControlOp → List RuleWrite
  | .cli memory args _ => s.plugin.cliRuleWrites memory args (s.ops + 1)
  | .request request =>
    (s.plugin.apiCtxEnsure request.env.memory).ruleWrites (s.ops + 1) request

/-- The rule that an operation creates tables for. -/
def tablesFor (s : Controlled) : ControlOp → MarkedRule
  | .cli _ args _ => Plugin.cliTablesFor args (s.ops + 1)
  | .request request =>
    (s.plugin.apiCtxEnsure request.env.memory).tablesFor (s.rules .api) (s.ops + 1) request

/-- One operation: the plugin does it, and the record notes it. -/
def step (s : Controlled) (op : ControlOp) : Controlled where
  plugin := s.plugin.control op
  rules := Function.update s.rules op.source
    (RuleWrite.applyAll (s.rules op.source) (s.writes op))
  ops := s.ops + 1
  -- the tables that are new were created by this operation
  madeFor := fun t => if t < s.plugin.heap.next then s.madeFor t else s.tablesFor op

/-- An operation writes to the array of its own rule set. -/
theorem rules_step (s : Controlled) (op : ControlOp) : (s.step op).rules op.source =
    RuleWrite.applyAll (s.rules op.source) (s.writes op) := Function.update_self ..

/-- It does not write to the array of the other one. -/
theorem rules_step_of_ne (s : Controlled) (op : ControlOp) {source : RuleSource}
    (h : source ≠ op.source) : (s.step op).rules source = s.rules source :=
  Function.update_of_ne h ..

/-- What a table that is there was created for stays on record. -/
theorem madeFor_step (s : Controlled) (op : ControlOp) {t : ℕ} (ht : t < s.plugin.heap.next) :
    (s.step op).madeFor t = s.madeFor t := if_pos ht

/-- The record leaves the plugin's run alone. -/
theorem plugin_run (s : Controlled) (ops : List ControlOp) :
    (Runs.run step s ops).plugin = Runs.run Plugin.control s.plugin ops :=
  Runs.run_map Controlled.plugin fun _ _ => rfl

/-! ### Coherence -/

/-- The table was created for the rule, and is as large as the rule asks for. -/
def CreatedFor (s : Controlled) (t : ℕ) (rule : MarkedRule) : Prop :=
  s.madeFor t = rule ∧ Plugin.SizedFor s.plugin.heap t rule.rule

/-- Every worker has a live table for every published rule, created for this rule and as large as it asks
for, and no live table is out of reach. -/
structure Coherent (s : Controlled) : Prop where
  served : ∀ source, s.plugin.main.flowRuleSet = some source →
    ∀ i < (s.plugin.refOf source).count,
      (s.rules source i).rule = (s.plugin.rulesOf source).rules i ∧
        ∀ w < s.plugin.main.numWorkers, ∃ t, s.plugin.main.tables w i = some t ∧
          s.plugin.heap.Live t ∧ s.CreatedFor t (s.rules source i)
  reached : ∀ t, s.plugin.heap.Live t → s.plugin.Reached t

/-! ### The two phases -/

/-- The API publishes: the rules `cur` of its context are in memory, and its tables were created for
them. -/
structure ApiPhase (s : Controlled) (es : List RuleEntry) (cur : List MarkedRule) : Prop
    extends s.plugin.ApiPhase es where
  current : s.plugin.api.ruleSet.Holds (cur.map MarkedRule.rule)
  memory : s.rules .api = ofList .zero cur
  cliMemory : s.rules .cli = ofList .zero []
  made : ∀ w i t, s.plugin.api.ctx.tables w i = some t → cur[i]? = some (s.madeFor t)

/-- What holds whoever publishes: the context holds the entries `es` and the CLI the rules `cur`, the
CLI's rules have the tables that were created for them, and every live table belongs to the context or to
one of these rules. -/
structure Prepared (s : Controlled) (es : List RuleEntry) (cur : List MarkedRule) : Prop where
  arranged : s.plugin.api.Arranged es
  entries : ∀ e ∈ es, e.Served s.plugin.heap s.plugin.api.nw
  rules : (s.plugin.rulesOf .cli).Holds (cur.map MarkedRule.rule)
  memory : s.rules .cli = ofList .zero cur
  numWorkers : s.plugin.main.numWorkers =
    if s.plugin.ready then s.plugin.vlibNumWorkers + 1 else 0
  destroyed : ∀ t ∈ s.plugin.heap.destroyed, t < s.plugin.heap.next
  tables : ∀ w < s.plugin.cliWorkers, ∀ i, ∀ hi : i < cur.length,
    ∃ t, s.plugin.main.tables w i = some t ∧ s.plugin.heap.Live t ∧ s.CreatedFor t cur[i]
  reached : ∀ t, s.plugin.heap.Live t →
    (∃ w, ∃ i < cur.length, s.plugin.main.tables w i = some t) ∨
      ∃ place, tableRefs s.plugin.api.ctx.tables s.plugin.api.mgr place = some t
  fresh : s.plugin.ready = false → es = [] ∧ s.plugin.api.ctx.hasSnapMgr = false ∧
    ∀ place, tableRefs s.plugin.api.ctx.tables s.plugin.api.mgr place = none

/-- The CLI has published its rules. -/
structure CliPhase (s : Controlled) (es : List RuleEntry) (cur : List MarkedRule) : Prop
    extends Prepared s es cur where
  nonempty : cur ≠ []
  published : s.plugin.main.flowRuleSet = some .cli ∧ s.plugin.cliRef.count = cur.length

variable {s : Controlled} {es : List RuleEntry} {cur : List MarkedRule}

/-- Without a rule of the CLI there is nothing to prepare. -/
theorem ApiPhase.prepared (h : s.ApiPhase es cur) : s.Prepared es [] where
  arranged := h.sound.aligned.arranged
  entries := h.sound.aligned.served
  rules := h.rules
  memory := h.cliMemory
  numWorkers := h.numWorkers
  destroyed := h.sound.aligned.owning.owned.created
  tables _ _ i hi := absurd hi (Nat.not_lt_zero i)
  reached t ht := Or.inr (h.sound.aligned.owning.owned.complete t ht)
  fresh hready := by
    obtain ⟨hes, hnext, -, hmgr, -⟩ := h.sound.fresh hready
    refine ⟨hes, hmgr, fun place => ?_⟩
    cases hplace : tableRefs s.plugin.api.ctx.tables s.plugin.api.mgr place with
    | none => rfl
    | some t =>
      have hlt : t < 0 := hnext ▸ h.sound.aligned.owning.owned.lt_next hplace
      exact absurd hlt (Nat.not_lt_zero t)

/-- The entries of the context are those of the rules in memory. -/
theorem ApiPhase.rule_eq (h : s.ApiPhase es cur) : cur.map MarkedRule.rule = es.map RuleEntry.rule :=
  h.current.eq h.sound.aligned.rules

/-- What the API publishes is coherent. -/
theorem ApiPhase.coherent (h : s.ApiPhase es cur) : s.Coherent where
  served source hsource i hi := by
    cases source with
    | cli => exact absurd hsource h.notCli
    | api =>
      -- what is published is the context's rule at this place, with the context's tables
      have hi' : i < es.length := h.count ▸ hi
      have hcur : i < cur.length := by
        rw [← List.length_map MarkedRule.rule, h.rule_eq, List.length_map]
        exact hi'
      have hrule : s.rules .api i = cur[i] := by rw [h.memory, ofList_of_lt hcur]
      have hentry : cur[i].rule = es[i].rule := by
        have hget := congrArg (fun l => l[i]?) h.rule_eq
        simpa [hcur, hi'] using hget
      refine ⟨?_, fun w hw => ?_⟩
      · rw [hrule, hentry]
        exact (h.sound.aligned.rule_eq hi').symm
      have hready : s.plugin.ready = true := by
        by_contra hf
        rw [h.numWorkers, if_neg hf] at hw
        exact absurd hw (Nat.not_lt_zero w)
      rw [h.numWorkers, if_pos hready, ← h.sound.nw_eq hready] at hw
      have he := h.sound.aligned.served _ (List.getElem_mem hi')
      obtain ⟨t, ht⟩ := he.exists_table hw
      have hcell := (h.sound.aligned.table_eq hi' w).trans ht
      refine ⟨t, (congrFun (congrFun h.tables w) i).trans hcell,
        h.sound.aligned.owning.owned.sound (.cell w i) t hcell, ?_, ?_⟩
      · have hmade := h.made w i t hcell
        rw [List.getElem?_eq_getElem hcur] at hmade
        rw [hrule]
        exact (Option.some.inj hmade).symm
      · rw [hrule, hentry]
        exact ⟨he.numSlots w t ht, he.capacity w t ht⟩
  reached t ht := Or.inr (h.sound.aligned.owning.owned.complete t ht)

/-- What the CLI publishes is coherent. -/
theorem CliPhase.coherent (h : s.CliPhase es cur) : s.Coherent where
  served source hsource i hi := by
    -- what is published are the CLI's rules, with the tables in the plugin main
    obtain ⟨hcli, hcount⟩ := h.published
    rw [hcli] at hsource
    obtain rfl := Option.some.inj hsource
    have hi' : i < cur.length := hcount ▸ hi
    have hrule : s.rules .cli i = cur[i] := by rw [h.memory, ofList_of_lt hi']
    refine ⟨?_, fun w hw => ?_⟩
    · rw [hrule, h.rules.rules_eq (by simpa using hi'), List.getElem_map]
    · have hw' : w < s.plugin.cliWorkers := by
        rw [Plugin.cliWorkers, if_pos (Nat.zero_lt_of_lt hw)]
        exact hw
      rw [hrule]
      exact h.tables w hw' i hi'
  reached t ht := by
    rcases h.reached t ht with ⟨w, i, -, hwi⟩ | hplace
    · exact Or.inl ⟨w, i, hwi⟩
    · exact Or.inr hplace

/-! ### What the record adds -/

/-- The record may say something else about the API's rules and about tables that are not there yet. -/
theorem Prepared.noted (h : s.Prepared es cur) (ops : ℕ) {rules : RuleSource → ℕ → MarkedRule}
    {madeFor : ℕ → MarkedRule} (hrules : rules .cli = s.rules .cli)
    (hmade : ∀ t < s.plugin.heap.next, madeFor t = s.madeFor t) :
    ({ plugin := s.plugin, rules := rules, ops := ops, madeFor := madeFor } :
      Controlled).Prepared es cur :=
  { h with
    memory := hrules.trans h.memory
    tables := fun w hw i hi => by
      obtain ⟨t, ht, hlive, hcreated⟩ := h.tables w hw i hi
      exact ⟨t, ht, hlive, (hmade t hlive.1).trans hcreated.1, hcreated.2⟩ }

/-- A rule that the CLI takes is written behind the others. -/
theorem writes_of_takes {memory : Bool} {args : CliArgs} {spec : FlowRule} {set : FlowRuleSet}
    (hspec : cliRule args = .ok spec) (hset : s.plugin.cliSetEnsure memory = some set)
    (htakes : set.Takes spec) (hholds : set.Holds (cur.map MarkedRule.rule)) (allocs : ℕ → Alloc) :
    s.writes (.cli memory args allocs) = [.put cur.length ⟨spec.register, s.ops + 1⟩] := by
  simp only [writes, Plugin.cliRuleWrites, hspec, hset, FlowRuleSet.addWrites,
    if_pos ((set.add_ok_iff spec).mpr htakes), hholds.count, List.length_map]

/-- A rule that the CLI does not take is not written. -/
theorem writes_of_not_admits {memory : Bool} {args : CliArgs}
    (hno : ¬ s.plugin.CliAdmits memory args) (allocs : ℕ → Alloc) :
    s.writes (.cli memory args allocs) = [] := by
  simp only [writes, Plugin.cliRuleWrites]
  split
  · rename_i spec set hspec hset
    rw [FlowRuleSet.addWrites, if_neg]
    intro hok
    exact hno ⟨spec, set, hspec, hset, (set.add_ok_iff spec).mp hok⟩
  · rfl

/-! ### Commands of the CLI -/

/-- Every rule has the tables that were created for it, the new one those just created. -/
theorem Prepared.tables_added (h : s.Prepared es cur) {rule : MarkedRule} {sa : Tables × Heap}
    (hs : Added s.plugin.main.tables s.plugin.heap cur.length rule.rule s.plugin.cliWorkers sa)
    {madeFor : ℕ → MarkedRule} (hold : ∀ t < s.plugin.heap.next, madeFor t = s.madeFor t)
    (hnew : ∀ t, s.plugin.heap.next ≤ t → madeFor t = rule) {w : ℕ} (hw : w < s.plugin.cliWorkers)
    {i : ℕ} (hi : i < (cur ++ [rule]).length) :
    ∃ t, sa.1 w i = some t ∧ sa.2.Live t ∧ madeFor t = (cur ++ [rule])[i] ∧
      Plugin.SizedFor sa.2 t (cur ++ [rule])[i].rule := by
  have hnext := hs.next
  have hlength := hi
  rw [List.length_append, List.length_singleton] at hlength
  simp only [hs.tables_eq]
  -- the last rule has the tables that are new, any other one those that it had
  by_cases hlast : i = cur.length
  · subst hlast
    have htable := hs.new_table w hw
    refine ⟨s.plugin.heap.next + w, if_pos ⟨hw, rfl⟩, ⟨by omega, fun hin => ?_⟩, ?_, ?_⟩
    · rw [hs.destroyed] at hin
      have := h.destroyed _ hin
      omega
    · rw [hnew _ (Nat.le_add_right _ _)]
      simp only [List.getElem_concat_length]
    · simp only [List.getElem_concat_length]
      exact htable.2.2
  · obtain ⟨t, ht, hlive, hcreated⟩ := h.tables w hw i (by omega)
    have hlt := hlive.1
    refine ⟨t, ?_, ⟨by omega, hs.destroyed ▸ hlive.2⟩, ?_, ?_⟩
    · rw [if_neg fun hwi => hlast hwi.2]
      exact ht
    · rw [List.getElem_append_left (by omega), hold t hlt]
      exact hcreated.1
    · rw [List.getElem_append_left (by omega), Plugin.SizedFor, hs.table_eq t hlt]
      exact hcreated.2

/-- Nothing that lives is out of reach, the tables just created included. -/
theorem Prepared.reached_added (h : s.Prepared es cur) {rule : MarkedRule} {sa : Tables × Heap}
    (hs : Added s.plugin.main.tables s.plugin.heap cur.length rule.rule s.plugin.cliWorkers sa)
    {t : ℕ} (ht : sa.2.Live t) :
    (∃ w, ∃ i < (cur ++ [rule]).length, sa.1 w i = some t) ∨
      ∃ place, tableRefs s.plugin.api.ctx.tables s.plugin.api.mgr place = some t := by
  obtain ⟨hlt, hdestroyed⟩ := ht
  have hnext := hs.next
  simp only [hs.tables_eq, List.length_append, List.length_singleton]
  -- a new table is that of some worker for the new rule
  by_cases hnew : s.plugin.heap.next ≤ t
  · refine Or.inl ⟨t - s.plugin.heap.next, cur.length, Nat.lt_succ_self _, ?_⟩
    rw [if_pos ⟨by omega, rfl⟩]
    congr 1
    omega
  · rw [hs.destroyed] at hdestroyed
    rcases h.reached t ⟨by omega, hdestroyed⟩ with ⟨w, i, hi, hwi⟩ | hplace
    · refine Or.inl ⟨w, i, by omega, ?_⟩
      rw [if_neg fun hnew => hi.ne hnew.2]
      exact hwi
    · exact Or.inr hplace

/-- The CLI publishes one rule more, with new tables that are recorded for it. -/
theorem Prepared.added (h : s.Prepared es cur) (rule : MarkedRule) (ops : ℕ) {set : FlowRuleSet}
    (hset : set.Holds ((cur ++ [rule]).map MarkedRule.rule)) {sa : Tables × Heap}
    (hs : Added s.plugin.main.tables s.plugin.heap cur.length rule.rule s.plugin.cliWorkers sa)
    {rules : RuleSource → ℕ → MarkedRule} {madeFor : ℕ → MarkedRule}
    (hrules : rules .cli = ofList .zero (cur ++ [rule]))
    (hold : ∀ t < s.plugin.heap.next, madeFor t = s.madeFor t)
    (hnew : ∀ t, s.plugin.heap.next ≤ t → madeFor t = rule) :
    ({ plugin :=
        Plugin.cliPublishRules set
          { s.plugin with
            cliRuleSet := some set
            main := { s.plugin.main with tables := sa.1 }
            api := { s.plugin.api with heap := sa.2 } }
       rules := rules
       ops := ops
       madeFor := madeFor } : Controlled).CliPhase es (cur ++ [rule]) := by
  -- the new tables lie above all that were created before, and only they are marked with the rule
  have hnext := hs.next
  exact
    { arranged :=
        { rules := h.arranged.rules
          ids := h.arranged.ids
          tables := h.arranged.tables
          count := h.arranged.count
          made := fun w i t ht => by
            obtain ⟨hlt, hg⟩ := h.arranged.made w i t ht
            change t < s.plugin.heap.next at hlt
            refine ⟨by show t < sa.2.next; omega, ?_⟩
            show (sa.2.table t).Geometry
            rwa [hs.table_eq t hlt] }
      entries := h.arranged.served_congr h.entries fun t ht => congrArg _ (hs.table_eq t ht)
      rules := hset
      memory := hrules
      numWorkers := h.numWorkers
      destroyed := fun t ht => by
        change t ∈ sa.2.destroyed at ht
        rw [hs.destroyed] at ht
        have := h.destroyed t ht
        show t < sa.2.next
        omega
      tables := fun w hw i hi => h.tables_added hs hold hnew hw hi
      reached := fun t ht => h.reached_added hs ht
      fresh := h.fresh
      nonempty := by simp
      published := ⟨rfl, hset.count.trans (List.length_map _)⟩ }

/-- A command that changes nothing but the CLI's rule set. -/
theorem step_ignored {memory : Bool} {args : CliArgs} {allocs : ℕ → Alloc}
    (hno : ¬ s.plugin.CliAdmits memory args) {cliRuleSet : Option FlowRuleSet}
    (heq : (s.plugin.cliFlowRuleAdd memory args allocs).2 =
      { s.plugin with cliRuleSet := cliRuleSet }) :
    s.step (.cli memory args allocs) =
      { plugin := { s.plugin with cliRuleSet := cliRuleSet }
        rules := s.rules
        ops := s.ops + 1
        madeFor := (s.step (.cli memory args allocs)).madeFor } := by
  have hrules : Function.update s.rules .cli (RuleWrite.applyAll (s.rules .cli) []) = s.rules :=
    Function.update_eq_self _ _
  rw [step, writes_of_not_admits hno]
  exact congrArg₂ (fun plugin rules => Controlled.mk plugin rules _ _) heq hrules

/-- A command that the CLI takes publishes one rule more. -/
theorem Prepared.command (h : s.Prepared es cur) {memory : Bool} {args : CliArgs}
    {allocs : ℕ → Alloc} {spec : FlowRule} {old set : FlowRuleSet} (hspec : cliRule args = .ok spec)
    (hensure : s.plugin.cliSetEnsure memory = some old)
    (hholds : old.Holds (cur.map MarkedRule.rule)) (htakes : old.Takes spec)
    (hset : set.Holds (cur.map MarkedRule.rule ++ [spec.register]))
    (hmem : ∀ w < s.plugin.cliWorkers, (allocs w).ok = true)
    (heq : (s.plugin.cliFlowRuleAdd memory args allocs).2 =
      (({ s.plugin with cliRuleSet := some set } : Plugin).cliCreateTables set
        allocs).cliPublishRules set) :
    (s.step (.cli memory args allocs)).CliPhase es (cur ++ [⟨spec.register, s.ops + 1⟩]) := by
  -- with memory for all workers the loop over them succeeds
  obtain ⟨sa, hs, hcreate⟩ := Plugin.cliCreateTables_eq
    (p := { s.plugin with cliRuleSet := some set }) hset hmem
  rw [List.length_map] at hs
  have hnew : ∀ t, s.plugin.heap.next ≤ t →
      (s.step (.cli memory args allocs)).madeFor t = ⟨spec.register, s.ops + 1⟩ := by
    intro t ht
    have htables : s.tablesFor (.cli memory args allocs) = ⟨spec.register, s.ops + 1⟩ := by
      rw [tablesFor, Plugin.cliTablesFor, hspec]
    exact (if_neg (Nat.not_lt.mpr ht)).trans htables
  have hrules : (s.step (.cli memory args allocs)).rules .cli =
      ofList .zero (cur ++ [⟨spec.register, s.ops + 1⟩]) := by
    have hown : (s.step (.cli memory args allocs)).rules .cli = _ := s.rules_step _
    rw [hown, writes_of_takes hspec hensure htakes hholds]
    show RuleWrite.applyAll (s.rules .cli) _ = _
    rw [h.memory, ofList_concat]
    rfl
  have hadded := h.added ⟨spec.register, s.ops + 1⟩ (s.ops + 1)
    (by simpa using hset) hs hrules (fun t ht => s.madeFor_step _ ht) hnew
  -- the step is this publication, so what holds behind it is what was just shown
  have hplugin : (s.step (.cli memory args allocs)).plugin =
      Plugin.cliPublishRules set
        { s.plugin with
          cliRuleSet := some set
          main := { s.plugin.main with tables := sa.1 }
          api := { s.plugin.api with heap := sa.2 } } := by
    show (s.plugin.cliFlowRuleAdd memory args allocs).2 = _
    rw [heq, hcreate]
  rwa [← hplugin] at hadded

/-- After a command that has the memory it needs, the API's rules still are published, or the CLI's
are. -/
theorem ApiPhase.command (h : s.ApiPhase es cur) {memory : Bool} {args : CliArgs}
    {allocs : ℕ → Alloc}
    (hmem : s.plugin.CliAdmits memory args → ∀ w < s.plugin.cliWorkers, (allocs w).ok = true) :
    (s.step (.cli memory args allocs)).ApiPhase es cur ∨
      ∃ cur', (s.step (.cli memory args allocs)).CliPhase es cur' := by
  rcases Plugin.cliFlowRuleAdd_cases h.rules memory args allocs with
    ⟨hno, cliRuleSet, hset, heq⟩ | ⟨spec, old, set, hspec, hensure, hholds, htakes, hset, heq⟩
  -- the command is refused: it changes at most its own rule set
  · have hphase := h.toApiPhase.ignored hset
    rw [step_ignored hno heq]
    refine Or.inl { toApiPhase := hphase, current := h.current, memory := h.memory,
                    cliMemory := h.cliMemory, made := fun w i t ht => ?_ }
    have hlt := (h.sound.aligned.owning.made w i t ht).1
    rw [madeFor_step s _ hlt]
    exact h.made w i t ht
  · exact Or.inr ⟨_, h.prepared.command hspec hensure hholds htakes hset
      (hmem ⟨spec, old, hspec, hensure, htakes⟩) heq⟩

/-- After a command that has the memory it needs, the CLI's rules still are published. -/
theorem CliPhase.command (h : s.CliPhase es cur) {memory : Bool} {args : CliArgs}
    {allocs : ℕ → Alloc}
    (hmem : s.plugin.CliAdmits memory args → ∀ w < s.plugin.cliWorkers, (allocs w).ok = true) :
    ∃ cur', (s.step (.cli memory args allocs)).CliPhase es cur' := by
  rcases Plugin.cliFlowRuleAdd_cases h.rules memory args allocs with
    ⟨hno, cliRuleSet, hset, heq⟩ | ⟨spec, old, set, hspec, hensure, hholds, htakes, hset, heq⟩
  · have hnoted := h.toPrepared.noted (s.ops + 1) rfl
      fun t ht => s.madeFor_step (.cli memory args allocs) ht
    rw [step_ignored hno heq]
    exact ⟨cur, { hnoted with rules := hset, nonempty := h.nonempty, published := h.published }⟩
  · exact ⟨_, h.toPrepared.command hspec hensure hholds htakes hset
      (hmem ⟨spec, old, hspec, hensure, htakes⟩) heq⟩

/-! ### Requests of the API -/

/-- The run of the API alone, as the record of its requests has it: nothing is under way. -/
def attribution (s : Controlled) (cur : List MarkedRule) : Attribution where
  plugin := s.plugin
  rules := s.rules .api
  writes := []
  stores := []
  workers := fun _ => .idle
  deleting := false
  requests := s.ops
  madeFor := s.madeFor
  applied := []
  versions := [[], cur]

/-- The rules of the API's context are the current ones. -/
theorem ApiPhase.attribution (h : s.ApiPhase es cur) : (s.attribution cur).Current cur where
  sound := ⟨es, h.sound⟩
  rules := h.current
  memory := h.memory
  mem := List.mem_cons_of_mem _ (List.mem_singleton_self _)
  nil_mem := List.mem_cons_self
  source := h.notCli
  published _ := by
    refine ⟨cur, ⟨List.mem_cons_of_mem _ (List.mem_singleton_self _), List.prefix_rfl,
      fun _ hw => absurd hw List.not_mem_nil⟩, ?_⟩
    rw [← List.length_map MarkedRule.rule, h.rule_eq, List.length_map]
    exact h.count
  count _ := by
    rw [← List.length_map MarkedRule.rule, h.rule_eq, List.length_map]
    exact h.count
  made := h.made
  old w i t ht := by
    refine (h.sound.aligned.owning.made w i t ?_).1
    rw [← h.tables]
    exact ht
  synced w i _ := by
    rw [Plugin.cellOf]
    show s.plugin.main.tables w i = if i < flowRuleSetMax then s.plugin.api.ctx.tables w i else none
    rw [h.tables]
    split
    · rfl
    · rename_i hi
      have hlen : es.length ≤ flowRuleSetMax := by simpa using h.sound.aligned.rules.length_le
      exact h.sound.aligned.table_of_ge (hlen.trans (Nat.le_of_not_lt hi)) w
  tables _ w i t ht := h.made w i t (by rw [← h.tables]; exact ht)
  alone hdel := by cases hdel
  workers _ := trivial
  counted _ hpair := absurd hpair List.not_mem_nil

/-- While the CLI has no rule, a request leaves what the API publishes. -/
theorem ApiPhase.request (h : s.ApiPhase es cur) (request : Plugin.Request) :
    ∃ es' cur', (s.step (.request request)).ApiPhase es' cur' := by
  obtain ⟨es', hphase⟩ := h.toApiPhase.serve request
  -- the API alone keeps its rules current, as no event is under way
  obtain ⟨cur', hcur⟩ := h.attribution.request rfl rfl request
    fun _ _ _ _ _ _ => rfl
  have hapi : ((s.attribution cur).serve request).plugin.api = (s.plugin.serve request).api :=
    (s.plugin.operate_api request).1
  refine ⟨es', cur', { toApiPhase := hphase, current := ?_, memory := ?_, cliMemory := ?_,
                       made := ?_ }⟩
  · show (s.plugin.serve request).api.ruleSet.Holds _
    rw [← hapi]
    exact hcur.rules
  · exact (s.rules_step (.request request)).trans hcur.memory
  · exact (s.rules_step_of_ne (.request request) RuleSource.noConfusion).trans h.cliMemory
  · show ∀ w i t, (s.plugin.serve request).api.ctx.tables w i = some t → _
    rw [← hapi]
    exact hcur.made

/-- Setting up the context for no more workers than the CLI has served. -/
theorem Prepared.ensure (h : s.Prepared es cur) {memory : Bool}
    (hfew : s.plugin.ready = true ∨ memory = false ∨ s.plugin.vlibNumWorkers = 0) :
    ({ s with plugin := s.plugin.apiCtxEnsure memory } : Controlled).Prepared es cur := by
  rcases Plugin.apiCtxEnsure_cases memory s.plugin with heq | ⟨hready, ruleSet, hset, heq⟩
  · rw [heq]
    exact h
  rcases hfew with ht | rfl | hvlib
  · rw [hready] at ht
    cases ht
  · rw [Plugin.apiCtxEnsure, hready]
    exact h
  -- the context is new: it has no rule, no table and no entry in the ring
  · obtain ⟨rfl, -, hnone⟩ := h.fresh hready
    have hworkers : s.plugin.cliWorkers = 1 := by
      rw [Plugin.cliWorkers, h.numWorkers, hready]
      rfl
    rw [heq]
    refine { arranged := ?_, entries := fun e he => absurd he List.not_mem_nil, rules := h.rules,
             memory := h.memory, numWorkers := rfl, destroyed := h.destroyed, tables := ?_,
             reached := ?_, fresh := fun hf => by cases hf }
    · exact
        { rules := .of_create hset
          ids := rfl
          tables := fun _ => rfl
          count := rfl
          made := fun w i t ht => by cases ht }
    · intro w hw
      refine h.tables w ?_
      rw [hworkers]
      simpa [Plugin.cliWorkers, hvlib] using hw
    · intro t ht
      rcases h.reached t ht with hcli | ⟨place, hplace⟩
      · exact Or.inl hcli
      · rw [hnone place] at hplace
        cases hplace

/-- A request that fails leaves the CLI's tables alone. -/
theorem Prepared.failed (h : s.Prepared es cur) {heap : Heap} (hundone : s.plugin.heap.Undone heap)
    (idSeq : UInt64) :
    ({ s with plugin := { s.plugin with
        api := { s.plugin.api with heap := heap }, idSeq := idSeq } } : Controlled).Prepared es
      cur := by
  refine { arranged := h.arranged.undone hundone, entries := ?_, rules := h.rules,
           memory := h.memory, numWorkers := h.numWorkers, destroyed := ?_, tables := ?_,
           reached := ?_, fresh := h.fresh }
  · exact h.arranged.served_congr h.entries fun t ht => congrArg _ (hundone.table_eq t ht)
  -- what has been destroyed since are tables that the request had created itself
  · obtain ⟨l, hl, -, hmem⟩ := hundone.destroyed
    intro t ht
    change t ∈ heap.destroyed at ht
    rw [hl, List.mem_append, hmem] at ht
    have hnext := hundone.next_le
    show t < heap.next
    rcases ht with ⟨-, hlt⟩ | hin
    · exact hlt
    · exact Nat.lt_of_lt_of_le (h.destroyed t hin) hnext
  · intro w hw i hi
    obtain ⟨t, ht, hlive, hmade, hsized⟩ := h.tables w hw i hi
    refine ⟨t, ht, (hundone.live_iff t).mpr hlive, hmade, ?_⟩
    show Plugin.SizedFor heap t _
    rw [Plugin.SizedFor, hundone.table_eq t hlive.1]
    exact hsized
  · intro t ht
    exact h.reached t ((hundone.live_iff t).mp ht)

/-- Once the CLI has published, a request that is not admitted leaves its rules published. -/
theorem CliPhase.request (h : s.CliPhase es cur) {request : Plugin.Request}
    (hno : ¬ (s.plugin.apiCtxEnsure request.env.memory).Admits request)
    (hfew : s.plugin.ready = true ∨ request.env.memory = false ∨ s.plugin.vlibNumWorkers = 0) :
    (s.step (.request request)).CliPhase es cur := by
  have hrules : (s.step (.request request)).rules .cli = s.rules .cli :=
    s.rules_step_of_ne (.request request) RuleSource.noConfusion
  have hq := (h.toPrepared.noted (s.ops + 1) hrules fun t ht =>
    s.madeFor_step (.request request) ht).ensure hfew
  have hpublished : (s.plugin.apiCtxEnsure request.env.memory).main.flowRuleSet = some .cli ∧
      (s.plugin.apiCtxEnsure request.env.memory).cliRef.count = cur.length := by
    rcases Plugin.apiCtxEnsure_cases request.env.memory s.plugin with
      hsame | ⟨-, ruleSet, -, hsame⟩
    · rw [hsame]
      exact h.published
    · rw [hsame]
      exact h.published
  -- a request that succeeds would have been admitted
  have hfailed : ((s.plugin.apiCtxEnsure request.env.memory).outcome request).1 ≠ .ok := fun hok =>
    hno (Plugin.admits_of_outcome hq.arranged hq.entries hok)
  obtain ⟨heap, hundone, hapi⟩ := Plugin.outcome_failed hq.arranged hfailed
  have hplugin : (s.step (.request request)).plugin = _ := Plugin.serve_eq s.plugin request
  rw [Plugin.publishIf, if_neg hfailed, hapi] at hplugin
  have hprepared := hq.failed hundone (s.plugin.serve request).idSeq
  have hstep : s.step (.request request) =
      { plugin := (s.step (.request request)).plugin
        rules := (s.step (.request request)).rules
        ops := s.ops + 1
        madeFor := (s.step (.request request)).madeFor } := rfl
  rw [hstep, hplugin]
  exact { hprepared with nonempty := h.nonempty, published := hpublished }

/-! ### Runs -/

/-- The API publishes, or the CLI does. -/
def InPhase (s : Controlled) : Prop :=
  (∃ es cur, s.ApiPhase es cur) ∨ ∃ es cur, s.CliPhase es cur

/-- At first the API publishes no rules. -/
theorem inPhase_start (vlibNumWorkers : ℕ) : (start vlibNumWorkers).InPhase :=
  Or.inl ⟨[], [],
    { sound := Plugin.sound_start vlibNumWorkers
      rules := Plugin.holds_noRules
      numWorkers := rfl
      tables := rfl
      notCli := by
        intro hcli
        cases hcli
      count := rfl
      current := Plugin.holds_noRules
      memory := rfl
      cliMemory := rfl
      made := fun _ _ _ ht => by cases ht }⟩

/-- What is published is coherent in either phase. -/
theorem InPhase.coherent (h : s.InPhase) : s.Coherent := by
  rcases h with ⟨es, cur, h⟩ | ⟨es, cur, h⟩
  · exact h.coherent
  · exact h.coherent

/-- One command or request. -/
theorem InPhase.step (h : s.InPhase) {op : ControlOp} (hop : s.plugin.Orderly op) :
    (s.step op).InPhase := by
  cases op with
  | cli memory args allocs =>
    rcases h with ⟨es, cur, h⟩ | ⟨es, cur, h⟩
    · exact (h.command hop).imp (fun h => ⟨es, cur, h⟩) fun h => ⟨es, h⟩
    · exact Or.inr ⟨es, h.command hop⟩
  | request request =>
    rcases h with ⟨es, cur, h⟩ | ⟨es, cur, h⟩
    · exact Or.inl (h.request request)
    · rcases hop with hzero | ⟨hno, hfew⟩
      · rw [h.rules.count, List.length_eq_zero_iff, List.map_eq_nil_iff] at hzero
        exact absurd hzero h.nonempty
      · exact Or.inr ⟨es, cur, h.request hno hfew⟩

/-- A command that adds a rule over the source address. -/
def sourceRuleArgs (name : List UInt8) : CliArgs :=
  { unknownInput := false, name := some name, fields := some (asciiBytes "src_ip"), maxKeys := 2 }

/-- The API adds a rule, and the CLI two. -/
def apiThenCli : List ControlOp :=
  [.request (.flowRuleAdd (envAt 0) protoRuleMsg),
    .cli true (sourceRuleArgs [0x61, 0x61]) Plugin.plenty,
    .cli true (sourceRuleArgs [0x62, 0x62]) Plugin.plenty]

/-- The CLI adds a rule, then the API, then the CLI again. -/
def cliApiCli : List ControlOp :=
  [.cli true (sourceRuleArgs [0x61, 0x61]) Plugin.plenty,
    .request (.flowRuleAdd (envAt 0) protoRuleMsg),
    .cli true (sourceRuleArgs [0x62, 0x62]) Plugin.plenty]

end Controlled

end InFMon
