import InFMon.Config.Validate
import Mathlib.Algebra.Order.BigOperators.Group.List

/-! # The rule set of the front end

`config/crud.rs`: the rules of a configuration as a set with a budget of keys. Adding the rules of a
list one after another succeeds for the lists that `validate_config` accepts at once. -/

namespace InFMon.Frontend

open Checks

/-- `CrudError`. -/
inductive CrudError where
  | nameExists (name : String)
  | notFound (name : String)
  | invalidSpec (e : ValidationError)
  | budgetExceeded (used : UInt64) (requested budget : UInt32)
  | setFull (max : ℕ)
  deriving DecidableEq, Repr

/-- `FlowRuleSet`. -/
structure FlowRuleSet where
  rules : List FlowRule
  maxKeysBudget : UInt32

namespace FlowRuleSet

/-- `FlowRuleSet::new`. -/
def new (maxKeysBudget : UInt32) : FlowRuleSet := ⟨[], maxKeysBudget⟩

/-- `FlowRuleSet::from_config`. -/
def fromConfig (config : Config) : Except CrudError FlowRuleSet :=
  match validateConfig config with
  | .error e => .error (.invalidSpec e)
  | .ok () => .ok ⟨config.flowRules, Frontend.maxKeysBudget⟩

/-- `FlowRuleSet::used_keys`. -/
def usedKeys (set : FlowRuleSet) : UInt64 := totalKeys set.rules

/-- `FlowRuleSet::add`. -/
def add (set : FlowRuleSet) (rule : FlowRule) : Except CrudError Unit × FlowRuleSet :=
  match validateRule rule with
  | .error e => (.error (.invalidSpec e), set)
  | .ok () =>
    if set.rules.length ≥ flowRuleSetMax then (.error (.setFull flowRuleSetMax), set)
    else if set.rules.any fun r => r.name == rule.name then (.error (.nameExists rule.name), set)
    else if set.usedKeys + rule.maxKeys.toUInt64 > set.maxKeysBudget.toUInt64 then
      (.error (.budgetExceeded set.usedKeys rule.maxKeys set.maxKeysBudget), set)
    else (.ok (), { set with rules := set.rules ++ [rule] })

/-- `FlowRuleSet::rm`. -/
def rm (set : FlowRuleSet) (name : String) : Except CrudError FlowRule × FlowRuleSet :=
  match set.rules.findFinIdx? fun r => r.name == name with
  | none => (.error (.notFound name), set)
  | some pos => (.ok set.rules[pos], { set with rules := set.rules.eraseIdx pos })

/-- The results of adding the rules of a list one after another. -/
def addEach (set : FlowRuleSet) : List FlowRule → List (Except CrudError Unit)
  | [] => []
  | rule :: rules => (set.add rule).1 :: (set.add rule).2.addEach rules

/-! ### Adding -/

/-- A rule is appended, or the set stays as it is. -/
theorem add_eq (set : FlowRuleSet) (rule : FlowRule) :
    (set.add rule).2 =
      if (set.add rule).1 = .ok () then { set with rules := set.rules ++ [rule] } else set := by
  rw [add]
  cases validateRule rule with
  | error e => rfl
  | ok u =>
    dsimp only
    split
    · rfl
    split
    · rfl
    split
    · rfl
    · rfl

/-- The rule is valid, and the set has a place, the name and the keys for it. -/
structure Takes (set : FlowRuleSet) (rule : FlowRule) : Prop where
  valid : rule.Valid
  place : set.rules.length < flowRuleSetMax
  name : rule.name ∉ set.rules.map FlowRule.name
  keys : limitSum set.rules + rule.maxKeys.toNat ≤ set.maxKeysBudget.toNat

/-- The name of a rule in the list is taken. -/
theorem any_name_iff {rules : List FlowRule} {name : String} :
    (rules.any fun r => r.name == name) = true ↔ name ∈ rules.map FlowRule.name := by
  simp [List.any_eq_true, List.mem_map]

/-- Up to sixteen limits and one more are added up without an overflow. -/
theorem toNat_usedKeys_add {set : FlowRuleSet} (h : set.rules.length < flowRuleSetMax)
    (maxKeys : UInt32) :
    (set.usedKeys + maxKeys.toUInt64).toNat = limitSum set.rules + maxKeys.toNat := by
  have hle := limitSum_lt set.rules
  have hlt := maxKeys.toNat_lt
  rw [flowRuleSetMax] at h
  rw [UInt64.toNat_add, usedKeys, toNat_totalKeys (Nat.le_of_lt h), UInt32.toNat_toUInt64,
    Nat.mod_eq_of_lt (by omega)]

/-- `FlowRuleSet::add` succeeds on the rules that the set takes. -/
theorem add_ok_iff (set : FlowRuleSet) (rule : FlowRule) :
    (set.add rule).1 = .ok () ↔ set.Takes rule := by
  rw [add]
  cases hvalid : validateRule rule with
  | error e =>
    refine iff_of_false (by simp) fun h => ?_
    rw [validateRule_ok_iff.mpr h.valid] at hvalid
    cases hvalid
  | ok u =>
    have hrule := validateRule_ok_iff.mp hvalid
    dsimp only
    by_cases hfull : set.rules.length ≥ flowRuleSetMax
    · rw [if_pos hfull]
      exact iff_of_false (by simp) fun h => absurd h.place (Nat.not_lt.mpr hfull)
    rw [if_neg hfull]
    have hplace : set.rules.length < flowRuleSetMax := Nat.lt_of_not_le hfull
    by_cases hname : (set.rules.any fun r => r.name == rule.name) = true
    · rw [if_pos hname]
      exact iff_of_false (by simp) fun h => h.name (any_name_iff.mp hname)
    rw [if_neg hname]
    -- at most sixteen limits of 32 bits do not wrap when summed in 64
    have hkeys : set.usedKeys + rule.maxKeys.toUInt64 > set.maxKeysBudget.toUInt64 ↔
        ¬ limitSum set.rules + rule.maxKeys.toNat ≤ set.maxKeysBudget.toNat := by
      rw [gt_iff_lt, UInt64.lt_iff_toNat_lt, toNat_usedKeys_add hplace, Nat.not_le]
      rfl
    by_cases hover : set.usedKeys + rule.maxKeys.toUInt64 > set.maxKeysBudget.toUInt64
    · rw [if_pos hover]
      exact iff_of_false (by simp) fun h => hkeys.mp hover h.keys
    · rw [if_neg hover]
      exact iff_of_true rfl
        ⟨hrule, hplace, fun h => hname (any_name_iff.mpr h), not_not.mp fun h => hover (hkeys.mpr h)⟩

end FlowRuleSet

/-! ### Lists of valid rules -/

/-- The empty list of rules is valid. -/
theorem validRules_nil : ValidRules [] :=
  ⟨List.nodup_nil, fun _ h => absurd h List.not_mem_nil, Nat.zero_le _, Nat.zero_le _⟩

/-- What is left of valid rules is valid. -/
theorem ValidRules.sublist {rules part : List FlowRule} (h : ValidRules rules)
    (hpart : part.Sublist rules) : ValidRules part where
  names := h.names.sublist (hpart.map _)
  valid := fun rule hr => h.valid rule (hpart.subset hr)
  length_le := hpart.length_le.trans h.length_le
  limitSum_le :=
    ((hpart.map _).sum_le_sum fun _ _ => Nat.zero_le _).trans h.limitSum_le

/-- The order of the rules does not matter. -/
theorem ValidRules.perm {rules rules' : List FlowRule} (h : ValidRules rules)
    (hperm : rules.Perm rules') : ValidRules rules' where
  names := (hperm.map _).nodup_iff.mp h.names
  valid := fun rule hr => h.valid rule (hperm.mem_iff.mpr hr)
  length_le := hperm.length_eq ▸ h.length_le
  limitSum_le := (hperm.map fun r => r.maxKeys.toNat).sum_eq.symm.le.trans h.limitSum_le

/-- Valid rules and one more are valid when a set with the full budget takes it. -/
theorem validRules_concat_iff {rules : List FlowRule} {rule : FlowRule} (h : ValidRules rules) :
    ValidRules (rules ++ [rule]) ↔ FlowRuleSet.Takes ⟨rules, maxKeysBudget⟩ rule := by
  constructor
  · intro hall
    have hnames := hall.names
    have hlength := hall.length_le
    have hkeys := hall.limitSum_le
    rw [List.map_append, List.nodup_append] at hnames
    rw [List.length_append, List.length_singleton] at hlength
    rw [limitSum_append] at hkeys
    exact ⟨hall.valid rule (by simp), hlength,
      fun hmem => hnames.2.2 _ hmem _ (by simp) rfl, hkeys⟩
  · intro htakes
    refine ⟨?_, ?_, ?_, ?_⟩
    · rw [List.map_append, List.nodup_append]
      refine ⟨h.names, List.nodup_singleton _, fun a ha b hb hab => htakes.name ?_⟩
      obtain rfl : b = rule.name := List.mem_singleton.mp hb
      exact hab ▸ ha
    · intro r hr
      rcases List.mem_append.mp hr with hr | hr
      · exact h.valid r hr
      · rw [List.mem_singleton.mp hr]
        exact htakes.valid
    · rw [List.length_append, List.length_singleton]
      exact htakes.place
    · rw [limitSum_append]
      exact htakes.keys

/-- Adding the rest of a list behind valid rules succeeds when all of them together are valid. -/
theorem addEach_ok_iff {rules more : List FlowRule} (h : ValidRules rules) :
    (∀ r ∈ FlowRuleSet.addEach ⟨rules, maxKeysBudget⟩ more, r = .ok ()) ↔
      ValidRules (rules ++ more) := by
  induction more generalizing rules with
  | nil =>
    rw [List.append_nil]
    exact iff_of_true (fun _ hr => absurd hr List.not_mem_nil) h
  | cons rule more ih =>
    rw [FlowRuleSet.addEach, List.forall_mem_cons, List.append_cons, FlowRuleSet.add_eq]
    by_cases hadd : (FlowRuleSet.add ⟨rules, maxKeysBudget⟩ rule).1 = .ok ()
    · rw [if_pos hadd, and_iff_right hadd]
      exact ih ((validRules_concat_iff h).mpr ((FlowRuleSet.add_ok_iff _ _).mp hadd))
    · -- one rejected rule: no list that starts with these rules is valid
      refine iff_of_false (fun hall => hadd hall.1) fun hall => hadd ?_
      refine (FlowRuleSet.add_ok_iff _ _).mpr ((validRules_concat_iff h).mp ?_)
      exact hall.sublist (List.sublist_append_left _ _)

/-! ### Loading a configuration -/

/-- Every section of the configuration but the flow rules is absent or valid. -/
structure Config.OthersValid (config : Config) : Prop where
  frontend : optional validateFrontend config.frontend = .ok ()
  logging : optional validateLogging config.logging = .ok ()
  exporters : optional (validateExporters 0 []) config.exporters = .ok ()

/-- A configuration that is valid otherwise is valid when its rules are. -/
theorem validateConfig_ok_iff {config : Config} (h : config.OthersValid) :
    validateConfig config = .ok () ↔ ValidRules config.flowRules := by
  rw [validateConfig, bind_ok_iff, bind_ok_iff, bind_ok_iff, and_iff_right h.frontend,
    and_iff_right h.logging, and_iff_left h.exporters, validateFlowRules_ok_iff]

/-- `FlowRuleSet::from_config` loads what `validate_config` accepts. -/
theorem fromConfig_ok_iff {config : Config} :
    (∃ set, FlowRuleSet.fromConfig config = .ok set) ↔ validateConfig config = .ok () := by
  rw [FlowRuleSet.fromConfig]
  cases validateConfig config with
  | error e => exact iff_of_false (fun ⟨_, h⟩ => by cases h) (by simp)
  | ok u => exact iff_of_true ⟨_, rfl⟩ rfl

/-- The rules of a list can be added to a new set when they are valid together. -/
theorem addEach_new_ok_iff {rules : List FlowRule} :
    (∀ r ∈ (FlowRuleSet.new maxKeysBudget).addEach rules, r = .ok ()) ↔ ValidRules rules :=
  addEach_ok_iff validRules_nil

/-- Bulk validation accepts a list of rules exactly when adding them one after another to an empty set
succeeds for every rule. The order of the list does not matter for that, and of rules that have been
loaded every prefix of every order can be added. -/
theorem validateConfig_iff_addEach (config : Config) (h : config.OthersValid) :
    (validateConfig config = .ok () ↔
      ∀ r ∈ (FlowRuleSet.new maxKeysBudget).addEach config.flowRules, r = .ok ()) ∧
    ∀ rules' : List FlowRule, rules'.Perm config.flowRules →
      (validateConfig { config with flowRules := rules' } = .ok () ↔
        validateConfig config = .ok ()) ∧
      ((∃ set, FlowRuleSet.fromConfig config = .ok set) → ∀ k,
        ∀ r ∈ (FlowRuleSet.new maxKeysBudget).addEach (rules'.take k), r = .ok ()) := by
  refine ⟨?_, fun rules' hperm => ⟨?_, fun hload k => ?_⟩⟩
  · rw [validateConfig_ok_iff h, addEach_new_ok_iff]
  · have h' : Config.OthersValid { config with flowRules := rules' } :=
      ⟨h.frontend, h.logging, h.exporters⟩
    rw [validateConfig_ok_iff h, validateConfig_ok_iff h']
    exact ⟨fun hrules => hrules.perm hperm, fun hrules => hrules.perm hperm.symm⟩
  · have hrules := (validateConfig_ok_iff h).mp (fromConfig_ok_iff.mp hload)
    exact addEach_new_ok_iff.mpr ((hrules.perm hperm.symm).sublist (List.take_sublist k rules'))

/-- Two rules beside a front end that polls every second. -/
def twoRules : Config where
  frontend := some { pollingIntervalMs := 1000, startupTimeout := "5s", shutdownGraceMs := 2000 }
  flowRules := [⟨"web", [.dstPort], 1024, .lruDrop⟩, ⟨"hosts", [.srcIp, .dstIp], 4096, .lruDrop⟩]
  exporters := none
  logging := none

/-- The two rules in the other order: both can be added, and the first of them alone. -/
theorem twoRules_loaded_in_any_order :
    validateConfig { twoRules with flowRules := twoRules.flowRules.reverse } = .ok () ∧
    (FlowRuleSet.new maxKeysBudget).addEach (twoRules.flowRules.reverse.take 1) = [.ok ()] := by
  have h : twoRules.OthersValid := ⟨by decide +kernel, rfl, rfl⟩
  have hvalid : validateConfig twoRules = .ok () :=
    (validateConfig_ok_iff h).mpr (validateFlowRules_ok_iff.mp (by decide +kernel))
  obtain ⟨hsame, hprefix⟩ := (validateConfig_iff_addEach twoRules h).2 _ (List.reverse_perm _)
  refine ⟨hsame.mpr hvalid, List.cons_eq_cons.mpr ⟨?_, rfl⟩⟩
  exact hprefix (fromConfig_ok_iff.mpr hvalid) 1 _ List.mem_cons_self

end InFMon.Frontend
