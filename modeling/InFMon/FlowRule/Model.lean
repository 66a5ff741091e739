import InFMon.Foundations.DenseArray
import InFMon.Foundations.MachineWord

/-! # Flow rules

The rules of `flow_rule.c`, their validation, and the rule set with its budget of keys. A rule's name
is the byte string in front of the terminating NUL; the `field_count` of a rule is the length of its
list of fields, whose entries are the raw values of the enumeration. -/

namespace InFMon

open CountedLoop MachineWord

/-! ### Constants and results -/

/-- `INFMON_FIELD__COUNT`. -/
def fieldCountMax : ℕ := 7

/-- `INFMON_EVICTION__COUNT`. -/
def evictionCount : ℕ := 1

/-- `INFMON_FLOW_RULE_NAME_MAX`. -/
def flowRuleNameMax : ℕ := 31

/-- `INFMON_FLOW_RULE_KEY_MAX`. -/
def flowRuleKeyMax : ℕ := 64

/-- `INFMON_FLOW_RULE_FIELDS_MAX`. -/
def flowRuleFieldsMax : ℕ := fieldCountMax

/-- `INFMON_FLOW_RULE_MAX_KEYS_BUDGET`. -/
def flowRuleMaxKeysBudget : ℕ := 16 * 1024 * 1024

/-- `INFMON_FLOW_RULE_SET_MAX`. -/
def flowRuleSetMax : ℕ := 16

/-- `infmon_flow_rule_result_t`. -/
inductive FlowRuleResult where
  | ok
  | errNameExists
  | errNotFound
  | errInvalidSpec
  | errBudgetExceeded
  | errSetFull
  | errInternal
  deriving DecidableEq, Repr

/-! ### Rules -/

/-- `infmon_flow_rule_t`. -/
structure FlowRule where
  name : List UInt8
  fields : List ℕ
  maxKeys : ℕ
  evictionPolicy : ℕ
  keyWidth : ℕ
  deriving DecidableEq, Repr

/-- A rule as `memset` leaves it. -/
def FlowRule.zero : FlowRule where
  name := []
  fields := []
  maxKeys := 0
  evictionPolicy := 0
  keyWidth := 0

/-- `field_widths`: source and destination address, protocol, DSCP, mirror source address, source
and destination port. -/
def fieldWidths : List ℕ := [16, 16, 1, 1, 16, 2, 2]

/-- `infmon_field_width`. -/
def fieldWidth (field : ℕ) : ℕ := if field ≥ fieldCountMax then 0 else fieldWidths.getD field 0

/-- The first character of a name: a lower-case letter or a digit. -/
def nameFirstValid (c : UInt8) : Bool :=
  (0x61 ≤ c && c ≤ 0x7A) || (0x30 ≤ c && c ≤ 0x39)

/-- Any other character of a name: also an underscore or a hyphen. -/
def nameRestValid (c : UInt8) : Bool := nameFirstValid c || c == 0x5F || c == 0x2D

/-- `name_valid`. -/
def nameValid (name : List UInt8) : Bool :=
  if name.length < 2 ∨ name.length > flowRuleNameMax then false
  else
    match name with
    | [] => false
    | c :: rest => nameFirstValid c && rest.all nameRestValid

/-- The loop of `infmon_flow_rule_key_width`, with `w` summed up so far. -/
def keyWidthFrom (w : ℕ) : List ℕ → ℕ
  | [] => w
  -- one unknown field makes the whole width zero
  | field :: fields => if fieldWidth field = 0 then 0 else keyWidthFrom (w + fieldWidth field) fields

/-- `infmon_flow_rule_key_width`. -/
def flowRuleKeyWidth (fields : List ℕ) : ℕ := keyWidthFrom 0 fields

/-- The check for unknown and repeated fields, with the fields seen so far. -/
def fieldsValid (seen : List ℕ) : List ℕ → Bool
  | [] => true
  | field :: fields =>
    if field ≥ fieldCountMax then false
    else if field ∈ seen then false
    else fieldsValid (field :: seen) fields

/-- `infmon_flow_rule_validate`. -/
def flowRuleValidate (rule : FlowRule) : FlowRuleResult :=
  if nameValid rule.name = false then .errInvalidSpec
  else if rule.fields.length = 0 ∨ rule.fields.length > flowRuleFieldsMax then .errInvalidSpec
  else if fieldsValid [] rule.fields = false then .errInvalidSpec
  else if rule.maxKeys = 0 then .errInvalidSpec
  else if rule.maxKeys > flowRuleMaxKeysBudget then .errInvalidSpec
  else if rule.evictionPolicy ≥ evictionCount then .errInvalidSpec
  else
    let kw := flowRuleKeyWidth rule.fields
    if kw = 0 ∨ kw > flowRuleKeyMax then .errInvalidSpec else .ok

/-! ### The rule set -/

/-- `struct infmon_flow_rule_set`. -/
structure FlowRuleSet where
  rules : ℕ → FlowRule
  count : ℕ
  maxKeysBudget : ℕ
  usedKeys : ℕ

namespace FlowRuleSet

/-- `infmon_flow_rule_set_create`, with memory. -/
def create (maxKeysBudget : ℕ) : Option FlowRuleSet :=
  if maxKeysBudget > flowRuleMaxKeysBudget then none
  else
    some { rules := fun _ => .zero, count := 0, maxKeysBudget := maxKeysBudget, usedKeys := 0 }

/-- The index of the first rule with a name, as the loops over the set find it. -/
def indexOf (set : FlowRuleSet) (name : List UInt8) : Option ℕ :=
  (List.range set.count).find? fun i => decide ((set.rules i).name = name)

/-- `infmon_flow_rule_find`. -/
def find (set : FlowRuleSet) (name : List UInt8) : Option FlowRule := (set.indexOf name).map set.rules

/-- `infmon_flow_rule_get`. -/
def get (set : FlowRuleSet) (index : ℕ) : Option FlowRule :=
  if index ≥ set.count then none else some (set.rules index)

/-- `infmon_flow_rule_add`. -/
def add (set : FlowRuleSet) (rule : FlowRule) : FlowRuleResult × FlowRuleSet :=
  if flowRuleValidate rule ≠ .ok then (flowRuleValidate rule, set)
  -- the checks of the set come after those of the rule itself
  else if set.count ≥ flowRuleSetMax then (.errSetFull, set)
  else if (set.find rule.name).isSome then (.errNameExists, set)
  else if set.usedKeys + rule.maxKeys > set.maxKeysBudget then (.errBudgetExceeded, set)
  else
    -- the width is computed here, whatever the caller has put in
    let dst := { rule with keyWidth := flowRuleKeyWidth rule.fields }
    (.ok, { set with
      rules := Function.update set.rules set.count dst
      usedKeys := u32 (set.usedKeys + dst.maxKeys)
      count := set.count + 1 })

/-- `infmon_flow_rule_rm`. -/
def rm (set : FlowRuleSet) (name : List UInt8) : FlowRuleResult × FlowRuleSet :=
  match set.indexOf name with
  | none => (.errNotFound, set)
  | some i =>
    let usedKeys := sub32 set.usedKeys (set.rules i).maxKeys
    -- shift the remaining rules down
    let rules := forUpTo (set.count - 1 - i)
      (fun m rules => Function.update rules (i + m) (rules (i + m + 1))) set.rules
    let count := set.count - 1
    (.ok, { set with
      rules := Function.update rules count .zero
      usedKeys := usedKeys
      count := count })

end FlowRuleSet

end InFMon
