import InFMon.FlowRule.Model
import Mathlib.Algebra.BigOperators.Group.List.Basic
import Mathlib.Data.List.Nodup

/-! # The rule set as a list

A rule set holds a list of rules with distinct names, all of them validated and together within the
budget. Adding appends to the list, removing takes one rule out, and an error leaves the set as it
is. -/

namespace InFMon

open CountedLoop DenseArray MachineWord

/-! ### Valid rules -/

/-- What `infmon_flow_rule_validate` checks. -/
structure FlowRule.Valid (rule : FlowRule) : Prop where
  name : nameValid rule.name = true
  fields_ne : rule.fields.length ≠ 0
  fields_le : rule.fields.length ≤ flowRuleFieldsMax
  fields : fieldsValid [] rule.fields = true
  maxKeys_ne : rule.maxKeys ≠ 0
  maxKeys_le : rule.maxKeys ≤ flowRuleMaxKeysBudget
  evictionPolicy : rule.evictionPolicy < evictionCount
  keyWidth_ne : flowRuleKeyWidth rule.fields ≠ 0
  keyWidth_le : flowRuleKeyWidth rule.fields ≤ flowRuleKeyMax

/-- Every check that fails has the same error. -/
theorem flowRuleValidate_cases (rule : FlowRule) :
    (flowRuleValidate rule = .ok ∧ rule.Valid) ∨
      (flowRuleValidate rule = .errInvalidSpec ∧ ¬ rule.Valid) := by
  rw [flowRuleValidate]
  -- one check after the other, in the order of the function
  by_cases hname : nameValid rule.name = false
  · exact Or.inr ⟨if_pos hname, fun h => by simp [h.name] at hname⟩
  rw [if_neg hname]
  by_cases hlength : rule.fields.length = 0 ∨ rule.fields.length > flowRuleFieldsMax
  · exact Or.inr ⟨if_pos hlength,
      fun h => hlength.elim h.fields_ne (Nat.not_lt.mpr h.fields_le)⟩
  rw [if_neg hlength]
  by_cases hfields : fieldsValid [] rule.fields = false
  · exact Or.inr ⟨if_pos hfields, fun h => by simp [h.fields] at hfields⟩
  rw [if_neg hfields]
  by_cases hzero : rule.maxKeys = 0
  · exact Or.inr ⟨if_pos hzero, fun h => h.maxKeys_ne hzero⟩
  rw [if_neg hzero]
  by_cases hbudget : rule.maxKeys > flowRuleMaxKeysBudget
  · exact Or.inr ⟨if_pos hbudget, fun h => absurd h.maxKeys_le (Nat.not_le.mpr hbudget)⟩
  rw [if_neg hbudget]
  by_cases hpolicy : rule.evictionPolicy ≥ evictionCount
  · exact Or.inr ⟨if_pos hpolicy, fun h => absurd h.evictionPolicy (Nat.not_lt.mpr hpolicy)⟩
  rw [if_neg hpolicy]
  dsimp only
  by_cases hwidth : flowRuleKeyWidth rule.fields = 0 ∨ flowRuleKeyWidth rule.fields > flowRuleKeyMax
  · exact Or.inr ⟨if_pos hwidth,
      fun h => hwidth.elim h.keyWidth_ne (Nat.not_lt.mpr h.keyWidth_le)⟩
  rw [not_or] at hlength hwidth
  exact Or.inl ⟨if_neg (not_or.mpr hwidth),
    { name := by simpa using hname
      fields_ne := hlength.1
      fields_le := Nat.le_of_not_lt hlength.2
      fields := by simpa using hfields
      maxKeys_ne := hzero
      maxKeys_le := Nat.le_of_not_lt hbudget
      evictionPolicy := Nat.lt_of_not_le hpolicy
      keyWidth_ne := hwidth.1
      keyWidth_le := Nat.le_of_not_lt hwidth.2 }⟩

/-- The validation accepts the valid rules. -/
theorem flowRuleValidate_ok_iff {rule : FlowRule} : flowRuleValidate rule = .ok ↔ rule.Valid := by
  rcases flowRuleValidate_cases rule with ⟨hok, hvalid⟩ | ⟨herr, hinvalid⟩
  · exact iff_of_true hok hvalid
  · exact iff_of_false (by simp [herr]) hinvalid

/-- An error of the validation is `INFMON_FLOW_RULE_ERR_INVALID_SPEC`. -/
theorem flowRuleValidate_eq_of_ne {rule : FlowRule} (h : flowRuleValidate rule ≠ .ok) :
    flowRuleValidate rule = .errInvalidSpec := by
  rcases flowRuleValidate_cases rule with ⟨hok, -⟩ | ⟨herr, -⟩
  · exact absurd hok h
  · exact herr

/-! ### Registered rules -/

/-- What `infmon_flow_rule_add` guarantees of a rule in the set. -/
structure FlowRule.Registered (rule : FlowRule) : Prop where
  maxKeys_pos : 0 < rule.maxKeys
  maxKeys_le : rule.maxKeys ≤ flowRuleMaxKeysBudget
  keyWidth_eq : rule.keyWidth = flowRuleKeyWidth rule.fields
  keyWidth_pos : 0 < rule.keyWidth
  keyWidth_le : rule.keyWidth ≤ flowRuleKeyMax

/-- The rule as it stands in the set, with its key width computed. -/
def FlowRule.register (rule : FlowRule) : FlowRule :=
  { rule with keyWidth := flowRuleKeyWidth rule.fields }

/-- A rule that passes validation can be registered. -/
theorem FlowRule.register_registered {rule : FlowRule} (h : flowRuleValidate rule = .ok) :
    rule.register.Registered := by
  have hvalid := flowRuleValidate_ok_iff.mp h
  exact { maxKeys_pos := Nat.pos_of_ne_zero hvalid.maxKeys_ne, maxKeys_le := hvalid.maxKeys_le,
          keyWidth_eq := rfl, keyWidth_pos := Nat.pos_of_ne_zero hvalid.keyWidth_ne,
          keyWidth_le := hvalid.keyWidth_le }

namespace FlowRuleSet

/-! ### The list a set holds -/

/-- The set holds the list `rs`. -/
structure Holds (set : FlowRuleSet) (rs : List FlowRule) : Prop where
  rules : set.rules = ofList .zero rs
  count : set.count = rs.length
  usedKeys : set.usedKeys = (rs.map FlowRule.maxKeys).sum
  usedKeys_le : set.usedKeys ≤ set.maxKeysBudget
  budget_le : set.maxKeysBudget ≤ flowRuleMaxKeysBudget
  names : (rs.map FlowRule.name).Nodup
  length_le : rs.length ≤ flowRuleSetMax
  registered : ∀ rule ∈ rs, rule.Registered

/-- A new rule set holds no rules. -/
theorem Holds.of_create {budget : ℕ} {set : FlowRuleSet} (h : create budget = some set) :
    set.Holds [] := by
  rw [create] at h
  split at h
  · cases h
  rename_i hle
  cases h
  exact { rules := rfl, count := rfl, usedKeys := rfl, usedKeys_le := Nat.zero_le _,
          budget_le := Nat.le_of_not_lt hle, names := List.nodup_nil, length_le := Nat.zero_le _,
          registered := fun _ hr => absurd hr List.not_mem_nil }

variable {set set' : FlowRuleSet} {rs : List FlowRule}

/-- Two sets that hold the same list under the same budget are the same. -/
theorem Holds.unique (h : set.Holds rs) (h' : set'.Holds rs)
    (hbudget : set'.maxKeysBudget = set.maxKeysBudget) : set' = set := by
  cases set
  cases set'
  rw [mk.injEq]
  exact ⟨h'.rules.trans h.rules.symm, h'.count.trans h.count.symm, hbudget,
    h'.usedKeys.trans h.usedKeys.symm⟩

/-- The rules stand in the order of the list. -/
theorem Holds.rules_eq (h : set.Holds rs) {i : ℕ} (hi : i < rs.length) : set.rules i = rs[i] := by
  rw [h.rules, ofList_of_lt hi]

/-- Names identify rules. -/
theorem Holds.name_inj (h : set.Holds rs) {i j : ℕ} (hi : i < rs.length) (hj : j < rs.length)
    (heq : rs[i].name = rs[j].name) : i = j := by
  have hinj := List.nodup_iff_injective_get.mp h.names
  have : (⟨i, by simpa using hi⟩ : Fin (rs.map FlowRule.name).length) = ⟨j, by simpa using hj⟩ :=
    hinj (by simpa using heq)
  exact Fin.mk.inj this

/-- The index of a name is that of its rule. -/
theorem Holds.indexOf_eq_some_iff (h : set.Holds rs) {name : List UInt8} {i : ℕ} :
    set.indexOf name = some i ↔ ∃ hi : i < rs.length, rs[i].name = name := by
  rw [indexOf, List.find?_range_eq_some, h.count, List.mem_range]
  simp only [decide_eq_true_eq, Bool.not_eq_true', decide_eq_false_iff_not]
  constructor
  · rintro ⟨hname, hi, -⟩
    exact ⟨hi, by rwa [h.rules_eq hi] at hname⟩
  · rintro ⟨hi, hname⟩
    refine ⟨by rwa [h.rules_eq hi], hi, fun j hj hjname => ?_⟩
    rw [h.rules_eq (by omega)] at hjname
    exact Nat.ne_of_lt hj (h.name_inj (by omega) hi (hjname.trans hname.symm))

/-- A name without a rule has no index. -/
theorem Holds.indexOf_eq_none_iff (h : set.Holds rs) {name : List UInt8} :
    set.indexOf name = none ↔ name ∉ rs.map FlowRule.name := by
  rw [indexOf, List.find?_range_eq_none, h.count]
  simp only [Bool.not_eq_true', decide_eq_false_iff_not, List.mem_map, not_exists, not_and]
  constructor
  · intro hall rule hrule hname
    obtain ⟨i, hi, rfl⟩ := List.getElem_of_mem hrule
    exact hall i hi (by rwa [h.rules_eq hi])
  · intro hall i hi hname
    rw [h.rules_eq hi] at hname
    exact hall _ (List.getElem_mem hi) hname

/-- The rule at an index. -/
theorem Holds.get_eq (h : set.Holds rs) {i : ℕ} (hi : i < rs.length) : set.get i = some rs[i] := by
  rw [get, if_neg (by rw [h.count]; omega), h.rules_eq hi]

/-- The rules of the set in order. -/
def list (set : FlowRuleSet) : List FlowRule := (List.range set.count).map set.rules

/-- The rules are listed in their order. -/
theorem Holds.list_eq (h : set.Holds rs) : set.list = rs := by
  refine List.ext_getElem ?_ fun i hi hi' => ?_
  · rw [list, List.length_map, List.length_range, h.count]
  · simp only [list, List.getElem_map, List.getElem_range]
    exact h.rules_eq hi'

/-- Behind the last rule there is nothing. -/
theorem Holds.rules_eq_zero (h : set.Holds rs) {i : ℕ} (hi : set.count ≤ i) :
    set.rules i = .zero := by
  rw [h.rules, ofList, List.getElem?_eq_none (by rwa [← h.count])]
  rfl

/-! ### Adding and removing -/

/-- The rule is valid, and the set has a place, the name and the keys for it. -/
structure Takes (set : FlowRuleSet) (rule : FlowRule) : Prop where
  valid : flowRuleValidate rule = .ok
  place : set.count < flowRuleSetMax
  name : (set.find rule.name).isSome = false
  keys : set.usedKeys + rule.maxKeys ≤ set.maxKeysBudget

/-- `infmon_flow_rule_add` succeeds on the rules that the set takes. -/
theorem add_ok_iff (set : FlowRuleSet) (rule : FlowRule) :
    (set.add rule).1 = .ok ↔ set.Takes rule := by
  rw [add]
  split
  · rename_i hvalid
    exact iff_of_false hvalid fun h => hvalid h.valid
  rename_i hvalid
  rw [not_not] at hvalid
  split
  · rename_i hcount
    exact iff_of_false (by simp) fun h => absurd h.place (Nat.not_lt.mpr hcount)
  rename_i hcount
  split
  · rename_i hname
    exact iff_of_false (by simp) fun h => by simp [h.name] at hname
  rename_i hname
  split
  · rename_i hkeys
    exact iff_of_false (by simp) fun h => absurd h.keys (Nat.not_le.mpr hkeys)
  rename_i hkeys
  exact iff_of_true rfl
    ⟨hvalid, Nat.lt_of_not_le hcount, by simpa using hname, Nat.le_of_not_lt hkeys⟩

/-- A rule is appended, or the set stays as it is. -/
theorem Holds.add (h : set.Holds rs) (rule : FlowRule) :
    ((set.add rule).1 = .ok ∧ (set.add rule).2.Holds (rs ++ [rule.register]) ∧
      (set.add rule).2.maxKeysBudget = set.maxKeysBudget) ∨
    ((set.add rule).1 ≠ .ok ∧ (set.add rule).2 = set) := by
  rw [FlowRuleSet.add]
  split
  · rename_i hvalid
    exact Or.inr ⟨hvalid, rfl⟩
  rename_i hvalid
  rw [not_not] at hvalid
  split
  · exact Or.inr ⟨by simp, rfl⟩
  rename_i hcount
  split
  · exact Or.inr ⟨by simp, rfl⟩
  rename_i hname
  split
  · exact Or.inr ⟨by simp, rfl⟩
  rename_i hroom
  have hbudget := h.budget_le
  have hfree : set.indexOf rule.name = none := by
    rw [find, Option.isSome_map] at hname
    simpa using hname
  refine Or.inl ⟨rfl, ?_, rfl⟩
  -- every check is passed: the new rule has a name of its own, and its keys fit in the budget
  refine { rules := ?_, count := ?_, usedKeys := ?_, usedKeys_le := ?_, budget_le := hbudget,
           names := ?_, length_le := ?_, registered := ?_ }
  · rw [ofList_concat, ← h.rules, h.count]
    rfl
  · simp [h.count]
  · show u32 (set.usedKeys + rule.maxKeys) = _
    rw [u32_of_le (by simp only [flowRuleMaxKeysBudget, max32] at *; omega), h.usedKeys]
    simp [FlowRule.register]
  · show u32 (set.usedKeys + rule.maxKeys) ≤ set.maxKeysBudget
    rw [u32_of_le (by simp only [flowRuleMaxKeysBudget, max32] at *; omega)]
    omega
  · rw [List.map_append, List.nodup_append]
    refine ⟨h.names, by simp, ?_⟩
    intro a ha b hb hab
    obtain rfl : b = rule.name := by simpa [FlowRule.register] using hb
    exact h.indexOf_eq_none_iff.mp hfree (hab ▸ ha)
  · have := h.count
    simp only [List.length_append, List.length_singleton]
    omega
  · intro r hr
    rw [List.mem_append, List.mem_singleton] at hr
    rcases hr with hr | rfl
    · exact h.registered r hr
    · exact FlowRule.register_registered hvalid

/-- Taking entry `i` out of a sum. -/
theorem sum_map_eraseIdx (f : FlowRule → ℕ) {i : ℕ} (hi : i < rs.length) :
    ((rs.eraseIdx i).map f).sum + f rs[i] = (rs.map f).sum := by
  have hperm := (List.getElem_cons_eraseIdx_perm hi).map f
  rw [← hperm.sum_eq, List.map_cons, List.sum_cons, Nat.add_comm]

/-- Removing the rule at index `i` closes the gap it leaves. -/
theorem Holds.rm (h : set.Holds rs) {name : List UInt8} {i : ℕ} (hi : set.indexOf name = some i) :
    (set.rm name).1 = .ok ∧ (set.rm name).2.Holds (rs.eraseIdx i) ∧
      (set.rm name).2.maxKeysBudget = set.maxKeysBudget := by
  obtain ⟨hlt, -⟩ := h.indexOf_eq_some_iff.mp hi
  have hsum := sum_map_eraseIdx FlowRule.maxKeys hlt
  have hused := h.usedKeys
  have hle := h.usedKeys_le
  have hbudget := h.budget_le
  rw [FlowRuleSet.rm, hi]
  -- the subtraction does not wrap: the rule's limit is part of the sum
  have hkeys : sub32 set.usedKeys (set.rules i).maxKeys =
      ((rs.eraseIdx i).map FlowRule.maxKeys).sum := by
    rw [h.rules_eq hlt, sub32_of_le (by omega)
      (by simp only [flowRuleMaxKeysBudget, max32] at *; omega)]
    omega
  refine ⟨rfl, ?_, rfl⟩
  refine { rules := ?_, count := ?_, usedKeys := hkeys, usedKeys_le := ?_, budget_le := hbudget,
           names := ?_, length_le := ?_, registered := ?_ }
  · show Function.update (forUpTo (set.count - 1 - i) _ set.rules) (set.count - 1) .zero = _
    rw [forUpTo_closeGap, h.count, h.rules,
      ofList_eraseIdx (n := rs.length - 1) (by omega) (by omega)]
    congr 2
    omega
  · show set.count - 1 = _
    rw [h.count, List.length_eraseIdx_of_lt hlt]
  · show sub32 set.usedKeys (set.rules i).maxKeys ≤ set.maxKeysBudget
    omega
  · exact h.names.sublist ((List.eraseIdx_sublist rs i).map _)
  · have := h.length_le
    rw [List.length_eraseIdx_of_lt hlt]
    omega
  · exact fun r hr => h.registered r ((List.eraseIdx_sublist rs i).subset hr)

/-- Removing the rule just added restores the set. -/
theorem Holds.rm_add (h : set.Holds rs) {rule : FlowRule}
    (h' : set'.Holds (rs ++ [rule.register])) (hbudget : set'.maxKeysBudget = set.maxKeysBudget) :
    (set'.rm rule.name).2 = set := by
  have hi : set'.indexOf rule.name = some rs.length := by
    rw [h'.indexOf_eq_some_iff]
    exact ⟨by simp, by simp [FlowRule.register]⟩
  obtain ⟨-, hrm, hbudget'⟩ := h'.rm hi
  rw [List.eraseIdx_append_of_length_le (Nat.le_refl _)] at hrm
  refine h.unique ?_ (hbudget'.trans hbudget)
  simpa using hrm

end FlowRuleSet

end InFMon
