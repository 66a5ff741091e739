import InFMon.FlowRule.RuleList
import InFMon.Plugin.Outcome

/-! # The array of rules in memory

The workers read the rules in the array that the control plane writes to. A rule is written behind the
others; a deletion moves the rules behind it down, one assignment after the other. Every rule in memory
carries a mark, the number of the request it came with, so that two rules of one text can be told
apart. -/

namespace InFMon

open CountedLoop DenseArray

/-! ### Assignments -/

/-- A rule in memory and the number of the request that added it, 0 for no rule. -/
structure MarkedRule where
  rule : FlowRule
  mark : ℕ
  deriving DecidableEq

/-- Memory without a rule. -/
def MarkedRule.zero : MarkedRule := ⟨.zero, 0⟩

/-- One assignment to the array: a new rule, the next rule moved down, or a place cleared. -/
inductive RuleWrite where
  | put (i : ℕ) (rule : MarkedRule)
  | move (i : ℕ)
  | clear (i : ℕ)

namespace RuleWrite

/-- The place that is written. -/
def place : RuleWrite → ℕ
  | .put i _ | .move i | .clear i => i

/-- The array after an assignment. -/
def apply (rules : ℕ → MarkedRule) : RuleWrite → ℕ → MarkedRule
  | .put i rule => Function.update rules i rule
  | .move i => Function.update rules i (rules (i + 1))
  | .clear i => Function.update rules i .zero

/-- The array after some assignments. -/
def applyAll (rules : ℕ → MarkedRule) (writes : List RuleWrite) : ℕ → MarkedRule :=
  writes.foldl apply rules

/-- An assignment leaves the other places. -/
theorem apply_of_ne {rules : ℕ → MarkedRule} {write : RuleWrite} {i : ℕ} (h : i ≠ write.place) :
    apply rules write i = rules i := by
  cases write with
  | put j rule => exact Function.update_of_ne h _ _
  | move j => exact Function.update_of_ne h _ _
  | clear j => exact Function.update_of_ne h _ _

/-- A place that is not written keeps its rule. -/
theorem applyAll_of_ne {rules : ℕ → MarkedRule} {writes : List RuleWrite} {i : ℕ}
    (h : ∀ write ∈ writes, i ≠ write.place) : applyAll rules writes i = rules i := by
  induction writes generalizing rules with
  | nil => rfl
  | cons write writes ih =>
    have hrest : applyAll (apply rules write) writes i = apply rules write i :=
      ih fun w hw => h w (List.mem_cons_of_mem _ hw)
    exact hrest.trans (apply_of_ne (h write List.mem_cons_self))

end RuleWrite

/-! ### Adding and removing, assignment by assignment -/

namespace FlowRuleSet

/-- The assignments of `infmon_flow_rule_add`, for a rule that gets the mark. -/
def addWrites (set : FlowRuleSet) (rule : FlowRule) (mark : ℕ) : List RuleWrite :=
  if (set.add rule).1 = .ok then [.put set.count ⟨rule.register, mark⟩] else []

/-- The assignments of `infmon_flow_rule_rm`. -/
def rmWrites (set : FlowRuleSet) (name : List UInt8) : List RuleWrite :=
  match set.indexOf name with
  | none => []
  | some i =>
    ((List.range (set.count - 1 - i)).map fun m => .move (i + m)) ++ [.clear (set.count - 1)]

variable {set : FlowRuleSet} {cur : List MarkedRule}

/-- The loop that moves rules down, one assignment after the other. -/
theorem applyAll_moves (rules : ℕ → MarkedRule) (i k : ℕ) :
    RuleWrite.applyAll rules ((List.range k).map fun m => .move (i + m)) =
      closeGap rules i (i + k) := by
  rw [← forUpTo_closeGap]
  induction k with
  | zero => rfl
  | succ k ih =>
    rw [List.range_succ, List.map_append, RuleWrite.applyAll, List.foldl_append, forUpTo_succ, ← ih]
    rfl

/-- In the end a removal has taken the rule out of the list. -/
theorem applyAll_rmWrites (hcount : set.count = cur.length) {name : List UInt8} {i : ℕ}
    (hfind : set.indexOf name = some i) (hi : i < cur.length) :
    RuleWrite.applyAll (ofList .zero cur) (set.rmWrites name) = ofList .zero (cur.eraseIdx i) := by
  rw [rmWrites, hfind]
  dsimp only
  rw [RuleWrite.applyAll, List.foldl_append]
  have hmoves := applyAll_moves (ofList .zero cur) i (set.count - 1 - i)
  rw [RuleWrite.applyAll] at hmoves
  rw [hmoves, hcount, ofList_eraseIdx (n := cur.length - 1) (by omega) (by omega),
    show i + (cur.length - 1 - i) = cur.length - 1 by omega]
  rfl

/-- A rule that is added and removed again leaves no trace. -/
theorem applyAll_add_rm (h : set.Holds (cur.map MarkedRule.rule)) {rule : FlowRule} (mark : ℕ)
    (hadd : (set.add rule).1 = .ok) :
    (set.addWrites rule mark ++ (set.add rule).2.rmWrites rule.name =
        [.put cur.length ⟨rule.register, mark⟩, .clear cur.length]) ∧
      RuleWrite.applyAll (ofList .zero cur)
        (set.addWrites rule mark ++ (set.add rule).2.rmWrites rule.name) = ofList .zero cur := by
  have hcount : set.count = cur.length := by rw [h.count, List.length_map]
  rcases h.add rule with ⟨-, hholds, -⟩ | ⟨hne, -⟩
  swap
  · exact absurd hadd hne
  have hcount' : (set.add rule).2.count = cur.length + 1 := by
    rw [hholds.count, List.length_append, List.length_map, List.length_singleton]
  have hfind : (set.add rule).2.indexOf rule.name = some cur.length := by
    rw [hholds.indexOf_eq_some_iff]
    exact ⟨by simp, by simp [FlowRule.register]⟩
  have hwrites : set.addWrites rule mark ++ (set.add rule).2.rmWrites rule.name =
      [.put cur.length ⟨rule.register, mark⟩, .clear cur.length] := by
    rw [addWrites, if_pos hadd, rmWrites, hfind]
    dsimp only
    rw [hcount', hcount, Nat.add_sub_cancel, Nat.sub_self]
    rfl
  refine ⟨hwrites, ?_⟩
  rw [hwrites]
  show Function.update (Function.update (ofList .zero cur) cur.length _) cur.length .zero = _
  rw [Function.update_idem, Function.update_eq_self_iff, ofList_of_ge (Nat.le_refl _)]

/-- A set holds one list. -/
theorem Holds.eq {rs rs' : List FlowRule} (h : set.Holds rs) (h' : set.Holds rs') : rs = rs' := by
  refine List.ext_getElem (h.count.symm.trans h'.count) fun i hi hi' => ?_
  rw [← h.rules_eq hi, h'.rules_eq hi']

end FlowRuleSet

end InFMon
