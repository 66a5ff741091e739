import InFMon.Foundations.Apportionment
import InFMon.Otlp.Sums

/-! # The cap on exported points

How many flows of each rule `build_request` exports, and what its request then holds: the points stay under
the cap, but what rounding leaves over is lost where it goes to a rule without flows. -/

namespace InFMon.Otlp

open Apportionment (share leftover share_zero share_lt sum_share_add_leftover leftover_le_length)
open Frontend (FlowRuleStats FlowStats FlowStatsSnapshot)

/-! ### Budgets -/

/-- `flows_to_emit` of each rule. -/
def OtlpExporter.flowsToEmit (e : OtlpExporter) (rules : List FlowRuleStats) : List ℕ :=
  List.zipWith min (e.flowBudgets rules) (flowCounts rules)

/-- With nothing left over the budgets stay. -/
@[simp]
theorem distribute_zero (budgets : List ℕ) : distribute 0 budgets = budgets := by
  cases budgets <;> rfl

/-- There are as many budgets as before. -/
@[simp]
theorem length_distribute (remainder : ℕ) (budgets : List ℕ) :
    (distribute remainder budgets).length = budgets.length := by
  induction budgets generalizing remainder with
  | nil => cases remainder <;> rfl
  | cons b budgets ih =>
    cases remainder with
    | zero => rfl
    | succ remainder => simp [distribute, ih]

/-- With no more flows than may be exported, every rule may export all of its flows. -/
theorem flowBudgets_of_le {e : OtlpExporter} {rules : List FlowRuleStats}
    (h : (flowCounts rules).sum ≤ e.effectiveCap rules.length) :
    e.flowBudgets rules = flowCounts rules := if_pos (Or.inr h)

/-- With more flows, the cap is shared out, and what is left over goes to the first rules. -/
theorem flowBudgets_of_lt {e : OtlpExporter} {rules : List FlowRuleStats}
    (h : e.effectiveCap rules.length < (flowCounts rules).sum) :
    e.flowBudgets rules =
      distribute (leftover (e.effectiveCap rules.length) (flowCounts rules))
        ((flowCounts rules).map (share (e.effectiveCap rules.length) (flowCounts rules))) := by
  have hsum := sum_share_add_leftover (e.effectiveCap rules.length)
    (by omega : 0 < (flowCounts rules).sum)
  have hrest : e.effectiveCap rules.length -
      ((flowCounts rules).map (share (e.effectiveCap rules.length) (flowCounts rules))).sum =
        leftover (e.effectiveCap rules.length) (flowCounts rules) := by
    omega
  have hbinds : ¬((flowCounts rules).sum = 0 ∨
      (flowCounts rules).sum ≤ e.effectiveCap rules.length) := by
    omega
  rw [← hrest]
  exact if_neg hbinds

/-- There is one budget for each rule. -/
@[simp]
theorem length_flowBudgets (e : OtlpExporter) (rules : List FlowRuleStats) :
    (e.flowBudgets rules).length = rules.length := by
  rcases le_or_gt (flowCounts rules).sum (e.effectiveCap rules.length) with h | h
  · rw [flowBudgets_of_le h, flowCounts, List.length_map]
  · rw [flowBudgets_of_lt h, length_distribute, List.length_map, flowCounts, List.length_map]

/-! ### Exported flows -/

section
variable {f : ℕ → ℕ} {counts : List ℕ}

/-- A unit that is left over is exported unless its rule has no flows. -/
theorem sum_min_distribute (hzero : f 0 = 0) (hlt : ∀ n ∈ counts, 0 < n → f n < n)
    (remainder : ℕ) :
    (List.zipWith min (distribute remainder (counts.map f)) counts).sum =
      (counts.map f).sum + (counts.take remainder).countP (0 < ·) := by
  have hmin : ∀ n ∈ counts, min (f n) n = f n := by
    intro n hn
    rcases Nat.eq_zero_or_pos n with rfl | hpos
    · rw [hzero, Nat.min_self]
    · exact Nat.min_eq_left (hlt n hn hpos).le
  induction counts generalizing remainder with
  | nil => cases remainder <;> rfl
  | cons n counts ih =>
    have ih := ih (fun m hm => hlt m (List.mem_cons_of_mem _ hm))
    have hrest := fun r => ih r (fun m hm => hmin m (List.mem_cons_of_mem _ hm))
    cases remainder with
    | zero =>
      -- nothing is left over for this rule or the rest
      have hnone := hrest 0
      simp only [distribute_zero, List.take_zero, List.countP_nil, Nat.add_zero] at hnone ⊢
      rw [List.map_cons, List.zipWith_cons_cons, List.sum_cons, List.sum_cons, hnone,
        hmin n List.mem_cons_self]
    | succ remainder =>
      simp only [List.map_cons, distribute, List.zipWith_cons_cons, List.sum_cons, hrest,
        List.take_succ_cons]
      rcases Nat.eq_zero_or_pos n with rfl | hpos
      · -- nothing to export
        simp [hzero]
      · have := hlt n List.mem_cons_self hpos
        simp only [Nat.min_eq_left (show f n + 1 ≤ n by omega), List.countP_cons, hpos,
          decide_true, if_true]
        omega

/-- Every rule exports its share, or one more. -/
theorem forall₂_min_distribute (hzero : f 0 = 0) (hlt : ∀ n ∈ counts, 0 < n → f n < n)
    (remainder : ℕ) :
    List.Forall₂ (fun n j => j = f n ∨ j = f n + 1) counts
      (List.zipWith min (distribute remainder (counts.map f)) counts) := by
  induction counts generalizing remainder with
  | nil => cases remainder <;> exact .nil
  | cons n counts ih =>
    have hrest := ih (fun m hm => hlt m (List.mem_cons_of_mem _ hm))
    have hn : 0 < n → f n < n := hlt n List.mem_cons_self
    have hcase : n = 0 ∧ f n = 0 ∨ f n < n := by
      rcases Nat.eq_zero_or_pos n with rfl | hpos
      · exact Or.inl ⟨rfl, hzero⟩
      · exact Or.inr (hn hpos)
    cases remainder with
    | zero =>
      have hnone := hrest 0
      rw [distribute_zero] at hnone ⊢
      exact .cons (by omega) hnone
    | succ remainder => exact .cons (by omega) (hrest remainder)

end

section
variable {e : OtlpExporter} {rules : List FlowRuleStats}

/-- Where the cap binds, no rule with flows has all of them as its share. -/
theorem share_lt_of_cap (h : e.effectiveCap rules.length < (flowCounts rules).sum) :
    ∀ n ∈ flowCounts rules, 0 < n →
      share (e.effectiveCap rules.length) (flowCounts rules) n < n :=
  fun _ _ hpos => share_lt h hpos

/-- With no more flows than may be exported, all are. -/
theorem flowsToEmit_of_le (h : (flowCounts rules).sum ≤ e.effectiveCap rules.length) :
    e.flowsToEmit rules = flowCounts rules := by
  rw [OtlpExporter.flowsToEmit, flowBudgets_of_le h]
  induction flowCounts rules with
  | nil => rfl
  | cons n counts ih => rw [List.zipWith_cons_cons, ih, Nat.min_self]

/-- With more flows, the shares are exported and what is left over for the rules with flows. -/
theorem sum_flowsToEmit_of_lt (h : e.effectiveCap rules.length < (flowCounts rules).sum) :
    (e.flowsToEmit rules).sum =
      ((flowCounts rules).map (share (e.effectiveCap rules.length) (flowCounts rules))).sum +
        ((flowCounts rules).take
          (leftover (e.effectiveCap rules.length) (flowCounts rules))).countP (0 < ·) := by
  rw [OtlpExporter.flowsToEmit, flowBudgets_of_lt h]
  exact sum_min_distribute (share_zero _ _) (share_lt_of_cap h) _

/-- No more flows are exported than may be. -/
theorem sum_flowsToEmit_le : (e.flowsToEmit rules).sum ≤ e.effectiveCap rules.length := by
  rcases le_or_gt (flowCounts rules).sum (e.effectiveCap rules.length) with h | h
  · rwa [flowsToEmit_of_le h]
  · have hsum := sum_share_add_leftover (e.effectiveCap rules.length)
      (by omega : 0 < (flowCounts rules).sum)
    have hcount := ((flowCounts rules).take
      (leftover (e.effectiveCap rules.length) (flowCounts rules))).countP_le_length
      (p := (0 < ·))
    have htake := (flowCounts rules).length_take_le
      (leftover (e.effectiveCap rules.length) (flowCounts rules))
    rw [sum_flowsToEmit_of_lt h]
    omega

/-- As many flows as possible are exported unless a rule without flows gets a unit that is left over. -/
theorem sum_flowsToEmit_eq_iff :
    (e.flowsToEmit rules).sum = min (flowCounts rules).sum (e.effectiveCap rules.length) ↔
      (flowCounts rules).sum ≤ e.effectiveCap rules.length ∨
        ∀ n ∈ (flowCounts rules).take
          (leftover (e.effectiveCap rules.length) (flowCounts rules)), 0 < n := by
  rcases le_or_gt (flowCounts rules).sum (e.effectiveCap rules.length) with h | h
  · rw [flowsToEmit_of_le h, Nat.min_eq_left h]
    exact ⟨fun _ => Or.inl h, fun _ => rfl⟩
  · have hsum := sum_share_add_leftover (e.effectiveCap rules.length)
      (by omega : 0 < (flowCounts rules).sum)
    have hlength : ((flowCounts rules).take
        (leftover (e.effectiveCap rules.length) (flowCounts rules))).length =
          leftover (e.effectiveCap rules.length) (flowCounts rules) := by
      rw [List.length_take]
      exact Nat.min_eq_left (leftover_le_length _ _)
    -- all that is left over is used when it goes to rules with flows
    have hall : ((flowCounts rules).take
        (leftover (e.effectiveCap rules.length) (flowCounts rules))).countP (0 < ·) =
          leftover (e.effectiveCap rules.length) (flowCounts rules) ↔
        ∀ n ∈ (flowCounts rules).take
          (leftover (e.effectiveCap rules.length) (flowCounts rules)), 0 < n := by
      conv_lhs => rhs; rw [← hlength]
      rw [List.countP_eq_length]
      simp only [decide_eq_true_eq]
    rw [sum_flowsToEmit_of_lt h, Nat.min_eq_right h.le, ← hall]
    constructor
    · intro heq
      exact Or.inr (by omega)
    · rintro (hle | heq)
      · omega
      · rw [heq, hsum]

/-- Where the cap binds, every rule exports its share or one more. -/
theorem flowsToEmit_fair (h : e.effectiveCap rules.length < (flowCounts rules).sum) :
    List.Forall₂ (fun n j => j = share (e.effectiveCap rules.length) (flowCounts rules) n ∨
        j = share (e.effectiveCap rules.length) (flowCounts rules) n + 1)
      (flowCounts rules) (e.flowsToEmit rules) := by
  rw [OtlpExporter.flowsToEmit, flowBudgets_of_lt h]
  exact forall₂_min_distribute (share_zero _ _) (share_lt_of_cap h) _

end

end InFMon.Otlp
