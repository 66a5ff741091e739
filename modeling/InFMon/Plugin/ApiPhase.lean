import InFMon.Plugin.Outcome

/-! # While the API publishes

As long as the CLI has no rule, what is published is what the API context has: every request that
succeeds publishes its rules and tables, and a request that fails leaves both as they were. -/

namespace InFMon

open CountedLoop DenseArray

namespace Plugin

/-- The CLI has no rule yet, and what is published is what the context has. -/
structure ApiPhase (p : Plugin) (es : List RuleEntry) : Prop where
  sound : p.Sound es
  rules : (p.rulesOf .cli).Holds []
  numWorkers : p.main.numWorkers = if p.ready then p.vlibNumWorkers + 1 else 0
  tables : p.main.tables = p.api.ctx.tables
  notCli : p.main.flowRuleSet ≠ some .cli
  count : p.apiRef.count = es.length

variable {p : Plugin} {es : List RuleEntry}

/-- The workers that the API serves are those of the plugin main. -/
theorem Sound.nw_eq (h : p.Sound es) (hready : p.ready = true) :
    p.api.nw = p.vlibNumWorkers + 1 := by
  rw [ApiState.nw, workersServed, (h.context hready).2.2, if_pos (Nat.succ_pos _)]

/-- A command that changes nothing but an empty rule set. -/
theorem ApiPhase.ignored (h : p.ApiPhase es) {cliRuleSet : Option FlowRuleSet}
    (hset : (cliRuleSet.getD noRules).Holds []) :
    ({ p with cliRuleSet := cliRuleSet } : Plugin).ApiPhase es where
  sound := h.sound.congr rfl rfl rfl
  rules := hset
  numWorkers := h.numWorkers
  tables := h.tables
  notCli := h.notCli
  count := h.count

/-- A publication makes the published tables those of the context. -/
theorem Sound.publishRules_tables (h : p.Sound es)
    (hrest : ∀ w i, p.api.nw ≤ w ∨ flowRuleSetMax ≤ i → p.main.tables w i = none) :
    p.publishRules.main.tables = p.api.ctx.tables := by
  have hlen : es.length ≤ flowRuleSetMax := by simpa using h.aligned.rules.length_le
  funext w i
  show p.publishRef.publishTables.main.tables w i = _
  rw [publishTables_apply, publishRef_api]
  by_cases hi : flowRuleSetMax ≤ i
  · have hnone : p.publishRef.main.tables w i = none := hrest w i (Or.inr hi)
    rw [cellOf, if_neg (Nat.not_lt.mpr hi), hnone, ite_self]
    exact (h.aligned.table_of_ge (hlen.trans hi) w).symm
  · rw [Nat.not_le] at hi
    by_cases hw : w < p.api.nw
    · rw [if_pos ⟨hw, Nat.lt_of_lt_of_le hi (by decide)⟩, cellOf, if_pos hi]
    · rw [if_neg fun hwi => hw hwi.1, h.aligned.row_of_ge (Nat.le_of_not_lt hw)]
      exact hrest w i (Or.inl (Nat.le_of_not_lt hw))

/-- Setting up the context publishes nothing. -/
theorem ApiPhase.ensure (h : p.ApiPhase es) (memory : Bool) :
    (p.apiCtxEnsure memory).ApiPhase es := by
  have hsound := h.sound.ensure memory
  obtain ⟨hmain, hctx, -⟩ := h.sound.ensure_tables memory
  have htables : (p.apiCtxEnsure memory).main.tables = (p.apiCtxEnsure memory).api.ctx.tables := by
    rw [hmain, hctx, h.tables]
  rcases apiCtxEnsure_cases memory p with heq | ⟨-, ruleSet, -, heq⟩
  · rw [heq]
    exact h
  · rw [heq] at hsound htables ⊢
    exact { sound := hsound, rules := h.rules, numWorkers := rfl, tables := htables,
            notCli := h.notCli, count := h.count }

/-- While the CLI has no rule, the API publishes what its context has. -/
theorem ApiPhase.serve (h : p.ApiPhase es) (request : Request) :
    ∃ es', (p.serve request).ApiPhase es' := by
  obtain ⟨es', hs⟩ := h.sound.serve request
  refine ⟨es', ?_⟩
  have heq := serve_eq p request
  have hq := h.ensure request.env.memory
  generalize (p.serve request).idSeq = idSeq at heq
  generalize p.apiCtxEnsure request.env.memory = q at hq heq
  rw [heq] at hs ⊢
  have hcount := hs.aligned.count_eq
  rw [publishIf_api] at hcount
  by_cases hok : (q.outcome request).1 = .ok
  -- a success publishes all cells, also those that the context has no table for
  · rw [publishIf, if_pos hok] at hs ⊢
    have hs' := hs.congr (q := { q with api := (q.outcome request).2, idSeq := idSeq }) rfl rfl rfl
    refine { sound := hs, rules := hq.rules, numWorkers := hq.numWorkers, tables := ?_,
             notCli := (by intro hcli; cases hcli), count := ?_ }
    · refine hs'.publishRules_tables fun w i hwi => ?_
      show q.main.tables w i = none
      rw [hq.tables]
      rcases hwi with hw | hi
      · cases hready : q.ready with
        | true =>
          have hnw : q.api.nw ≤ w := by
            rw [hq.sound.nw_eq hready]
            exact (hs'.nw_eq hready).symm.trans_le hw
          exact hq.sound.aligned.row_of_ge hnw i
        | false =>
          obtain ⟨rfl, -⟩ := hq.sound.fresh hready
          exact hq.sound.aligned.table_of_ge (Nat.zero_le i) w
      · have hlen : es.length ≤ flowRuleSetMax := by simpa using hq.sound.aligned.rules.length_le
        exact hq.sound.aligned.table_of_ge (hlen.trans hi) w
    · show (if q.ready then (q.outcome request).2.ruleSet.count else 0) = _
      split
      · exact hcount
      · rename_i hready
        obtain ⟨rfl, -⟩ := hs'.fresh (by simpa using hready)
        rfl
  -- a failure publishes nothing, and changes at most tables that are not in use
  · obtain ⟨heap, -, hapi⟩ := outcome_failed hq.sound.aligned.arranged hok
    rw [publishIf, if_neg hok, hapi] at hs ⊢
    rw [hapi] at hcount
    exact
      { sound := hs
        rules := hq.rules
        numWorkers := hq.numWorkers
        tables := hq.tables
        notCli := hq.notCli
        count := hq.count.trans (hq.sound.aligned.count_eq.symm.trans hcount) }

end Plugin

end InFMon
