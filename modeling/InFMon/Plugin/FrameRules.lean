import InFMon.Foundations.Runs
import InFMon.Plugin.CurrentRules
import InFMon.Plugin.SnapshotBudget

/-! # The rules of a frame

What a frame has read and loaded stays right until a rule is deleted, so a frame that overlaps no
deletion works with one version of the rules and counts every key in a table of its rule. -/

namespace InFMon

open DenseArray

namespace Attribution

variable {s : Attribution} {cur : List MarkedRule}

/-! ### Workers -/

/-- No deletion is in the making. -/
def Open (s : Attribution) : Prop := s.deleting = false ∨ s.writes = [] ∧ s.stores = []

/-- While a frame is under way, no deletion is in the making. -/
theorem Current.open_of_active (h : s.Current cur) {w : ℕ} (hw : s.workers w ≠ .idle) : s.Open := by
  by_contra hnot
  rw [Open, not_or, Bool.not_eq_false, not_and_or] at hnot
  exact hw (h.alone hnot.1 hnot.2 w)

/-- What a frame finds behind the pointer to the rules. -/
theorem Current.published_of_open (h : s.Current cur) (hopen : s.Open) :
    ∃ version, s.Readable cur version ∧ s.plugin.apiRef.count = version.length := by
  rcases hopen with hdel | ⟨hwrites, hstores⟩
  · exact h.published hdel
  · refine ⟨cur, ⟨h.mem, List.prefix_rfl, fun write hwrite => ?_⟩, h.count (by simp [hstores])⟩
    rw [hwrites] at hwrite
    cases hwrite

/-- The tables that a frame finds were made for the rules at their indices. -/
theorem Current.tables_of_open (h : s.Current cur) (hopen : s.Open) {w i t : ℕ}
    (ht : s.plugin.main.tables w i = some t) :
    t < s.plugin.heap.next ∧ cur[i]? = some (s.madeFor t) := by
  refine ⟨h.old w i t ht, ?_⟩
  rcases hopen with hdel | ⟨-, hstores⟩
  · exact h.tables hdel w i t ht
  · rw [h.synced w i (by simp [hstores])] at ht
    exact h.made w i t (Option.ite_none_right_eq_some.mp ht).2

/-- No rules are a version. -/
theorem Current.readable_nil (h : s.Current cur) : s.Readable cur [] :=
  ⟨h.nil_mem, List.nil_prefix, fun _ _ => Nat.zero_le _⟩

/-- A worker whose stage is right changes nothing for the others. -/
theorem Current.setWorker (h : s.Current cur) (w : ℕ) {stage : WorkerStage}
    (hok : s.StageOk cur stage) (hopen : stage = .idle ∨ s.Open) :
    (s.setWorker w stage).Current cur := by
  -- nothing that a worker relies on moves when another worker's stage does
  have hext : s.Extends cur (s.setWorker w stage) cur :=
    { versions := fun _ hv => hv
      isPrefix := List.prefix_rfl
      untouched := fun _ hv => hv.untouched
      next_le := Nat.le_refl _
      madeFor := fun _ _ => rfl }
  refine
    { h with
      published := fun hdel => (h.published hdel).imp fun _ hv => ⟨hext.readable hv.1, hv.2⟩
      alone := fun hdel hgo v => ?_
      workers := fun v => ?_ }
  · show Function.update s.workers w stage v = .idle
    by_cases hv : v = w
    · subst hv
      rw [Function.update_self]
      rcases hopen with hidle | hfalse | ⟨hwrites, hstores⟩
      · exact hidle
      · exact absurd (hfalse.symm.trans hdel) Bool.false_ne_true
      · exact absurd hgo (by simp [Attribution.setWorker, hwrites, hstores])
    · rw [Function.update_of_ne hv]
      exact h.alone hdel hgo v
  · show (s.setWorker w stage).StageOk cur (Function.update s.workers w stage v)
    by_cases hv : v = w
    · subst hv
      rw [Function.update_self]
      exact hext.stageOk hok
    · rw [Function.update_of_ne hv]
      exact hext.stageOk (h.workers v)

/-- Matching a packet against the rule at index `i` leaves one entry for that index, or none. -/
theorem flowMatchRule_entries (rule : FlowRule) (fields : FlowFields) (pktBytes : UInt64) (i : ℕ)
    (p : FlowMatchPass) :
    (flowMatchRule rule fields pktBytes i p).scratch.entries = p.scratch.entries ∨
      ∃ e : ScratchEntry, e.flowRuleIndex = i ∧
        (flowMatchRule rule fields pktBytes i p).scratch.entries = p.scratch.entries ++ [e] := by
  rw [flowMatchRule]
  dsimp only
  split
  · exact Or.inl rfl
  · rw [Scratch.append]
    split
    · exact Or.inr ⟨_, rfl, rfl⟩
    · exact Or.inl rfl

/-- A frame that reads a rule of its version. -/
theorem stageOk_matchRule {frame : MatchFrame} (hok : s.StageOk cur (.matching frame))
    {i : ℕ} (hi : ∃ n, frame.count = some n ∧ i < n)
    (hrules : ∀ version, s.Readable cur version → i < version.length →
      version[i]? = some (s.rules i)) (fields : FlowFields) (pktBytes : UInt64) :
    s.StageOk cur (.matching (frame.matchRule i (s.rules i) fields pktBytes)) := by
  obtain ⟨n, hn, hlt⟩ := hi
  obtain ⟨hsource, -, version, hv, hcount, hread, hentries⟩ := hok
  have hget := hrules version hv (hcount n hn ▸ hlt)
  refine ⟨hsource, fun hnone => ?_, version, hv, hcount, ?_, ?_⟩
  · rw [show frame.count = none from hnone] at hn
    cases hn
  · intro pair hpair
    rcases List.mem_append.mp hpair with hpair | hpair
    · exact hread pair hpair
    · obtain rfl := List.mem_singleton.mp hpair
      exact hget
  · rw [MatchFrame.matchRule]
    dsimp only
    rcases flowMatchRule_entries (s.rules i).rule fields pktBytes i frame.pass with
      hsame | ⟨e, hindex, hone⟩
    · rw [hsame, Nat.sub_self, List.replicate_zero, List.append_nil]
      exact hentries
    · rw [hone, List.length_append, List.length_singleton, Nat.add_sub_cancel_left]
      refine List.rel_append hentries (List.Forall₂.cons ?_ List.Forall₂.nil)
      rw [hindex]
      exact hget

/-- A frame reads the number of rules. -/
theorem Current.stageOk_readCount (h : s.Current cur) (hopen : s.Open) {frame : MatchFrame}
    (hok : s.StageOk cur (.matching frame)) (hnone : frame.count = none) :
    s.StageOk cur (.matching { frame with
      count := some (frame.source.elim 0 fun source => (s.plugin.refOf source).count) }) := by
  obtain ⟨hsource, hempty, -⟩ := hok
  obtain ⟨hread, hencoded, hentries⟩ := hempty hnone
  have hversion : ∃ version, s.Readable cur version ∧
      (frame.source.elim 0 fun source => (s.plugin.refOf source).count) = version.length := by
    cases hs : frame.source with
    | none => exact ⟨[], h.readable_nil, rfl⟩
    | some source =>
      cases source with
      | api => exact h.published_of_open hopen
      | cli => exact absurd hs hsource
  obtain ⟨version, hv, hlength⟩ := hversion
  refine ⟨hsource, fun hcount => absurd hcount (Option.some_ne_none _), version, hv, ?_, ?_, ?_⟩
  · intro n hn
    exact (Option.some.inj hn).symm.trans hlength
  · intro pair hpair
    change pair ∈ frame.read at hpair
    rw [hread] at hpair
    cases hpair
  · show List.Forall₂ _ frame.pass.scratch.entries frame.encodedBy
    rw [hentries, hencoded]
    exact List.Forall₂.nil

/-- A frame hands its scratch vector over. -/
theorem stageOk_handOver {frame : MatchFrame} (hok : s.StageOk cur (.matching frame)) :
    s.StageOk cur (.loading (fun _ => none) 0 (frame.pass.scratch.entries.zip frame.encodedBy)) := by
  obtain ⟨-, -, version, hv, -, -, hentries⟩ := hok
  refine ⟨fun pair hpair => ?_, fun _ _ ht => by cases ht⟩
  exact getElem?_of_prefix hv.isPrefix (List.forall₂_iff_zip.mp hentries |>.2 hpair)

/-- A frame loads a table pointer. -/
theorem Current.stageOk_loadTable (h : s.Current cur) (hopen : s.Open) {row : ℕ → Option ℕ}
    {loaded : ℕ} {todo : List (ScratchEntry × MarkedRule)}
    (hok : s.StageOk cur (.loading row loaded todo)) (w : ℕ) :
    s.StageOk cur
      (.loading (Function.update row loaded (s.plugin.main.tables w loaded)) (loaded + 1) todo) := by
  refine ⟨hok.1, fun i t ht => ?_⟩
  by_cases hi : i = loaded
  · subst hi
    rw [Function.update_self] at ht
    exact h.tables_of_open hopen ht
  · rw [Function.update_of_ne hi] at ht
    exact hok.2 i t ht

/-- Tables are written, or the tick is, and an entry is counted in the table of its rule. -/
theorem Current.write_tables (h : s.Current cur) {plugin : Plugin}
    {applied : List (MarkedRule × MarkedRule)}
    (hsound : ∀ es, s.plugin.Sound es → plugin.Sound es)
    (hmain : plugin.main.flowRuleSet = s.plugin.main.flowRuleSet ∧
      plugin.main.tables = s.plugin.main.tables)
    (href : plugin.apiRef = s.plugin.apiRef) (hctx : plugin.api.ctx = s.plugin.api.ctx)
    (hset : plugin.api.ruleSet = s.plugin.api.ruleSet)
    (hnext : plugin.heap.next = s.plugin.heap.next) (happlied : ∀ pair ∈ applied, pair.1 = pair.2) :
    ({ s with plugin := plugin, applied := applied } : Attribution).Current cur := by
  -- the rules and the cells stay, so what a worker has read is still good
  have hext : s.Extends cur { s with plugin := plugin, applied := applied } cur :=
    { versions := fun _ hv => hv
      isPrefix := List.prefix_rfl
      untouched := fun _ hv => hv.untouched
      next_le := hnext.ge
      madeFor := fun _ _ => rfl }
  obtain ⟨hsource, htables⟩ := hmain
  refine
    { sound := ?_, rules := hset ▸ h.rules, memory := h.memory, mem := h.mem, nil_mem := h.nil_mem,
      source := hsource ▸ h.source, published := ?_, count := href ▸ h.count, made := hctx ▸ h.made,
      old := ?_, synced := ?_, tables := ?_, alone := h.alone,
      workers := fun w => hext.stageOk (h.workers w), counted := happlied }
  · obtain ⟨es, hs⟩ := h.sound
    exact ⟨es, hsound es hs⟩
  · intro hdel
    rw [href]
    exact (h.published hdel).imp fun _ hv => ⟨hext.readable hv.1, hv.2⟩
  · rw [htables, hnext]
    exact h.old
  · rw [htables, hctx]
    exact h.synced
  · rw [htables]
    exact h.tables

/-- What is known of a frame that is under way. -/
theorem Current.active (h : s.Current cur) {w : ℕ} {stage : WorkerStage} (hw : s.workers w = stage)
    (hne : stage ≠ .idle) : s.Open ∧ s.StageOk cur stage := by
  subst hw
  exact ⟨h.open_of_active hne, h.workers w⟩

/-- A frame that is under way goes on to another stage. -/
theorem Current.moveOn (h : s.Current cur) {w : ℕ} {stage next : WorkerStage} (hw : s.workers w = stage)
    (hne : stage ≠ .idle) (hnext : s.Open → s.StageOk cur stage → s.StageOk cur next) :
    (s.setWorker w next).Current cur := by
  obtain ⟨hopen, hok⟩ := h.active hw hne
  exact h.setWorker w (hnext hopen hok) (Or.inr hopen)

/-- A frame counts an entry. -/
theorem Current.countEntry (h : s.Current cur) {w : ℕ} {row : ℕ → Option ℕ} {tick : UInt64}
    {e : ScratchEntry} {rule : MarkedRule} {todo : List (ScratchEntry × MarkedRule)}
    (hw : s.workers w = .counting row tick ((e, rule) :: todo)) :
    (s.countEntry w row tick e rule todo).Current cur := by
  obtain ⟨hopen, hok⟩ := h.active hw (by simp)
  have hpairs : ∀ pair ∈ s.applied ++
      (if e.flowRuleIndex < maxActiveFlowRules ∧ e.keyData.len ≠ 0 then
        ((row e.flowRuleIndex).map fun t => (rule, s.madeFor t)).toList else []),
      pair.1 = pair.2 := by
    intro pair hpair
    rcases List.mem_append.mp hpair with hpair | hpair
    · exact h.counted pair hpair
    split at hpair
    · rw [Option.mem_toList, Option.map_eq_some_iff] at hpair
      obtain ⟨t, ht, rfl⟩ := hpair
      -- the entry and the table are of the rule at one index
      have hrule := hok.1 (e, rule) List.mem_cons_self
      exact Option.some.inj (hrule.symm.trans (hok.2 e.flowRuleIndex t ht).2)
    · cases hpair
  have hnext := (Plugin.counterUpdateEntry_next row tick s.plugin.heap e).1
  have hcur : ({ s with
      plugin := { s.plugin with api := { s.plugin.api with
        heap := counterUpdateEntry row tick s.plugin.heap e } }
      applied := _ } : Attribution).Current cur :=
    h.write_tables (fun es hs => hs.countEntry row tick e) ⟨rfl, rfl⟩ rfl rfl rfl hnext hpairs
  refine hcur.setWorker w ?_ (Or.inr hopen)
  refine ⟨fun pair hpair => hok.1 pair (List.mem_cons_of_mem _ hpair), fun i t ht => ?_⟩
  obtain ⟨hlt, hget⟩ := hok.2 i t ht
  exact ⟨hnext.symm ▸ hlt, hget⟩

/-- One event that does not overlap a deletion. -/
theorem Current.step (h : s.Current cur) {e : AttributionEvent} (he : s.Undisturbed e) :
    ∃ cur', (s.step e).Current cur' := by
  cases e with
  | request request =>
    rw [Attribution.step]
    split
    · rename_i hidle
      refine h.request hidle.1 (List.isEmpty_iff.mp hidle.2) _ fun env id heq hzero hid => ?_
      subst heq
      exact he hidle.1 (List.isEmpty_iff.mp hidle.2) hzero hid
    · exact ⟨cur, h⟩
  | main =>
    rw [Attribution.step]
    split
    · rename_i write writes _ hwrites
      exact ⟨cur, h.write hwrites⟩
    · rename_i next stores hwrites hstores
      exact ⟨cur, h.store hwrites hstores⟩
    · exact ⟨cur, h⟩
  | loadRuleSet w keyBuf =>
    rw [Attribution.step]
    split
    · -- a frame that has read nothing may start, unless a rule is being deleted
      have hopen : s.Open := by
        cases hdel : s.deleting with
        | false => exact Or.inl hdel
        | true => exact Or.inr (he hdel)
      refine ⟨cur, h.setWorker w ⟨h.source, fun _ => ⟨rfl, rfl, rfl⟩, [], h.readable_nil, ?_, ?_,
        List.Forall₂.nil⟩ (Or.inr hopen)⟩
      · intro n hn
        cases hn
      · intro pair hpair
        cases hpair
    · exact ⟨cur, h⟩
  | readRules w =>
    rw [Attribution.step]
    split
    · rename_i frame hw
      dsimp only
      split
      · exact ⟨cur, h.moveOn hw (by simp) fun _ hok => hok⟩
      · exact ⟨cur, h⟩
    · exact ⟨cur, h⟩
  | readCount w =>
    rw [Attribution.step]
    split
    · rename_i frame hw
      dsimp only
      split
      · rename_i hnone
        exact ⟨cur, h.moveOn hw (by simp) fun hopen hok => h.stageOk_readCount hopen hok hnone.2⟩
      · exact ⟨cur, h⟩
    · exact ⟨cur, h⟩
  | matchRule w i fields pktBytes =>
    rw [Attribution.step]
    split
    · rename_i frame hw
      split
      · rename_i hguard
        -- the index is below the count that the frame has read
        have hi : ∃ n, frame.count = some n ∧ i < n := by
          cases hn : frame.count with
          | none =>
            rw [hn] at hguard
            exact absurd hguard.2 (by simp)
          | some n =>
            rw [hn] at hguard
            exact ⟨n, rfl, Nat.lt_of_lt_of_le hguard.2 (Nat.min_le_left _ _)⟩
        exact ⟨cur, h.moveOn hw (by simp) fun _ hok => stageOk_matchRule hok hi
          (fun version hv hlt => h.rules_eq hv hlt) fields pktBytes⟩
      · exact ⟨cur, h⟩
    · exact ⟨cur, h⟩
  | endFrame w =>
    rw [Attribution.step]
    split
    · exact ⟨cur, h.setWorker w trivial (Or.inl rfl)⟩
    · exact ⟨cur, h⟩
  | handOver w =>
    rw [Attribution.step]
    split
    · rename_i frame hw
      split
      · -- a worker without a row of its own counts nothing
        exact ⟨cur, h.setWorker w trivial (Or.inl rfl)⟩
      · exact ⟨cur, h.moveOn hw (by simp) fun _ hok => stageOk_handOver hok⟩
    · exact ⟨cur, h⟩
  | loadTable w =>
    rw [Attribution.step]
    split
    · rename_i row loaded todo hw
      split
      · exact ⟨cur, h.moveOn hw (by simp) fun hopen hok => h.stageOk_loadTable hopen hok w⟩
      · exact ⟨cur, h⟩
    · exact ⟨cur, h⟩
  | takeTick w =>
    rw [Attribution.step]
    split
    · rename_i row loaded todo hw
      obtain ⟨hopen, hok⟩ := h.active hw (by simp)
      split
      · exact ⟨cur, h⟩
      · -- the tick is in the published state, beside the tables
        have hcur : ({ s with
            plugin := { s.plugin with main := { s.plugin.main with
              tick := s.plugin.main.tick + 1 } }
            applied := s.applied } : Attribution).Current cur :=
          h.write_tables (fun es hs => hs.congr rfl rfl rfl) ⟨rfl, rfl⟩ rfl rfl rfl rfl h.counted
        exact ⟨cur, hcur.setWorker w hok (Or.inr hopen)⟩
    · exact ⟨cur, h⟩
  | update w =>
    rw [Attribution.step]
    split
    · rename_i row tick e rule todo hw
      exact ⟨cur, h.countEntry hw⟩
    · exact ⟨cur, h.setWorker w trivial (Or.inl rfl)⟩
    · exact ⟨cur, h⟩

end Attribution

/-- In a run in which no frame overlaps the deletion of a rule, a key is counted only in tables of the
rule that encoded it, and no frame mixes the rules of two versions. -/
theorem attributed_of_undisturbed (vlibNumWorkers : ℕ) (events : List AttributionEvent)
    (h : Runs.Meets Attribution.step Attribution.Undisturbed (.start vlibNumWorkers) events) :
    Runs.Throughout Attribution.step Attribution.Attributed (.start vlibNumWorkers) events :=
  Runs.throughout_of_meets (I := fun s => ∃ cur, s.Current cur)
    ⟨[], Attribution.current_start vlibNumWorkers⟩ (fun _ _ ⟨_, hs⟩ he => hs.step he)
    (fun _ ⟨_, hs⟩ => hs.attributed) h

/-! ### Runs of one frame -/

/-- A request for a second rule, on the DSCP field. -/
def dscpRuleMsg : FlowRuleAddMsg :=
  { protoRuleMsg with
    name := protoRuleMsg.name.set 0 0x63
    fields := protoRuleMsg.fields.set 0 3 }

/-- Two rules are added and published. -/
def addTwoRules : List AttributionEvent :=
  .request (.flowRuleAdd (envAt 0) protoRuleMsg) :: List.replicate 132 .main ++
    .request (.flowRuleAdd (envAt 0) dscpRuleMsg) :: List.replicate 132 .main

/-- A worker thread matches a packet against the first rule. -/
def matchFirstRule : List AttributionEvent :=
  [.loadRuleSet 1 fun _ => 0, .readRules 1, .readCount 1, .matchRule 1 0 .zero 60]

/-- The worker counts what it has matched. -/
def countMatches : List AttributionEvent :=
  .handOver 1 :: List.replicate 64 (.loadTable 1) ++ [.takeTick 1, .update 1]

/-- A frame behind two additions counts its key in the table of its rule. -/
theorem undisturbed_frame :
    Runs.Throughout Attribution.step Attribution.Attributed (.start 1)
      (addTwoRules ++ (matchFirstRule ++ countMatches)) ∧
    (Runs.run Attribution.step (.start 1)
      (addTwoRules ++ (matchFirstRule ++ countMatches))).applied.length = 1 := by
  refine ⟨attributed_of_undisturbed 1 _ ?_, by decide +kernel⟩
  rw [Runs.meets_append, Runs.meets_append]
  refine ⟨Runs.meets_of_forall fun e he s => ?_, Runs.meets_cons.mpr ⟨?_, ?_⟩, ?_⟩
  · simp only [addTwoRules, List.mem_cons, List.mem_append, List.mem_replicate] at he
    rcases he with (rfl | ⟨-, rfl⟩) | rfl | ⟨-, rfl⟩ <;> trivial
  · intro hdel
    exact absurd hdel (by decide +kernel)
  · refine Runs.meets_of_forall fun e he s => ?_
    simp only [List.mem_cons, List.not_mem_nil, or_false] at he
    rcases he with rfl | rfl | rfl <;> trivial
  · refine Runs.meets_of_forall fun e he s => ?_
    simp only [countMatches, List.mem_cons, List.mem_append, List.mem_replicate, List.not_mem_nil,
      or_false] at he
    rcases he with (rfl | ⟨-, rfl⟩) | rfl | rfl <;> trivial

/-- The first rule is deleted while the frame is between the two nodes. -/
def deleteBetweenNodes : List AttributionEvent :=
  addTwoRules ++ (matchFirstRule ++
    (.request (.flowRuleDel (envAt 0) protoRuleId) :: List.replicate 133 .main ++ countMatches))

/-- The key of the deleted rule is counted in the table of the rule that took its index. -/
theorem key_counted_under_other_rule :
    ¬ Runs.Throughout Attribution.step Attribution.Attributed (.start 1) deleteBetweenNodes := by
  intro h
  have hlast := (h deleteBetweenNodes [] (List.append_nil _).symm).counted
  have hpair : ((Runs.run Attribution.step (.start 1) deleteBetweenNodes).applied.map
      fun pair => (pair.1.mark, pair.2.mark)) = [(1, 2)] := by
    decide +kernel
  obtain ⟨pair, hmem, heq⟩ := List.mem_map.mp (hpair ▸ List.mem_cons_self :
    (1, 2) ∈ (Runs.run Attribution.step (.start 1) deleteBetweenNodes).applied.map _)
  have hmark := congrArg MarkedRule.mark (hlast pair hmem)
  obtain ⟨h1, h2⟩ := Prod.mk.inj heq
  omega

end InFMon
