import InFMon.Plugin.ApiPhase
import InFMon.Plugin.FrameHits

/-! # The plugin does what its meter says

In every run in which the meter stays within what the tables can count, each worker's table of a rule is
an exact map of the hits that the worker has had since the last snapshot of the rule. -/

namespace InFMon

open CountedLoop DenseArray

/-! ### The tables and the meter -/

/-- The table is an exact map of the hits, whose keys have all one width. -/
def HoldsHits (t : CounterTable) (width : ℕ) (hits : List Hit) : Prop :=
  ∃ ops, t.Exact frameHash width ops ∧ (∀ op ∈ ops, op.key.len = width) ∧ ops.map UpdateOp.hit = hits

/-- The tables of an entry hold what the meter has for it. -/
structure Meters (heap : Heap) (e : RuleEntry) (m : MeteredRule) : Prop where
  rule : m.rule = e.rule
  id : m.id = e.id
  passed : e.rule.PassedAdd
  tables : ∀ w t, e.tables w = some t → HoldsHits (heap.table t) e.rule.keyWidth (m.hits w)

/-- The entries and the meter have the same rules in the same order. -/
structure MetersAll (heap : Heap) (es : List RuleEntry) (m : Meter) : Prop where
  length : m.length = es.length
  meters : ∀ (i : ℕ) e r, es[i]? = some e → m[i]? = some r → Meters heap e r

variable {heap heap' : Heap} {es : List RuleEntry} {m : Meter}

/-- The keys of the updates are those of their hits. -/
theorem card_keysOf (ops : List UpdateOp) :
    (keysOf ops).card = (hitKeys (ops.map UpdateOp.hit)).card := by
  have himage : hitKeys (ops.map UpdateOp.hit) = (keysOf ops).image Key.bytes := by
    ext key
    simp [hitKeys, keysOf, UpdateOp.hit]
  rw [himage, Finset.card_image_of_injective _ fun a b h => Key.ext h]

namespace Meters

variable {e : RuleEntry} {r : MeteredRule}

/-- Tables that stay as they are hold what they held. -/
theorem congr (h : Meters heap e r)
    (htable : ∀ w t, e.tables w = some t → heap'.table t = heap.table t) : Meters heap' e r where
  rule := h.rule
  id := h.id
  passed := h.passed
  tables w t ht := by
    rw [htable w t ht]
    exact h.tables w t ht

/-- Empty tables hold nothing. -/
theorem of_empty (hrule : r.rule = e.rule) (hid : r.id = e.id) (hpassed : e.rule.PassedAdd)
    (hhits : ∀ w, r.hits w = []) (htables : ∀ w t, e.tables w = some t →
      (heap.table t).Geometry ∧ (heap.table t).Empty ∧
        (heap.table t).keyArenaCapacity = (heap.table t).numSlots * e.rule.keyWidth) :
    Meters heap e r where
  rule := hrule
  id := hid
  passed := hpassed
  tables w t ht := by
    obtain ⟨hg, hempty, hcap⟩ := htables w t ht
    exact ⟨[], hempty.exact frameHash hg hpassed.matchWidth_eq.2.1 hcap,
      fun op hop => absurd hop List.not_mem_nil, (hhits w).symm⟩

end Meters

namespace MetersAll

/-- Each rule is metered by its own meter. -/
theorem getElem (h : MetersAll heap es m) {i : ℕ} (hi : i < es.length) (hm : i < m.length) :
    Meters heap es[i] m[i] :=
  h.meters i _ _ (List.getElem?_eq_getElem hi) (List.getElem?_eq_getElem hm)

/-- The first rule with an id has the same place in both. -/
theorem place_eq (h : MetersAll heap es m) {id : FlowRuleId} {i : ℕ} (hi : i < es.length)
    (hid : es[i].id = id) (hfirst : ∀ j (hj : j < es.length), j < i → es[j].id ≠ id) :
    m.place id = i := by
  have hm : i < m.length := h.length.symm ▸ hi
  refine (List.findIdx_eq hm).mpr ⟨?_, fun j hji => ?_⟩
  · exact decide_eq_true ((h.getElem hi hm).id.trans hid)
  · refine decide_eq_false fun hj => hfirst j (hji.trans hi) hji ?_
    exact (h.getElem (hji.trans hi) (hji.trans hm)).id.symm.trans hj

/-- The meters depend on the tables only. -/
theorem congr (h : MetersAll heap es m)
    (htable : ∀ e ∈ es, ∀ w t, e.tables w = some t → heap'.table t = heap.table t) :
    MetersAll heap' es m where
  length := h.length
  meters i e r he hr := (h.meters i e r he hr).congr (htable e (List.mem_of_getElem? he))

/-- One rule more. -/
theorem concat (h : MetersAll heap es m) {e : RuleEntry} {r : MeteredRule} (hlast : Meters heap e r) :
    MetersAll heap (es ++ [e]) (m ++ [r]) where
  length := by simp [h.length]
  meters i e' r' he hr := by
    rw [List.getElem?_append, h.length] at hr
    rw [List.getElem?_append] at he
    by_cases hi : i < es.length
    · rw [if_pos hi] at he hr
      exact h.meters i e' r' he hr
    · rw [if_neg hi] at he hr
      obtain rfl := List.mem_singleton.mp (List.mem_of_getElem? he)
      obtain rfl := List.mem_singleton.mp (List.mem_of_getElem? hr)
      exact hlast

/-- One rule less. -/
theorem eraseIdx (h : MetersAll heap es m) (i : ℕ) :
    MetersAll heap (es.eraseIdx i) (m.eraseIdx i) where
  length := by rw [List.length_eraseIdx, List.length_eraseIdx, h.length]
  meters j e r he hr := by
    rw [List.getElem?_eraseIdx] at he hr
    by_cases hj : j < i
    · rw [if_pos hj] at he hr
      exact h.meters j e r he hr
    · rw [if_neg hj] at he hr
      exact h.meters (j + 1) e r he hr

/-- Another entry for one rule. -/
theorem set (h : MetersAll heap es m) {i : ℕ} (hi : i < es.length) {e : RuleEntry}
    {f : MeteredRule → MeteredRule} (hnew : ∀ r, m[i]? = some r → Meters heap e (f r)) :
    MetersAll heap (es.set i e) (m.modify i f) where
  length := by rw [List.length_modify, List.length_set, h.length]
  meters j e' r' he hr := by
    by_cases hij : i = j
    · subst hij
      rw [List.getElem?_set_self hi] at he
      rw [List.getElem?_modify_eq] at hr
      obtain ⟨r, hold, rfl⟩ := Option.map_eq_some_iff.mp hr
      exact Option.some.inj he ▸ hnew r hold
    · rw [List.getElem?_set_ne hij] at he
      rw [List.getElem?_modify_ne _ _ hij] at hr
      exact h.meters j e' r' he hr

end MetersAll

/-! ### What is published -/

namespace Plugin

variable {p q : Plugin}

/-- The rules of the context are published. -/
structure Publishes (p : Plugin) (es : List RuleEntry) : Prop extends p.ApiPhase es where
  source : es ≠ [] → p.main.flowRuleSet = some .api
  ref : p.main.flowRuleSet = some .api → p.apiRef.rules = decide (0 < es.length)

/-- As many rules are published as there are entries. -/
theorem Publishes.count_eq (h : p.Publishes es) : p.publishedCount = es.length := by
  unfold publishedCount
  cases hsource : p.main.flowRuleSet with
  | none =>
    by_contra hne
    have hes : es ≠ [] := fun hnil => hne (hnil ▸ rfl)
    rw [h.source hes] at hsource
    cases hsource
  | some source =>
    cases source with
    | cli => exact absurd hsource h.notCli
    | api =>
      show (if p.apiRef.rules = true then p.apiRef.count else 0) = es.length
      split
      · exact h.count
      · rename_i hzero
        rw [h.ref hsource, decide_eq_true_eq, Nat.not_lt] at hzero
        exact (Nat.le_zero.mp hzero).symm

/-- The rules are published in the order of the entries. -/
theorem Publishes.rules_eq (h : p.Publishes es) (hes : es ≠ []) :
    p.publishedRules = ruleArray (es.map RuleEntry.rule) := by
  unfold publishedRules
  rw [h.source hes]
  funext i
  show p.api.ruleSet.rules i = _
  rw [h.sound.aligned.rules.rules]
  simp [ruleArray, ofList]

/-- A published table is in one cell. -/
theorem Publishes.cell_unique (h : p.Publishes es) {u j v i t : ℕ}
    (hu : p.main.tables u j = some t) (hv : p.main.tables v i = some t) : u = v ∧ j = i := by
  rw [h.tables] at hu hv
  have hplace := h.sound.aligned.owning.owned.injective (.cell u j) (.cell v i) t hu hv
  cases hplace
  exact ⟨rfl, rfl⟩

/-- Two lists of entries of one context are the same. -/
theorem aligned_unique {st : ApiState} {es' : List RuleEntry} (h : st.Aligned es)
    (h' : st.Aligned es') : es' = es := by
  have hlength : es'.length = es.length := h'.count_eq.symm.trans h.count_eq
  refine List.ext_getElem hlength fun i hi' hi => ?_
  have hrule : es'[i].rule = es[i].rule := (h'.rule_eq hi').symm.trans (h.rule_eq hi)
  have hid : es'[i].id = es[i].id := (h'.id_eq hi').symm.trans (h.id_eq hi)
  have htables : es'[i].tables = es[i].tables :=
    funext fun w => (h'.table_eq hi' w).symm.trans (h.table_eq hi w)
  generalize es'[i] = e' at *
  cases e'
  subst hrule hid htables
  rfl

/-! ### One frame -/

/-- Counting a frame leaves what is published. -/
theorem Publishes.countFrame (h : p.Publishes es) (w : ℕ) (scratch : Scratch) :
    (p.countFrame w scratch).Publishes es := by
  have hsound := h.sound.countFrame w scratch
  unfold Plugin.countFrame at hsound ⊢
  split
  · exact h
  · rename_i hw
    rw [if_neg hw] at hsound
    exact { sound := hsound, rules := h.rules, numWorkers := h.numWorkers, tables := h.tables,
            notCli := h.notCli, count := h.count, source := h.source, ref := h.ref }

end Plugin

namespace PluginSystem

variable {s : PluginSystem} {w : ℕ} {buffers : List Buffer}

/-- A frame changes nothing that is published. -/
theorem publishes_frame (h : s.plugin.Publishes es) (w : ℕ) (buffers : List Buffer) :
    (s.frame w buffers).plugin.Publishes es := by
  rcases s.frame_plugin w buffers with heq | ⟨scratch, heq⟩
  · rw [heq]
    exact h
  · rw [heq]
    exact h.countFrame w scratch

/-- A frame counts the entries of its mirrored packets, whichever nodes run. -/
theorem frame_heap (hw : w < maxWorkers) (s : PluginSystem) (buffers : List Buffer) :
    (s.frame w buffers).plugin.heap =
      (flowMatchNode s.plugin.publishedRules s.plugin.publishedCount (mirrored buffers)
        (s.keyBuf w)).scratch.entries.foldl
          (counterUpdateEntry (s.plugin.main.tables w) s.plugin.main.tick) s.plugin.heap := by
  unfold frame mirrored
  split
  · rename_i hnil
    rw [hnil]
    rfl
  · dsimp only
    split
    · -- no packet goes to the counter node, so there is no entry
      rename_i hzero
      rw [flowMatchNode_toCounter _ _ _ _ hzero]
      rfl
    · show (Plugin.countFrame _ _ _).heap = _
      rw [Plugin.countFrame, if_neg (Nat.not_le.mpr hw)]
      rfl

/-- The counter node does nothing on a worker that it has no row for. -/
theorem frame_heap_of_ge (hw : maxWorkers ≤ w) (s : PluginSystem) (buffers : List Buffer) :
    (s.frame w buffers).plugin.heap = s.plugin.heap := by
  rcases s.frame_plugin w buffers with heq | ⟨scratch, heq⟩
  · rw [heq]
  · rw [heq, Plugin.countFrame, if_pos hw]

/-- The tables of the other workers stay as they are. -/
theorem frame_table_of_ne (h : s.plugin.Publishes es) {v i t : ℕ} (hvw : v ≠ w)
    (hcell : s.plugin.main.tables v i = some t) :
    (s.frame w buffers).plugin.heap.table t = s.plugin.heap.table t := by
  by_cases hw : w < maxWorkers
  · rw [frame_heap hw]
    exact foldl_counterUpdateEntry_of_ne (fun j hj => hvw (h.cell_unique hcell hj).1) _ _
  · rw [frame_heap_of_ge (Nat.le_of_not_lt hw)]

/-- The worker's table of a rule gets the hits of the rule, one update each. -/
theorem frame_table (h : s.plugin.Publishes es) (hpassed : ∀ e ∈ es, e.rule.PassedAdd)
    (hbuffers : buffers.length ≤ frameSize) (hw : w < maxWorkers) {i t : ℕ} (hi : i < es.length)
    (hcell : s.plugin.main.tables w i = some t) :
    ∃ later, (s.frame w buffers).plugin.heap.table t =
        (s.plugin.heap.table t).run frameHash later ∧
      later.map UpdateOp.hit = (mirrored buffers).filterMap es[i].rule.hit ∧
      ∀ op ∈ later, op.key.len = es[i].rule.keyWidth := by
  have hes : es ≠ [] := fun hnil => by
    subst hnil
    exact absurd hi (Nat.not_lt_zero i)
  have hadd : ∀ rule ∈ es.map RuleEntry.rule, rule.PassedAdd := by
    intro rule hrule
    obtain ⟨e, he, rfl⟩ := List.mem_map.mp hrule
    exact hpassed e he
  have hcount : (es.map RuleEntry.rule).length ≤ maxActiveFlowRules :=
    h.sound.aligned.rules.length_le.trans (by decide)
  have hinner : (mirrored buffers).length ≤ frameSize :=
    (List.length_filterMap_le _ _).trans hbuffers
  have hi' : i < (es.map RuleEntry.rule).length := by simpa using hi
  have hpublished : s.plugin.publishedCount = (es.map RuleEntry.rule).length := by
    rw [h.count_eq, List.length_map]
  -- the frame's updates of this table are the entries of its rule, in their order
  rw [frame_heap hw, h.rules_eq hes, hpublished]
  have hhits := entriesOf_flowMatchNode hadd hcount hinner (s.keyBuf w) hi'
  have hentries := fun e => entries_flowMatchNode hadd hcount hinner (s.keyBuf w) (e := e)
  rw [List.getElem_map] at hhits
  generalize (flowMatchNode (ruleArray (es.map RuleEntry.rule)) (es.map RuleEntry.rule).length
    (mirrored buffers) (s.keyBuf w)).scratch = scratch at hhits hentries
  refine ⟨(scratch.entriesOf i).map (ScratchEntry.update s.plugin.main.tick), ?_, ?_, ?_⟩
  · refine foldl_counterUpdateEntry_table (fun j k t' hj hk => (h.cell_unique hj hk).2) hcell
      (fun e he => ?_) _
    obtain ⟨hindex, -, hpos, hhash⟩ := hentries e he
    exact ⟨hindex.trans_le hcount, Nat.ne_of_gt hpos, hhash⟩
  · rw [List.map_map]
    exact hhits
  · intro op hop
    obtain ⟨e, he, rfl⟩ := List.mem_map.mp hop
    obtain ⟨he, hei⟩ := List.mem_filter.mp he
    obtain ⟨hindex, hlen, -⟩ := hentries e he
    have heq : e.flowRuleIndex = i := of_decide_eq_true hei
    refine hlen.trans ?_
    simp only [heq, List.getElem_map]

/-- The tables of a rule get the hits of a frame, as long as its keys fit into them. -/
theorem meters_frame (h : s.plugin.Publishes es) (hpassed : ∀ e ∈ es, e.rule.PassedAdd)
    (hbuffers : buffers.length ≤ frameSize) (hnw : s.plugin.api.nw ≤ maxWorkers) {i : ℕ}
    (hi : i < es.length) {r : MeteredRule} (hr : Meters s.plugin.heap es[i] r)
    (hfits : ∀ v < s.plugin.api.nw,
      (hitKeys ((r.count w (mirrored buffers)).hits v)).card ≤ nextPow2 r.rule.maxKeys) :
    Meters (s.frame w buffers).plugin.heap es[i] (r.count w (mirrored buffers)) := by
  have haligned := h.sound.aligned
  have hserved := haligned.served _ (List.getElem_mem hi)
  refine { rule := hr.rule, id := hr.id, passed := hr.passed, tables := fun v t ht => ?_ }
  obtain ⟨ops, hexact, hwidth, hops⟩ := hr.tables v t ht
  have hv : v < s.plugin.api.nw := by
    by_contra hge
    rw [hserved.eq_none (Nat.le_of_not_lt hge)] at ht
    cases ht
  have hcell : s.plugin.main.tables v i = some t := by
    rw [h.tables, haligned.table_eq hi]
    exact ht
  -- the frame reaches the tables of worker `w` only
  by_cases hvw : v = w
  · subst hvw
    obtain ⟨later, htable, hlater, hlen⟩ :=
      frame_table h hpassed hbuffers (hv.trans_le hnw) hi hcell
    have hall : (ops ++ later).map UpdateOp.hit = (r.count v (mirrored buffers)).hits v := by
      show _ = Function.update r.hits v _ v
      rw [List.map_append, hops, hlater, Function.update_self, hr.rule]
    have hslots : (s.plugin.heap.table t).numSlots = nextPow2 es[i].rule.maxKeys :=
      hserved.numSlots v t ht
    rw [htable]
    refine ⟨_, (hexact.more (fun op hop => (hlen op hop).le) ?_).1, fun op hop => ?_, hall⟩
    swap
    · exact (List.mem_append.mp hop).elim (hwidth op) (hlen op)
    rw [card_keysOf, hall, hslots, ← hr.rule]
    exact hfits v hv
  · rw [frame_table_of_ne h hvw hcell]
    refine ⟨ops, hexact, hwidth, hops.trans ?_⟩
    show _ = Function.update r.hits w _ v
    rw [Function.update_of_ne hvw]

end PluginSystem

/-! ### One request -/

namespace Plugin

variable {p q : Plugin} {request : Request}

/-- Setting up the context publishes nothing. -/
theorem Publishes.ensure (h : p.Publishes es) (memory : Bool) :
    (p.apiCtxEnsure memory).Publishes es := by
  have hphase := h.toApiPhase.ensure memory
  rcases apiCtxEnsure_cases memory p with heq | ⟨-, ruleSet, -, heq⟩
  · rw [heq]
    exact h
  · rw [heq] at hphase ⊢
    exact { hphase with source := h.source, ref := h.ref }

/-- A request that fails leaves what is published. -/
theorem Publishes.serve_failed (h : p.Publishes es)
    (hne : ((p.apiCtxEnsure request.env.memory).outcome request).1 ≠ .ok) :
    (p.serve request).Publishes es ∧ ∀ t < p.heap.next, (p.serve request).heap.table t = p.heap.table t := by
  obtain ⟨es', hphase⟩ := h.toApiPhase.serve request
  have hq := h.ensure request.env.memory
  have hheap := (h.sound.ensure_tables request.env.memory).2.2
  obtain ⟨heap, hundone, hapi⟩ := outcome_failed hq.sound.aligned.arranged hne
  have haligned := hq.sound.aligned.undone hundone
  have heq := serve_eq p request
  rw [publishIf, if_neg hne, hapi] at heq
  rw [heq] at hphase ⊢
  obtain rfl := aligned_unique haligned hphase.sound.aligned
  refine ⟨{ hphase with source := hq.source, ref := hq.ref }, fun t ht => ?_⟩
  rw [← hheap] at ht ⊢
  exact hundone.table_eq t ht

/-- The reference has its pointer exactly when there is a rule. -/
theorem publishRules_ref (p : Plugin) :
    p.publishRules.apiRef.rules = decide (0 < p.publishRules.apiRef.count) := rfl

/-- A request that succeeds publishes the new entries. -/
theorem Publishes.serve_ok (h : p.Publishes es) {es' : List RuleEntry}
    (hok : ((p.apiCtxEnsure request.env.memory).outcome request).1 = .ok)
    (haligned : ((p.apiCtxEnsure request.env.memory).outcome request).2.Aligned es') :
    (p.serve request).Publishes es' ∧ (p.serve request).heap =
      ((p.apiCtxEnsure request.env.memory).outcome request).2.heap := by
  obtain ⟨es₂, hphase⟩ := h.toApiPhase.serve request
  have heq := serve_eq p request
  rw [publishIf, if_pos hok] at heq
  rw [heq] at hphase ⊢
  have hsame : es₂ = es' := by
    refine aligned_unique haligned ?_
    have := hphase.sound.aligned
    rwa [publishRules_api] at this
  subst hsame
  refine ⟨{ hphase with source := fun _ => rfl, ref := fun _ => ?_ }, rfl⟩
  have hcount := hphase.count
  rw [publishRules_ref, hcount]

/-- The rule that a deletion takes is the first one with the id. -/
theorem first_of_nameOfId (h : q.Sound es) {id : FlowRuleId} {i : ℕ} (hi : i < es.length)
    (hname : q.nameOfId id = some es[i].rule.name) :
    ∀ j (hj : j < es.length), j < i → es[j].id ≠ id := by
  intro j hj hji hjid
  unfold nameOfId at hname
  split at hname
  · cases hname
  rename_i k hfind
  obtain ⟨-, -, hfirst⟩ := List.find?_range_eq_some.mp hfind
  have hk : k < i := by
    by_contra hge
    have := hfirst j (by omega)
    simp [FlowRuleId.eq, h.aligned.id_eq hj, hjid] at this
  rw [h.aligned.rules.get_eq (by simpa using hk.trans hi), List.getElem_map] at hname
  refine hk.ne (h.aligned.rules.name_inj (by simpa using hk.trans hi) (by simpa using hi) ?_)
  simpa using hname

/-- A rule that was added has passed `infmon_flow_rule_add`. -/
theorem passedAdd_of_outcome (h : q.Sound es) {env : ApiEnv} {mp : FlowRuleAddMsg}
    (hok : (q.outcome (.flowRuleAdd env mp)).1 = .ok) : (messageRule mp).register.PassedAdd := by
  rw [outcome] at hok
  split at hok
  · have hadd := ApiState.add_ok_of_flowRuleAdd_ok hok
    refine ⟨q.api.ruleSet, messageRule mp, hadd, ?_⟩
    rcases h.aligned.rules.add (messageRule mp) with ⟨-, hholds, -⟩ | ⟨hne, -⟩
    · rw [h.aligned.rules.count, hholds.rules_eq (by simp)]
      simp
    · exact absurd hadd hne
  · cases hok

/-- The meter follows an operation that succeeds. -/
theorem metersAll_changed (h : q.Sound es) {es' : List RuleEntry} {st : ApiState}
    (hall : MetersAll q.heap es m) (hok : (q.outcome request).1 = .ok)
    (hchanged : Changed q es request st es') :
    MetersAll st.heap es' (m.grant (newRuleId request.env q.idSeq) request) := by
  have hlt : ∀ e ∈ es, ∀ w t, e.tables w = some t → t < q.heap.next :=
    fun e he w t ht => h.aligned.arranged.lt_next he ht
  cases hchanged with
  | added env mp set s hready hset hs =>
    have hkept : MetersAll s.2 es m :=
      hall.congr fun e he w t ht => hs.table_eq t (hlt e he w t ht)
    refine hkept.concat (.of_empty rfl rfl (passedAdd_of_outcome h hok) (fun _ => rfl) ?_)
    intro w t ht
    obtain ⟨hw, ht⟩ := Option.ite_none_right_eq_some.mp ht
    obtain rfl := Option.some.inj ht
    obtain ⟨hg, hfresh, -, hcap⟩ := hs.new_table w hw
    exact ⟨hg, hfresh.toEmpty, hcap⟩
  | deleted env id i hi set hid hzero hname hset =>
    have hplace := hall.place_eq hi hid (first_of_nameOfId h hi hname)
    have hkept : MetersAll (q.api.without i set).heap es m := hall.congr fun _ _ _ _ _ => rfl
    show MetersAll _ _ (m.eraseIdx (m.place id))
    rw [hplace]
    exact hkept.eraseIdx i
  | swapped request env id i hi out new r hrequest hid hfirst hs =>
    have hplace := hall.place_eq hi hid hfirst
    -- the meter of the rule starts anew, as its tables do
    have hgrant : m.grant (newRuleId request.env q.idSeq) request =
        m.modify (m.place id) MeteredRule.clear := by
      cases request with
      | snapshotAndClear _ _ =>
        cases hrequest
        rfl
      | snapshotInlineDump _ _ =>
        cases hrequest
        rfl
      | _ => cases hrequest
    have hkept : MetersAll out.heap es m :=
      hall.congr fun e he w t ht => hs.table_eq t (hlt e he w t ht)
    rw [hgrant, hplace]
    refine hkept.set hi fun old hold => ?_
    have hmeters := hkept.meters i _ old (List.getElem?_eq_getElem hi) hold
    refine .of_empty hmeters.rule hmeters.id hmeters.passed (fun _ => rfl) fun w t ht => ?_
    obtain ⟨-, -, old, -, hg, hempty, hslots, hcap, -⟩ := hs.new_table w t ht
    exact ⟨hg, hempty, hslots ▸ hcap⟩

end Plugin

/-! ### Runs -/

namespace MeteredSystem

/-- The tables hold what the meter has, for the rules of the entries `es`. -/
structure Follows (s : MeteredSystem) (es : List RuleEntry) : Prop where
  publishes : s.system.plugin.Publishes es
  meters : MetersAll s.system.plugin.heap es s.meter

/-- At the start there is nothing to meter. -/
theorem follows_start (vlibNumWorkers : ℕ) : (start vlibNumWorkers).Follows [] where
  publishes :=
    { sound := Plugin.sound_start vlibNumWorkers, rules := Plugin.holds_noRules, numWorkers := rfl,
      tables := rfl, notCli := nofun, count := rfl, source := fun h => absurd rfl h,
      ref := fun h => by cases h }
  meters := ⟨rfl, fun i e r he _ => by cases he⟩

variable {s : MeteredSystem}

/-- The number of workers stays. -/
theorem vlibNumWorkers_step (s : MeteredSystem) (e : PluginEvent) :
    (s.step e).system.plugin.vlibNumWorkers = s.system.plugin.vlibNumWorkers := by
  cases e with
  | frame w buffers =>
    show (s.system.frame w buffers).plugin.vlibNumWorkers = _
    rcases s.system.frame_plugin w buffers with heq | ⟨scratch, heq⟩
    · rw [heq]
    · rw [heq, Plugin.countFrame]
      split
      · rfl
      · rfl
  | request request =>
    show (s.system.plugin.serve request).vlibNumWorkers = _
    rw [Plugin.serve_eq, Plugin.publishIf_vlibNumWorkers]
    rcases Plugin.apiCtxEnsure_cases request.env.memory s.system.plugin with heq | ⟨-, ruleSet, -, heq⟩
    · rw [heq]
    · rw [heq]

/-- With a rule, the context serves all workers. -/
theorem Follows.nw_eq (h : s.Follows es) (hes : es ≠ []) :
    s.system.plugin.api.nw = s.system.plugin.vlibNumWorkers + 1 := by
  refine h.publishes.sound.nw_eq ?_
  by_contra hready
  exact hes (h.publishes.sound.fresh (by simpa using hready)).1

/-- One event. -/
theorem Follows.step (h : s.Follows es) {e : PluginEvent} (he : s.InBounds e)
    (hworkers : s.system.plugin.vlibNumWorkers < maxWorkers) : ∃ es', (s.step e).Follows es' := by
  have hpassed : ∀ e ∈ es, e.rule.PassedAdd := by
    intro e he
    obtain ⟨i, hi, rfl⟩ := List.getElem_of_mem he
    exact (h.meters.getElem hi (h.meters.length.symm ▸ hi)).passed
  cases e with
  | frame w buffers =>
    refine ⟨es, PluginSystem.publishes_frame h.publishes w buffers, ?_, fun i e r hei hri => ?_⟩
    · exact (List.length_map _).trans h.meters.length
    · obtain ⟨hi, rfl⟩ := List.getElem?_eq_some_iff.mp hei
      -- there is a rule, so the context is there, with all workers
      have hnw := h.nw_eq (List.ne_nil_of_length_pos (Nat.zero_lt_of_lt hi))
      have hmem := List.mem_of_getElem? hri
      change (List.map _ s.meter)[i]? = some r at hri
      rw [List.getElem?_map] at hri
      obtain ⟨old, hold, rfl⟩ := Option.map_eq_some_iff.mp hri
      refine PluginSystem.meters_frame h.publishes hpassed he.1 (hnw ▸ hworkers) hi
        (h.meters.meters i _ old hei hold) fun v hv => ?_
      exact (he.2 _ hmem).keys v (hnw ▸ hv)
  | request request =>
    have hheap := (h.publishes.sound.ensure_tables request.env.memory).2.2
    have hsound := h.publishes.sound.ensure request.env.memory
    rw [MeteredSystem.step, Meter.step]
    rcases Plugin.outcome_cases hsound request with ⟨hne, -⟩ | ⟨hok, es', hchanged, haligned⟩
    · rw [if_neg hne]
      obtain ⟨hpublishes, htables⟩ := h.publishes.serve_failed hne
      refine ⟨es, hpublishes, h.meters.congr fun e he w t ht => htables t ?_⟩
      exact h.publishes.sound.aligned.arranged.lt_next he ht
    · rw [if_pos hok]
      obtain ⟨hpublishes, hserved⟩ := h.publishes.serve_ok hok haligned
      have hall := Plugin.metersAll_changed hsound (hheap ▸ h.meters) hok hchanged
      refine ⟨es', hpublishes, ?_⟩
      show MetersAll (s.system.plugin.serve request).heap es' _
      rw [hserved]
      exact hall

/-- Behind every run in which the meter stays in bounds, the tables hold what it has. -/
theorem follows_run {vlibNumWorkers : ℕ} (hworkers : vlibNumWorkers < maxWorkers)
    {events : List PluginEvent} (h : Runs.Meets step InBounds (start vlibNumWorkers) events) :
    ∃ es, (Runs.run step (start vlibNumWorkers) events).Follows es ∧
      (Runs.run step (start vlibNumWorkers) events).meter.Fits (vlibNumWorkers + 1) ∧
      (Runs.run step (start vlibNumWorkers) events).system.plugin.vlibNumWorkers = vlibNumWorkers := by
  refine Runs.invariant (I := fun s : MeteredSystem => ∃ es, s.Follows es ∧
    s.meter.Fits (vlibNumWorkers + 1) ∧ s.system.plugin.vlibNumWorkers = vlibNumWorkers) ?_ ?_ h
  · exact ⟨[], follows_start vlibNumWorkers, fun r hr => absurd hr List.not_mem_nil, rfl⟩
  · rintro s e ⟨es, hs, -, hv⟩ he
    obtain ⟨es', hs'⟩ := hs.step he (hv ▸ hworkers)
    exact ⟨es', hs', hv ▸ he.2, (s.vlibNumWorkers_step e).trans hv⟩

end MeteredSystem

end InFMon
