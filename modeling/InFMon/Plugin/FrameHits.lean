import InFMon.CounterTable.ExactMap
import InFMon.DataPath.FramePass
import InFMon.Plugin.Meter
import InFMon.Plugin.StoredKeys

/-! # What a frame does to one table

The entries of a frame are counted in the tables of one worker. Each table gets the entries of its own
rule, which are the hits of the rule in the order of the packets, and the tables of other workers get
none. -/

namespace InFMon

/-! ### The entries of one rule -/

/-- The hit in an entry. -/
def ScratchEntry.hit (e : ScratchEntry) : Hit := (e.keyData.bytes, e.pktBytes)

/-- The update that an entry leads to. -/
def ScratchEntry.update (tick : UInt64) (e : ScratchEntry) : UpdateOp := ⟨e.keyData, e.pktBytes, tick⟩

/-- The hit of an update. -/
def UpdateOp.hit (op : UpdateOp) : Hit := (op.key.bytes, op.pktBytes)

/-- The hash that the flow-match node takes. -/
def frameHash (key : Key) : UInt64 := fnv1a64 key.bytes

/-- The entries of the rule at an index. -/
def Scratch.entriesOf (scratch : Scratch) (i : ℕ) : List ScratchEntry :=
  scratch.entries.filter fun e => e.flowRuleIndex = i

variable {rules : List FlowRule}

/-- Of the entries of all rules, those of one. -/
theorem filter_mapIdx_ruleEntry (fields : FlowFields) (pktBytes : UInt64) (rules : List FlowRule)
    {i : ℕ} (hi : i < rules.length) :
    (rules.mapIdx (ruleEntry fields pktBytes)).filter (fun d => d.1 = i) =
      [ruleEntry fields pktBytes i rules[i]] := by
  induction rules using List.reverseRecOn with
  | nil => exact absurd hi (Nat.not_lt_zero i)
  | append_singleton rules rule ih =>
    rw [List.mapIdx_concat, List.filter_append]
    rw [List.length_append, List.length_singleton] at hi
    by_cases hlast : i = rules.length
    · -- no rule before the last one has its index
      subst hlast
      have hnone : (rules.mapIdx (ruleEntry fields pktBytes)).filter
          (fun d => d.1 = rules.length) = [] := by
        rw [List.filter_eq_nil_iff]
        intro d hd
        obtain ⟨j, hj, rfl⟩ := List.mem_mapIdx.mp hd
        simp [ruleEntry, hj.ne]
      rw [hnone, List.nil_append, List.getElem_concat_length rfl]
      simp [ruleEntry]
    · have hlt : i < rules.length := by omega
      rw [ih hlt, List.getElem_append_left hlt]
      simp [ruleEntry, Ne.symm hlast]

/-- The entries that a packet leaves for one rule are its hit. -/
theorem packetEntries_of_rule {i : ℕ} (hi : i < rules.length) (b : FrameBuffer) :
    ((packetEntries rules b).filter fun d => d.1 = i).map (fun d => (d.2.2.2, d.2.2.1)) =
      (rules[i].hit b.buffer).toList := by
  unfold packetEntries FlowRule.hit
  cases flowFields b.buffer with
  | error _ => rfl
  | ok fields =>
    dsimp only
    rw [filter_mapIdx_ruleEntry fields _ rules hi]
    rfl

/-- The entries that a frame leaves, in the order of packets and rules. -/
theorem flowMatchNode_entries (hadd : ∀ rule ∈ rules, rule.PassedAdd)
    (hcount : rules.length ≤ maxActiveFlowRules) {inner : List Buffer}
    (hinner : inner.length ≤ frameSize) (keyBuf : ByteMemory) :
    (flowMatchNode (ruleArray rules) rules.length inner keyBuf).scratch.entries.map
      ScratchEntry.detail = inner.flatMap fun b => packetEntries rules ⟨0, b⟩ := by
  -- the index of a buffer does not matter
  have hbuffers : (inner.map (FrameBuffer.mk 0)).map FrameBuffer.buffer = inner := by
    rw [List.map_map]
    exact List.map_id _
  have hentries := foldl_matchStep_entries hadd hcount (inner.map (FrameBuffer.mk 0))
    (q := ⟨0, .reset, keyBuf⟩) (by
      rw [List.length_map]
      exact (Nat.zero_add _).trans_le (Nat.mul_le_mul_right _ hinner))
  rw [hbuffers, List.flatMap_map] at hentries
  exact hentries.trans (List.nil_append _)

/-- The entries that a frame leaves for one rule are its hits. -/
theorem entriesOf_flowMatchNode (hadd : ∀ rule ∈ rules, rule.PassedAdd)
    (hcount : rules.length ≤ maxActiveFlowRules) {inner : List Buffer}
    (hinner : inner.length ≤ frameSize) (keyBuf : ByteMemory) {i : ℕ} (hi : i < rules.length) :
    ((flowMatchNode (ruleArray rules) rules.length inner keyBuf).scratch.entriesOf i).map
      ScratchEntry.hit = inner.filterMap rules[i].hit := by
  have hentries := flowMatchNode_entries hadd hcount hinner keyBuf
  generalize (flowMatchNode (ruleArray rules) rules.length inner keyBuf).scratch = scratch at hentries
  have hhits : (scratch.entriesOf i).map ScratchEntry.hit =
      ((scratch.entries.map ScratchEntry.detail).filter fun d => d.1 = i).map
        fun d => (d.2.2.2, d.2.2.1) := by
    rw [List.filter_map, List.map_map]
    rfl
  rw [hhits, hentries, List.filter_flatMap, List.map_flatMap, List.filterMap_eq_flatMap_toList]
  exact List.flatMap_congr fun b _ => packetEntries_of_rule hi ⟨0, b⟩

/-- An entry of a frame has the index of a rule, and a key of that rule's width under its hash. -/
theorem entries_flowMatchNode (hadd : ∀ rule ∈ rules, rule.PassedAdd)
    (hcount : rules.length ≤ maxActiveFlowRules) {inner : List Buffer}
    (hinner : inner.length ≤ frameSize) (keyBuf : ByteMemory) {e : ScratchEntry}
    (he : e ∈ (flowMatchNode (ruleArray rules) rules.length inner keyBuf).scratch.entries) :
    ∃ hi : e.flowRuleIndex < rules.length, e.keyData.len = rules[e.flowRuleIndex].keyWidth ∧
      0 < e.keyData.len ∧ e.keyHash = frameHash e.keyData := by
  have hmem := List.mem_map_of_mem (f := ScratchEntry.detail) he
  rw [flowMatchNode_entries hadd hcount hinner keyBuf] at hmem
  obtain ⟨b, -, hb⟩ := List.mem_flatMap.mp hmem
  obtain ⟨hindex, hlen, hpos⟩ := mem_packetEntries hadd hb
  have hi : e.flowRuleIndex < rules.length := hindex
  have hwidth : e.keyData.len = (ruleArray rules e.flowRuleIndex).keyWidth := hlen
  refine ⟨hi, ?_, hwidth.symm ▸ hpos, (written_flowMatchNode _ _ inner keyBuf e he).hash⟩
  rw [hwidth, ruleArray_eq hi]

/-! ### Counting into one table -/

variable {row : ℕ → Option ℕ} {tick : UInt64}

/-- Every table that the row points to is under one index. -/
def RowInjective (row : ℕ → Option ℕ) : Prop := ∀ i j t, row i = some t → row j = some t → i = j

/-- An entry that can be counted: of a rule in the array, with a key and its hash. -/
structure ScratchEntry.Countable (e : ScratchEntry) : Prop where
  index : e.flowRuleIndex < maxActiveFlowRules
  pos : e.keyData.len ≠ 0
  hash : e.keyHash = frameHash e.keyData

/-- A table that the row does not point to stays as it is. -/
theorem foldl_counterUpdateEntry_of_ne {t : ℕ} (hrow : ∀ i, row i ≠ some t)
    (entries : List ScratchEntry) (heap : Heap) :
    (entries.foldl (counterUpdateEntry row tick) heap).table t = heap.table t := by
  induction entries generalizing heap with
  | nil => rfl
  | cons e entries ih =>
    rw [List.foldl_cons, ih]
    unfold counterUpdateEntry
    split
    · rfl
    split
    · rfl
    · rename_i table htable
      split
      · rfl
      · exact Function.update_of_ne (fun heq => hrow _ (heq ▸ htable)) ..

/-- A table that the row points to gets the entries of its index. -/
theorem foldl_counterUpdateEntry_table (hinj : RowInjective row) {i t : ℕ} (hrow : row i = some t)
    {entries : List ScratchEntry} (hcountable : ∀ e ∈ entries, e.Countable) (heap : Heap) :
    (entries.foldl (counterUpdateEntry row tick) heap).table t =
      (heap.table t).run frameHash
        ((entries.filter fun e => e.flowRuleIndex = i).map (ScratchEntry.update tick)) := by
  induction entries generalizing heap with
  | nil => rfl
  | cons e entries ih =>
    obtain ⟨he, hrest⟩ := List.forall_mem_cons.mp hcountable
    rw [List.foldl_cons, ih hrest]
    by_cases hi : e.flowRuleIndex = i
    · rw [List.filter_cons_of_pos (by simpa using hi),
        counterUpdateEntry_table he.index (hi ▸ hrow) he.pos]
      show CounterTable.run frameHash (Function.update heap.table t _ t) _ = _
      rw [Function.update_self, he.hash]
      rfl
    · rw [List.filter_cons_of_neg (by simpa using hi)]
      congr 1
      unfold counterUpdateEntry
      rw [if_neg (Nat.not_le.mpr he.index)]
      split
      · rfl
      · rename_i table htable
        rw [if_neg he.pos]
        refine Function.update_of_ne (fun heq => hi ?_) ..
        exact hinj _ _ _ (heq ▸ htable) hrow

end InFMon
