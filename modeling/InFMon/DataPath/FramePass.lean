import InFMon.CounterTable.Accounting
import InFMon.DataPath.NextFrames

/-! # A frame through the last two nodes

The flow-match node and then the counter node on one frame: every packet with flow fields leaves one entry
for each rule, in memory of its own, and every entry becomes one update of its rule's table. -/

namespace InFMon

/-! ### Rules in the array -/

/-- A rule as `infmon_flow_rule_add` has put it into a set. -/
def FlowRule.PassedAdd (rule : FlowRule) : Prop :=
  ∃ (set : FlowRuleSet) (given : FlowRule), (set.add given).1 = .ok ∧
    rule = (set.add given).2.rules set.count

/-- A rule that has passed the addition was valid as it was given. -/
theorem FlowRule.PassedAdd.exists_valid {rule : FlowRule} (h : rule.PassedAdd) :
    ∃ given, flowRuleValidate given = .ok ∧ rule = given.register := by
  obtain ⟨set, given, hok, rfl⟩ := h
  refine ⟨given, ?_⟩
  unfold FlowRuleSet.add at hok ⊢
  -- the addition succeeds, so every check of it has been passed
  split at hok
  · rename_i hvalid
    exact absurd hok hvalid
  rename_i hvalid
  rw [not_not] at hvalid
  rw [if_neg (by simp [hvalid])]
  split at hok
  · cases hok
  rename_i hcount
  rw [if_neg hcount]
  split at hok
  · cases hok
  rename_i hname
  rw [if_neg hname]
  split at hok
  · cases hok
  rename_i hbudget
  rw [if_neg hbudget]
  exact ⟨hvalid, Function.update_self ..⟩

/-! ### The entries of a packet -/

/-- The contents of an entry: the rule index, the hash, the byte count and the key. -/
def ScratchEntry.detail (e : ScratchEntry) : ℕ × UInt64 × UInt64 × List UInt8 :=
  (e.flowRuleIndex, e.keyHash, e.pktBytes, e.keyData.bytes)

/-- What a packet with these fields leaves for the rule at an index. -/
def ruleEntry (fields : FlowFields) (pktBytes : UInt64) (i : ℕ) (rule : FlowRule) :
    ℕ × UInt64 × UInt64 × List UInt8 :=
  (i, fnv1a64 (keyBytes fields rule.fields), pktBytes, keyBytes fields rule.fields)

/-- What a packet leaves for some rules: one entry each in their order, or nothing. -/
def packetEntries (rules : List FlowRule) (b : FrameBuffer) :
    List (ℕ × UInt64 × UInt64 × List UInt8) :=
  match flowFields b.buffer with
  | .error _ => []
  | .ok fields => rules.mapIdx (ruleEntry fields b.buffer.currentLength.toUInt64)

/-- The array of some rules. -/
def ruleArray (rules : List FlowRule) : ℕ → FlowRule := fun i => rules.getD i .zero

/-- The array has the rules in their order. -/
theorem ruleArray_eq {rules : List FlowRule} {i : ℕ} (h : i < rules.length) :
    ruleArray rules i = rules[i] := by
  simp [ruleArray, h]

/-- The width of a rule in the array. -/
theorem FlowRule.PassedAdd.matchWidth_eq {rule : FlowRule} (h : rule.PassedAdd) :
    matchWidth rule = rule.keyWidth ∧ 0 < rule.keyWidth ∧ rule.keyWidth ≤ keyBufMax ∧
      ∀ fields : FlowFields, (keyBytes fields rule.fields).length = rule.keyWidth ∧
        ∀ keyBuf, (encodeKey rule fields keyBuf).read 0 rule.keyWidth =
          keyBytes fields rule.fields := by
  obtain ⟨given, hvalid, rfl⟩ := h.exists_valid
  have hregistered := FlowRule.register_registered hvalid
  have hpos := hregistered.keyWidth_pos
  refine ⟨?_, hpos, hregistered.keyWidth_le, fun fields =>
    ⟨length_keyBytes fields hvalid, fun keyBuf => read_encodeKey fields keyBuf hvalid⟩⟩
  rw [matchWidth, if_neg (by omega)]

variable {rules : List FlowRule}

/-- One entry for each of the first rules. -/
theorem foldl_flowMatchRule_entries (hadd : ∀ rule ∈ rules, rule.PassedAdd) (fields : FlowFields)
    (pktBytes : UInt64) {n : ℕ} (hn : n ≤ rules.length) {q : FlowMatchPass}
    (hroom : q.scratch.entries.length + n ≤ scratchMax) :
    ((List.range n).foldl (fun q i => flowMatchRule (ruleArray rules i) fields pktBytes i q)
        q).scratch.entries.map ScratchEntry.detail =
      q.scratch.entries.map ScratchEntry.detail ++
        (List.range n).map fun i => ruleEntry fields pktBytes i (ruleArray rules i) := by
  induction n with
  | zero => simp
  | succ n ih =>
    have ih := ih (by omega) (by omega)
    have hlength := congrArg List.length ih
    simp only [List.length_map, List.length_append, List.length_range] at hlength
    have hrule : (ruleArray rules n).PassedAdd := by
      rw [ruleArray_eq (by omega : n < rules.length)]
      exact hadd _ (List.getElem_mem _)
    obtain ⟨hmatch, hpos, hle, hkey⟩ := hrule.matchWidth_eq
    have hread := (hkey fields).2
    -- the last rule, behind the entries of the others
    rw [List.range_succ, List.foldl_append, List.map_append, ← List.append_assoc, ← ih,
      List.foldl_cons, List.foldl_nil]
    generalize (List.range n).foldl (fun q i => flowMatchRule (ruleArray rules i) fields pktBytes i q)
      q = out at hlength
    have hwidth : ¬((ruleArray rules n).keyWidth = 0 ∨ (ruleArray rules n).keyWidth > keyBufMax) := by
      omega
    unfold flowMatchRule Scratch.append
    simp only [dif_neg hwidth, dif_pos (show out.scratch.entries.length < scratchMax by omega),
      List.map_append, List.map_cons, List.map_nil, ScratchEntry.detail, hmatch, hread]
    rfl

/-- The entries of all rules in the array. -/
theorem range_map_ruleArray (fields : FlowFields) (pktBytes : UInt64) :
    ((List.range rules.length).map fun i => ruleEntry fields pktBytes i (ruleArray rules i)) =
      rules.mapIdx (ruleEntry fields pktBytes) := by
  apply List.ext_getElem
  · simp
  · intro i hi hi'
    have hlt : i < rules.length := by simpa using hi
    rw [List.getElem_map, List.getElem_range, List.getElem_mapIdx, ruleArray_eq hlt]

/-- One packet. -/
theorem matchBuffer_entries (hadd : ∀ rule ∈ rules, rule.PassedAdd)
    (hcount : rules.length ≤ maxActiveFlowRules) (b : FrameBuffer) {s : Scratch} (keyBuf : ByteMemory)
    (hroom : s.entries.length + rules.length ≤ scratchMax) :
    (matchBuffer (ruleArray rules) rules.length b.buffer s keyBuf).scratch.entries.map
        ScratchEntry.detail =
      s.entries.map ScratchEntry.detail ++ packetEntries rules b := by
  unfold matchBuffer packetEntries
  cases flowFields b.buffer with
  | error _ => simp
  | ok fields =>
    dsimp only
    split
    · rw [flowMatch, Nat.min_eq_left hcount]
      refine (foldl_flowMatchRule_entries hadd fields _ (Nat.le_refl _) hroom).trans ?_
      rw [range_map_ruleArray]
    · rename_i hzero
      obtain rfl : rules = [] := List.length_eq_zero_iff.mp (Nat.eq_zero_of_not_pos hzero)
      simp

/-- All packets. -/
theorem foldl_matchStep_entries (hadd : ∀ rule ∈ rules, rule.PassedAdd)
    (hcount : rules.length ≤ maxActiveFlowRules) (buffers : List FrameBuffer) {q : MatchPass}
    (hroom : q.scratch.entries.length + buffers.length * maxActiveFlowRules ≤ scratchMax) :
    ((buffers.map FrameBuffer.buffer).foldl (matchStep (ruleArray rules) rules.length)
        q).scratch.entries.map ScratchEntry.detail =
      q.scratch.entries.map ScratchEntry.detail ++ buffers.flatMap (packetEntries rules) := by
  induction buffers generalizing q with
  | nil => simp
  | cons b buffers ih =>
    rw [List.length_cons, Nat.succ_mul] at hroom
    have hstep := matchBuffer_entries hadd hcount b (s := q.scratch) q.keyBuf (by omega)
    have hlength := (matchBuffer_counts (ruleArray rules) rules.length b (s := q.scratch) q.keyBuf
      (by omega)).2
    have hrest := ih (q := matchStep (ruleArray rules) rules.length q b.buffer) (by
      change (matchBuffer _ _ b.buffer q.scratch q.keyBuf).scratch.entries.length + _ ≤ _
      omega)
    have hdetails : (matchStep (ruleArray rules) rules.length q b.buffer).scratch.entries.map
        ScratchEntry.detail = q.scratch.entries.map ScratchEntry.detail ++ packetEntries rules b :=
      hstep
    rw [List.map_cons, List.foldl_cons, hrest, hdetails, List.append_assoc, List.flatMap_cons]

/-- A packet goes to the counter node if it has flow fields and there is a rule. -/
theorem counts_iff (hadd : ∀ rule ∈ rules, rule.PassedAdd)
    (hcount : rules.length ≤ maxActiveFlowRules) (b : FrameBuffer) :
    b.Counts (ruleArray rules) rules.length = true ↔ packetEntries rules b ≠ [] := by
  have hactive : activeRules (ruleArray rules) (ruleIndices rules.length) =
      List.range rules.length := by
    rw [ruleIndices, Nat.min_eq_left hcount]
    refine List.filter_eq_self.mpr fun i hi => ?_
    rw [List.mem_range] at hi
    have hrule : (ruleArray rules i).PassedAdd := by
      rw [ruleArray_eq hi]
      exact hadd _ (List.getElem_mem _)
    obtain ⟨hmatch, hpos, hle, -⟩ := hrule.matchWidth_eq
    exact decide_eq_true ⟨by omega, by omega⟩
  unfold FrameBuffer.Counts packetEntries
  cases flowFields b.buffer with
  | error _ => simp
  | ok fields =>
    simp only [hactive, decide_eq_true_iff, ne_eq, List.range_eq_nil, List.mapIdx_eq_nil_iff,
      List.length_eq_zero_iff]

/-! ### The two nodes -/

/-- Every match of a frame counted once: what the flow-match node `m` and then the counter node `c` have
made of the frame, the tables and the tick. -/
structure CountedOnce (rules : List FlowRule) (frame : Frame) (table : ℕ → ℕ) (tick : UInt64)
    (heap : Heap) (m : FlowMatchNodePass) (c : CounterNodePass) : Prop where
  /-- The scratch vector has one entry for each packet with flow fields and each rule, in order. -/
  entries : (List.range m.scratch.count).map (fun k => (m.scratch.entry k).detail) =
    frame.buffers.flatMap (packetEntries rules)
  fits : m.scratch.count ≤ scratchMax
  keyLen : ∀ k < m.scratch.count, (m.scratch.entries k).keyLen.toNat =
    (ruleArray rules (m.scratch.entries k).flowRuleIndex).keyWidth
  /-- The key of an entry lies in its own `key_data`. -/
  keyPtr : ∀ k < m.scratch.count, (m.scratch.entries k).keyPtr = keyDataOf k ∧
    (m.scratch.entries k).keyLen.toNat ≤ keyBufMax
  disjoint : ∀ j < m.scratch.count, ∀ k < m.scratch.count, j ≠ k →
    (m.scratch.entries j).keyPtr + (m.scratch.entries j).keyLen.toNat ≤
        (m.scratch.entries k).keyPtr ∨
      (m.scratch.entries k).keyPtr + (m.scratch.entries k).keyLen.toNat ≤
        (m.scratch.entries j).keyPtr
  /-- Every entry is one update of the table of its rule. -/
  updates : c.heap = (List.range m.scratch.count).foldl (fun heap k =>
    let e := m.scratch.entry k
    heap.modify (table e.flowRuleIndex) fun t =>
      (t.update e.keyHash e.keyData e.pktBytes tick).2) heap
  /-- Packets without flow fields are dropped at once. -/
  counted : m.toCounter.written = frame.buffers.filter fun b => packetEntries rules b ≠ []
  dropped : m.toDrop.written = frame.buffers.filter fun b => packetEntries rules b = []
  once : (m.toCounter.written ++ m.toDrop.written).Perm frame.buffers
  forwarded : ∃ f, c.toDrop = some f ∧ f.written = m.toCounter.written ∧ f.Respected
  respected : m.toCounter.Respected ∧ m.toDrop.Respected

/-- The update of a table by an entry whose rule has one. -/
theorem counterUpdateEntry_table {row : ℕ → Option ℕ} {table : ℕ} {e : ScratchEntry}
    (hindex : e.flowRuleIndex < maxActiveFlowRules) (hrow : row e.flowRuleIndex = some table)
    (hlen : e.keyData.len ≠ 0) (tick : UInt64) (heap : Heap) :
    counterUpdateEntry row tick heap e =
      heap.modify table fun t => (t.update e.keyHash e.keyData e.pktBytes tick).2 := by
  rw [counterUpdateEntry, if_neg (Nat.not_le.mpr hindex), hrow]
  exact if_neg hlen

/-- The rule and the key of an entry. -/
theorem mem_packetEntries (hadd : ∀ rule ∈ rules, rule.PassedAdd) {b : FrameBuffer}
    {detail : ℕ × UInt64 × UInt64 × List UInt8} (h : detail ∈ packetEntries rules b) :
    detail.1 < rules.length ∧ detail.2.2.2.length = (ruleArray rules detail.1).keyWidth ∧
      0 < (ruleArray rules detail.1).keyWidth := by
  unfold packetEntries at h
  split at h
  · cases h
  · rename_i fields _
    obtain ⟨i, hi, rfl⟩ := List.mem_mapIdx.mp h
    obtain ⟨-, hpos, -, hkey⟩ := (hadd _ (List.getElem_mem hi)).matchWidth_eq
    refine ⟨hi, ?_, ?_⟩
    · change (keyBytes fields rules[i].fields).length = (ruleArray rules i).keyWidth
      rw [ruleArray_eq hi]
      exact (hkey fields).1
    · change 0 < (ruleArray rules i).keyWidth
      rw [ruleArray_eq hi]
      exact hpos

/-- The entries that the flow-match node leaves, in the order of packets and rules. -/
theorem flowMatchNodeFn_entries (hadd : ∀ rule ∈ rules, rule.PassedAdd)
    (hcount : rules.length ≤ maxActiveFlowRules) (frame : Frame) (scratch : ScratchMemory)
    (keyBuf : ByteMemory) (counterRoom dropRoom : NextRoom) {m : FlowMatchNodePass}
    (hm : flowMatchNodeFn (ruleArray rules) rules.length frame scratch keyBuf counterRoom dropRoom = m) :
    (List.range m.scratch.count).map (fun k => (m.scratch.entry k).detail) =
      frame.buffers.flatMap (packetEntries rules) := by
  subst hm
  obtain ⟨hrefines, -, -⟩ := flowMatchNodeFn_after (ruleArray rules) rules.length frame scratch keyBuf
    counterRoom dropRoom
  have hroom : (⟨0, .reset, keyBuf⟩ : MatchPass).scratch.entries.length +
      frame.buffers.length * maxActiveFlowRules ≤ scratchMax := by
    change 0 + frame.buffers.length * maxActiveFlowRules ≤ frameSize * maxActiveFlowRules
    rw [Nat.zero_add]
    exact Nat.mul_le_mul_right _ frame.le
  have hlist := foldl_matchStep_entries hadd hcount frame.buffers hroom
  have hmap := congrArg (List.map ScratchEntry.detail) hrefines.scratch.map_entry
  rw [List.map_map] at hmap
  exact hmap.trans hlist

/-- The rule and the key of an entry that is listed among those of the packets. -/
theorem entry_of_entries (hadd : ∀ rule ∈ rules, rule.PassedAdd) {frame : Frame} {count : ℕ}
    {entry : ℕ → ScratchEntry}
    (hentries : (List.range count).map (fun k => (entry k).detail) =
      frame.buffers.flatMap (packetEntries rules)) {k : ℕ} (hk : k < count) :
    (entry k).flowRuleIndex < rules.length ∧
      (entry k).keyData.bytes.length = (ruleArray rules (entry k).flowRuleIndex).keyWidth ∧
      0 < (ruleArray rules (entry k).flowRuleIndex).keyWidth := by
  have hmem : (entry k).detail ∈ frame.buffers.flatMap (packetEntries rules) := by
    rw [← hentries]
    exact List.mem_map_of_mem (f := fun k => (entry k).detail) (List.mem_range.mpr hk)
  obtain ⟨b, -, hb⟩ := List.mem_flatMap.mp hmem
  exact mem_packetEntries hadd hb

/-- The test of the node as the abstract entries have it. -/
theorem counts_eq (hadd : ∀ rule ∈ rules, rule.PassedAdd)
    (hcount : rules.length ≤ maxActiveFlowRules) (b : FrameBuffer) :
    b.Counts (ruleArray rules) rules.length = decide (packetEntries rules b ≠ []) := by
  rw [Bool.eq_iff_iff, counts_iff hadd hcount b, decide_eq_true_iff]

/-- **One frame, every match counted once.** -/
theorem frame_counted_once {rules : List FlowRule} (hadd : ∀ rule ∈ rules, rule.PassedAdd)
    (hcount : rules.length ≤ maxActiveFlowRules) {workerId : ℕ} (hworker : workerId < maxWorkers)
    {tables : ℕ → ℕ → Option ℕ} {table : ℕ → ℕ}
    (htables : ∀ i < rules.length, tables workerId i = some (table i)) (frame : Frame)
    (scratch : ScratchMemory) (keyBuf : ByteMemory) (heap : Heap) (tick : UInt64)
    {counterRoom dropRoom nextRoom : NextRoom} (hcounter : frame.buffers.length ≤ counterRoom.left)
    (hdrop : frame.buffers.length ≤ dropRoom.left) (hnext : frame.buffers.length ≤ nextRoom.left)
    {counterFrame : Frame}
    (hframe : counterFrame.buffers = (flowMatchNodeFn (ruleArray rules) rules.length frame scratch
      keyBuf counterRoom dropRoom).toCounter.written) :
    let m := flowMatchNodeFn (ruleArray rules) rules.length frame scratch keyBuf counterRoom dropRoom
    CountedOnce rules frame table tick heap m
      (counterNodeFn workerId tables tick counterFrame m.scratch heap nextRoom) := by
  intro m
  obtain ⟨hrefines, htoCounter, htoDrop⟩ := flowMatchNodeFn_after (ruleArray rules) rules.length frame
    scratch keyBuf counterRoom dropRoom
  have hrep := hrefines.scratch
  -- the match node: what it leaves in the scratch, and which buffers go where
  have hentries := flowMatchNodeFn_entries hadd hcount frame scratch keyBuf counterRoom dropRoom
    (m := m) rfl
  have hrule := fun k (hk : k < m.scratch.count) => entry_of_entries hadd hentries hk
  have hcounted : m.toCounter.written = frame.buffers.filter fun b => packetEntries rules b ≠ [] := by
    rw [htoCounter.written]
    exact List.filter_congr fun b _ => counts_eq hadd hcount b
  have hdropped : m.toDrop.written = frame.buffers.filter fun b => packetEntries rules b = [] := by
    rw [htoDrop.written]
    refine List.filter_congr fun b _ => ?_
    rw [counts_eq hadd hcount b]
    by_cases hnil : packetEntries rules b = [] <;> simp [hnil]
  obtain ⟨toDrop, hforward, hafter⟩ :=
    counterNodeFn_after hworker tables tick counterFrame m.scratch heap nextRoom
  have hle : ∀ p : FrameBuffer → Bool, (frame.buffers.filter p).length ≤ frame.buffers.length :=
    fun p => List.length_filter_le p frame.buffers
  exact
    { entries := hentries
      fits := by
        rw [hrep.count]
        exact (flowMatchNode _ _ _ _).scratch.fits
      keyLen := by
        intro k hk
        obtain ⟨-, hlength, -⟩ := hrule k hk
        have hread : (m.scratch.entry k).keyData.bytes.length =
            (m.scratch.entries k).keyLen.toNat := ByteMemory.length_read ..
        rw [← hread, hlength]
        rfl
      keyPtr := fun k hk => ⟨hrep.keyPtr k hk, hrep.keyLen k hk⟩
      disjoint := by
        intro j hj k hk hjk
        have hjle : (m.scratch.entries j).keyLen.toNat ≤ 64 := hrep.keyLen j hj
        have hkle : (m.scratch.entries k).keyLen.toNat ≤ 64 := hrep.keyLen k hk
        rw [hrep.keyPtr j hj, hrep.keyPtr k hk, keyDataOf, keyDataOf, keyBufMax]
        omega
      updates := by
        rw [counterNodeFn, if_neg (Nat.not_le.mpr hworker)]
        change counterUpdateMem m.scratch (tables workerId) tick heap = _
        rw [counterUpdateMem]
        refine List.foldl_ext _ _ _ fun heap k hk => ?_
        obtain ⟨hindex, hlength, hpos⟩ := hrule k (List.mem_range.mp hk)
        exact counterUpdateEntry_table (hindex.trans_le hcount) (htables _ hindex)
          (by rw [Key.len]; omega) tick heap
      counted := hcounted
      dropped := hdropped
      once := by
        rw [htoCounter.written, htoDrop.written]
        exact List.filter_append_perm _ frame.buffers
      forwarded := by
        refine ⟨toDrop, hforward, hafter.written.trans hframe, hafter.respected_iff.mpr ?_⟩
        rw [hframe, htoCounter.written]
        exact (hle _).trans hnext
      respected := ⟨htoCounter.respected_iff.mpr ((hle _).trans hcounter),
        htoDrop.respected_iff.mpr ((hle _).trans hdrop)⟩ }

/-- A rule over the protocol, as it was added. -/
theorem protoRule_passedAdd : protoRule.PassedAdd :=
  ⟨⟨fun _ => .zero, 0, 64, 0⟩, ⟨[0x61, 0x62], [2], 8, 0, 0⟩, by decide, by decide⟩

/-- A rule over the DSCP field. -/
def dscpRule : FlowRule := ⟨[0x63, 0x64], [3], 8, 0, 1⟩

/-- It was added as well. -/
theorem dscpRule_passedAdd : dscpRule.PassedAdd :=
  ⟨⟨fun _ => .zero, 0, 64, 0⟩, ⟨[0x63, 0x64], [3], 8, 0, 0⟩, by decide, by decide⟩

/-- A frame with two packets of one DSCP value and a packet that is too short. -/
def threePackets : Frame :=
  ⟨[⟨7, frameBuffer 6⟩, ⟨8, { frameBuffer 6 with currentLength := 10 }⟩, ⟨9, frameBuffer 17⟩], by decide⟩

/-- A next frame without buffers. -/
def allFree : NextRoom := ⟨256, by decide, by decide⟩

/-- Tables for the keys of both rules. -/
def twoTables : Heap :=
  ((Heap.empty.create 8 1 ⟨true, fun _ => 0⟩).2.create 8 1 ⟨true, fun _ => 0⟩).2

/-- Worker 1 has them. -/
def rowsOfWorkerOne (w i : ℕ) : Option ℕ := if w = 1 ∧ i < 2 then some i else none

/-- Scratch memory that nothing was written to. -/
def freshScratch : ScratchMemory := ⟨fun _ => ⟨0, 0, 0, 0, 0⟩, fun _ => 0, 0⟩

/-- Three packets through the flow-match node, with two rules. -/
def matchThree : FlowMatchNodePass :=
  flowMatchNodeFn (ruleArray [protoRule, dscpRule]) 2 threePackets freshScratch (fun _ => 0) allFree
    allFree

/-- The frame of the counter node. -/
def countTwo : Frame := ⟨matchThree.toCounter.written, by decide +kernel⟩

/-- Three packets and two rules: four entries, two of them with keys of their own in the table of the
protocol, and one packet that is dropped. -/
theorem frame_counted_once_three :
    let c := counterNodeFn 1 rowsOfWorkerOne 5 countTwo matchThree.scratch twoTables allFree
    CountedOnce [protoRule, dscpRule] threePackets id 5 twoTables matchThree c ∧
      matchThree.scratch.count = 4 ∧ matchThree.toDrop.written.length = 1 ∧
      (c.heap.table 0).occupiedCount = 2 := by
  have hadd : ∀ rule ∈ [protoRule, dscpRule], rule.PassedAdd := by
    intro rule hrule
    rcases List.mem_pair.mp hrule with rfl | rfl
    · exact protoRule_passedAdd
    · exact dscpRule_passedAdd
  have hcounted := @frame_counted_once _ hadd (by decide) 1 (by decide) rowsOfWorkerOne id
    (fun i hi => if_pos ⟨rfl, hi⟩) threePackets freshScratch (fun _ => 0) twoTables 5 allFree allFree
    allFree (by decide) (by decide) (by decide) countTwo rfl
  exact ⟨hcounted, by decide +kernel, by decide +kernel, by decide +kernel⟩

end InFMon
