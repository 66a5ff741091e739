import InFMon.DataPath.ScratchMemory
import InFMon.Snapshot.Manager

/-! # Next frames

The three node functions of `infmon_nodes.c` with the frames that they enqueue buffers to. None of them
looks at how much room a next frame has left, so each respects it exactly if the buffers fit. -/

namespace InFMon

/-! ### Frames -/

/-- A buffer in a frame, with its index. -/
structure FrameBuffer where
  index : UInt32
  buffer : Buffer

/-- The buffers of a frame. -/
structure Frame where
  buffers : List FrameBuffer
  le : buffers.length ≤ frameSize

/-- What is left of a next frame for `vlib_get_next_frame` to hand out. -/
structure NextRoom where
  left : ℕ
  pos : 0 < left
  le : left ≤ frameSize

/-- The tail of a next frame: the buffers written to it and the variable with the number of those that may
follow. The last two fields keep a record of a write behind the frame's end and of a decrement at
zero. -/
structure NextFrame where
  room : NextRoom
  written : List FrameBuffer
  nLeft : UInt32
  overrun : Bool
  underflow : Bool

/-- `vlib_get_next_frame`. -/
def NextFrame.get (room : NextRoom) : NextFrame where
  room := room
  written := []
  nLeft := UInt32.ofNat room.left
  overrun := false
  underflow := false

/-- `to_next[0] = bi; to_next++; n_left--;`. -/
def NextFrame.enqueue (f : NextFrame) (b : FrameBuffer) : NextFrame where
  room := f.room
  written := f.written ++ [b]
  nLeft := f.nLeft - 1
  overrun := f.overrun || f.room.left ≤ f.written.length
  underflow := f.underflow || f.nLeft = 0

/-! ### `infmon-erspan-decap` -/

/-- The next frames of the decapsulation node. -/
structure DecapPass where
  toMatch : NextFrame
  toPass : NextFrame

/-- The body of both loops. -/
def decapEnqueue (p : DecapPass) (b : FrameBuffer) : DecapPass :=
  match decapBuffer b.buffer with
  | .ok buffer => { p with toMatch := p.toMatch.enqueue { b with buffer := buffer } }
  | .error _ => { p with toPass := p.toPass.enqueue b }

/-- The dual loop, and the buffers that it leaves. -/
def decapDual (p : DecapPass) : List FrameBuffer → DecapPass × List FrameBuffer
  | b₀ :: b₁ :: b₂ :: b₃ :: rest => decapDual (decapEnqueue (decapEnqueue p b₀) b₁) (b₂ :: b₃ :: rest)
  | rest => (p, rest)

/-- `infmon_erspan_decap_node_fn`. -/
def erspanDecapNode (frame : Frame) (matchRoom passRoom : NextRoom) : DecapPass :=
  let dual := decapDual { toMatch := .get matchRoom, toPass := .get passRoom } frame.buffers
  dual.2.foldl decapEnqueue dual.1

/-! ### `infmon-flow-match` -/

/-- What the flow-match node works on. -/
structure FlowMatchNodePass where
  scratch : ScratchMemory
  keyBuf : ByteMemory
  toCounter : NextFrame
  toDrop : NextFrame

/-- The body of the loop. -/
def flowMatchEnqueue (rules : ℕ → FlowRule) (ruleCount : ℕ) (p : FlowMatchNodePass)
    (b : FrameBuffer) : FlowMatchNodePass :=
  let out := matchBufferMem rules ruleCount b.buffer p.scratch p.keyBuf
  let p := { p with scratch := out.scratch, keyBuf := out.keyBuf }
  if out.matched > 0 then { p with toCounter := p.toCounter.enqueue b }
  else { p with toDrop := p.toDrop.enqueue b }

/-- `infmon_flow_match_node_fn`. -/
def flowMatchNodeFn (rules : ℕ → FlowRule) (ruleCount : ℕ) (frame : Frame) (scratch : ScratchMemory)
    (keyBuf : ByteMemory) (counterRoom dropRoom : NextRoom) : FlowMatchNodePass :=
  frame.buffers.foldl (flowMatchEnqueue rules ruleCount)
    { scratch := scratch.reset
      keyBuf := keyBuf
      toCounter := .get counterRoom
      toDrop := .get dropRoom }

/-! ### `infmon-counter` -/

/-- What the counter node leaves: the frame for the drop node, unless it has freed its buffers. -/
structure CounterNodePass where
  toDrop : Option NextFrame
  freed : List FrameBuffer
  scratch : ScratchMemory
  heap : Heap
  tick : UInt64

/-- `infmon_counter_node_fn`. -/
def counterNodeFn (workerId : ℕ) (tables : ℕ → ℕ → Option ℕ) (tick : UInt64) (frame : Frame)
    (scratch : ScratchMemory) (heap : Heap) (room : NextRoom) : CounterNodePass :=
  if workerId ≥ maxWorkers then
    { toDrop := none, freed := frame.buffers, scratch := scratch, heap := heap, tick := tick }
  else
    { toDrop := some (frame.buffers.foldl NextFrame.enqueue (.get room))
      freed := []
      scratch := scratch.reset
      heap := counterUpdateMem scratch (tables workerId) tick heap
      tick := tick + 1 }

/-! ### Enqueuing some buffers -/

namespace NextFrame

/-- The frame after some buffers were enqueued. -/
structure After (f : NextFrame) (room : NextRoom) (buffers : List FrameBuffer) : Prop where
  room_eq : f.room = room
  written : f.written = buffers
  nLeft : buffers.length ≤ room.left → f.nLeft.toNat + buffers.length = room.left
  overrun : f.overrun = decide (room.left < buffers.length)
  underflow : f.underflow = decide (room.left < buffers.length)

/-- A frame that was just got has nothing in it. -/
theorem after_get (room : NextRoom) : (NextFrame.get room).After room [] where
  room_eq := rfl
  written := rfl
  nLeft _ := by
    have hle := room.le
    rw [frameSize] at hle
    change (UInt32.ofNat room.left).toNat + 0 = room.left
    rw [UInt32.toNat_ofNat', Nat.mod_eq_of_lt (by omega)]
    rfl
  overrun := rfl
  underflow := rfl

variable {f : NextFrame} {room : NextRoom} {buffers : List FrameBuffer}

/-- One buffer more is put behind the others. -/
theorem After.enqueue (h : f.After room buffers) (b : FrameBuffer) :
    (f.enqueue b).After room (buffers ++ [b]) where
  room_eq := h.room_eq
  written := by rw [NextFrame.enqueue, h.written]
  nLeft hle := by
    rw [List.length_append, List.length_singleton] at hle ⊢
    have hleft := h.nLeft (by omega)
    have hone : (1 : UInt32).toNat = 1 := rfl
    change (f.nLeft - 1).toNat + _ = _
    rw [UInt32.toNat_sub_of_le _ _ (by rw [UInt32.le_iff_toNat_le, hone]; omega), hone]
    omega
  overrun := by
    rw [NextFrame.enqueue, List.length_append, List.length_singleton, h.overrun, h.room_eq, h.written]
    by_cases hlt : room.left < buffers.length
    · -- a write behind the end was made before
      simp only [hlt, decide_true, Bool.true_or]
      exact (decide_eq_true (by omega)).symm
    · simp only [hlt, decide_false, Bool.false_or]
      exact decide_eq_decide.mpr Nat.lt_succ_iff.symm
  underflow := by
    rw [NextFrame.enqueue, List.length_append, List.length_singleton, h.underflow]
    by_cases hlt : room.left < buffers.length
    · simp only [hlt, decide_true, Bool.true_or]
      exact (decide_eq_true (by omega)).symm
    -- the variable is at zero exactly when the room is used up
    · have hleft := h.nLeft (by omega)
      simp only [hlt, decide_false, Bool.false_or]
      refine decide_eq_decide.mpr ?_
      rw [← UInt32.toNat_inj]
      change f.nLeft.toNat = 0 ↔ _
      omega

/-- More buffers are put behind the others. -/
theorem After.foldl (h : f.After room buffers) (more : List FrameBuffer) :
    (more.foldl NextFrame.enqueue f).After room (buffers ++ more) := by
  induction more generalizing f buffers with
  | nil => rwa [List.append_nil]
  | cons b more ih =>
    have hmore := ih (h.enqueue b)
    rwa [List.append_assoc] at hmore

/-- Neither a write behind the end nor a decrement at zero. -/
def Respected (f : NextFrame) : Prop := f.overrun = false ∧ f.underflow = false

/-- The room of a frame is respected if the buffers fit. -/
theorem After.respected_iff (h : f.After room buffers) :
    f.Respected ↔ buffers.length ≤ room.left := by
  rw [Respected, h.overrun, h.underflow, and_self, decide_eq_false_iff_not, Nat.not_lt]

end NextFrame

/-! ### Buffers for the decapsulation node -/

/-- The buffer as it goes to the flow-match node, if it does. -/
def FrameBuffer.decap (b : FrameBuffer) : Option FrameBuffer :=
  match decapBuffer b.buffer with
  | .ok buffer => some { b with buffer := buffer }
  | .error _ => none

/-- A buffer whose packet is decapsulated goes to the matcher. -/
theorem decapEnqueue_some {p : DecapPass} {b b' : FrameBuffer} (h : b.decap = some b') :
    decapEnqueue p b = { p with toMatch := p.toMatch.enqueue b' } := by
  unfold FrameBuffer.decap at h
  unfold decapEnqueue
  split at h
  · cases h
    rfl
  · cases h

/-- Any other buffer goes past it. -/
theorem decapEnqueue_none {p : DecapPass} {b : FrameBuffer} (h : b.decap = none) :
    decapEnqueue p b = { p with toPass := p.toPass.enqueue b } := by
  unfold FrameBuffer.decap at h
  unfold decapEnqueue
  split at h
  · cases h
  · rfl

/-- The dual loop takes the buffers in their order. -/
theorem foldl_decapDual (p : DecapPass) (buffers : List FrameBuffer) :
    (decapDual p buffers).2.foldl decapEnqueue (decapDual p buffers).1 =
      buffers.foldl decapEnqueue p := by
  -- two buffers in each round, while at least four are left
  induction p, buffers using decapDual.induct with
  | case1 p b₀ b₁ b₂ b₃ rest ih =>
    rw [decapDual]
    exact ih
  | case2 p buffers hshort =>
    rw [decapDual]
    exact hshort

/-- The loop puts each buffer behind those of its own frame. -/
theorem foldl_decapEnqueue {p : DecapPass} {matchRoom passRoom : NextRoom}
    {accepted rejected : List FrameBuffer} (hmatch : p.toMatch.After matchRoom accepted)
    (hpass : p.toPass.After passRoom rejected) (buffers : List FrameBuffer) :
    (buffers.foldl decapEnqueue p).toMatch.After matchRoom
        (accepted ++ buffers.filterMap FrameBuffer.decap) ∧
      (buffers.foldl decapEnqueue p).toPass.After passRoom
        (rejected ++ buffers.filter fun b => b.decap.isNone) := by
  induction buffers generalizing p accepted rejected with
  | nil => exact ⟨by simpa using hmatch, by simpa using hpass⟩
  | cons b buffers ih =>
    rw [List.foldl_cons]
    cases hdecap : b.decap with
    | some b' =>
      -- an ERSPAN frame goes on to the match, any other passes
      rw [decapEnqueue_some hdecap]
      have hrest := ih (p := { p with toMatch := p.toMatch.enqueue b' }) (hmatch.enqueue b') hpass
      rw [List.filterMap_cons_some hdecap, List.filter_cons_of_neg (by simp [hdecap])]
      rwa [List.append_assoc] at hrest
    | none =>
      rw [decapEnqueue_none hdecap]
      have hrest := ih (p := { p with toPass := p.toPass.enqueue b }) hmatch (hpass.enqueue b)
      rw [List.filterMap_cons_none hdecap, List.filter_cons_of_pos (by simp [hdecap])]
      rwa [List.append_assoc rejected] at hrest

/-! ### Buffers for the counter node -/

/-- The rules that leave an entry for every packet. -/
def activeRules (rules : ℕ → FlowRule) (indices : List ℕ) : List ℕ :=
  indices.filter fun i => matchWidth (rules i) ≠ 0 ∧ matchWidth (rules i) ≤ keyBufMax

/-- The rules that are looked at. -/
def ruleIndices (ruleCount : ℕ) : List ℕ := List.range (min ruleCount maxActiveFlowRules)

/-- No more rules are visited than may be active. -/
theorem length_ruleIndices (ruleCount : ℕ) : (ruleIndices ruleCount).length ≤ maxActiveFlowRules := by
  rw [ruleIndices, List.length_range]
  exact Nat.min_le_right _ _

/-- A buffer that goes to the counter node: its flow fields are there, and some rule has a key for
them. -/
def FrameBuffer.Counts (rules : ℕ → FlowRule) (ruleCount : ℕ) (b : FrameBuffer) : Bool :=
  match flowFields b.buffer with
  | .error _ => false
  | .ok _ => activeRules rules (ruleIndices ruleCount) ≠ []

/-- With room for an entry of each rule, every active rule leaves one. -/
theorem foldl_flowMatchRule_counts (rules : ℕ → FlowRule) (fields : FlowFields) (pktBytes : UInt64)
    (indices : List ℕ) {q : FlowMatchPass}
    (hroom : q.scratch.entries.length + indices.length ≤ scratchMax) :
    let out := indices.foldl (fun q i => flowMatchRule (rules i) fields pktBytes i q) q
    out.matched = q.matched + (activeRules rules indices).length ∧
      out.scratch.entries.length =
        q.scratch.entries.length + (activeRules rules indices).length := by
  induction indices generalizing q with
  | nil => exact ⟨rfl, rfl⟩
  | cons i indices ih =>
    rw [List.length_cons] at hroom
    rw [List.foldl_cons]
    by_cases hactive : matchWidth (rules i) ≠ 0 ∧ matchWidth (rules i) ≤ keyBufMax
    · -- the key fits in the buffer, and the scratch vector has room for the entry
      have hwidth : ¬(matchWidth (rules i) = 0 ∨ matchWidth (rules i) > keyBufMax) := by omega
      have hstep : (flowMatchRule (rules i) fields pktBytes i q).matched = q.matched + 1 ∧
          (flowMatchRule (rules i) fields pktBytes i q).scratch.entries.length =
            q.scratch.entries.length + 1 := by
        unfold flowMatchRule Scratch.append
        simp only [dif_neg hwidth, dif_pos (show q.scratch.entries.length < scratchMax by omega),
          if_true, List.length_append, List.length_singleton, and_self]
      obtain ⟨hmatched, hlength⟩ := ih (q := flowMatchRule (rules i) fields pktBytes i q) (by omega)
      rw [activeRules, List.filter_cons_of_pos (by simpa using hactive), List.length_cons]
      dsimp only
      rw [hmatched, hlength, hstep.1, hstep.2]
      exact ⟨by rw [activeRules]; omega, by rw [activeRules]; omega⟩
    · -- the rule is skipped
      have hwidth : matchWidth (rules i) = 0 ∨ matchWidth (rules i) > keyBufMax := by omega
      have hstep : (flowMatchRule (rules i) fields pktBytes i q).matched = q.matched ∧
          (flowMatchRule (rules i) fields pktBytes i q).scratch = q.scratch := by
        unfold flowMatchRule
        simp only [dif_pos hwidth, and_self]
      obtain ⟨hmatched, hlength⟩ := ih (q := flowMatchRule (rules i) fields pktBytes i q)
        (by rw [hstep.2]; omega)
      rw [activeRules, List.filter_cons_of_neg (by simpa using hactive)]
      dsimp only
      rw [hmatched, hlength, hstep.1, hstep.2]
      exact ⟨rfl, rfl⟩

/-- One buffer with room for an entry of each rule. -/
theorem matchBuffer_counts (rules : ℕ → FlowRule) (ruleCount : ℕ) (b : FrameBuffer) {s : Scratch}
    (keyBuf : ByteMemory) (hroom : s.entries.length + maxActiveFlowRules ≤ scratchMax) :
    (0 < (matchBuffer rules ruleCount b.buffer s keyBuf).matched ↔
        b.Counts rules ruleCount = true) ∧
      (matchBuffer rules ruleCount b.buffer s keyBuf).scratch.entries.length ≤
        s.entries.length + maxActiveFlowRules := by
  unfold matchBuffer FrameBuffer.Counts
  cases flowFields b.buffer with
  | error _ => exact ⟨by simp, Nat.le_add_right _ _⟩
  | ok fields =>
    dsimp only
    split
    · have hindices := length_ruleIndices ruleCount
      obtain ⟨hmatched, hlength⟩ := foldl_flowMatchRule_counts rules fields
        b.buffer.currentLength.toUInt64 (ruleIndices ruleCount) (q := ⟨0, s, keyBuf⟩)
        (by dsimp only; omega)
      have hactive : (activeRules rules (ruleIndices ruleCount)).length ≤
          (ruleIndices ruleCount).length := List.length_filter_le _ _
      have hmatched' : (flowMatch rules ruleCount fields s keyBuf
          b.buffer.currentLength.toUInt64).matched = _ := hmatched
      have hlength' : (flowMatch rules ruleCount fields s keyBuf
          b.buffer.currentLength.toUInt64).scratch.entries.length = _ := hlength
      rw [hmatched', hlength', Nat.zero_add, List.length_pos_iff, decide_eq_true_iff]
      dsimp only
      exact ⟨Iff.rfl, by omega⟩
    · -- there are no rules
      rename_i hzero
      have hnone : ruleIndices ruleCount = [] := by
        rw [ruleIndices, Nat.eq_zero_of_not_pos hzero, Nat.zero_min, List.range_zero]
      exact ⟨by simp [hnone, activeRules], Nat.le_add_right _ _⟩

/-- The node on the memory does what it does on the list. -/
structure FlowMatchNodePass.Refines (p : FlowMatchNodePass) (q : MatchPass) : Prop where
  scratch : p.scratch.Represents q.scratch
  keyBuf : p.keyBuf = q.keyBuf

/-- One buffer, with room for an entry of each rule, goes to one of the two next frames. -/
theorem flowMatchEnqueue_step (rules : ℕ → FlowRule) (ruleCount : ℕ) (b : FrameBuffer)
    {p : FlowMatchNodePass} {q : MatchPass} (hrefines : p.Refines q)
    (hroom : q.scratch.entries.length + maxActiveFlowRules ≤ scratchMax) :
    (flowMatchEnqueue rules ruleCount p b).Refines (matchStep rules ruleCount q b.buffer) ∧
      (b.Counts rules ruleCount = true →
        (flowMatchEnqueue rules ruleCount p b).toCounter = p.toCounter.enqueue b ∧
          (flowMatchEnqueue rules ruleCount p b).toDrop = p.toDrop) ∧
      (¬ b.Counts rules ruleCount = true →
        (flowMatchEnqueue rules ruleCount p b).toCounter = p.toCounter ∧
          (flowMatchEnqueue rules ruleCount p b).toDrop = p.toDrop.enqueue b) := by
  have hcounts := (matchBuffer_counts rules ruleCount b q.keyBuf hroom).1
  have hbuffer := matchBufferMem_refines hrefines.scratch rules ruleCount b.buffer q.keyBuf
  rw [← hbuffer.matched, ← hrefines.keyBuf] at hcounts
  refine ⟨?_, fun hcount => ?_, fun hcount => ?_⟩
  · unfold flowMatchEnqueue matchStep
    rw [hrefines.keyBuf]
    dsimp only
    split <;> exact ⟨hbuffer.scratch, hbuffer.keyBuf⟩
  · unfold flowMatchEnqueue
    simp only [gt_iff_lt, if_pos (hcounts.mpr hcount), and_self]
  · unfold flowMatchEnqueue
    simp only [gt_iff_lt, if_neg (mt hcounts.mp hcount), and_self]

/-- Some buffers, with room for an entry of each rule and buffer. -/
theorem foldl_flowMatchEnqueue (rules : ℕ → FlowRule) (ruleCount : ℕ) {counterRoom dropRoom : NextRoom}
    (buffers : List FrameBuffer) {p : FlowMatchNodePass} {q : MatchPass}
    {counted dropped : List FrameBuffer} (hrefines : p.Refines q)
    (hroom : q.scratch.entries.length + buffers.length * maxActiveFlowRules ≤ scratchMax)
    (hcounter : p.toCounter.After counterRoom counted) (hdrop : p.toDrop.After dropRoom dropped) :
    let p' := buffers.foldl (flowMatchEnqueue rules ruleCount) p
    let q' := (buffers.map FrameBuffer.buffer).foldl (matchStep rules ruleCount) q
    p'.Refines q' ∧
      p'.toCounter.After counterRoom (counted ++ buffers.filter (·.Counts rules ruleCount)) ∧
      p'.toDrop.After dropRoom (dropped ++ buffers.filter (!·.Counts rules ruleCount)) := by
  induction buffers generalizing p q counted dropped with
  | nil => exact ⟨hrefines, by simpa using hcounter, by simpa using hdrop⟩
  | cons b buffers ih =>
    rw [List.length_cons, Nat.succ_mul] at hroom
    obtain ⟨hstep, hyes, hno⟩ := flowMatchEnqueue_step rules ruleCount b hrefines (by omega)
    have hlength := (matchBuffer_counts rules ruleCount b q.keyBuf (s := q.scratch) (by omega)).2
    -- the rest of the buffers finds the room that this one leaves
    have hroom' : (matchStep rules ruleCount q b.buffer).scratch.entries.length +
        buffers.length * maxActiveFlowRules ≤ scratchMax := by
      change (matchBuffer rules ruleCount b.buffer q.scratch q.keyBuf).scratch.entries.length + _ ≤ _
      omega
    rw [List.foldl_cons, List.map_cons, List.foldl_cons]
    by_cases hcount : b.Counts rules ruleCount = true
    · obtain ⟨htoCounter, htoDrop⟩ := hyes hcount
      have hrest := ih hstep hroom' (htoCounter ▸ hcounter.enqueue b) (htoDrop ▸ hdrop)
      rw [List.filter_cons_of_pos hcount, List.filter_cons_of_neg (by simp [hcount])]
      rwa [List.append_assoc] at hrest
    · obtain ⟨htoCounter, htoDrop⟩ := hno hcount
      have hrest := ih hstep hroom' (htoCounter ▸ hcounter) (htoDrop ▸ hdrop.enqueue b)
      rw [List.filter_cons_of_neg hcount, List.filter_cons_of_pos (by simp [hcount])]
      rwa [List.append_assoc dropped] at hrest

/-! ### The three nodes -/

/-- The decapsulation hands on all buffers, each to one of the two frames. -/
theorem erspanDecapNode_after (frame : Frame) (matchRoom passRoom : NextRoom) :
    (erspanDecapNode frame matchRoom passRoom).toMatch.After matchRoom
        (frame.buffers.filterMap FrameBuffer.decap) ∧
      (erspanDecapNode frame matchRoom passRoom).toPass.After passRoom
        (frame.buffers.filter fun b => b.decap.isNone) := by
  have hfold := foldl_decapEnqueue (p := ⟨.get matchRoom, .get passRoom⟩)
    (NextFrame.after_get matchRoom) (NextFrame.after_get passRoom) frame.buffers
  rw [← foldl_decapDual] at hfold
  exact hfold

/-- A frame leaves at most as many entries as the scratch vector has room for. -/
theorem flowMatchNodeFn_after (rules : ℕ → FlowRule) (ruleCount : ℕ) (frame : Frame)
    (scratch : ScratchMemory) (keyBuf : ByteMemory) (counterRoom dropRoom : NextRoom) :
    let p := flowMatchNodeFn rules ruleCount frame scratch keyBuf counterRoom dropRoom
    p.Refines (flowMatchNode rules ruleCount (frame.buffers.map FrameBuffer.buffer) keyBuf) ∧
      p.toCounter.After counterRoom (frame.buffers.filter (·.Counts rules ruleCount)) ∧
      p.toDrop.After dropRoom (frame.buffers.filter (!·.Counts rules ruleCount)) := by
  refine foldl_flowMatchEnqueue rules ruleCount frame.buffers
    (p := ⟨scratch.reset, keyBuf, .get counterRoom, .get dropRoom⟩)
    (q := ⟨0, .reset, keyBuf⟩) ⟨scratch.represents_reset, rfl⟩ ?_
    (NextFrame.after_get counterRoom) (NextFrame.after_get dropRoom)
  change 0 + frame.buffers.length * maxActiveFlowRules ≤ frameSize * maxActiveFlowRules
  rw [Nat.zero_add]
  exact Nat.mul_le_mul_right _ frame.le

/-- The counter node drops all buffers of a worker that it serves. -/
theorem counterNodeFn_after {workerId : ℕ} (h : workerId < maxWorkers)
    (tables : ℕ → ℕ → Option ℕ) (tick : UInt64) (frame : Frame) (scratch : ScratchMemory)
    (heap : Heap) (room : NextRoom) :
    ∃ toDrop, (counterNodeFn workerId tables tick frame scratch heap room).toDrop = some toDrop ∧
      toDrop.After room frame.buffers := by
  rw [counterNodeFn, if_neg (Nat.not_le.mpr h)]
  exact ⟨_, rfl, (NextFrame.after_get room).foldl frame.buffers⟩

/-- A call of one of the three node functions. -/
inductive NodeCall where
  | decap (frame : Frame) (matchRoom passRoom : NextRoom)
  | flowMatch (rules : ℕ → FlowRule) (ruleCount : ℕ) (frame : Frame) (scratch : ScratchMemory)
      (keyBuf : ByteMemory) (counterRoom dropRoom : NextRoom)
  | counter (workerId : ℕ) (tables : ℕ → ℕ → Option ℕ) (tick : UInt64) (frame : Frame)
      (scratch : ScratchMemory) (heap : Heap) (room : NextRoom)

namespace NodeCall

/-- The next frames, as they are put back. -/
def nextFrames : NodeCall → List NextFrame
  | decap frame matchRoom passRoom =>
    let p := erspanDecapNode frame matchRoom passRoom
    [p.toMatch, p.toPass]
  | flowMatch rules ruleCount frame scratch keyBuf counterRoom dropRoom =>
    let p := flowMatchNodeFn rules ruleCount frame scratch keyBuf counterRoom dropRoom
    [p.toCounter, p.toDrop]
  | counter workerId tables tick frame scratch heap room =>
    (counterNodeFn workerId tables tick frame scratch heap room).toDrop.toList

/-- The buffers for each next frame fit into what is left of it. -/
def Fits : NodeCall → Prop
  | decap frame matchRoom passRoom =>
    (frame.buffers.filter fun b => b.decap.isSome).length ≤ matchRoom.left ∧
      (frame.buffers.filter fun b => b.decap.isNone).length ≤ passRoom.left
  | flowMatch rules ruleCount frame _ _ counterRoom dropRoom =>
    (frame.buffers.filter (·.Counts rules ruleCount)).length ≤ counterRoom.left ∧
      (frame.buffers.filter (!·.Counts rules ruleCount)).length ≤ dropRoom.left
  | counter workerId _ _ frame _ _ room => workerId < maxWorkers → frame.buffers.length ≤ room.left

end NodeCall

/-- As many buffers come out decapsulated as can be. -/
theorem length_filterMap_decap (buffers : List FrameBuffer) :
    (buffers.filterMap FrameBuffer.decap).length =
      (buffers.filter fun b => b.decap.isSome).length := by
  rw [List.length_filterMap_eq_countP, List.countP_eq_length_filter]

/-- **When next frames are respected.** A node function writes behind the end of no next frame and never
decrements a counter at zero exactly if the buffers for each next frame fit into what was left of it when
the function started. -/
theorem next_frames_respected_iff (call : NodeCall) :
    (∀ f ∈ call.nextFrames, f.Respected) ↔ call.Fits := by
  -- each node respects its frames iff the buffers it sends there fit
  cases call with
  | decap frame matchRoom passRoom =>
    obtain ⟨hmatch, hpass⟩ := erspanDecapNode_after frame matchRoom passRoom
    simp only [NodeCall.nextFrames, List.forall_mem_cons, List.not_mem_nil, false_imp_iff,
      implies_true, and_true]
    rw [hmatch.respected_iff, hpass.respected_iff, length_filterMap_decap]
    rfl
  | flowMatch rules ruleCount frame scratch keyBuf counterRoom dropRoom =>
    obtain ⟨-, hcounter, hdrop⟩ :=
      flowMatchNodeFn_after rules ruleCount frame scratch keyBuf counterRoom dropRoom
    simp only [NodeCall.nextFrames, List.forall_mem_cons, List.not_mem_nil, false_imp_iff,
      implies_true, and_true]
    rw [hcounter.respected_iff, hdrop.respected_iff]
    rfl
  | counter workerId tables tick frame scratch heap room =>
    by_cases hworker : workerId < maxWorkers
    · obtain ⟨toDrop, hnext, hdrop⟩ :=
        counterNodeFn_after hworker tables tick frame scratch heap room
      simp only [NodeCall.nextFrames, hnext, Option.toList_some, List.forall_mem_cons,
        List.not_mem_nil, false_imp_iff, implies_true, and_true]
      rw [hdrop.respected_iff]
      exact ⟨fun h _ => h, fun h => h hworker⟩
    · -- the buffers are freed
      have hnone : (counterNodeFn workerId tables tick frame scratch heap room).toDrop = none := by
        rw [counterNodeFn, if_pos (Nat.le_of_not_lt hworker)]
      simp only [NodeCall.nextFrames, hnone, Option.toList_none, List.not_mem_nil, false_imp_iff,
        implies_true, true_iff]
      exact fun h => absurd h hworker

/-- Two buffers, and room for one. -/
def crowded : NodeCall :=
  .counter 0 (fun _ _ => none) 0 ⟨[⟨0, frameBuffer 6⟩, ⟨1, frameBuffer 17⟩], by decide⟩
    ⟨fun _ => ⟨0, 0, 0, 0, 0⟩, fun _ => 0, 0⟩ .empty ⟨1, by decide, by decide⟩

/-- The second buffer is written behind the end of the frame for the drop node. -/
theorem crowded_not_respected : ¬∀ f ∈ crowded.nextFrames, f.Respected := by
  intro h
  have hrespected := h _ (List.mem_cons_self)
  exact absurd hrespected.1 (by decide)

end InFMon
