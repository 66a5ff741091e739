import InFMon.DataPath.Keys
import InFMon.DataPath.NextFrames
import InFMon.Foundations.CountedLoop
import InFMon.Parser.Bounds

/-! # The loops of the decapsulation node

`infmon_erspan_decap_node_fn` with the pool of buffers, the pointer into the frame and the error counters.
The dual loop takes two buffers a round and looks ahead to two more, the loop behind it takes what is
left; together they are one plain loop over the frame. -/

namespace InFMon

open CountedLoop TracedReader MachineWord

/-! ### Buffers and counters -/

/-- `vlib_buffer_t`, with the flags that the node reads or clears. -/
structure VlibBuffer where
  buffer : Buffer
  nextPresent : Bool
  isTraced : Bool

/-- `infmon_erspan_decap` on the bytes in use. -/
def VlibBuffer.decap (b : VlibBuffer) : Except ParseError DecapResult :=
  (erspanDecap b.buffer.currentLength.toNat).result b.buffer.current

/-- `infmon_node_error_t`. -/
inductive NodeError where
  | erspanUnknownProto
  | erspanTruncated
  | innerParseFailed
  | flowRuleNoMatch
  | counterInsertRetryExhausted
  | counterTableFull
  deriving DecidableEq, Repr

/-- `infmon_erspan_decap_trace_t`. -/
structure DecapTrace where
  result : Except ParseError ParseOk
  innerOffset : ℕ
  innerLen : ℕ

/-- What the node works on: the buffers by their indices, the two next frames, the error counters and the
traces. -/
structure DecapNodeOut where
  pool : UInt32 → VlibBuffer
  toMatch : NextFrame
  toPass : NextFrame
  errors : NodeError → ℕ
  traces : List (UInt32 × DecapTrace)

namespace DecapNodeOut

/-- `to_next_match[0] = bi`, behind which comes the rest of the frame. -/
def enqueueMatch (s : DecapNodeOut) (bi : UInt32) : DecapNodeOut :=
  { s with toMatch := s.toMatch.enqueue ⟨bi, (s.pool bi).buffer⟩ }

/-- `to_next_pass[0] = bi`, behind which comes the rest of the frame. -/
def enqueuePass (s : DecapNodeOut) (bi : UInt32) : DecapNodeOut :=
  { s with toPass := s.toPass.enqueue ⟨bi, (s.pool bi).buffer⟩ }

/-- `vlib_add_trace`, for a buffer that is traced. -/
def addTrace (s : DecapNodeOut) (bi : UInt32) (trace : DecapTrace) : DecapNodeOut :=
  if (s.pool bi).isTraced then { s with traces := s.traces ++ [(bi, trace)] } else s

/-- `node->errors[err]++`. -/
def raise (s : DecapNodeOut) (err : NodeError) : DecapNodeOut :=
  { s with errors := Function.update s.errors err (s.errors err + 1) }

end DecapNodeOut

/-! ### The two bodies -/

/-- The body of the dual loop, for the buffer with index `bi`. -/
def dualBody (bi : UInt32) (s : DecapNodeOut) : DecapNodeOut :=
  let b := s.pool bi
  match b.decap with
  | .ok dr =>
    let b :=
      { b with
        buffer :=
          { b.buffer with
            currentData := b.buffer.currentData + dr.innerOffset
            currentLength := UInt16.ofNat dr.innerLen
            mirrorSrcIp := dr.parsed.mirrorSrcIp }
        nextPresent := false }
    let s := { s with pool := Function.update s.pool bi b }
    (s.enqueueMatch bi).addTrace bi ⟨.ok dr.parseResult, dr.innerOffset, dr.innerLen⟩
  | .error rc =>
    let err :=
      if rc = .greBadProto ∨ rc = .erspanBadVersion then .erspanUnknownProto
      else if rc = .erspanTruncated ∨ rc = .outerTruncated then .erspanTruncated
      else .innerParseFailed
    -- the result was cleared before the parser ran
    ((s.raise err).enqueuePass bi).addTrace bi ⟨.error rc, 0, 0⟩

/-- The body of the loop behind the dual loop. -/
def singleBody (bi : UInt32) (s : DecapNodeOut) : DecapNodeOut :=
  let b := s.pool bi
  match b.decap with
  | .ok dr =>
    let b :=
      { b with
        buffer :=
          { b.buffer with
            currentData := b.buffer.currentData + dr.innerOffset
            currentLength := UInt16.ofNat dr.innerLen
            mirrorSrcIp := dr.parsed.mirrorSrcIp }
        nextPresent := false }
    let s := { s with pool := Function.update s.pool bi b }
    (s.enqueueMatch bi).addTrace bi ⟨.ok dr.parseResult, dr.innerOffset, dr.innerLen⟩
  | .error rc =>
    let err :=
      if rc = .greBadProto ∨ rc = .erspanBadVersion then .erspanUnknownProto
      else if rc = .erspanTruncated ∨ rc = .outerTruncated then .erspanTruncated
      else .innerParseFailed
    ((s.raise err).enqueuePass bi).addTrace bi ⟨.error rc, 0, 0⟩

/-- Both copies of the body do the same. -/
theorem dualBody_eq : dualBody = singleBody := rfl

/-! ### The loops -/

/-- The node between two rounds: `position` is where `from` points to, and `reads` are the indices of the
frame that were read through it. -/
structure DecapCursor where
  out : DecapNodeOut
  position : ℕ
  reads : List ℕ

section
variable (vector : ℕ → UInt32)

/-- `from[i]`. -/
def DecapCursor.readFrom (s : DecapCursor) (i : ℕ) : UInt32 × DecapCursor :=
  (vector (s.position + i), { s with reads := s.reads ++ [s.position + i] })

/-- The pass `i` of the inner loop. -/
def dualPass (s : DecapCursor) (i : ℕ) : DecapCursor :=
  let (bi, s) := s.readFrom vector i
  { s with out := dualBody bi s.out }

/-- A round of the dual loop. -/
def dualRound (s : DecapCursor) : DecapCursor :=
  -- two buffers are prefetched
  let s := (s.readFrom vector 2).2
  let s := (s.readFrom vector 3).2
  let s := dualPass vector (dualPass vector s 0) 1
  { s with position := s.position + 2 }

/-- The dual loop with `n_left` buffers left, and how many it leaves. -/
def dualLoop : ℕ → DecapCursor → ℕ × DecapCursor
  | nLeft + 4, s => dualLoop (nLeft + 2) (dualRound vector s)
  | nLeft, s => (nLeft, s)

/-- The loop behind it. -/
def singleLoop : ℕ → DecapCursor → DecapCursor
  | 0, s => s
  | nLeft + 1, s =>
    let (bi, s) := s.readFrom vector 0
    singleLoop nLeft { s with out := singleBody bi s.out, position := s.position + 1 }

/-- The node when both next frames have been fetched. -/
def DecapNodeOut.start (pool : UInt32 → VlibBuffer) (errors : NodeError → ℕ)
    (traces : List (UInt32 × DecapTrace)) (matchRoom passRoom : NextRoom) : DecapNodeOut where
  pool := pool
  toMatch := .get matchRoom
  toPass := .get passRoom
  errors := errors
  traces := traces

/-- `infmon_erspan_decap_node_fn`. -/
def erspanDecapNodeFn (nVectors : UInt32) (start : DecapNodeOut) : DecapCursor :=
  let (nLeft, s) := dualLoop vector nVectors.toNat { out := start, position := 0, reads := [] }
  singleLoop vector nLeft s

end

/-! ### One plain loop -/

section
variable {vector : ℕ → UInt32} {start : DecapNodeOut} {n nLeft : ℕ} {s : DecapCursor}

/-- The buffers of a frame one at a time and in their order. -/
def plainLoop (vector : ℕ → UInt32) (n : ℕ) (start : DecapNodeOut) : DecapNodeOut :=
  forUpTo n (fun i => singleBody (vector i)) start

/-- The plain loop does one buffer after the other. -/
theorem plainLoop_succ (vector : ℕ → UInt32) (n : ℕ) (start : DecapNodeOut) :
    plainLoop vector (n + 1) start = singleBody (vector n) (plainLoop vector n start) :=
  forUpTo_succ n _ start

/-- The pointer is at the buffer whose turn it is, and the ones before have been handled. -/
structure AtTurn (vector : ℕ → UInt32) (start : DecapNodeOut) (n nLeft : ℕ) (s : DecapCursor) :
    Prop where
  position : s.position + nLeft = n
  out : s.out = plainLoop vector s.position start
  reads : ∀ r ∈ s.reads, r < n

/-- An index behind the position is read while buffers are left. -/
theorem AtTurn.reads_append (h : AtTurn vector start n nLeft s) (is : List ℕ)
    (his : ∀ i ∈ is, i < nLeft) : ∀ r ∈ s.reads ++ is.map (s.position + ·), r < n := by
  intro r hr
  rcases List.mem_append.mp hr with hr | hr
  · exact h.reads r hr
  · obtain ⟨i, hi, rfl⟩ := List.mem_map.mp hr
    have hlt := his i hi
    have hposition := h.position
    omega

/-- A round of the dual loop handles two buffers. -/
theorem AtTurn.dualRound (h : AtTurn vector start n (nLeft + 4) s) :
    AtTurn vector start n (nLeft + 2) (dualRound vector s) where
  position := by
    have hposition := h.position
    change s.position + 2 + (nLeft + 2) = n
    omega
  out := by
    -- the pointer moves at the end of the round only
    change dualBody (vector (s.position + 1)) (dualBody (vector (s.position + 0)) s.out) =
      plainLoop vector (s.position + 2) start
    rw [dualBody_eq, plainLoop_succ, plainLoop_succ, h.out]
    rfl
  reads := by
    -- four are left, so what is prefetched is in the frame
    have hreads := h.reads_append [2, 3, 0, 1] (by simp)
    simpa [InFMon.dualRound, dualPass, DecapCursor.readFrom] using hreads

/-- The dual loop. -/
theorem AtTurn.dualLoop (h : AtTurn vector start n nLeft s) :
    AtTurn vector start n (dualLoop vector nLeft s).1 (dualLoop vector nLeft s).2 := by
  induction nLeft, s using dualLoop.induct vector with
  | case1 s nLeft ih =>
    rw [InFMon.dualLoop]
    exact ih h.dualRound
  | case2 s nLeft hshort =>
    rw [InFMon.dualLoop]
    · exact h
    · exact hshort

/-- The loop behind it handles what is left. -/
theorem AtTurn.singleLoop (h : AtTurn vector start n nLeft s) :
    AtTurn vector start n 0 (singleLoop vector nLeft s) := by
  induction nLeft generalizing s with
  | zero => exact h
  | succ nLeft ih =>
    refine ih ⟨?_, ?_, ?_⟩
    · have hposition := h.position
      change s.position + 1 + nLeft = n
      omega
    · change singleBody (vector (s.position + 0)) s.out = plainLoop vector (s.position + 1) start
      rw [plainLoop_succ, h.out, Nat.add_zero]
    · have hreads := h.reads_append [0] (by simp)
      simpa [DecapCursor.readFrom] using hreads

end

/-! ### One buffer -/

/-- The error counter for an error of the parser. -/
def nodeErrorOf : ParseError → NodeError
  | .greBadProto | .erspanBadVersion => .erspanUnknownProto
  | .erspanTruncated | .outerTruncated => .erspanTruncated
  | _ => .innerParseFailed

namespace VlibBuffer

/-- The buffer at the mirrored frame. -/
def advance (b : VlibBuffer) (dr : DecapResult) : VlibBuffer where
  buffer :=
    { b.buffer with
      currentData := b.buffer.currentData + dr.innerOffset
      currentLength := UInt16.ofNat dr.innerLen
      mirrorSrcIp := dr.parsed.mirrorSrcIp }
  nextPresent := false
  isTraced := b.isTraced

/-- What the node makes of a buffer. -/
def handled (b : VlibBuffer) : VlibBuffer :=
  match b.decap with
  | .ok dr => b.advance dr
  | .error _ => b

/-- The trace of a buffer. -/
def trace (b : VlibBuffer) : DecapTrace :=
  match b.decap with
  | .ok dr => ⟨.ok dr.parseResult, dr.innerOffset, dr.innerLen⟩
  | .error rc => ⟨.error rc, 0, 0⟩

/-- The counter that a buffer raises, if it is rejected. -/
def error (b : VlibBuffer) : Option NodeError :=
  match b.decap with
  | .ok _ => none
  | .error rc => some (nodeErrorOf rc)

/-- An accepted buffer is the mirrored frame, with the mirror's address beside it. -/
structure AtInner (b b' : VlibBuffer) (dr : DecapResult) : Prop where
  data : b'.buffer.data = b.buffer.data
  currentData : b'.buffer.currentData = b.buffer.currentData + dr.parsed.innerPtr
  currentLength : b'.buffer.currentLength.toNat = dr.parsed.innerLen
  mirrorSrcIp : b'.buffer.mirrorSrcIp = dr.parsed.mirrorSrcIp
  nextPresent : b'.nextPresent = false
  isTraced : b'.isTraced = b.isTraced

/-- The offset and the length of the frame are small enough for the fields of the buffer. -/
theorem atInner_advance {b : VlibBuffer} {dr : DecapResult} (h : b.decap = .ok dr) :
    b.AtInner (b.advance dr) dr := by
  have hlt := b.buffer.currentLength.toNat_lt
  simp only [decap, erspanDecap, result_bind_eq_ok_iff, Prod.exists, result_offset, Except.ok.injEq,
    exists_eq_left', result_pure] at h
  obtain ⟨rc, parsed, hparse, rfl⟩ := h
  have hlen : b.buffer.currentLength.toNat ≤ max32 := by
    simp only [max32]
    omega
  obtain ⟨hptr, hslice⟩ := (spec_parseErspan hlen).2 _ hparse
  simp only at hptr hslice
  refine ⟨rfl, ?_, ?_, rfl, rfl, rfl⟩
  · change b.buffer.currentData + u32 parsed.innerPtr = b.buffer.currentData + parsed.innerPtr
    rw [u32_of_small (by omega)]
  · have hsmall : parsed.innerLen < 2 ^ 16 := by omega
    exact UInt16.toNat_ofNat_of_lt' hsmall

end VlibBuffer

/-- One body does all that there is to do with one buffer. -/
theorem singleBody_eq (bi : UInt32) (s : DecapNodeOut) : singleBody bi s =
    { pool := Function.update s.pool bi (s.pool bi).handled
      toMatch := if (s.pool bi).error = none then s.toMatch.enqueue ⟨bi, (s.pool bi).handled.buffer⟩
        else s.toMatch
      toPass := if (s.pool bi).error = none then s.toPass
        else s.toPass.enqueue ⟨bi, (s.pool bi).handled.buffer⟩
      errors := fun e => s.errors e + if (s.pool bi).error = some e then 1 else 0
      traces := s.traces ++ if (s.pool bi).isTraced then [(bi, (s.pool bi).trace)] else [] } := by
  unfold singleBody VlibBuffer.handled VlibBuffer.trace VlibBuffer.error
  dsimp only
  cases hdecap : (s.pool bi).decap with
  | ok dr =>
    dsimp only
    simp only [DecapNodeOut.addTrace, DecapNodeOut.enqueueMatch, Function.update_self, if_true]
    cases htraced : (s.pool bi).isTraced with
    | true => simp [VlibBuffer.advance, htraced]
    | false => simp [VlibBuffer.advance, htraced]
  | error rc =>
    dsimp only
    -- the comparisons of the node, by the constructors of the error
    have herr : (if rc = .greBadProto ∨ rc = .erspanBadVersion then NodeError.erspanUnknownProto
        else if rc = .erspanTruncated ∨ rc = .outerTruncated then .erspanTruncated
        else .innerParseFailed) = nodeErrorOf rc := by
      cases rc <;> rfl
    have hraise : Function.update s.errors (nodeErrorOf rc) (s.errors (nodeErrorOf rc) + 1) =
        fun e => s.errors e + if some (nodeErrorOf rc) = some e then 1 else 0 := by
      funext e
      by_cases he : e = nodeErrorOf rc
      · rw [he, Function.update_self, if_pos rfl]
      · rw [Function.update_of_ne he, if_neg (by simpa using Ne.symm he), Nat.add_zero]
    simp only [herr, DecapNodeOut.addTrace, DecapNodeOut.enqueuePass, DecapNodeOut.raise, hraise]
    cases htraced : (s.pool bi).isTraced with
    | true => simp
    | false => simp

/-! ### All buffers -/

section
variable {vector : ℕ → UInt32} {start : DecapNodeOut} {n : ℕ}

/-- The buffer whose turn it is at a position, as it is then. -/
def turn (vector : ℕ → UInt32) (start : DecapNodeOut) (i : ℕ) : UInt32 × VlibBuffer :=
  (vector i, (plainLoop vector i start).pool (vector i))

/-- The buffers of a frame, each as it is when its turn comes. -/
def turns (vector : ℕ → UInt32) (start : DecapNodeOut) (n : ℕ) : List (UInt32 × VlibBuffer) :=
  (List.range n).map (turn vector start)

/-- A buffer as it is enqueued. -/
def enqueued (t : UInt32 × VlibBuffer) : FrameBuffer := ⟨t.1, t.2.handled.buffer⟩

/-- Whether a buffer is accepted. -/
def accepted (t : UInt32 × VlibBuffer) : Bool := t.2.error = none

/-- The buffers of a frame were handled one at a time: each goes to one next frame, in the order of the
frame, and raises a counter if it is rejected. -/
structure OneAtATime (turns : List (UInt32 × VlibBuffer)) (start : DecapNodeOut)
    (matchRoom passRoom : NextRoom) (out : DecapNodeOut) : Prop where
  toMatch : out.toMatch.After matchRoom ((turns.filter accepted).map enqueued)
  toPass : out.toPass.After passRoom ((turns.filter fun t => !accepted t).map enqueued)
  errors : ∀ e, out.errors e = start.errors e + turns.countP fun t => t.2.error = some e
  traces : out.traces =
    start.traces ++ (turns.filter fun t => t.2.isTraced).map fun t => (t.1, t.2.trace)

/-- One turn more. -/
theorem turns_succ (vector : ℕ → UInt32) (start : DecapNodeOut) (n : ℕ) :
    turns vector start (n + 1) = turns vector start n ++ [turn vector start n] := by
  rw [turns, List.range_succ, List.map_append]
  rfl

/-- One buffer more. -/
theorem OneAtATime.singleBody {before : List (UInt32 × VlibBuffer)} {matchRoom passRoom : NextRoom}
    {s : DecapNodeOut} (h : OneAtATime before start matchRoom passRoom s) (bi : UInt32) :
    OneAtATime (before ++ [(bi, s.pool bi)]) start matchRoom passRoom (singleBody bi s) := by
  rw [singleBody_eq]
  refine ⟨?_, ?_, fun e => ?_, ?_⟩
  · dsimp only
    rw [List.filter_append, List.map_append]
    by_cases hok : (s.pool bi).error = none
    · rw [if_pos hok, List.filter_cons_of_pos (by simpa [accepted] using hok)]
      exact h.toMatch.enqueue ⟨bi, (s.pool bi).handled.buffer⟩
    · rw [if_neg hok, List.filter_cons_of_neg (by simpa [accepted] using hok)]
      simpa using h.toMatch
  · dsimp only
    rw [List.filter_append, List.map_append]
    by_cases hok : (s.pool bi).error = none
    · rw [if_pos hok, List.filter_cons_of_neg (by simpa [accepted] using hok)]
      simpa using h.toPass
    · rw [if_neg hok, List.filter_cons_of_pos (by simpa [accepted] using hok)]
      exact h.toPass.enqueue ⟨bi, (s.pool bi).handled.buffer⟩
  · dsimp only
    rw [h.errors, List.countP_append, List.countP_singleton, Nat.add_assoc]
    simp
  · dsimp only
    rw [h.traces, List.filter_append, List.map_append, List.append_assoc]
    cases htraced : (s.pool bi).isTraced with
    | true => simp [htraced]
    | false => simp [htraced]

/-- The plain loop handles every buffer in its turn. -/
theorem oneAtATime_plainLoop {matchRoom passRoom : NextRoom}
    (hmatch : start.toMatch = .get matchRoom) (hpass : start.toPass = .get passRoom) (n : ℕ) :
    OneAtATime (turns vector start n) start matchRoom passRoom (plainLoop vector n start) := by
  induction n with
  | zero =>
    refine ⟨?_, ?_, fun e => rfl, (List.append_nil _).symm⟩
    · exact hmatch ▸ NextFrame.after_get matchRoom
    · exact hpass ▸ NextFrame.after_get passRoom
  | succ n ih =>
    rw [turns_succ, plainLoop_succ]
    exact ih.singleBody (vector n)

/-- A buffer that is not in the frame is left alone. -/
theorem pool_plainLoop_of_ne {bi : UInt32} (h : ∀ i < n, vector i ≠ bi) :
    (plainLoop vector n start).pool bi = start.pool bi := by
  induction n with
  | zero => rfl
  | succ n ih =>
    rw [plainLoop_succ, singleBody_eq]
    dsimp only
    rw [Function.update_of_ne (h n (Nat.lt_succ_self n)).symm]
    exact ih fun i hi => h i (Nat.lt_succ_of_lt hi)

/-- A buffer that is in the frame once is handled once. -/
theorem pool_plainLoop_of_once {i : ℕ} (hi : i < n) (h : ∀ j < n, vector j = vector i → j = i) :
    (plainLoop vector n start).pool (vector i) = (start.pool (vector i)).handled := by
  induction n with
  | zero => exact absurd hi (Nat.not_lt_zero i)
  | succ n ih =>
    rw [plainLoop_succ, singleBody_eq]
    dsimp only
    rcases Nat.lt_succ_iff_lt_or_eq.mp hi with hlt | rfl
    · have hne : vector i ≠ vector n := fun heq =>
        absurd (h n (Nat.lt_succ_self n) heq.symm) (by omega)
      rw [Function.update_of_ne hne]
      exact ih hlt fun j hj => h j (Nat.lt_succ_of_lt hj)
    · -- its turn is the last one
      rw [Function.update_self, pool_plainLoop_of_ne]
      exact fun j hj heq => absurd (h j (Nat.lt_succ_of_lt hj) heq) (by omega)

/-- A buffer that is neither twice in the frame nor changed in between comes as it was at first. -/
theorem turns_of_injective (h : ∀ i < n, ∀ j < n, vector j = vector i → j = i) :
    turns vector start n = (List.range n).map fun i => (vector i, start.pool (vector i)) := by
  refine List.map_congr_left fun i hi => ?_
  have hlt := List.mem_range.mp hi
  rw [turn, pool_plainLoop_of_ne fun j hj heq => ?_]
  exact absurd (h i hlt j (hj.trans hlt) heq) (by omega)

end

/-- A rejected buffer is left as it is. -/
theorem VlibBuffer.handled_of_error {b : VlibBuffer} (h : b.error ≠ none) : b.handled = b := by
  unfold error at h
  unfold handled
  cases hdecap : b.decap with
  | ok dr => simp [hdecap] at h
  | error rc => rfl

/-- A buffer with its index, as `FrameBuffer`. -/
def frameBufferOf (t : UInt32 × VlibBuffer) : FrameBuffer := ⟨t.1, t.2.buffer⟩

/-- The buffer for the flow-match node. -/
theorem decap_frameBufferOf (t : UInt32 × VlibBuffer) : (frameBufferOf t).decap =
    if accepted t then some (enqueued t) else none := by
  unfold FrameBuffer.decap decapBuffer accepted enqueued VlibBuffer.handled VlibBuffer.error frameBufferOf
  dsimp only
  rw [← VlibBuffer.decap]
  cases t.2.decap with
  | ok dr => rfl
  | error rc => rfl

/-- The decapsulated buffers are those that the node accepts. -/
theorem filterMap_decap (buffers : List (UInt32 × VlibBuffer)) :
    (buffers.map frameBufferOf).filterMap FrameBuffer.decap =
      (buffers.filter accepted).map enqueued := by
  induction buffers with
  | nil => rfl
  | cons t buffers ih =>
    have ht := decap_frameBufferOf t
    cases hok : accepted t with
    | true =>
      rw [List.map_cons, List.filterMap_cons_some (ht.trans (if_pos hok)),
        List.filter_cons_of_pos hok, List.map_cons, ih]
    | false =>
      rw [List.map_cons, List.filterMap_cons_none (ht.trans (if_neg (by simp [hok]))),
        List.filter_cons_of_neg (by simp [hok]), ih]

/-- The other buffers are those that it does not accept. -/
theorem filter_decap (buffers : List (UInt32 × VlibBuffer)) :
    ((buffers.map frameBufferOf).filter fun b => b.decap.isNone) =
      (buffers.filter fun t => !accepted t).map enqueued := by
  induction buffers with
  | nil => rfl
  | cons t buffers ih =>
    have ht := decap_frameBufferOf t
    rw [List.map_cons]
    cases hok : accepted t with
    | true =>
      rw [List.filter_cons_of_neg (by simp [ht, hok]), List.filter_cons_of_neg (by simp [hok]), ih]
    | false =>
      have hsame : enqueued t = frameBufferOf t := by
        rw [enqueued, VlibBuffer.handled_of_error (by simpa [accepted] using hok)]
        rfl
      rw [List.filter_cons_of_pos (by simp [ht, hok]), List.filter_cons_of_pos (by simp [hok]),
        List.map_cons, ih, hsame]

/-- The node ends at the end of the frame. -/
theorem atTurn_erspanDecapNodeFn (vector : ℕ → UInt32) (nVectors : UInt32) (start : DecapNodeOut) :
    AtTurn vector start nVectors.toNat 0 (erspanDecapNodeFn vector nVectors start) := by
  have hstart : AtTurn vector start nVectors.toNat nVectors.toNat
      { out := start, position := 0, reads := [] } :=
    ⟨Nat.zero_add _, rfl, fun _ h => absurd h List.not_mem_nil⟩
  exact hstart.dualLoop.singleLoop

/-- The dual loop does what the plain one does. -/
theorem out_erspanDecapNodeFn (vector : ℕ → UInt32) (nVectors : UInt32) (start : DecapNodeOut) :
    (erspanDecapNodeFn vector nVectors start).out = plainLoop vector nVectors.toNat start := by
  have hend := atTurn_erspanDecapNodeFn vector nVectors start
  have hposition : (erspanDecapNodeFn vector nVectors start).position = nVectors.toNat := hend.position
  rw [hend.out, hposition]

/-- On a pool the node enqueues what it enqueues of a frame that has the buffers in it, if no buffer is
in the frame twice. -/
theorem erspanDecapNodeFn_refines (vector : ℕ → UInt32) (nVectors : UInt32)
    (pool : UInt32 → VlibBuffer) (errors : NodeError → ℕ) (traces : List (UInt32 × DecapTrace))
    (matchRoom passRoom : NextRoom) {frame : Frame}
    (honce : ∀ i < nVectors.toNat, ∀ j < nVectors.toNat, vector j = vector i → j = i)
    (hframe : frame.buffers =
      (List.range nVectors.toNat).map fun i => ⟨vector i, (pool (vector i)).buffer⟩) :
    let run := erspanDecapNodeFn vector nVectors (.start pool errors traces matchRoom passRoom)
    run.out.toMatch.written = (erspanDecapNode frame matchRoom passRoom).toMatch.written ∧
      run.out.toPass.written = (erspanDecapNode frame matchRoom passRoom).toPass.written := by
  obtain ⟨hmatch, hpass⟩ := erspanDecapNode_after frame matchRoom passRoom
  intro run
  obtain ⟨start, hstart⟩ : ∃ start, start = DecapNodeOut.start pool errors traces matchRoom passRoom :=
    ⟨_, rfl⟩
  have hone : OneAtATime (turns vector start nVectors.toNat) start matchRoom passRoom
      (plainLoop vector nVectors.toNat start) :=
    oneAtATime_plainLoop (by rw [hstart]; rfl) (by rw [hstart]; rfl) nVectors.toNat
  have hbuffers : frame.buffers = (turns vector start nVectors.toNat).map frameBufferOf := by
    rw [hframe, turns_of_injective honce, List.map_map, hstart]
    rfl
  have hout : run.out = plainLoop vector nVectors.toNat start := by
    rw [hstart]
    exact out_erspanDecapNodeFn vector nVectors _
  rw [hout, hone.toMatch.written, hone.toPass.written, hmatch.written,
    hpass.written, hbuffers, filterMap_decap, filter_decap]
  exact ⟨rfl, rfl⟩

/-- **The dual loop is the plain loop.** For every number of buffers the node does what it would do with
them one at a time, reads no index behind the frame, and enqueues every buffer once and in order. A buffer
that is in the frame once ends up at its mirrored frame if it is accepted, else as it was, and with enough
room both next frames are respected. -/
theorem erspanDecapNodeFn_plain (vector : ℕ → UInt32) (nVectors : UInt32)
    (pool : UInt32 → VlibBuffer) (errors : NodeError → ℕ) (traces : List (UInt32 × DecapTrace))
    (matchRoom passRoom : NextRoom) :
    let start := DecapNodeOut.start pool errors traces matchRoom passRoom
    let n := nVectors.toNat
    let run := erspanDecapNodeFn vector nVectors start
    let buffers := turns vector start n
    run.out = plainLoop vector n start ∧ run.position = n ∧ (∀ i ∈ run.reads, i < n) ∧
    OneAtATime buffers start matchRoom passRoom run.out ∧
    (∀ i < n, (∀ j < n, vector j = vector i → j = i) →
      (∀ dr, (pool (vector i)).decap = .ok dr →
        (pool (vector i)).AtInner (run.out.pool (vector i)) dr) ∧
      ∀ rc, (pool (vector i)).decap = .error rc → run.out.pool (vector i) = pool (vector i)) ∧
    (∀ bi, (∀ i < n, vector i ≠ bi) → run.out.pool bi = pool bi) ∧
    ((buffers.filter accepted).length ≤ matchRoom.left →
      (buffers.filter fun t => !accepted t).length ≤ passRoom.left →
      run.out.toMatch.Respected ∧ run.out.toPass.Respected) := by
  intro start n run buffers
  -- the loop ends with `n` buffers behind it and none ahead
  have hend : AtTurn vector start n 0 run := atTurn_erspanDecapNodeFn vector nVectors start
  have hout : run.out = plainLoop vector n start := out_erspanDecapNodeFn vector nVectors start
  have hone : OneAtATime buffers start matchRoom passRoom run.out := by
    rw [hout]
    exact oneAtATime_plainLoop rfl rfl n
  refine ⟨hout, hend.position, hend.reads, hone, fun i hi honce => ?_, fun bi hbi => ?_, fun hm hp => ?_⟩
  · have hpool : run.out.pool (vector i) = (pool (vector i)).handled := by
      rw [hout]
      exact pool_plainLoop_of_once hi honce
    rw [hpool]
    refine ⟨fun dr hdr => ?_, fun rc hrc => ?_⟩
    · rw [VlibBuffer.handled, hdr]
      exact VlibBuffer.atInner_advance hdr
    · rw [VlibBuffer.handled, hrc]
  · rw [hout]
    exact pool_plainLoop_of_ne hbi
  · rw [hone.toMatch.respected_iff, hone.toPass.respected_iff, List.length_map, List.length_map]
    exact ⟨hm, hp⟩

/-- A pool in which every buffer but one is a packet with a UDP frame. -/
def poolButThird (bi : UInt32) : VlibBuffer where
  buffer := if bi = 2 then { udpPacket 0x30 0x39 with currentLength := 10 } else udpPacket 0x30 0x39
  nextPresent := true
  isTraced := false

/-- Every buffer at the position of its index. -/
def byIndex (i : ℕ) : UInt32 := UInt32.ofNat i

/-- Room for five buffers. -/
def roomForFive : NextRoom := ⟨5, by decide, by decide⟩

/-- The node in front of five buffers. -/
def fiveStart : DecapNodeOut :=
  .start poolButThird (fun _ => 0) [] roomForFive roomForFive

/-- Five buffers, with room for as many in either next frame: two rounds of two and one more. -/
theorem erspanDecapNodeFn_plain_five :
    (erspanDecapNodeFn byIndex 5 fiveStart).out.toMatch.Respected ∧
    (erspanDecapNodeFn byIndex 5 fiveStart).out.toPass.Respected ∧
    (erspanDecapNodeFn byIndex 5 fiveStart).out.pool (byIndex 2) = poolButThird (byIndex 2) := by
  obtain ⟨-, -, -, -, hpool, -, hroom⟩ :=
    erspanDecapNodeFn_plain byIndex 5 poolButThird (fun _ => 0) [] roomForFive roomForFive
  have hrejected : (poolButThird (byIndex 2)).decap = .error .outerTruncated := by decide +kernel
  have honce : ∀ j < (5 : UInt32).toNat, byIndex j = byIndex 2 → j = 2 := by decide +kernel
  obtain ⟨hmatch, hpass⟩ := hroom (by decide +kernel) (by decide +kernel)
  exact ⟨hmatch, hpass, (hpool 2 (by decide +kernel) honce).2 _ hrejected⟩

end InFMon
