import InFMon.DataPath.FlowMatch

/-! # The first two graph nodes

`infmon_nodes.c`: the decapsulation node moves a buffer to its mirrored frame and leaves the mirror's
address in the buffer's opaque area; that and the frame is all that the flow-match node knows of the
packet. -/

namespace InFMon

open TracedReader

/-! ### Buffers -/

/-- A buffer without a successor: its bytes, the part in use, and the opaque area. -/
structure Buffer where
  data : ByteMemory
  currentData : ℕ
  currentLength : UInt16
  mirrorSrcIp : MirrorSrcIp

/-- The bytes in use. -/
def Buffer.current (b : Buffer) : ByteMemory := b.data.shift b.currentData

/-! ### Nodes -/

/-- `infmon-erspan-decap` on one buffer: the buffer for the flow-match node, or the error with which
it is passed on unchanged. -/
def decapBuffer (b : Buffer) : Except ParseError Buffer :=
  match (erspanDecap b.currentLength.toNat).result b.current with
  | .error e => .error e
  | .ok dr =>
    .ok { b with
      currentData := b.currentData + dr.innerOffset
      currentLength := UInt16.ofNat dr.innerLen
      mirrorSrcIp := dr.parsed.mirrorSrcIp }

/-- The flow fields in `infmon-flow-match`, read from the buffer and its opaque area. -/
def flowFields (b : Buffer) : Except Unit FlowFields :=
  (extractFlowFields (.start b.mirrorSrcIp) b.currentLength.toNat).result b.current

/-- `infmon-flow-match` on one buffer. -/
def matchBuffer (rules : ℕ → FlowRule) (ruleCount : ℕ) (b : Buffer) (scratch : Scratch)
    (keyBuf : ByteMemory) : FlowMatchPass :=
  match flowFields b with
  -- the packet is dropped without a match
  | .error _ => { matched := 0, scratch := scratch, keyBuf := keyBuf }
  | .ok fields =>
    if ruleCount > 0 then
      flowMatch rules ruleCount fields scratch keyBuf b.currentLength.toUInt64
    else { matched := 0, scratch := scratch, keyBuf := keyBuf }

end InFMon
