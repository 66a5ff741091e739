import InFMon.Parser.Erspan

/-! # Decapsulation and flow fields

The portable part of the first two graph nodes, `graph_node.c`: the parser's record with the offset of
the mirrored frame, and the fields of a flow read from that frame. The frame is a byte memory of its
own, of which `innerLen` bytes belong to it. -/

namespace InFMon

open TracedReader

/-! ### Decapsulation -/

/-- `infmon_decap_result_t` after a success. -/
structure DecapResult where
  parseResult : ParseOk
  parsed : ParsedPacket
  innerOffset : ℕ
  innerLen : ℕ
  deriving DecidableEq, Repr

/-- `infmon_erspan_decap`. -/
def erspanDecap (len : ℕ) : TracedReader ParseError DecapResult := do
  let (rc, parsed) ← parseErspan len
  let innerOffset ← offset parsed.innerPtr
  return {
    parseResult := rc
    parsed := parsed
    innerOffset := innerOffset
    innerLen := parsed.innerLen }

/-! ### Flow fields -/

/-- `uint8_t [16]`: an address in network byte order. -/
def IpBytes : Type := Vector UInt8 16
  deriving DecidableEq, Repr

namespace IpBytes

/-- Sixteen bytes of an address. -/
def ofBytes (bytes : List UInt8) : IpBytes := Vector.ofFn fun i => bytes.getD i 0

/-- The address as `memset` leaves it. -/
def zero : IpBytes := ofBytes []

/-- Four bytes of an IPv4 address as an IPv4-mapped IPv6 address, `::ffff:x.x.x.x`. -/
def v4Mapped (bytes : List UInt8) : IpBytes :=
  ofBytes (List.replicate 10 0 ++ [0xFF, 0xFF] ++ bytes)

/-- The bytes of an address. -/
def bytes (ip : IpBytes) : List UInt8 := ip.toList

/-- An address has 16 bytes. -/
@[simp] theorem length_bytes (ip : IpBytes) : ip.bytes.length = 16 := Vector.length_toList

/-- An address is known by its bytes. -/
theorem bytes_injective {a b : IpBytes} (h : a.bytes = b.bytes) : a = b := Vector.toList_inj.mp h

/-- Sixteen bytes are kept. -/
theorem bytes_ofBytes {l : List UInt8} (h : l.length = 16) : (ofBytes l).bytes = l := by
  change (Vector.ofFn fun i : Fin 16 => l.getD i 0).toList = l
  apply List.ext_getElem
  · rw [Vector.length_toList, h]
  · intro i hi hi'
    rw [Vector.getElem_toList, Vector.getElem_ofFn, List.getD_eq_getElem?_getD,
      List.getElem?_eq_getElem hi', Option.getD_some]

end IpBytes

/-- `infmon_flow_fields_t`. -/
structure FlowFields where
  srcIp : IpBytes
  dstIp : IpBytes
  mirrorSrcIp : IpBytes
  ipProto : UInt8
  dscp : UInt8
  srcPort : UInt16
  dstPort : UInt16
  deriving DecidableEq, Repr

/-- Flow fields as `memset` leaves them. -/
def FlowFields.zero : FlowFields where
  srcIp := .zero
  dstIp := .zero
  mirrorSrcIp := .zero
  ipProto := 0
  dscp := 0
  srcPort := 0
  dstPort := 0

/-- The mirror's address in the normalised form. -/
def MirrorSrcIp.normalised (ip : MirrorSrcIp) : IpBytes :=
  match ip.family with
  | .v4 => .v4Mapped ip.addr
  | .v6 => .ofBytes ip.addr

/-- The offset of the inner IP header, past a VLAN tag if there is one. -/
def flowL3Off (innerLen : ℕ) : TracedReader Unit ℕ :=
  if innerLen ≥ 14 then do
    let innerEt ← readU16 12
    if innerEt = 0x8100 then pure 18
    else do
      -- stacked tags are not supported
      failIf (innerEt = 0x88A8) ()
      return 14
  else pure 14

/-- The fields of an inner IPv4 header. -/
def flowIpv4 (innerLen innerL3Off : ℕ) (out : FlowFields) : TracedReader Unit FlowFields := do
  failIf (innerLen < (← offset (innerL3Off + 20))) ()
  let ipProto ← readByte (← offset (innerL3Off + 9))
  let tos ← readByte (← offset (innerL3Off + 1))
  let src ← readBytes (innerL3Off + 12) 4
  let dst ← readBytes (innerL3Off + 16) 4
  return { out with
    ipProto := ipProto
    dscp := tos >>> 2 &&& 0x3F
    srcIp := .v4Mapped src
    dstIp := .v4Mapped dst }

/-- The traffic class of an IPv6 header: the lower half of its first byte and the upper half of its
second. -/
def trafficClass (b₀ b₁ : UInt8) : UInt8 := (b₀ &&& 0x0F) <<< 4 ||| (b₁ >>> 4 &&& 0x0F)

/-- The fields of an inner IPv6 header. -/
def flowIpv6 (innerLen innerL3Off : ℕ) (out : FlowFields) : TracedReader Unit FlowFields := do
  failIf (innerLen < (← offset (innerL3Off + 40))) ()
  let ipProto ← readByte (← offset (innerL3Off + 6))
  let b₀ ← readByte innerL3Off
  let b₁ ← readByte (← offset (innerL3Off + 1))
  let src ← readBytes (innerL3Off + 8) 16
  let dst ← readBytes (innerL3Off + 24) 16
  return { out with
    ipProto := ipProto
    dscp := trafficClass b₀ b₁ >>> 2 &&& 0x3F
    srcIp := .ofBytes src
    dstIp := .ofBytes dst }

/-- `infmon_extract_flow_fields`; a failure is the result `false`, after which the caller does not
look at the fields. -/
def extractFlowFields (parsed : ParsedPacket) (innerLen : ℕ) : TracedReader Unit FlowFields := do
  let out := { FlowFields.zero with mirrorSrcIp := parsed.mirrorSrcIp.normalised }
  let innerL3Off ← flowL3Off innerLen
  -- also covers a frame shorter than an Ethernet header
  failIf (innerLen < (← offset (innerL3Off + 1))) ()
  -- the ethertype is in front of the IP header, behind a tag or not
  let innerEt ← readU16 (if innerL3Off = 14 then 12 else 16)
  if innerEt = 0x0800 then flowIpv4 innerLen innerL3Off out
  else if innerEt = 0x86DD then flowIpv6 innerLen innerL3Off out
  else fail ()

end InFMon
