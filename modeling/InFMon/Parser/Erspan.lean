import InFMon.Foundations.TracedReader

/-! # The ERSPAN parser

`erspan_parser.c`: a mirrored packet is unwrapped layer by layer, every layer checked against the
length of the buffer before it is read. The buffer is a byte memory of which `len` bytes belong to the
packet; `inner_ptr` is the index it points to. After an error the caller looks at the code only. -/

namespace InFMon

open TracedReader

/-! ### Data -/

/-- The success codes of `infmon_parse_result_t`. -/
inductive ParseOk where
  | ok
  | innerTruncatedOk
  deriving DecidableEq, Repr

/-- The error codes of `infmon_parse_result_t`. -/
inductive ParseError where
  | outerQinqUnsupported
  | outerEthertypeUnsupported
  | outerV6ExtUnsupported
  | outerTruncated
  | mbufNotContiguous
  | greUnexpectedFlags
  | greBadVersion
  | greBadProto
  | erspanBadVersion
  | erspanTruncated
  | innerEthTruncated
  | innerL3Truncated
  | innerDoubleEncapDropped
  deriving DecidableEq, Repr

/-- `infmon_af_t`. -/
inductive Af where
  | v4
  | v6
  deriving DecidableEq, Repr

/-- `infmon_mirror_src_ip_t`: four or sixteen bytes of address. -/
structure MirrorSrcIp where
  family : Af
  addr : List UInt8
  deriving DecidableEq, Repr

/-- `INFMON_VALID_PORTS`. -/
def validPorts : UInt32 := 1

/-- `INFMON_VALID_TCP_FLAGS`. -/
def validTcpFlags : UInt32 := 2

/-- `INFMON_VALID_TCP_SEQ`. -/
def validTcpSeq : UInt32 := 4

/-- `INFMON_VALID_TCP_ACK`. -/
def validTcpAck : UInt32 := 8

/-- `INFMON_VALID_TCP_WINDOW`. -/
def validTcpWindow : UInt32 := 16

/-- `infmon_parsed_packet_t`. -/
structure ParsedPacket where
  innerPtr : ℕ
  innerLen : ℕ
  innerTruncated : Bool
  mirrorSrcIp : MirrorSrcIp
  validFields : UInt32
  srcPort : ℕ
  dstPort : ℕ
  tcpFlags : UInt8
  tcpSeq : ℕ
  tcpAck : ℕ
  tcpWindow : ℕ
  flowKeyPartial : Bool
  innerIpProto : UInt8
  innerAf : Af
  deriving DecidableEq, Repr

/-- A packet as `memset` leaves it, with the mirror's address filled in. -/
def ParsedPacket.start (mirrorSrcIp : MirrorSrcIp) : ParsedPacket where
  innerPtr := 0
  innerLen := 0
  innerTruncated := false
  mirrorSrcIp := mirrorSrcIp
  validFields := 0
  srcPort := 0
  dstPort := 0
  tcpFlags := 0
  tcpSeq := 0
  tcpAck := 0
  tcpWindow := 0
  flowKeyPartial := false
  innerIpProto := 0
  innerAf := .v4

/-- `infmon_inner_decap_t`. -/
inductive InnerDecap where
  | none
  | vxlan
  | geneve
  | rocev2
  deriving DecidableEq, Repr

/-! ### Outer layers -/

/-- The VLAN tag in front of the outer ethertype, if there is one: the ethertype behind it, and the
offset behind the Ethernet header. -/
def outerVlan (len ethertype off : ℕ) : TracedReader ParseError (ℕ × ℕ) :=
  if ethertype = 0x8100 then do
    failIf (len < (← offset (off + 4))) .outerTruncated
    let ethertype ← readU16 (off + 2)
    let off ← offset (off + 4)
    -- a second tag is not supported
    failIf (ethertype = 0x8100 ∨ ethertype = 0x88A8) .outerQinqUnsupported
    return (ethertype, off)
  else do
    failIf (ethertype = 0x88A8) .outerQinqUnsupported
    return (ethertype, off)

/-- The outer Ethernet header: its ethertype and the offset behind it. -/
def outerEthernet (len : ℕ) : TracedReader ParseError (ℕ × ℕ) := do
  failIf (len < 14) .outerTruncated
  let (ethertype, off) ← outerVlan len (← readU16 12) 14
  failIf (ethertype ≠ 0x0800 ∧ ethertype ≠ 0x86DD) .outerEthertypeUnsupported
  return (ethertype, off)

/-- `a > b ? a - b : 0`. -/
def excess (a b : ℕ) : TracedReader ParseError ℕ := if a > b then less a b else pure 0

/-- What the outer IP layer leaves: the mirror's address, the declared number of bytes behind the IP
headers, and the offset behind them. -/
structure OuterL3 where
  mirrorSrcIp : MirrorSrcIp
  payloadLen : ℕ
  off : ℕ

/-- The outer IPv4 header. -/
def outerIpv4 (len off : ℕ) : TracedReader ParseError OuterL3 := do
  failIf (len < (← offset (off + 20))) .outerTruncated
  let verIhl ← readByte off
  failIf (verIhl >>> 4 ≠ 4) .outerTruncated
  let ihl := verIhl &&& 0x0F
  failIf (ihl < 5) .outerTruncated
  let ipHdrLen ← offset (ihl.toNat * 4)
  failIf (len < (← offset (off + ipHdrLen))) .outerTruncated
  let protocol ← readByte (off + 9)
  -- GRE
  failIf (protocol ≠ 47) .outerEthertypeUnsupported
  let totalLength ← readU16 (off + 2)
  failIf (totalLength < ipHdrLen) .outerTruncated
  let addr ← readBytes (off + 12) 4
  let payloadLen ← less totalLength ipHdrLen
  let off ← offset (off + ipHdrLen)
  return { mirrorSrcIp := ⟨.v4, addr⟩, payloadLen := payloadLen, off := off }

/-- `MAX_IPV6_EXT_HEADERS`. -/
def maxIpv6ExtHeaders : ℕ := 8

/-- The loop over the extension headers, with `room` iterations to go: the protocol behind them, their
length and the offset behind them. -/
def outerIpv6Ext (len : ℕ) : ℕ → UInt8 → ℕ → ℕ → TracedReader ParseError (UInt8 × ℕ × ℕ)
  | room, nextHdr, v6ExtLen, off =>
    -- hop-by-hop and destination options
    if nextHdr = 0 ∨ nextHdr = 60 then
      match room with
      | 0 => fail .outerV6ExtUnsupported
      | room + 1 => do
        failIf (len < (← offset (off + 2))) .outerTruncated
        let extNext ← readByte off
        let extHdrLenField ← readByte (off + 1)
        let extLen ← offset ((extHdrLenField.toNat + 1) * 8)
        failIf (len < (← offset (off + extLen))) .outerTruncated
        let v6ExtLen ← offset (v6ExtLen + extLen)
        let off ← offset (off + extLen)
        outerIpv6Ext len room extNext v6ExtLen off
    else pure (nextHdr, v6ExtLen, off)

/-- The outer IPv6 header and its extension headers. -/
def outerIpv6 (len off : ℕ) : TracedReader ParseError OuterL3 := do
  failIf (len < (← offset (off + 40))) .outerTruncated
  let ver ← readByte off
  failIf (ver >>> 4 ≠ 6) .outerTruncated
  let payloadLength ← readU16 (off + 4)
  let nextHdr ← readByte (off + 6)
  let addr ← readBytes (off + 8) 16
  let off ← offset (off + 40)
  let (nextHdr, v6ExtLen, off) ← outerIpv6Ext len maxIpv6ExtHeaders nextHdr 0 off
  -- routing, fragment, AH, ESP and mobility headers
  failIf (nextHdr = 43 ∨ nextHdr = 44 ∨ nextHdr = 51 ∨ nextHdr = 50 ∨ nextHdr = 135)
    .outerV6ExtUnsupported
  failIf (nextHdr ≠ 47) .outerEthertypeUnsupported
  let payloadLen ← excess payloadLength v6ExtLen
  return { mirrorSrcIp := ⟨.v6, addr⟩, payloadLen := payloadLen, off := off }

/-- The outer IP layer. -/
def outerL3 (len ethertype off : ℕ) : TracedReader ParseError OuterL3 :=
  if ethertype = 0x0800 then outerIpv4 len off else outerIpv6 len off

/-- The GRE header: its length and the offset behind it. -/
def gre (len off : ℕ) : TracedReader ParseError (ℕ × ℕ) := do
  failIf (len < (← offset (off + 4))) .outerTruncated
  let greFlagsVer ← readU16 off
  let greProto ← readU16 (off + 2)
  failIf (greFlagsVer &&& 0x07 ≠ 0) .greBadVersion
  let flags := greFlagsVer &&& 0xFFF8
  let hasSeq := flags &&& 0x1000 != 0
  -- only the sequence number may be announced
  failIf (flags &&& 0xEFFF ≠ 0) .greUnexpectedFlags
  failIf (greProto ≠ 0x22EB) .greBadProto
  let greLen ← offset (4 + if hasSeq then 4 else 0)
  failIf (len < (← offset (off + greLen))) .outerTruncated
  let off ← offset (off + greLen)
  return (greLen, off)

/-- The ERSPAN III header: its length and the offset behind it. -/
def erspan (len off : ℕ) : TracedReader ParseError (ℕ × ℕ) := do
  failIf (len < (← offset (off + 12))) .erspanTruncated
  let erspanW0 ← readU32 off
  let erspanW2 ← readU32 (off + 8)
  failIf (erspanW0 >>> 28 &&& 0x0F ≠ 2) .erspanBadVersion
  -- the `O` bit announces a platform sub-header
  let erspanHdrLen ← offset (12 + if erspanW2 &&& 0x01 != 0 then 8 else 0)
  failIf (len < (← offset (off + erspanHdrLen))) .erspanTruncated
  let off ← offset (off + erspanHdrLen)
  return (erspanHdrLen, off)

/-! ### Inner layers -/

/-- Run `field` if the inner frame reaches to `need`, else `other`. -/
def ifReaches (innerLen need : ℕ) (field other : TracedReader ParseError ParsedPacket) :
    TracedReader ParseError ParsedPacket := do
  let need ← offset need
  if innerLen ≥ need then field else other

/-- The ports of a TCP or UDP header at index `base + innerL4Off`. -/
def extractPorts (base innerL4Off innerLen : ℕ) (out : ParsedPacket) :
    TracedReader ParseError ParsedPacket :=
  ifReaches innerLen (innerL4Off + 4)
    (do
      let srcPort ← readU16 (base + innerL4Off)
      let dstPort ← readU16 (base + innerL4Off + 2)
      return { out with
        srcPort := srcPort
        dstPort := dstPort
        validFields := out.validFields ||| validPorts })
    (pure { out with flowKeyPartial := true })

/-- The fields of a TCP header at index `base + innerL4Off`, as far as they are there. -/
def extractTcp (base innerL4Off innerLen : ℕ) (out : ParsedPacket) :
    TracedReader ParseError ParsedPacket := do
  let out ← ifReaches innerLen (innerL4Off + 8)
    (do
      let tcpSeq ← readU32 (base + innerL4Off + 4)
      return { out with tcpSeq := tcpSeq, validFields := out.validFields ||| validTcpSeq })
    (pure out)
  let out ← ifReaches innerLen (innerL4Off + 12)
    (do
      let tcpAck ← readU32 (base + innerL4Off + 8)
      return { out with tcpAck := tcpAck, validFields := out.validFields ||| validTcpAck })
    (pure out)
  let out ← ifReaches innerLen (innerL4Off + 14)
    (do
      let tcpFlags ← readByte (base + (← offset (innerL4Off + 13)))
      return { out with tcpFlags := tcpFlags, validFields := out.validFields ||| validTcpFlags })
    (pure out)
  ifReaches innerLen (innerL4Off + 16)
    (do
      let tcpWindow ← readU16 (base + innerL4Off + 14)
      return { out with tcpWindow := tcpWindow, validFields := out.validFields ||| validTcpWindow })
    (pure out)

/-- `extract_inner_l4`, with `base` for the index that `inner_ptr` points to. -/
def extractInnerL4 (base innerL4Off innerLen : ℕ) (innerIpProto : UInt8) (out : ParsedPacket) :
    TracedReader ParseError ParsedPacket :=
  if innerIpProto = 6 ∨ innerIpProto = 17 then do
    let out ← extractPorts base innerL4Off innerLen out
    -- without its ports a TCP header gives no other field
    if innerIpProto = 6 ∧ out.validFields &&& validPorts ≠ 0 then
      extractTcp base innerL4Off innerLen out
    else pure out
  else pure { out with flowKeyPartial := true }

/-- `infmon_inner_decap`: the inner frame without its own encapsulation, if the kind is supported. -/
def innerDecap (kind : InnerDecap) (ptr len : ℕ) (truncated : Bool) : Option (ℕ × ℕ × Bool) :=
  if kind ≠ .none then none else some (ptr, len, truncated)

/-- The VLAN tag in front of the inner ethertype, if there is one: the ethertype behind it, and the
offset behind the Ethernet header. -/
def innerVlan (base innerLen innerEthertype innerL3Off : ℕ) :
    TracedReader ParseError (ℕ × ℕ) :=
  if innerEthertype = 0x8100 then do
    failIf (innerLen < (← offset (innerL3Off + 4))) .innerL3Truncated
    let innerEthertype ← readU16 (base + innerL3Off + 2)
    let innerL3Off ← offset (innerL3Off + 4)
    return (innerEthertype, innerL3Off)
  else pure (innerEthertype, innerL3Off)

/-- The inner IPv4 header. -/
def innerIpv4 (base innerL3Off innerLen : ℕ) (out : ParsedPacket) :
    TracedReader ParseError ParsedPacket := do
  failIf (innerLen < (← offset (innerL3Off + 20))) .innerL3Truncated
  let innerIpProto ← readByte (base + (← offset (innerL3Off + 9)))
  let out := { out with innerAf := .v4, innerIpProto := innerIpProto }
  let innerIhl := (← readByte (base + innerL3Off)) &&& 0x0F
  if innerIhl < 5 then
    -- malformed header: no ports
    pure { out with flowKeyPartial := true }
  else do
    let innerIpHdrLen ← offset (innerIhl.toNat * 4)
    let innerL4Off ← offset (innerL3Off + innerIpHdrLen)
    extractInnerL4 base innerL4Off innerLen innerIpProto out

/-- The inner IPv6 header. -/
def innerIpv6 (base innerL3Off innerLen : ℕ) (out : ParsedPacket) :
    TracedReader ParseError ParsedPacket := do
  failIf (innerLen < (← offset (innerL3Off + 40))) .innerL3Truncated
  let innerIpProto ← readByte (base + (← offset (innerL3Off + 6)))
  let out := { out with innerAf := .v6, innerIpProto := innerIpProto }
  let innerL4Off ← offset (innerL3Off + 40)
  extractInnerL4 base innerL4Off innerLen innerIpProto out

/-- The inner Ethernet and IP headers of the frame at index `base`. -/
def innerFrame (base innerLen : ℕ) (out : ParsedPacket) :
    TracedReader ParseError ParsedPacket := do
  failIf (innerLen < 14) .innerEthTruncated
  let (innerEthertype, innerL3Off) ← innerVlan base innerLen (← readU16 (base + 12)) 14
  if innerEthertype = 0x0800 then innerIpv4 base innerL3Off innerLen out
  else if innerEthertype = 0x86DD then innerIpv6 base innerL3Off innerLen out
  else
    -- not IP: accepted without a flow key
    pure { out with flowKeyPartial := true }

/-! ### The parser -/

/-- `infmon_parse_erspan`. -/
def parseErspan (len : ℕ) : TracedReader ParseError (ParseOk × ParsedPacket) := do
  let (ethertype, off) ← outerEthernet len
  let l3 ← outerL3 len ethertype off
  let (greLen, off) ← gre len l3.off
  let (erspanHdrLen, off) ← erspan len off
  let overheadAfterIp ← offset (greLen + erspanHdrLen)
  let declaredInnerLen ← excess l3.payloadLen overheadAfterIp
  let actualInnerLen ← excess len off
  -- the outer header declares no frame, but bytes follow
  failIf (declaredInnerLen = 0 ∧ actualInnerLen > 0) .outerTruncated
  -- padding behind the declared length does not belong to the frame
  let innerLen :=
    if declaredInnerLen > 0 ∧ declaredInnerLen < actualInnerLen then declaredInnerLen
    else actualInnerLen
  let truncated := decide (innerLen < declaredInnerLen)
  -- no inner encapsulation is unwrapped in this version
  match innerDecap .none off innerLen truncated with
  | none => fail .innerDoubleEncapDropped
  | some (innerPtr, innerLen, truncated) => do
    let out ← innerFrame innerPtr innerLen (.start l3.mirrorSrcIp)
    let out := { out with
      innerPtr := innerPtr
      innerLen := innerLen
      innerTruncated := truncated }
    return (if truncated then .innerTruncatedOk else .ok, out)

end InFMon
