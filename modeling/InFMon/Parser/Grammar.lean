import InFMon.Foundations.TracedReader

/-! # Mirrored packets

What a mirrored packet looks like: an Ethernet header, an IPv4 or IPv6 header with its extension
headers, a GRE header, an ERSPAN III header and the mirrored frame, one behind the other. Every header
is a list of bytes with conditions on it. Nothing here mentions the parser. -/

namespace InFMon

/-! ### Fields of a header -/

/-- The byte at index `i` of a header. -/
def byteAt (h : List UInt8) (i : ℕ) : UInt8 := h.getD i 0

/-- The 16-bit field at index `i` of a header. -/
def fieldAt (h : List UInt8) (i : ℕ) : ℕ := be16 (byteAt h i) (byteAt h (i + 1))

/-! ### Headers -/

/-- An Ethernet header with at most one VLAN tag in front of its ethertype. -/
inductive IsEthernet (h : List UInt8) (ethertype : ℕ) : Prop
  | untagged (hlength : h.length = 14) (htype : fieldAt h 12 = ethertype)
  | tagged (hlength : h.length = 18) (htag : fieldAt h 12 = 0x8100) (htype : fieldAt h 16 = ethertype)

/-- An IPv4 header that announces GRE. -/
structure IsIpv4 (h : List UInt8) : Prop where
  version : byteAt h 0 >>> 4 = 4
  ihl : 5 ≤ byteAt h 0 &&& 0x0F
  length : h.length = (byteAt h 0 &&& 0x0F).toNat * 4
  protocol : byteAt h 9 = 47
  totalLength : h.length ≤ fieldAt h 2

/-- A hop-by-hop (0) or destination options (60) header, of the length it gives itself. -/
structure IsIpv6Ext (type : UInt8) (h : List UInt8) : Prop where
  type : type = 0 ∨ type = 60
  length : h.length = ((byteAt h 1).toNat + 1) * 8

/-- The extension headers behind a header that announces `next`, the last of them announcing GRE. -/
inductive IsIpv6Chain : UInt8 → List (List UInt8) → Prop
  | gre : IsIpv6Chain 47 []
  | ext {next : UInt8} {h : List UInt8} {hs : List (List UInt8)} (head : IsIpv6Ext next h)
      (tail : IsIpv6Chain (byteAt h 0) hs) : IsIpv6Chain next (h :: hs)

/-- An IPv6 header with at most eight extension headers, that announces GRE. -/
structure IsIpv6 (h : List UInt8) (exts : List (List UInt8)) : Prop where
  version : byteAt h 0 >>> 4 = 6
  length : h.length = 40
  count : exts.length ≤ 8
  chain : IsIpv6Chain (byteAt h 6) exts

/-- A GRE header of version 0 for ERSPAN III, with a sequence number if the flag `S` is set and
without any other flag. -/
structure IsGre (h : List UInt8) : Prop where
  flags : fieldAt h 0 = 0 ∨ fieldAt h 0 = 0x1000
  protocol : fieldAt h 2 = 0x22EB
  length : h.length = if fieldAt h 0 = 0x1000 then 8 else 4

/-- An ERSPAN III header, with a platform sub-header if the `O` bit is set. -/
structure IsErspan (h : List UInt8) : Prop where
  version : byteAt h 0 >>> 4 = 2
  length : h.length = if byteAt h 11 &&& 1 = 1 then 20 else 12

/-- Where the IP header of a frame begins: behind at most one VLAN tag. -/
def innerL3 (f : List UInt8) : ℕ := if fieldAt f 12 = 0x8100 then 18 else 14

/-- The ethertype of a frame, behind at most one VLAN tag. -/
def innerEthertype (f : List UInt8) : ℕ := fieldAt f (innerL3 f - 2)

/-- A frame long enough for its Ethernet header and for the IP header that it announces, if any. -/
structure IsInner (f : List UInt8) : Prop where
  ethernet : 14 ≤ f.length
  tag : innerL3 f ≤ f.length
  ipv4 : innerEthertype f = 0x0800 → innerL3 f + 20 ≤ f.length
  ipv6 : innerEthertype f = 0x86DD → innerL3 f + 40 ≤ f.length

/-! ### The packet -/

/-- The outer IP layer. -/
inductive OuterIp where
  | v4 (header : List UInt8)
  | v6 (header : List UInt8) (exts : List (List UInt8))

namespace OuterIp

/-- The ethertype that announces the layer. -/
def ethertype : OuterIp → ℕ
  | .v4 _ => 0x0800
  | .v6 _ _ => 0x86DD

/-- The bytes of the layer. -/
def bytes : OuterIp → List UInt8
  | .v4 header => header
  | .v6 header exts => header ++ exts.flatten

/-- The layer is well formed. -/
def Valid : OuterIp → Prop
  | .v4 header => IsIpv4 header
  | .v6 header exts => IsIpv6 header exts

/-- The source address. -/
def source : OuterIp → List UInt8
  | .v4 header => (header.drop 12).take 4
  | .v6 header _ => (header.drop 8).take 16

/-- The number of bytes that the layer declares behind itself. -/
def payloadLength : OuterIp → ℕ
  | .v4 header => fieldAt header 2 - header.length
  | .v6 header exts => fieldAt header 4 - exts.flatten.length

end OuterIp

/-- A mirrored packet, with all bytes of the buffer behind the ERSPAN header as its frame. -/
structure MirroredPacket where
  ethernet : List UInt8
  ip : OuterIp
  gre : List UInt8
  erspan : List UInt8
  frame : List UInt8

namespace MirroredPacket

/-- The headers in front of the mirrored frame. -/
def headers (p : MirroredPacket) : List UInt8 := p.ethernet ++ (p.ip.bytes ++ (p.gre ++ p.erspan))

/-- The bytes of the packet. -/
def bytes (p : MirroredPacket) : List UInt8 := p.headers ++ p.frame

/-- The declared length of the mirrored frame. -/
def declared (p : MirroredPacket) : ℕ := p.ip.payloadLength - (p.gre.length + p.erspan.length)

/-- The part of the mirrored frame that is there. -/
def inner (p : MirroredPacket) : List UInt8 := p.frame.take p.declared

/-- Every header is well formed, the frame has a declared length, and enough of it is there. -/
structure Valid (p : MirroredPacket) : Prop where
  ethernet : IsEthernet p.ethernet p.ip.ethertype
  ip : p.ip.Valid
  gre : IsGre p.gre
  erspan : IsErspan p.erspan
  declared : 0 < p.declared
  inner : IsInner p.inner

end MirroredPacket

end InFMon
