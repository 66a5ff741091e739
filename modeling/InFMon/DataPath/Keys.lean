import InFMon.DataPath.Nodes
import InFMon.FlowRule.Codec
import InFMon.Parser.Accept
import InFMon.Parser.Bounds

/-! # The keys of packets

What the two nodes make of an accepted packet: every field of the frame and the mirror's address reach
the key, the ports that the parser has found do not. -/

namespace InFMon

open TracedReader MachineWord ByteMemory

/-! ### Fields of a frame -/

/-- The byte at index `i` of the IP header of a frame. -/
def l3Byte (f : List UInt8) (i : ℕ) : UInt8 := byteAt f (innerL3 f + i)

/-- The `n` bytes at index `i` of the IP header of a frame. -/
def l3Bytes (f : List UInt8) (i n : ℕ) : List UInt8 := (f.drop (innerL3 f + i)).take n

/-- A frame that carries IP. -/
def IsIpFrame (f : List UInt8) : Prop := innerEthertype f = 0x0800 ∨ innerEthertype f = 0x86DD

/-- The fields of a frame that carries IP, apart from the ports, with the mirror's address. -/
def frameFields (mirrorSrcIp : MirrorSrcIp) (f : List UInt8) : FlowFields :=
  if innerEthertype f = 0x0800 then
    { FlowFields.zero with
      mirrorSrcIp := mirrorSrcIp.normalised
      ipProto := l3Byte f 9
      dscp := l3Byte f 1 >>> 2 &&& 0x3F
      srcIp := .v4Mapped (l3Bytes f 12 4)
      dstIp := .v4Mapped (l3Bytes f 16 4) }
  else
    { FlowFields.zero with
      mirrorSrcIp := mirrorSrcIp.normalised
      ipProto := l3Byte f 6
      dscp := trafficClass (l3Byte f 0) (l3Byte f 1) >>> 2 &&& 0x3F
      srcIp := .ofBytes (l3Bytes f 8 16)
      dstIp := .ofBytes (l3Bytes f 24 16) }

variable {m : ByteMemory} {n : ℕ}

/-! ### The extractor -/

/-- A byte behind the inner IP header, in the packet. -/
theorem l3Byte_at {base i : ℕ} (h : innerL3 (m.read base n) + i < n) :
    l3Byte (m.read base n) i = m (base + (innerL3 (m.read base n) + i)) := by
  rw [l3Byte, byteAt_read h]

/-- Bytes behind the inner IP header, in the packet. -/
theorem l3Bytes_at {base i k : ℕ} (h : innerL3 (m.read base n) + i + k ≤ n) :
    l3Bytes (m.read base n) i k = m.read (base + (innerL3 (m.read base n) + i)) k := by
  rw [l3Bytes, take_drop_read m base h]

/-- A byte behind the inner IP header, in the frame. -/
theorem l3Byte_read {i : ℕ} (h : innerL3 (m.read 0 n) + i < n) :
    l3Byte (m.read 0 n) i = m (innerL3 (m.read 0 n) + i) := by
  rw [l3Byte_at h, Nat.zero_add]

/-- Bytes behind the inner IP header, in the frame. -/
theorem l3Bytes_read {i k : ℕ} (h : innerL3 (m.read 0 n) + i + k ≤ n) :
    l3Bytes (m.read 0 n) i k = m.read (innerL3 (m.read 0 n) + i) k := by
  rw [l3Bytes_at h, Nat.zero_add]

/-- Where the extractor looks for the IP header. -/
theorem result_flowL3Off (hframe : IsInner (m.read 0 n)) (hip : IsIpFrame (m.read 0 n)) :
    (flowL3Off n).result m = .ok (innerL3 (m.read 0 n)) := by
  have hn : 14 ≤ n := by simpa using hframe.ethernet
  have htag : innerL3 (m.read 0 n) ≤ n := by simpa using hframe.tag
  have htype := innerEthertype_read hn htag
  have hl3 : innerL3 (m.read 0 n) = _ := innerL3_read hn
  rw [Nat.zero_add] at htype hl3
  unfold flowL3Off
  rw [if_pos hn, hl3]
  rw [result_bind_eq_ok_iff]
  refine ⟨_, result_readU16 12, ?_⟩
  by_cases hvlan : be16 (m 12) (m (12 + 1)) = 0x8100
  · rw [if_pos hvlan, if_pos hvlan]
    rfl
  · rw [if_neg hvlan] at htype
    rw [if_neg hvlan, if_neg hvlan, result_bind_eq_ok_iff]
    refine ⟨(), ?_, rfl⟩
    rw [result_failIf_eq_ok_iff, ← htype]
    unfold IsIpFrame at hip
    omega

/-- The ethertype that the extractor looks at. -/
theorem innerEthertype_eq_be16 (hn : 14 ≤ n) (htag : innerL3 (m.read 0 n) ≤ n) :
    be16 (m (if innerL3 (m.read 0 n) = 14 then 12 else 16))
      (m ((if innerL3 (m.read 0 n) = 14 then 12 else 16) + 1)) = innerEthertype (m.read 0 n) := by
  rw [innerEthertype_read hn htag, innerL3_read hn]
  simp only [Nat.zero_add]
  by_cases hvlan : be16 (m 12) (m (12 + 1)) = 0x8100
  · simp [hvlan]
  · simp [hvlan]

/-- The fields of an IPv4 frame. -/
theorem result_flowIpv4 {l3 : ℕ} (hl3 : innerL3 (m.read 0 n) = l3) (hlen : l3 + 20 ≤ n)
    (out : FlowFields) : (flowIpv4 n l3 out).result m =
      .ok { out with
        ipProto := l3Byte (m.read 0 n) 9
        dscp := l3Byte (m.read 0 n) 1 >>> 2 &&& 0x3F
        srcIp := .v4Mapped (l3Bytes (m.read 0 n) 12 4)
        dstIp := .v4Mapped (l3Bytes (m.read 0 n) 16 4) } := by
  have hle := innerL3_le (m.read 0 n)
  rw [l3Byte_read (by omega), l3Byte_read (by omega), l3Bytes_read (by omega),
    l3Bytes_read (by omega), hl3]
  simp only [flowIpv4, result_bind_eq_ok_iff, result_failIf_eq_ok_iff, exists_const, result_offset,
    result_readByte, result_readBytes, Except.ok.injEq, exists_eq_left', result_pure]
  rw [u32_of_small (n := l3 + 20) (by omega), u32_of_small (n := l3 + 9) (by omega),
    u32_of_small (n := l3 + 1) (by omega)]
  exact ⟨Nat.not_lt.mpr hlen, rfl⟩

/-- The fields of an IPv6 frame. -/
theorem result_flowIpv6 {l3 : ℕ} (hl3 : innerL3 (m.read 0 n) = l3) (hlen : l3 + 40 ≤ n)
    (out : FlowFields) : (flowIpv6 n l3 out).result m =
      .ok { out with
        ipProto := l3Byte (m.read 0 n) 6
        dscp := trafficClass (l3Byte (m.read 0 n) 0) (l3Byte (m.read 0 n) 1) >>> 2 &&& 0x3F
        srcIp := .ofBytes (l3Bytes (m.read 0 n) 8 16)
        dstIp := .ofBytes (l3Bytes (m.read 0 n) 24 16) } := by
  have hle := innerL3_le (m.read 0 n)
  rw [l3Byte_read (by omega), l3Byte_read (by omega), l3Byte_read (by omega),
    l3Bytes_read (by omega), l3Bytes_read (by omega), hl3]
  simp only [flowIpv6, result_bind_eq_ok_iff, result_failIf_eq_ok_iff, exists_const, result_offset,
    result_readByte, result_readBytes, Except.ok.injEq, exists_eq_left', result_pure]
  rw [u32_of_small (n := l3 + 40) (by omega), u32_of_small (n := l3 + 6) (by omega),
    u32_of_small (n := l3 + 1) (by omega)]
  exact ⟨Nat.not_lt.mpr hlen, rfl⟩

/-- The extractor succeeds on a frame that carries IP, and finds every field but the ports. -/
theorem result_extractFlowFields (hframe : IsInner (m.read 0 n)) (hip : IsIpFrame (m.read 0 n))
    (parsed : ParsedPacket) : (extractFlowFields parsed n).result m =
      .ok (frameFields parsed.mirrorSrcIp (m.read 0 n)) := by
  have hn : 14 ≤ n := by simpa using hframe.ethernet
  have htag : innerL3 (m.read 0 n) ≤ n := by simpa using hframe.tag
  have hle := innerL3_le (m.read 0 n)
  have hipv4 := hframe.ipv4
  have hipv6 := hframe.ipv6
  rw [length_read] at hipv4 hipv6
  have hroom : innerL3 (m.read 0 n) + 1 ≤ n := by
    rcases hip with htype | htype
    · have := hipv4 htype
      omega
    · have := hipv6 htype
      omega
  unfold extractFlowFields
  rw [result_bind_eq_ok_iff]
  refine ⟨_, result_flowL3Off hframe hip, ?_⟩
  simp only [result_bind_eq_ok_iff, result_failIf_eq_ok_iff, exists_const, result_offset,
    result_readU16, Except.ok.injEq, exists_eq_left', result_ite]
  rw [u32_of_small (by omega), innerEthertype_eq_be16 hn htag]
  refine ⟨Nat.not_lt.mpr hroom, ?_⟩
  unfold frameFields
  rcases hip with htype | htype
  · rw [if_pos htype, if_pos htype]
    exact result_flowIpv4 rfl (hipv4 htype) _
  · rw [if_neg (by omega), if_pos htype, if_neg (by omega)]
    exact result_flowIpv6 rfl (hipv6 htype) _

/-! ### From the buffer to the fields -/

/-- The frame of an accepted packet, at the place where the parser found it. -/
def frameOf (b : Buffer) (parsed : ParsedPacket) : List UInt8 :=
  b.current.read parsed.innerPtr parsed.innerLen

/-- The buffer holds an accepted packet with an IP frame, of which the parser says `parsed`. -/
structure IsIpPacket (b : Buffer) (parsed : ParsedPacket) : Prop where
  accepted : ∃ rc, (parseErspan b.currentLength.toNat).result b.current = .ok (rc, parsed)
  ip : IsIpFrame (frameOf b parsed)

/-- Reading from a later start. -/
theorem read_shift (m : ByteMemory) (base off n : ℕ) :
    (m.shift base).read off n = m.read (base + off) n := by
  unfold ByteMemory.read ByteMemory.shift
  simp only [Nat.add_assoc]

/-- The two nodes find every field of an accepted packet but its ports. -/
theorem IsIpPacket.flowFields_eq {b : Buffer} {parsed : ParsedPacket} (h : IsIpPacket b parsed) :
    ∃ b', decapBuffer b = .ok b' ∧
      flowFields b' = .ok (frameFields parsed.mirrorSrcIp (frameOf b parsed)) := by
  obtain ⟨⟨rc, hparse⟩, hip⟩ := h
  have hlt := b.currentLength.toNat_lt
  have hlen : b.currentLength.toNat ≤ max32 := by
    simp only [max32]
    omega
  obtain ⟨hptr, hslice⟩ := (spec_parseErspan hlen).2 _ hparse
  simp only at hptr hslice
  have hdecap : (erspanDecap b.currentLength.toNat).result b.current =
      .ok ⟨rc, parsed, parsed.innerPtr, parsed.innerLen⟩ := by
    simp only [erspanDecap, result_bind_eq_ok_iff, hparse, Except.ok.injEq, exists_eq_left',
      result_offset, result_pure]
    rw [u32_of_small (by omega)]
  obtain ⟨ip, inner, hinner, -, -⟩ := innerFrame_of_parseErspan hparse
  have hframe : IsInner (frameOf b parsed) := isInner_of_innerFrame hinner
  have hmem : (b.data.shift (b.currentData + parsed.innerPtr)).read 0 parsed.innerLen =
      frameOf b parsed := by
    rw [read_shift, frameOf, Buffer.current, read_shift, Nat.add_zero]
  refine ⟨_, by rw [decapBuffer, hdecap], ?_⟩
  have hround : (UInt16.ofNat parsed.innerLen).toNat = parsed.innerLen :=
    UInt16.toNat_ofNat_of_lt' (Nat.lt_of_le_of_lt (by omega) hlt)
  rw [flowFields, Buffer.current]
  simp only
  rw [hround, ← hmem]
  rw [← hmem] at hframe hip
  exact result_extractFlowFields hframe hip _

/-! ### Keys of packets -/

/-- A port of a packet: what the parser found, or zero. -/
def packetPort (parsed : ParsedPacket) (port : ℕ) : ℕ :=
  if parsed.validFields &&& validPorts ≠ 0 then port else 0

/-- Two packets agree on a field. -/
def PacketsAgree (b : Buffer) (parsed : ParsedPacket) (b' : Buffer) (parsed' : ParsedPacket) :
    ℕ → Prop
  | 5 => packetPort parsed parsed.srcPort = packetPort parsed' parsed'.srcPort
  | 6 => packetPort parsed parsed.dstPort = packetPort parsed' parsed'.dstPort
  | field => (frameFields parsed.mirrorSrcIp (frameOf b parsed)).Agree
      (frameFields parsed'.mirrorSrcIp (frameOf b' parsed')) field

/-- The ports are not among the fields that the frame is decoded for. -/
theorem frameFields_ports (mirrorSrcIp : MirrorSrcIp) (f : List UInt8) :
    (frameFields mirrorSrcIp f).srcPort = 0 ∧ (frameFields mirrorSrcIp f).dstPort = 0 := by
  unfold frameFields
  split
  · exact ⟨rfl, rfl⟩
  · exact ⟨rfl, rfl⟩

/-- The key that the flow-match node makes of a packet for a rule. -/
def packetKey (b : Buffer) (rule : FlowRule) : Option (List UInt8) :=
  match decapBuffer b with
  | .error _ => none
  | .ok b =>
    match flowFields b with
    | .error _ => none
    | .ok fields => some ((encodeKey rule fields fun _ => 0).read 0 (flowRuleKeyWidth rule.fields))

/-- The key of a packet, from the fields the nodes find. -/
theorem packetKey_eq {b : Buffer} {parsed : ParsedPacket} (h : IsIpPacket b parsed)
    {rule : FlowRule} (hrule : flowRuleValidate rule = .ok) : packetKey b rule =
      some (keyBytes (frameFields parsed.mirrorSrcIp (frameOf b parsed)) rule.fields) := by
  obtain ⟨b', hdecap, hfields⟩ := h.flowFields_eq
  unfold packetKey
  rw [hdecap]
  simp only
  rw [hfields]
  simp only
  rw [read_encodeKey _ _ hrule]

/-- Two packets have the same key exactly when they agree on the listed fields that are not ports. -/
theorem packetKey_eq_iff {b b' : Buffer} {parsed parsed' : ParsedPacket} (h : IsIpPacket b parsed)
    (h' : IsIpPacket b' parsed') {rule : FlowRule} (hrule : flowRuleValidate rule = .ok) :
    packetKey b rule = packetKey b' rule ↔
      ∀ f ∈ rule.fields, f ≠ 5 → f ≠ 6 → PacketsAgree b parsed b' parsed' f := by
  obtain ⟨hfields, -, -⟩ := FlowRule.fields_of_valid hrule
  rw [packetKey_eq h hrule, packetKey_eq h' hrule, Option.some.injEq, keyBytes_eq_iff _ _ hfields]
  have hports := frameFields_ports parsed.mirrorSrcIp (frameOf b parsed)
  have hports' := frameFields_ports parsed'.mirrorSrcIp (frameOf b' parsed')
  have hfield : ∀ f, fieldBytes (frameFields parsed.mirrorSrcIp (frameOf b parsed)) f =
      fieldBytes (frameFields parsed'.mirrorSrcIp (frameOf b' parsed')) f ↔
        (f ≠ 5 → f ≠ 6 → PacketsAgree b parsed b' parsed' f) := by
    intro f
    rw [fieldBytes_eq_iff]
    by_cases h5 : f = 5
    · subst h5
      simp [FlowFields.Agree, hports, hports']
    · by_cases h6 : f = 6
      · subst h6
        simp [FlowFields.Agree, hports, hports']
      · rw [PacketsAgree]
        · simp [h5, h6]
        · exact h5
        · exact h6
  simp only [hfield]

/-- The nodes keep the ports of a packet exactly when there are none to keep, and the keys of two
packets tell them apart as the rule demands exactly when the ports it lists play no part in it. -/
theorem keys_faithful_iff (b : Buffer) (parsed : ParsedPacket) (h : IsIpPacket b parsed) :
    (∃ b' fields, decapBuffer b = .ok b' ∧ flowFields b' = .ok fields ∧
      ((fields.srcPort.toNat = packetPort parsed parsed.srcPort ∧
          fields.dstPort.toNat = packetPort parsed parsed.dstPort) ↔
        (parsed.validFields &&& validPorts ≠ 0 → parsed.srcPort = 0 ∧ parsed.dstPort = 0))) ∧
    ∀ (b' : Buffer) (parsed' : ParsedPacket) (rule : FlowRule), IsIpPacket b' parsed' →
      flowRuleValidate rule = .ok →
      ((packetKey b rule = packetKey b' rule ↔
          ∀ f ∈ rule.fields, PacketsAgree b parsed b' parsed' f) ↔
        (∀ f ∈ rule.fields, f = 5 ∨ f = 6 → PacketsAgree b parsed b' parsed' f) ∨
          ∃ f ∈ rule.fields, f ≠ 5 ∧ f ≠ 6 ∧ ¬ PacketsAgree b parsed b' parsed' f) := by
  constructor
  · obtain ⟨b', hdecap, hfields⟩ := h.flowFields_eq
    refine ⟨b', _, hdecap, hfields, ?_⟩
    obtain ⟨hsrc, hdst⟩ := frameFields_ports parsed.mirrorSrcIp (frameOf b parsed)
    rw [hsrc, hdst, packetPort, packetPort]
    by_cases hvalid : parsed.validFields &&& validPorts ≠ 0
    · rw [if_pos hvalid, if_pos hvalid]
      constructor
      · rintro ⟨h₁, h₂⟩ -
        exact ⟨h₁.symm, h₂.symm⟩
      · intro hzero
        exact ⟨(hzero hvalid).1.symm, (hzero hvalid).2.symm⟩
    · rw [if_neg hvalid, if_neg hvalid]
      exact ⟨fun _ hv => absurd hv hvalid, fun _ => ⟨rfl, rfl⟩⟩
  · intro b' parsed' rule h' hrule
    -- the ports of the packet are not in its key, so equal keys say nothing of them
    rw [packetKey_eq_iff h h' hrule]
    constructor
    · intro hiff
      by_cases hothers : ∀ f ∈ rule.fields, f ≠ 5 → f ≠ 6 → PacketsAgree b parsed b' parsed' f
      · exact Or.inl fun f hf _ => hiff.mp hothers f hf
      · push Not at hothers
        exact Or.inr hothers
    · rintro (hports | ⟨f, hf, h5, h6, hdiffer⟩)
      · constructor
        · intro hothers f hf
          by_cases hport : f = 5 ∨ f = 6
          · exact hports f hf hport
          · rw [not_or] at hport
            exact hothers f hf hport.1 hport.2
        · exact fun hall f hf _ _ => hall f hf
      · constructor
        · exact fun hothers => absurd (hothers f hf h5 h6) hdiffer
        · exact fun hall => absurd (hall f hf) hdiffer

/-- An accepted packet with a UDP frame from port `256 * hi + lo` to port 53. -/
def udpPacket (hi lo : UInt8) : Buffer where
  data := fun i =>
    -- Ethernet, IPv4 with protocol GRE, GRE, ERSPAN III
    ([0, 0, 0, 0, 0, 0, 0, 0, 0, 0, 0, 0, 0x08, 0x00] ++
      [0x45, 0, 0, 74, 0, 0, 0, 0, 64, 47, 0, 0, 192, 0, 2, 1, 192, 0, 2, 2] ++
      [0, 0, 0x22, 0xEB] ++ [0x20, 0, 0, 0, 0, 0, 0, 0, 0, 0, 0, 0] ++
      -- the frame: Ethernet, IPv4 with protocol UDP, ports
      [0, 0, 0, 0, 0, 0, 0, 0, 0, 0, 0, 0, 0x08, 0x00] ++
      [0x45, 0, 0, 24, 0, 0, 0, 0, 64, 17, 0, 0, 10, 0, 0, 1, 10, 0, 0, 2] ++
      [hi, lo, 0, 53]).getD i 0
  currentData := 0
  currentLength := 88
  mirrorSrcIp := ⟨.v4, []⟩

/-- A rule that lists the source port. -/
def srcPortRule : FlowRule := ⟨[0x61, 0x62], [5], 8, 0, 2⟩

/-- What the parser says of such a packet. -/
def udpParsed (srcPort : ℕ) : ParsedPacket where
  innerPtr := 50
  innerLen := 38
  innerTruncated := false
  mirrorSrcIp := ⟨.v4, [192, 0, 2, 1]⟩
  validFields := validPorts
  srcPort := srcPort
  dstPort := 53
  tcpFlags := 0
  tcpSeq := 0
  tcpAck := 0
  tcpWindow := 0
  flowKeyPartial := false
  innerIpProto := 17
  innerAf := .v4

/-- Two packets that differ in their source port have the same key. -/
theorem ports_lost :
    (parseErspan 88).result (udpPacket 0x30 0x39).current = .ok (.ok, udpParsed 12345) ∧
    (parseErspan 88).result (udpPacket 0x30 0x3A).current = .ok (.ok, udpParsed 12346) ∧
    flowRuleValidate srcPortRule = .ok ∧
    packetKey (udpPacket 0x30 0x39) srcPortRule = some [0, 0] ∧
    packetKey (udpPacket 0x30 0x3A) srcPortRule = some [0, 0] := by
  decide +kernel

/-- Both equivalences on packets whose ports are lost. -/
theorem keys_faithful_iff_udp :
    (∃ b' fields, decapBuffer (udpPacket 0x30 0x39) = .ok b' ∧ flowFields b' = .ok fields ∧
      ((fields.srcPort.toNat = packetPort (udpParsed 12345) 12345 ∧
          fields.dstPort.toNat = packetPort (udpParsed 12345) 53) ↔
        ((udpParsed 12345).validFields &&& validPorts ≠ 0 →
          (udpParsed 12345).srcPort = 0 ∧ (udpParsed 12345).dstPort = 0))) ∧
    ((packetKey (udpPacket 0x30 0x39) srcPortRule = packetKey (udpPacket 0x30 0x3A) srcPortRule ↔
        ∀ f ∈ srcPortRule.fields, PacketsAgree (udpPacket 0x30 0x39) (udpParsed 12345)
          (udpPacket 0x30 0x3A) (udpParsed 12346) f) ↔
      (∀ f ∈ srcPortRule.fields, f = 5 ∨ f = 6 → PacketsAgree (udpPacket 0x30 0x39)
        (udpParsed 12345) (udpPacket 0x30 0x3A) (udpParsed 12346) f) ∨
      ∃ f ∈ srcPortRule.fields, f ≠ 5 ∧ f ≠ 6 ∧ ¬ PacketsAgree (udpPacket 0x30 0x39)
        (udpParsed 12345) (udpPacket 0x30 0x3A) (udpParsed 12346) f) :=
  have h : IsIpPacket (udpPacket 0x30 0x39) (udpParsed 12345) :=
    ⟨⟨.ok, by decide +kernel⟩, Or.inl (by decide +kernel)⟩
  have h' : IsIpPacket (udpPacket 0x30 0x3A) (udpParsed 12346) :=
    ⟨⟨.ok, by decide +kernel⟩, Or.inl (by decide +kernel)⟩
  ⟨(keys_faithful_iff _ _ h).1, (keys_faithful_iff _ _ h).2 _ _ srcPortRule h' (by decide +kernel)⟩

end InFMon
