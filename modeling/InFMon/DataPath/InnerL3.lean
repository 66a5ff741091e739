import InFMon.DataPath.Keys

/-! # The inner IP header, read twice

The parser and the extractor of the flow fields each look for the IP header of the mirrored frame, with
tests of their own for tags and lengths. On every accepted packet they find the same one, or none. -/

namespace InFMon

open TracedReader MachineWord ByteMemory

variable {m : ByteMemory}

/-! ### What the parser keeps -/

/-- The run keeps what the record says of the inner IP header. -/
def KeepsL3 (x : TracedReader ParseError ParsedPacket) (m : ByteMemory) (out : ParsedPacket) : Prop :=
  ∀ out', x.result m = .ok out' → out'.innerAf = out.innerAf ∧ out'.innerIpProto = out.innerIpProto

/-- What is read already keeps the inner IP header. -/
theorem keepsL3_pure {out out' : ParsedPacket} (haf : out'.innerAf = out.innerAf)
    (hproto : out'.innerIpProto = out.innerIpProto) : KeepsL3 (pure out') m out := by
  intro out'' h
  obtain rfl : out' = out'' := by simpa using h
  exact ⟨haf, hproto⟩

/-- One field after another. -/
theorem KeepsL3.bind {x : TracedReader ParseError ParsedPacket}
    {f : ParsedPacket → TracedReader ParseError ParsedPacket} {out : ParsedPacket}
    (hx : KeepsL3 x m out) (hf : ∀ out', KeepsL3 (f out') m out') : KeepsL3 (x >>= f) m out := by
  intro out'' h
  obtain ⟨out', hout', hrest⟩ := result_bind_eq_ok_iff.mp h
  obtain ⟨haf, hproto⟩ := hx out' hout'
  obtain ⟨haf', hproto'⟩ := hf out' out'' hrest
  exact ⟨haf'.trans haf, hproto'.trans hproto⟩

/-- A field that needs no more than reads. -/
theorem KeepsL3.bind_read {α : Type} {x : TracedReader ParseError α}
    {f : α → TracedReader ParseError ParsedPacket} {out : ParsedPacket}
    (hf : ∀ a, KeepsL3 (f a) m out) : KeepsL3 (x >>= f) m out := by
  intro out' h
  obtain ⟨a, -, hrest⟩ := result_bind_eq_ok_iff.mp h
  exact hf a out' hrest

/-- The inner IP header is the same whether a field is there or not. -/
theorem keepsL3_ifReaches {innerLen need : ℕ} {field other : TracedReader ParseError ParsedPacket}
    {out : ParsedPacket} (hfield : KeepsL3 field m out) (hother : KeepsL3 other m out) :
    KeepsL3 (ifReaches innerLen need field other) m out := by
  unfold ifReaches
  refine .bind_read fun n => ?_
  split
  · exact hfield
  · exact hother

/-- Reading TCP keeps the inner IP header. -/
theorem keepsL3_extractTcp (base innerL4Off innerLen : ℕ) (out : ParsedPacket) :
    KeepsL3 (extractTcp base innerL4Off innerLen out) m out := by
  have hsame (out : ParsedPacket) : KeepsL3 (pure out) m out := keepsL3_pure rfl rfl
  unfold extractTcp
  refine KeepsL3.bind (keepsL3_ifReaches ?_ (hsame out)) fun out => ?_
  · exact .bind_read fun _ => keepsL3_pure rfl rfl
  refine KeepsL3.bind (keepsL3_ifReaches ?_ (hsame out)) fun out => ?_
  · exact .bind_read fun _ => keepsL3_pure rfl rfl
  refine KeepsL3.bind (keepsL3_ifReaches ?_ (hsame out)) fun out => ?_
  · exact .bind_read fun _ => .bind_read fun _ => keepsL3_pure rfl rfl
  refine keepsL3_ifReaches ?_ (hsame out)
  exact .bind_read fun _ => keepsL3_pure rfl rfl

/-- Reading the transport header keeps the inner IP header. -/
theorem keepsL3_extractInnerL4 (base innerL4Off innerLen : ℕ) (innerIpProto : UInt8)
    (out : ParsedPacket) :
    KeepsL3 (extractInnerL4 base innerL4Off innerLen innerIpProto out) m out := by
  unfold extractInnerL4
  split
  · refine KeepsL3.bind (keepsL3_ifReaches ?_ (keepsL3_pure rfl rfl)) fun out => ?_
    · exact .bind_read fun _ => .bind_read fun _ => keepsL3_pure rfl rfl
    · split
      · exact keepsL3_extractTcp base innerL4Off innerLen out
      · exact keepsL3_pure rfl rfl
  · exact keepsL3_pure rfl rfl

/-! ### The parser's classification -/

/-- What the parser takes a frame for, with the offset of its IP header. -/
def innerClass (base innerLen : ℕ) : TracedReader ParseError (Option (Af × ℕ)) := do
  let (innerEthertype, innerL3Off) ← innerVlan base innerLen (← readU16 (base + 12)) 14
  if innerEthertype = 0x0800 then return some (.v4, innerL3Off)
  else if innerEthertype = 0x86DD then return some (.v6, innerL3Off)
  else return none

/-- What a frame is by its first bytes. -/
def frameClass (f : List UInt8) : Option (Af × ℕ) :=
  if innerEthertype f = 0x0800 then some (.v4, innerL3 f)
  else if innerEthertype f = 0x86DD then some (.v6, innerL3 f)
  else none

/-- The class of the inner frame is read from its bytes. -/
theorem result_innerClass {base n : ℕ} (hn : 14 ≤ n) (htag : innerL3 (m.read base n) ≤ n) :
    (innerClass base n).result m = .ok (frameClass (m.read base n)) := by
  have hvlan := (innerVlan_eq_ok_iff (m := m) hn).mpr ⟨htag, rfl, rfl⟩
  simp only [innerClass, result_bind_eq_ok_iff, result_readU16, Except.ok.injEq, exists_eq_left',
    hvlan, result_ite, result_pure]
  unfold frameClass
  split
  · rfl
  · split
    · rfl
    · rfl

/-- A frame is classified as one that carries IP, or not. -/
theorem frameClass_isSome_iff {f : List UInt8} : (∃ c, frameClass f = some c) ↔ IsIpFrame f := by
  unfold frameClass IsIpFrame
  split
  · exact iff_of_true ⟨_, rfl⟩ (Or.inl ‹_›)
  · split
    · exact iff_of_true ⟨_, rfl⟩ (Or.inr ‹_›)
    · exact iff_of_false (by simp) (by simp_all)

/-- The offset of the protocol in an IP header. -/
def protoOffset : Af → ℕ
  | .v4 => 9
  | .v6 => 6

/-- The parser reads the header that it has classified. -/
theorem innerAf_of_innerFrame {base n : ℕ} {out out' : ParsedPacket}
    (h : (innerFrame base n out).result m = .ok out') {af : Af} {l3 : ℕ}
    (hclass : frameClass (m.read base n) = some (af, l3)) :
    out'.innerAf = af ∧ out'.innerIpProto = m (base + (l3 + protoOffset af)) := by
  obtain ⟨hn, htag, -, -⟩ := isInner_of_innerFrame h
  rw [length_read] at hn htag
  have hvlan := (innerVlan_eq_ok_iff (m := m) hn).mpr ⟨htag, rfl, rfl⟩
  have hl3 := innerL3_le (m.read base n)
  simp only [innerFrame, result_bind_eq_ok_iff, result_failIf_eq_ok_iff, exists_const,
    result_readU16, Except.ok.injEq, exists_eq_left', hvlan, result_ite] at h
  obtain ⟨-, hrest⟩ := h
  unfold frameClass at hclass
  split at hclass
  case isTrue htype =>
    simp only [Option.some.injEq, Prod.mk.injEq] at hclass
    obtain ⟨rfl, rfl⟩ := hclass
    rw [if_pos htype] at hrest
    simp only [innerIpv4, result_bind_eq_ok_iff, result_failIf_eq_ok_iff, exists_const,
      result_offset, result_readByte, Except.ok.injEq, exists_eq_left', result_ite] at hrest
    -- the protocol is kept before the header length is looked at
    rw [u32_of_small (n := innerL3 (m.read base n) + 9) (by omega)] at hrest
    obtain ⟨-, hrest⟩ := hrest
    split at hrest
    · exact keepsL3_pure rfl rfl out' hrest
    · exact KeepsL3.bind_read (fun _ => .bind_read fun _ => keepsL3_extractInnerL4 _ _ _ _ _)
        out' hrest
  case isFalse htype =>
    split at hclass
    case isTrue htype' =>
      simp only [Option.some.injEq, Prod.mk.injEq] at hclass
      obtain ⟨rfl, rfl⟩ := hclass
      rw [if_neg htype, if_pos htype'] at hrest
      simp only [innerIpv6, result_bind_eq_ok_iff, result_failIf_eq_ok_iff, exists_const,
        result_offset, result_readByte, Except.ok.injEq, exists_eq_left'] at hrest
      rw [u32_of_small (n := innerL3 (m.read base n) + 6) (by omega)] at hrest
      exact keepsL3_extractInnerL4 _ _ _ _ _ out' hrest.2
    case isFalse => cases hclass

/-! ### The extractor's classification -/

/-- The extractor looks for the IP header where the frame has it. -/
theorem innerL3_of_flowL3Off {n l3 : ℕ} (hn : 14 ≤ n) (h : (flowL3Off n).result m = .ok l3) :
    l3 = innerL3 (m.read 0 n) := by
  rw [innerL3_read hn]
  simp only [Nat.zero_add]
  unfold flowL3Off at h
  rw [if_pos hn] at h
  simp only [result_bind_eq_ok_iff, result_readU16, Except.ok.injEq, exists_eq_left', result_ite,
    result_pure] at h
  split at h
  · -- the header is behind a VLAN tag
    rename_i hvlan
    rw [if_pos hvlan]
    exact (Except.ok.inj h).symm
  · rename_i hvlan
    rw [if_neg hvlan]
    obtain ⟨_, -, hl3⟩ := result_bind_eq_ok_iff.mp h
    exact (Except.ok.inj hl3).symm

/-- The extractor finds nothing in a frame that does not carry IP. -/
theorem isIpFrame_of_extractFlowFields {n : ℕ} {parsed : ParsedPacket} {fields : FlowFields}
    (hframe : IsInner (m.read 0 n)) (h : (extractFlowFields parsed n).result m = .ok fields) :
    IsIpFrame (m.read 0 n) := by
  have hn : 14 ≤ n := by simpa using hframe.ethernet
  have htag : innerL3 (m.read 0 n) ≤ n := by simpa using hframe.tag
  simp only [extractFlowFields, result_bind_eq_ok_iff, result_readU16, result_ite] at h
  obtain ⟨l3, hl3, -, -, -, -, et, het, hrest⟩ := h
  obtain rfl := innerL3_of_flowL3Off hn hl3
  obtain rfl := Except.ok.inj het
  rw [innerEthertype_eq_be16 hn htag] at hrest
  split at hrest
  · exact Or.inl ‹_›
  · split at hrest
    · exact Or.inr ‹_›
    · cases hrest

/-! ### The fields of a header -/

/-- The flow fields of the IP header at an index. -/
def HeaderFields (m : ByteMemory) (i : ℕ) (fields : FlowFields) : Af → Prop
  | .v4 => fields.ipProto = m (i + 9) ∧ fields.dscp.toNat = (m (i + 1)).toNat / 4 ∧
      fields.srcIp = .v4Mapped (m.read (i + 12) 4) ∧ fields.dstIp = .v4Mapped (m.read (i + 16) 4)
  | .v6 => fields.ipProto = m (i + 6) ∧ fields.dscp.toNat = be16 (m i) (m (i + 1)) / 64 % 64 ∧
      fields.srcIp = .ofBytes (m.read (i + 8) 16) ∧ fields.dstIp = .ofBytes (m.read (i + 24) 16)

/-- The protocol is one of the fields. -/
theorem HeaderFields.ipProto {i : ℕ} {fields : FlowFields} {af : Af}
    (h : HeaderFields m i fields af) : fields.ipProto = m (i + protoOffset af) := by
  cases af with
  | v4 => exact h.1
  | v6 => exact h.1

/-- The mirror source is passed on. -/
theorem mirrorSrcIp_frameFields (mirrorSrcIp : MirrorSrcIp) (f : List UInt8) :
    (frameFields mirrorSrcIp f).mirrorSrcIp = mirrorSrcIp.normalised := by
  unfold frameFields
  split
  · rfl
  · rfl

/-- The upper six bits of a byte. -/
theorem toNat_dscp (b : UInt8) : (b >>> 2 &&& 0x3F).toNat = b.toNat / 4 := by
  have hlt := b.toNat_lt
  rw [UInt8.toNat_and, UInt8.toNat_shiftRight]
  change b.toNat >>> 2 &&& 2 ^ 6 - 1 = _
  rw [Nat.and_two_pow_sub_one_eq_mod, Nat.shiftRight_eq_div_pow]
  omega

/-- The traffic class is in the bits 4 to 11 of the header. -/
theorem toNat_trafficClass (b₀ b₁ : UInt8) :
    (trafficClass b₀ b₁).toNat = be16 b₀ b₁ / 16 % 256 := by
  have h₀ := b₀.toNat_lt
  have h₁ := b₁.toNat_lt
  have hhigh : ((b₀ &&& 0x0F) <<< 4).toNat = (b₀.toNat % 16) <<< 4 := by
    rw [UInt8.toNat_shiftLeft, UInt8.toNat_and]
    change (b₀.toNat &&& 2 ^ 4 - 1) <<< 4 % 2 ^ 8 = _
    rw [Nat.and_two_pow_sub_one_eq_mod, Nat.shiftLeft_eq]
    omega
  have hlow : (b₁ >>> 4 &&& 0x0F).toNat = b₁.toNat / 16 := by
    rw [UInt8.toNat_and, UInt8.toNat_shiftRight]
    change b₁.toNat >>> 4 &&& 2 ^ 4 - 1 = _
    rw [Nat.and_two_pow_sub_one_eq_mod, Nat.shiftRight_eq_div_pow]
    omega
  rw [trafficClass, UInt8.toNat_or, hhigh, hlow, ← Nat.shiftLeft_add_eq_or_of_lt (by omega),
    Nat.shiftLeft_eq, be16]
  omega

/-- The fields that the extractor finds are those of the header. -/
theorem headerFields_frameFields {base n : ℕ} (hframe : IsInner (m.read base n))
    (mirrorSrcIp : MirrorSrcIp) {af : Af} {l3 : ℕ}
    (hclass : frameClass (m.read base n) = some (af, l3)) :
    HeaderFields m (base + l3) (frameFields mirrorSrcIp (m.read base n)) af := by
  have hipv4 := hframe.ipv4
  have hipv6 := hframe.ipv6
  rw [length_read] at hipv4 hipv6
  unfold frameClass at hclass
  split at hclass
  case isTrue htype =>
    obtain ⟨rfl, rfl⟩ := Prod.mk.inj (Option.some.inj hclass)
    have hlen := hipv4 htype
    rw [frameFields, if_pos htype]
    dsimp only [HeaderFields]
    rw [toNat_dscp, l3Byte_at (by omega), l3Byte_at (by omega), l3Bytes_at (by omega),
      l3Bytes_at (by omega)]
    simp only [Nat.add_assoc, and_self]
  case isFalse htype =>
    split at hclass
    case isTrue htype' =>
      obtain ⟨rfl, rfl⟩ := Prod.mk.inj (Option.some.inj hclass)
      have hlen := hipv6 htype'
      -- the DSCP is the upper six bits of the traffic class
      have hdscp : (trafficClass (l3Byte (m.read base n) 0) (l3Byte (m.read base n) 1) >>> 2 &&&
          0x3F).toNat = be16 (l3Byte (m.read base n) 0) (l3Byte (m.read base n) 1) / 64 % 64 := by
        rw [toNat_dscp, toNat_trafficClass]
        omega
      rw [frameFields, if_neg htype]
      dsimp only [HeaderFields]
      rw [hdscp, l3Byte_at (by omega), l3Byte_at (by omega), l3Byte_at (by omega),
        l3Bytes_at (by omega), l3Bytes_at (by omega)]
      simp only [Nat.add_assoc, Nat.add_zero, and_self]
    case isFalse => cases hclass

/-! ### Agreement -/

/-- The parser and the extractor agree on the inner IP header of an accepted packet: the extractor
succeeds exactly on what the parser has classified as IPv4 or IPv6, and its fields are those of the header
that the parser has read, with the mirror's address of the parser. -/
theorem flowFields_agree {len : UInt32} {d : DecapResult}
    (h : (erspanDecap len.toNat).result m = .ok d) :
    ((∃ fields, (extractFlowFields d.parsed d.innerLen).result (m.shift d.parsed.innerPtr) =
        .ok fields) ↔
      ∃ af l3, (innerClass d.parsed.innerPtr d.innerLen).result m = .ok (some (af, l3))) ∧
    ∀ fields, (extractFlowFields d.parsed d.innerLen).result (m.shift d.parsed.innerPtr) =
        .ok fields →
      fields.ipProto = d.parsed.innerIpProto ∧
      fields.mirrorSrcIp = d.parsed.mirrorSrcIp.normalised ∧
      ∃ l3, (innerClass d.parsed.innerPtr d.innerLen).result m =
          .ok (some (d.parsed.innerAf, l3)) ∧
        HeaderFields m (d.parsed.innerPtr + l3) fields d.parsed.innerAf := by
  simp only [erspanDecap, result_bind_eq_ok_iff, Prod.exists, result_offset, Except.ok.injEq,
    exists_eq_left', result_pure] at h
  obtain ⟨rc, parsed, hparse, rfl⟩ := h
  dsimp only
  obtain ⟨ip, inner, hinner, haf, hproto⟩ := innerFrame_of_parseErspan hparse
  have hframe := isInner_of_innerFrame hinner
  have hn : 14 ≤ parsed.innerLen := by simpa using hframe.ethernet
  have htag : innerL3 (m.read parsed.innerPtr parsed.innerLen) ≤ parsed.innerLen := by
    simpa using hframe.tag
  rw [result_innerClass hn htag]
  -- the extractor sees the frame from index 0 on
  have hshift : (m.shift parsed.innerPtr).read 0 parsed.innerLen =
      m.read parsed.innerPtr parsed.innerLen := read_shift m parsed.innerPtr 0 parsed.innerLen
  have hframe' : IsInner ((m.shift parsed.innerPtr).read 0 parsed.innerLen) := by rwa [hshift]
  have hresult (hip : IsIpFrame (m.read parsed.innerPtr parsed.innerLen)) :
      (extractFlowFields parsed parsed.innerLen).result (m.shift parsed.innerPtr) =
        .ok (frameFields parsed.mirrorSrcIp (m.read parsed.innerPtr parsed.innerLen)) := by
    rw [← hshift] at hip ⊢
    exact result_extractFlowFields hframe' hip parsed
  have hip {fields : FlowFields} (hfields : (extractFlowFields parsed parsed.innerLen).result
      (m.shift parsed.innerPtr) = .ok fields) :
      IsIpFrame (m.read parsed.innerPtr parsed.innerLen) := by
    rw [← hshift]
    exact isIpFrame_of_extractFlowFields hframe' hfields
  refine ⟨?_, fun fields hfields => ?_⟩
  · constructor
    · rintro ⟨fields, hfields⟩
      obtain ⟨⟨af, l3⟩, hclass⟩ := frameClass_isSome_iff.mpr (hip hfields)
      exact ⟨af, l3, congrArg Except.ok hclass⟩
    · rintro ⟨af, l3, hclass⟩
      exact ⟨_, hresult (frameClass_isSome_iff.mp ⟨(af, l3), Except.ok.inj hclass⟩)⟩
  · obtain ⟨⟨af, l3⟩, hclass⟩ := frameClass_isSome_iff.mpr (hip hfields)
    obtain ⟨haf', hproto'⟩ := innerAf_of_innerFrame hinner hclass
    have hheader := headerFields_frameFields hframe parsed.mirrorSrcIp hclass
    obtain rfl := Except.ok.inj ((hresult (hip hfields)).symm.trans hfields)
    rw [haf, haf', hproto, hproto', ← Nat.add_assoc]
    exact ⟨hheader.ipProto, mirrorSrcIp_frameFields _ _, l3, congrArg Except.ok hclass, hheader⟩

/-- A packet with a UDP frame is classified as IPv4, and has flow fields. -/
theorem flowFields_agree_udp :
    (innerClass 50 38).result (udpPacket 0x30 0x39).current = .ok (some (.v4, 14)) ∧
    ∃ fields, (extractFlowFields (udpParsed 12345) 38).result
      ((udpPacket 0x30 0x39).current.shift 50) = .ok fields := by
  have haccepted : (erspanDecap (88 : UInt32).toNat).result (udpPacket 0x30 0x39).current =
      .ok ⟨.ok, udpParsed 12345, 50, 38⟩ := by decide +kernel
  have hclass : (innerClass 50 38).result (udpPacket 0x30 0x39).current = .ok (some (.v4, 14)) := by
    decide +kernel
  exact ⟨hclass, (flowFields_agree haccepted).1.mpr ⟨.v4, 14, hclass⟩⟩

end InFMon
