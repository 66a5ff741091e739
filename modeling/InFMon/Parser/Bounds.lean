import InFMon.Parser.Erspan
import InFMon.DataPath.FlowFields

/-! # What the parser reads

Every layer reads only bytes below the length of its buffer, and none of its offsets wraps around. A
layer hands on an offset that lies in the buffer and is small; that is what the next one needs. -/

namespace InFMon

open TracedReader MachineWord ByteMemory

variable {m : ByteMemory} {len off : ℕ}

/-! ### Checks -/

/-- A sum up to 2 ^ 20 has 32 bits. -/
theorem sum_inBounds {n : ℕ} (hn : n ≤ 0x100000) : (Access.sum n).InBounds len :=
  Nat.le_trans hn (by decide)

/-- A small offset is computed exactly. -/
theorem spec_offset_bind {ε β : Type} {f : ℕ → TracedReader ε β} {Q : β → Prop} {n : ℕ}
    (hn : n ≤ 0x100000) (hf : (f n).Spec m (Access.InBounds len) Q) :
    (offset n >>= f).Spec m (Access.InBounds len) Q := by
  apply spec_bind (Q := fun x => x = n)
  · exact spec_offset (sum_inBounds hn) (u32_of_small hn)
  · rintro x rfl
    exact hf

/-- A length check lets through what it has checked. -/
theorem spec_check {ε β : Type} {f : Unit → TracedReader ε β} {Q : β → Prop} {n size : ℕ} {e : ε}
    (hn : n ≤ 0x100000) (hf : n ≤ size → (f ()).Spec m (Access.InBounds len) Q) :
    (offset n >>= fun x => failIf (size < x) e >>= f).Spec m (Access.InBounds len) Q := by
  apply spec_offset_bind hn
  apply spec_bind (Q := fun _ => n ≤ size)
  · exact spec_failIf Nat.not_lt.mp
  · rintro ⟨⟩ hle
    exact hf hle

/-- Any other check. -/
theorem spec_failIf_bind {ε β : Type} {f : Unit → TracedReader ε β} {Q : β → Prop} {c : Prop}
    [Decidable c] {e : ε} (hf : ¬ c → (f ()).Spec m (Access.InBounds len) Q) :
    (failIf c e >>= f).Spec m (Access.InBounds len) Q := by
  apply spec_bind (Q := fun _ => ¬ c)
  · exact spec_failIf fun h => h
  · rintro ⟨⟩ h
    exact hf h

/-- A byte inside the data may be read first. -/
theorem spec_readByte_bind {ε β : Type} {f : UInt8 → TracedReader ε β} {Q : β → Prop} {i : ℕ}
    (hi : i < len) (hf : (f (m i)).Spec m (Access.InBounds len) Q) :
    (readByte i >>= f).Spec m (Access.InBounds len) Q := by
  apply spec_bind (Q := fun b => b = m i)
  · exact spec_readByte hi rfl
  · rintro b rfl
    exact hf

/-- Bytes inside the data may be read first. -/
theorem spec_readBytes_bind {ε β : Type} {f : List UInt8 → TracedReader ε β} {Q : β → Prop}
    {i n : ℕ} (hi : i + n ≤ len) (hf : (f (m.read i n)).Spec m (Access.InBounds len) Q) :
    (readBytes i n >>= f).Spec m (Access.InBounds len) Q := by
  apply spec_bind (Q := fun bs => bs = m.read i n)
  · exact spec_readBytes (fun j hj => Nat.lt_of_lt_of_le (Nat.add_lt_add_left hj i) hi) rfl
  · rintro bs rfl
    exact hf

/-- Two bytes inside the data may be read first. -/
theorem spec_readU16_bind {ε β : Type} {f : ℕ → TracedReader ε β} {Q : β → Prop} {i : ℕ}
    (hi : i + 2 ≤ len)
    (hf : (f (be16 (m i) (m (i + 1)))).Spec m (Access.InBounds len) Q) :
    (readU16 i >>= f).Spec m (Access.InBounds len) Q := by
  apply spec_bind (Q := fun v => v = be16 (m i) (m (i + 1)))
  · exact spec_readU16 (Nat.lt_of_lt_of_le (by omega) hi) (Nat.lt_of_lt_of_le (by omega) hi) rfl
  · rintro v rfl
    exact hf

/-- Four bytes inside the data may be read first. -/
theorem spec_readU32_bind {ε β : Type} {f : ℕ → TracedReader ε β} {Q : β → Prop} {i : ℕ}
    (hi : i + 4 ≤ len)
    (hf : (f (be32 (m i) (m (i + 1)) (m (i + 2)) (m (i + 3)))).Spec m (Access.InBounds len) Q) :
    (readU32 i >>= f).Spec m (Access.InBounds len) Q := by
  apply spec_bind (Q := fun v => v = be32 (m i) (m (i + 1)) (m (i + 2)) (m (i + 3)))
  · exact spec_readU32 (fun j hj => Nat.lt_of_lt_of_le (Nat.add_lt_add_left hj i) hi) rfl
  · rintro v rfl
    exact hf

/-! ### Outer layers -/

/-- Behind the outer VLAN tag, if any, the offset is 18 at most and inside the data. -/
theorem spec_outerVlan {ethertype : ℕ} (hlen : 14 ≤ len) :
    (outerVlan len ethertype 14).Spec m (Access.InBounds len) fun v => v.2 ≤ len ∧ v.2 ≤ 18 := by
  unfold outerVlan
  split
  · apply spec_check (by omega)
    intro hle
    apply spec_readU16_bind (by omega)
    apply spec_offset_bind (by omega)
    apply spec_failIf_bind
    intro _
    exact spec_pure ⟨hle, Nat.le_refl _⟩
  · apply spec_failIf_bind
    intro _
    exact spec_pure ⟨hlen, by omega⟩

/-- The outer Ethernet header ends inside the data, at offset 18 at the latest. -/
theorem spec_outerEthernet :
    (outerEthernet len).Spec m (Access.InBounds len) fun v => v.2 ≤ len ∧ v.2 ≤ 18 := by
  unfold outerEthernet
  apply spec_failIf_bind
  intro hlen
  apply spec_readU16_bind (by omega)
  apply spec_bind (spec_outerVlan (by omega))
  rintro ⟨ethertype, off⟩ hoff
  apply spec_failIf_bind
  intro _
  exact spec_pure hoff

/-- The outer IPv4 header ends inside the data. -/
theorem spec_outerIpv4 (hoff : off ≤ 18) : (outerIpv4 len off).Spec m (Access.InBounds len)
    fun l3 => l3.off ≤ len ∧ l3.off ≤ 0x8000 ∧ l3.payloadLen ≤ 65535 := by
  have hihl : (m off &&& 0x0F).toNat ≤ 15 := by
    rw [UInt8.toNat_and]
    exact Nat.and_le_right
  have htotal := be16_lt (m (off + 2)) (m (off + 2 + 1))
  unfold outerIpv4
  apply spec_check (by omega)
  intro hle
  apply spec_readByte_bind (by omega)
  apply spec_failIf_bind
  intro _
  apply spec_failIf_bind
  intro _
  apply spec_offset_bind (by omega)
  apply spec_check (by omega)
  intro hheader
  apply spec_readByte_bind (by omega)
  apply spec_failIf_bind
  intro _
  apply spec_readU16_bind (by omega)
  apply spec_failIf_bind
  intro htotalLen
  apply spec_readBytes_bind (by omega)
  -- the header is inside the total length, so the difference does not wrap
  apply spec_bind (Q := fun n => n ≤ 65535)
  · apply spec_less
    · exact Nat.not_lt.mp htotalLen
    · rw [sub32_of_le (Nat.not_lt.mp htotalLen) (by simp only [max32]; omega)]
      omega
  · intro payloadLen hpayload
    apply spec_offset_bind (by omega)
    exact spec_pure ⟨hheader, by simp only; omega, hpayload⟩

/-- The loop over the extension headers: with `room` iterations to go, the offset is far from the end
of its range. -/
theorem spec_outerIpv6Ext {room v6ExtLen : ℕ} {nextHdr : UInt8} (hlen : off ≤ len)
    (hroom : off + 2048 * room ≤ 0x8000) (hext : v6ExtLen + 2048 * room ≤ 0x8000) :
    (outerIpv6Ext len room nextHdr v6ExtLen off).Spec m (Access.InBounds len)
      fun v => v.2.2 ≤ len ∧ v.2.2 ≤ 0x8000 ∧ v.2.1 ≤ 0x8000 := by
  induction room generalizing nextHdr v6ExtLen off with
  | zero =>
    rw [outerIpv6Ext]
    split
    · exact spec_fail _
    · exact spec_pure ⟨hlen, by simp only; omega, by simp only; omega⟩
  | succ room ih =>
    have hfield := (m (off + 1)).toNat_lt
    rw [outerIpv6Ext]
    split
    · apply spec_check (by omega)
      intro hle
      apply spec_readByte_bind (by omega)
      apply spec_readByte_bind (by omega)
      apply spec_offset_bind (by omega)
      apply spec_check (by omega)
      intro hheader
      apply spec_offset_bind (by omega)
      apply spec_offset_bind (by omega)
      exact ih hheader (by omega) (by omega)
    · exact spec_pure ⟨hlen, by simp only; omega, by simp only; omega⟩

/-- A difference of two 32-bit numbers has 32 bits. -/
theorem spec_excess {a b : ℕ} {Q : ℕ → Prop} (ha : a ≤ max32) (h : Q (a - b)) :
    (excess a b).Spec m (Access.InBounds len) Q := by
  unfold excess
  split
  · rename_i hlt
    apply spec_less
    · exact Nat.le_of_lt hlt
    · rw [sub32_of_le (Nat.le_of_lt hlt) ha]
      exact h
  · rename_i hle
    apply spec_pure
    rwa [Nat.sub_eq_zero_of_le (by omega)] at h

/-- The outer IPv6 header ends inside the data. -/
theorem spec_outerIpv6 (hoff : off ≤ 18) : (outerIpv6 len off).Spec m (Access.InBounds len)
    fun l3 => l3.off ≤ len ∧ l3.off ≤ 0x8000 ∧ l3.payloadLen ≤ 65535 := by
  have hpayload := be16_lt (m (off + 4)) (m (off + 4 + 1))
  have hroom : off + 40 + 2048 * 8 ≤ 0x8000 := by omega
  have hext : 0 + 2048 * 8 ≤ 0x8000 := by omega
  unfold outerIpv6
  apply spec_check (by omega)
  intro hle
  apply spec_readByte_bind (by omega)
  apply spec_failIf_bind
  intro _
  apply spec_readU16_bind (by omega)
  apply spec_readByte_bind (by omega)
  apply spec_readBytes_bind (by omega)
  apply spec_offset_bind (by omega)
  apply spec_bind (spec_outerIpv6Ext hle hroom hext)
  rintro ⟨nextHdr, v6ExtLen, off'⟩ ⟨hlen, hsmall, -⟩
  apply spec_failIf_bind
  intro _
  apply spec_failIf_bind
  intro _
  apply spec_bind (Q := fun n => n ≤ 65535)
  · exact spec_excess (Nat.le_trans (Nat.le_of_lt hpayload) (by decide)) (by omega)
  · intro payloadLen hle
    exact spec_pure ⟨hlen, hsmall, hle⟩

/-- The outer IP header ends inside the data, whichever it is. -/
theorem spec_outerL3 {et : ℕ} (hoff : off ≤ 18) : (outerL3 len et off).Spec m (Access.InBounds len)
    fun l3 => l3.off ≤ len ∧ l3.off ≤ 0x8000 ∧ l3.payloadLen ≤ 65535 := by
  unfold outerL3
  split
  · exact spec_outerIpv4 hoff
  · exact spec_outerIpv6 hoff

/-- The GRE header ends inside the data. -/
theorem spec_gre (hoff : off ≤ 0x8000) : (gre len off).Spec m (Access.InBounds len)
    fun v => v.1 ≤ 8 ∧ v.2 ≤ len ∧ v.2 ≤ 0x9000 := by
  unfold gre
  apply spec_check (by omega)
  intro hle
  apply spec_readU16_bind (by omega)
  apply spec_readU16_bind (by omega)
  apply spec_failIf_bind
  intro _
  apply spec_failIf_bind
  intro _
  apply spec_failIf_bind
  intro _
  have hgre : (4 + if (be16 (m off) (m (off + 1)) &&& 0xFFF8 &&& 0x1000 != 0) = true then 4 else 0)
      ≤ 8 := by
    split
    · omega
    · omega
  apply spec_offset_bind (Nat.le_trans hgre (by omega))
  apply spec_check (by omega)
  intro hheader
  apply spec_offset_bind (by omega)
  exact spec_pure ⟨hgre, hheader, by simp only; omega⟩

/-- The ERSPAN header ends inside the data. -/
theorem spec_erspan (hoff : off ≤ 0x9000) : (erspan len off).Spec m (Access.InBounds len)
    fun v => v.1 ≤ 20 ∧ v.2 ≤ len ∧ v.2 ≤ 0xA000 := by
  unfold erspan
  apply spec_check (by omega)
  intro hle
  apply spec_readU32_bind (by omega)
  apply spec_readU32_bind (by omega)
  apply spec_failIf_bind
  intro _
  generalize be32 (m (off + 8)) (m (off + 8 + 1)) (m (off + 8 + 2)) (m (off + 8 + 3)) = w2
  have hheader : (12 + if (w2 &&& 0x01 != 0) = true then 8 else 0) ≤ 20 := by
    split
    · omega
    · omega
  apply spec_offset_bind (Nat.le_trans hheader (by omega))
  apply spec_check (by omega)
  intro hle'
  apply spec_offset_bind (by omega)
  exact spec_pure ⟨hheader, hle', by simp only; omega⟩

/-! ### The mirrored frame -/

/-- A field of the frame is read only if the frame reaches to its end. -/
theorem spec_ifReaches {innerLen need : ℕ} {field other : TracedReader ParseError ParsedPacket}
    {Q : ParsedPacket → Prop} (hneed : need ≤ 0x100000)
    (hfield : need ≤ innerLen → field.Spec m (Access.InBounds len) Q)
    (hother : other.Spec m (Access.InBounds len) Q) :
    (ifReaches innerLen need field other).Spec m (Access.InBounds len) Q := by
  unfold ifReaches
  apply spec_offset_bind hneed
  split
  · exact hfield ‹_›
  · exact hother

variable {base innerLen innerL4Off innerL3Off : ℕ} {out : ParsedPacket}

/-- The ports are read inside the inner frame. -/
theorem spec_extractPorts (hbase : base + innerLen ≤ len) (hoff : innerL4Off ≤ 0x1000) :
    (extractPorts base innerL4Off innerLen out).Spec m (Access.InBounds len) fun _ => True := by
  apply spec_ifReaches (by omega)
  · intro hle
    apply spec_readU16_bind (by omega)
    apply spec_readU16_bind (by omega)
    exact spec_pure trivial
  · exact spec_pure trivial

/-- The fields of TCP are read inside the inner frame. -/
theorem spec_extractTcp (hbase : base + innerLen ≤ len) (hoff : innerL4Off ≤ 0x1000) :
    (extractTcp base innerL4Off innerLen out).Spec m (Access.InBounds len) fun _ => True := by
  unfold extractTcp
  apply spec_bind (Q := fun _ => True)
  · apply spec_ifReaches (by omega)
    · intro hle
      apply spec_readU32_bind (by omega)
      exact spec_pure trivial
    · exact spec_pure trivial
  intro out _
  apply spec_bind (Q := fun _ => True)
  · apply spec_ifReaches (by omega)
    · intro hle
      apply spec_readU32_bind (by omega)
      exact spec_pure trivial
    · exact spec_pure trivial
  intro out _
  apply spec_bind (Q := fun _ => True)
  · apply spec_ifReaches (by omega)
    · intro hle
      apply spec_offset_bind (by omega)
      apply spec_readByte_bind (by omega)
      exact spec_pure trivial
    · exact spec_pure trivial
  intro out _
  apply spec_ifReaches (by omega)
  · intro hle
    apply spec_readU16_bind (by omega)
    exact spec_pure trivial
  · exact spec_pure trivial

/-- The inner transport header is read inside the inner frame. -/
theorem spec_extractInnerL4 {innerIpProto : UInt8} (hbase : base + innerLen ≤ len)
    (hoff : innerL4Off ≤ 0x1000) :
    (extractInnerL4 base innerL4Off innerLen innerIpProto out).Spec m (Access.InBounds len)
      fun _ => True := by
  unfold extractInnerL4
  split
  · apply spec_bind (spec_extractPorts hbase hoff)
    intro out _
    split
    · exact spec_extractTcp hbase hoff
    · exact spec_pure trivial
  · exact spec_pure trivial

/-- Behind the inner VLAN tag, if any, the offset is 18 at most. -/
theorem spec_innerVlan {et : ℕ} (hbase : base + innerLen ≤ len) :
    (innerVlan base innerLen et 14).Spec m (Access.InBounds len) fun v => v.2 ≤ 18 := by
  unfold innerVlan
  split
  · apply spec_check (by omega)
    intro hle
    apply spec_readU16_bind (by omega)
    apply spec_offset_bind (by omega)
    exact spec_pure (Nat.le_refl _)
  · exact spec_pure (by simp only; omega)

/-- The inner IPv4 header is read inside the inner frame. -/
theorem spec_innerIpv4 (hbase : base + innerLen ≤ len) (hoff : innerL3Off ≤ 18) :
    (innerIpv4 base innerL3Off innerLen out).Spec m (Access.InBounds len) fun _ => True := by
  have hihl : (m (base + innerL3Off) &&& 0x0F).toNat ≤ 15 := by
    rw [UInt8.toNat_and]
    exact Nat.and_le_right
  unfold innerIpv4
  apply spec_check (by omega)
  intro hle
  apply spec_offset_bind (by omega)
  apply spec_readByte_bind (by omega)
  apply spec_readByte_bind (by omega)
  dsimp only
  split
  · exact spec_pure trivial
  · apply spec_offset_bind (by omega)
    apply spec_offset_bind (by omega)
    exact spec_extractInnerL4 hbase (by omega)

/-- The inner IPv6 header is read inside the inner frame. -/
theorem spec_innerIpv6 (hbase : base + innerLen ≤ len) (hoff : innerL3Off ≤ 18) :
    (innerIpv6 base innerL3Off innerLen out).Spec m (Access.InBounds len) fun _ => True := by
  unfold innerIpv6
  apply spec_check (by omega)
  intro hle
  apply spec_offset_bind (by omega)
  apply spec_readByte_bind (by omega)
  apply spec_offset_bind (by omega)
  exact spec_extractInnerL4 hbase (by omega)

/-- The inner frame is read inside its bounds. -/
theorem spec_innerFrame (hbase : base + innerLen ≤ len) :
    (innerFrame base innerLen out).Spec m (Access.InBounds len) fun _ => True := by
  unfold innerFrame
  apply spec_failIf_bind
  intro hlen
  apply spec_readU16_bind (by omega)
  apply spec_bind (spec_innerVlan hbase)
  rintro ⟨innerEthertype, innerL3Off⟩ hoff
  dsimp only at hoff ⊢
  split
  · exact spec_innerIpv4 hbase hoff
  · split
    · exact spec_innerIpv6 hbase hoff
    · exact spec_pure trivial

/-! ### The whole parser -/

/-- The parser reads inside the buffer, and so does the slice it returns. -/
theorem spec_parseErspan (hlen : len ≤ max32) : (parseErspan len).Spec m (Access.InBounds len)
    fun v => v.2.innerPtr ≤ 0xA000 ∧ v.2.innerPtr + v.2.innerLen ≤ len := by
  unfold parseErspan
  apply spec_bind spec_outerEthernet
  rintro ⟨ethertype, off⟩ ⟨-, hoff⟩
  apply spec_bind (spec_outerL3 hoff)
  rintro l3 ⟨-, hl3, hpayload⟩
  apply spec_bind (spec_gre hl3)
  rintro ⟨greLen, off⟩ ⟨hgre, -, hoff⟩
  apply spec_bind (spec_erspan hoff)
  rintro ⟨erspanHdrLen, off⟩ ⟨herspan, hle, hoff⟩
  simp only at hgre herspan hle hoff
  apply spec_offset_bind (by omega)
  apply spec_bind (Q := fun _ => True)
  · exact spec_excess (Nat.le_trans hpayload (by decide)) trivial
  intro declaredInnerLen _
  apply spec_bind (Q := fun n => n = len - off)
  · exact spec_excess hlen rfl
  rintro actualInnerLen rfl
  apply spec_failIf_bind
  intro _
  simp only [innerDecap, ne_eq, not_true_eq_false, if_false]
  -- the inner frame ends where the buffer does, whatever length the headers declare
  have hinner : (if declaredInnerLen > 0 ∧ declaredInnerLen < len - off then declaredInnerLen
      else len - off) ≤ len - off := by
    split
    · omega
    · exact Nat.le_refl _
  apply spec_bind (spec_innerFrame (by omega))
  intro out _
  exact spec_pure ⟨hoff, by simp only; omega⟩

/-! ### Decapsulation and flow fields -/

/-- The slice of a decapsulated packet lies in the buffer. -/
theorem spec_erspanDecap (hlen : len ≤ max32) : (erspanDecap len).Spec m (Access.InBounds len)
    fun d => d.innerOffset = d.parsed.innerPtr ∧ d.innerLen = d.parsed.innerLen ∧
      d.innerOffset + d.innerLen ≤ len := by
  unfold erspanDecap
  apply spec_bind (spec_parseErspan hlen)
  rintro ⟨rc, parsed⟩ ⟨hptr, hslice⟩
  simp only at hptr hslice
  apply spec_offset_bind (by omega)
  exact spec_pure ⟨rfl, rfl, hslice⟩

/-- The extraction of the fields finds the IP header behind one VLAN tag or none. -/
theorem spec_flowL3Off : (flowL3Off innerLen).Spec m (Access.InBounds innerLen)
    fun off => off ≤ 18 ∧ (off = 14 ∨ off = 18) := by
  unfold flowL3Off
  split
  · apply spec_readU16_bind (by omega)
    split
    · exact spec_pure ⟨by omega, Or.inr rfl⟩
    · apply spec_failIf_bind
      intro _
      exact spec_pure ⟨by omega, Or.inl rfl⟩
  · exact spec_pure ⟨by omega, Or.inl rfl⟩

/-- The fields of IPv4 are read inside the frame. -/
theorem spec_flowIpv4 {fields : FlowFields} (hoff : innerL3Off ≤ 18) :
    (flowIpv4 innerLen innerL3Off fields).Spec m (Access.InBounds innerLen) fun _ => True := by
  unfold flowIpv4
  apply spec_check (by omega)
  intro hle
  apply spec_offset_bind (by omega)
  apply spec_readByte_bind (by omega)
  apply spec_offset_bind (by omega)
  apply spec_readByte_bind (by omega)
  apply spec_readBytes_bind (by omega)
  apply spec_readBytes_bind (by omega)
  exact spec_pure trivial

/-- The fields of IPv6 are read inside the frame. -/
theorem spec_flowIpv6 {fields : FlowFields} (hoff : innerL3Off ≤ 18) :
    (flowIpv6 innerLen innerL3Off fields).Spec m (Access.InBounds innerLen) fun _ => True := by
  unfold flowIpv6
  apply spec_check (by omega)
  intro hle
  apply spec_offset_bind (by omega)
  apply spec_readByte_bind (by omega)
  apply spec_readByte_bind (by omega)
  apply spec_offset_bind (by omega)
  apply spec_readByte_bind (by omega)
  apply spec_readBytes_bind (by omega)
  apply spec_readBytes_bind (by omega)
  exact spec_pure trivial

/-- The extractor has bounds of its own: it needs no promise about the frame. -/
theorem spec_extractFlowFields {parsed : ParsedPacket} :
    (extractFlowFields parsed innerLen).Spec m (Access.InBounds innerLen) fun _ => True := by
  unfold extractFlowFields
  apply spec_bind spec_flowL3Off
  rintro off ⟨hoff, hcases⟩
  apply spec_check (by omega)
  intro hle
  apply spec_readU16_bind
  · split
    · omega
    · omega
  generalize be16 (m _) (m _) = innerEt
  split
  · exact spec_flowIpv4 hoff
  · split
    · exact spec_flowIpv6 hoff
    · exact spec_fail _

/-- On any input the parser, the decapsulation and the extractor read inside their buffers, and no
offset wraps around. -/
theorem reads_inBounds (m : ByteMemory) (len : UInt32) :
    (∀ a ∈ (parseErspan len.toNat).trace m, a.InBounds len.toNat) ∧
    (∀ a ∈ (erspanDecap len.toNat).trace m, a.InBounds len.toNat) ∧
    ∀ d, (erspanDecap len.toNat).result m = .ok d →
      d.innerOffset = d.parsed.innerPtr ∧ d.innerOffset + d.innerLen ≤ len.toNat ∧
      ∀ (parsed : ParsedPacket),
        ∀ a ∈ (extractFlowFields parsed d.innerLen).trace (m.shift d.innerOffset),
          a.InBounds d.innerLen := by
  have hlen : len.toNat ≤ max32 := Nat.le_of_lt_succ len.toNat_lt
  refine ⟨(spec_parseErspan hlen).1, (spec_erspanDecap hlen).1, fun d hd => ?_⟩
  obtain ⟨hoffset, -, hslice⟩ := (spec_erspanDecap hlen).2 d hd
  exact ⟨hoffset, hslice, fun parsed => spec_extractFlowFields.1⟩

end InFMon
