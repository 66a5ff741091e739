import InFMon.Parser.Outer
import Mathlib.Data.Nat.Bitwise

/-! # What the parser accepts

The layers behind the outer IP header, and the parser as a whole: it succeeds exactly on the bytes of
a mirrored packet, and returns the slice of the buffer that holds the mirrored frame. -/

namespace InFMon

open TracedReader MachineWord ByteMemory

variable {m : ByteMemory} {len off : ℕ}

/-! ### GRE -/

/-- Without version bits and disallowed flags, only the `S` flag is left. -/
theorem greFlags_iff {f : ℕ} (hf : f < 65536) :
    (f &&& 0x07 = 0 ∧ f &&& 0xFFF8 &&& 0xEFFF = 0) ↔ f = 0 ∨ f = 0x1000 := by
  constructor
  · rintro ⟨hversion, hflags⟩
    have hmask : f &&& 0xEFF8 = 0 := by
      rw [Nat.and_assoc] at hflags
      exact hflags
    have hsplit : f = f &&& 2 ^ 12 := by
      calc f = f &&& 0xFFFF := by
            rw [Nat.and_two_pow_sub_one_eq_mod f 16, Nat.mod_eq_of_lt hf]
        _ = f &&& (0xEFF8 ||| 0x07 ||| 2 ^ 12) := rfl
        _ = f &&& 2 ^ 12 := by
            rw [Nat.and_or_distrib_left, Nat.and_or_distrib_left, hmask, hversion, Nat.zero_or,
              Nat.zero_or]
    rw [Nat.and_two_pow] at hsplit
    cases hbit : f.testBit 12 with
    | false =>
      rw [hbit] at hsplit
      exact Or.inl (by simpa using hsplit)
    | true =>
      rw [hbit] at hsplit
      exact Or.inr (by simpa using hsplit)
  · rintro (rfl | rfl)
    · decide
    · decide

/-- The length of a GRE header, as the parser computes it from the flags. -/
theorem greLen_eq {f : ℕ} (hf : f = 0 ∨ f = 0x1000) :
    (4 + if (f &&& 0xFFF8 &&& 0x1000 != 0) = true then 4 else 0) = if f = 0x1000 then 8 else 4 := by
  rcases hf with rfl | rfl
  · decide
  · decide

/-- A GRE header in memory. -/
theorem isGre_read_iff {n : ℕ} :
    IsGre (m.read off n) ↔ (be16 (m off) (m (off + 1)) = 0 ∨ be16 (m off) (m (off + 1)) = 0x1000) ∧
      be16 (m (off + 2)) (m (off + 2 + 1)) = 0x22EB ∧
      n = if be16 (m off) (m (off + 1)) = 0x1000 then 8 else 4 := by
  have hfields : 4 ≤ n → fieldAt (m.read off n) 0 = be16 (m off) (m (off + 1)) ∧
      fieldAt (m.read off n) 2 = be16 (m (off + 2)) (m (off + 2 + 1)) :=
    fun hn => ⟨fieldAt_read (by omega), fieldAt_read (by omega)⟩
  constructor
  · rintro ⟨hflags, hprotocol, hlength⟩
    rw [length_read] at hlength
    have hn : 4 ≤ n := by
      split at hlength
      · omega
      · omega
    rw [(hfields hn).1] at hflags hlength
    rw [(hfields hn).2] at hprotocol
    exact ⟨hflags, hprotocol, hlength⟩
  · rintro ⟨hflags, hprotocol, hlength⟩
    have hn : 4 ≤ n := by
      split at hlength
      · omega
      · omega
    refine ⟨?_, ?_, ?_⟩
    · rw [(hfields hn).1]
      exact hflags
    · rw [(hfields hn).2]
      exact hprotocol
    · rw [(hfields hn).1, length_read]
      exact hlength

/-- The GRE header. -/
theorem gre_eq_ok_iff (hoff : off ≤ 0x80000) {n off' : ℕ} :
    (gre len off).result m = .ok (n, off') ↔
      off + n ≤ len ∧ IsGre (m.read off n) ∧ off' = off + n := by
  have hf : be16 (m off) (m (off + 1)) < 65536 := be16_lt _ _
  rw [isGre_read_iff]
  simp only [gre, result_bind_eq_ok_iff, result_failIf_eq_ok_iff, exists_const, result_readU16,
    result_offset, Except.ok.injEq, exists_eq_left', result_pure, Prod.mk.injEq, not_not]
  generalize be16 (m off) (m (off + 1)) = f at hf ⊢
  constructor
  · rintro ⟨-, hversion, hflags, hprotocol, hlen, rfl, rfl⟩
    have hgre := (greFlags_iff hf).mp ⟨hversion, hflags⟩
    rw [greLen_eq hgre] at hlen ⊢
    have hle : (if f = 0x1000 then 8 else 4) ≤ 8 := by
      split
      · omega
      · omega
    generalize (if f = 0x1000 then 8 else 4) = n at hlen hle ⊢
    rw [u32_of_small (n := n) (by omega), u32_of_small (by omega)] at hlen ⊢
    exact ⟨by omega, ⟨hgre, hprotocol, rfl⟩, rfl⟩
  · rintro ⟨hlen, ⟨hgre, hprotocol, rfl⟩, rfl⟩
    obtain ⟨hversion, hflags⟩ := (greFlags_iff hf).mpr hgre
    rw [greLen_eq hgre]
    have hle : 4 ≤ (if f = 0x1000 then 8 else 4) ∧ (if f = 0x1000 then 8 else 4) ≤ 8 := by
      split
      · omega
      · omega
    generalize (if f = 0x1000 then 8 else 4) = n at hlen hle ⊢
    rw [u32_of_small (n := n) (by omega), u32_of_small (by omega), u32_of_small (by omega)]
    exact ⟨by omega, hversion, hflags, hprotocol, by omega, rfl, rfl⟩

/-! ### ERSPAN -/

/-- The version field of an ERSPAN header is the upper half of its first byte. -/
theorem erspanVersion_iff (b₀ b₁ b₂ b₃ : UInt8) :
    be32 b₀ b₁ b₂ b₃ >>> 28 &&& 0x0F = 2 ↔ b₀ >>> 4 = 2 := by
  have h₀ := b₀.toNat_lt
  have h₁ := b₁.toNat_lt
  have h₂ := b₂.toNat_lt
  have h₃ := b₃.toNat_lt
  have hword : be32 b₀ b₁ b₂ b₃ >>> 28 &&& 0x0F = b₀.toNat / 16 := by
    rw [Nat.shiftRight_eq_div_pow, Nat.and_two_pow_sub_one_eq_mod _ 4, be32]
    omega
  have hbyte : (b₀ >>> 4).toNat = b₀.toNat / 16 := by
    rw [UInt8.toNat_shiftRight, Nat.shiftRight_eq_div_pow]
    rfl
  rw [hword, ← hbyte, ← UInt8.toNat_inj]
  rfl

/-- The `O` bit is the last bit of the last byte. -/
theorem erspanOBit_iff (b₀ b₁ b₂ b₃ : UInt8) :
    (be32 b₀ b₁ b₂ b₃ &&& 0x01 != 0) = true ↔ b₃ &&& 1 = 1 := by
  have hword : be32 b₀ b₁ b₂ b₃ &&& 0x01 = b₃.toNat % 2 := by
    rw [Nat.and_one_is_mod, be32]
    omega
  have hbyte : (b₃ &&& 1).toNat = b₃.toNat % 2 := by
    rw [UInt8.toNat_and]
    exact Nat.and_one_is_mod _
  rw [hword, ← UInt8.toNat_inj, hbyte, bne_iff_ne]
  change _ ↔ b₃.toNat % 2 = 1
  omega

/-- An ERSPAN header in memory. -/
theorem isErspan_read_iff {n : ℕ} :
    IsErspan (m.read off n) ↔
      m off >>> 4 = 2 ∧ n = if m (off + 11) &&& 1 = 1 then 20 else 12 := by
  have hfields : 12 ≤ n → byteAt (m.read off n) 0 = m off ∧
      byteAt (m.read off n) 11 = m (off + 11) :=
    fun hn => ⟨byteAt_read (by omega), byteAt_read (by omega)⟩
  constructor
  · rintro ⟨hversion, hlength⟩
    rw [length_read] at hlength
    have hn : 12 ≤ n := by
      split at hlength
      · omega
      · omega
    rw [(hfields hn).1] at hversion
    rw [(hfields hn).2] at hlength
    exact ⟨hversion, hlength⟩
  · rintro ⟨hversion, hlength⟩
    have hn : 12 ≤ n := by
      split at hlength
      · omega
      · omega
    refine ⟨?_, ?_⟩
    · rw [(hfields hn).1]
      exact hversion
    · rw [(hfields hn).2, length_read]
      exact hlength

/-- The ERSPAN header. -/
theorem erspan_eq_ok_iff (hoff : off ≤ 0x80000) {n off' : ℕ} :
    (erspan len off).result m = .ok (n, off') ↔
      off + n ≤ len ∧ IsErspan (m.read off n) ∧ off' = off + n := by
  rw [isErspan_read_iff]
  simp only [erspan, result_bind_eq_ok_iff, result_failIf_eq_ok_iff, exists_const, result_readU32,
    result_offset, Except.ok.injEq, exists_eq_left', result_pure, Prod.mk.injEq, not_not,
    erspanVersion_iff, erspanOBit_iff]
  have hlength : (12 + if m (off + 8 + 3) &&& 1 = 1 then 8 else 0) =
      if m (off + 11) &&& 1 = 1 then 20 else 12 := by
    rw [Nat.add_assoc]
    split
    · rfl
    · rfl
  have hle : 12 ≤ (if m (off + 11) &&& 1 = 1 then 20 else 12) ∧
      (if m (off + 11) &&& 1 = 1 then 20 else 12) ≤ 20 := by
    split
    · omega
    · omega
  rw [hlength]
  generalize (if m (off + 11) &&& 1 = 1 then 20 else 12) = k at hle ⊢
  rw [u32_of_small (n := k) (by omega), u32_of_small (by omega), u32_of_small (by omega)]
  constructor
  · rintro ⟨-, hversion, hlen, rfl, rfl⟩
    exact ⟨by omega, ⟨hversion, rfl⟩, rfl⟩
  · rintro ⟨hlen, ⟨hversion, rfl⟩, rfl⟩
    exact ⟨by omega, hversion, by omega, rfl, rfl⟩

/-! ### The mirrored frame -/

/-- The run ends without an error and leaves the mirror's address alone. -/
def Fills (x : TracedReader ParseError ParsedPacket) (m : ByteMemory) (ip : MirrorSrcIp) : Prop :=
  ∃ out, x.result m = .ok out ∧ out.mirrorSrcIp = ip

/-- What is read already has its source. -/
theorem fills_pure {out : ParsedPacket} : Fills (pure out) m out.mirrorSrcIp := ⟨out, rfl, rfl⟩

/-- One field after another. -/
theorem Fills.bind {x : TracedReader ParseError ParsedPacket}
    {f : ParsedPacket → TracedReader ParseError ParsedPacket} {ip : MirrorSrcIp}
    (hx : Fills x m ip) (hf : ∀ out, out.mirrorSrcIp = ip → Fills (f out) m ip) :
    Fills (x >>= f) m ip := by
  obtain ⟨out, hout, hip⟩ := hx
  obtain ⟨out', hout', hip'⟩ := hf out hip
  exact ⟨out', result_bind_eq_ok_iff.mpr ⟨out, hout, hout'⟩, hip'⟩

/-- The source is the same whether a field is there or not. -/
theorem fills_ifReaches {innerLen need : ℕ} {field other : TracedReader ParseError ParsedPacket}
    {ip : MirrorSrcIp} (hfield : Fills field m ip) (hother : Fills other m ip) :
    Fills (ifReaches innerLen need field other) m ip := by
  unfold ifReaches Fills
  simp only [result_bind_eq_ok_iff, result_offset, Except.ok.injEq, exists_eq_left', result_ite]
  split
  · exact hfield
  · exact hother

/-- The ports and the TCP fields are filled in as far as they are there. -/
theorem fills_extractInnerL4 (base innerL4Off innerLen : ℕ) (innerIpProto : UInt8)
    (out : ParsedPacket) :
    Fills (extractInnerL4 base innerL4Off innerLen innerIpProto out) m out.mirrorSrcIp := by
  unfold extractInnerL4
  split
  · refine Fills.bind (fills_ifReaches ⟨_, rfl, rfl⟩ fills_pure) fun out hip => ?_
    rw [← hip]
    split
    · refine Fills.bind (fills_ifReaches ⟨_, rfl, rfl⟩ fills_pure) fun out hip => ?_
      rw [← hip]
      refine Fills.bind (fills_ifReaches ⟨_, rfl, rfl⟩ fills_pure) fun out hip => ?_
      rw [← hip]
      refine Fills.bind (fills_ifReaches ⟨_, rfl, rfl⟩ fills_pure) fun out hip => ?_
      rw [← hip]
      exact fills_ifReaches ⟨_, rfl, rfl⟩ fills_pure
    · exact fills_pure
  · exact fills_pure

/-- The first bytes of a frame decide where its IP header is. -/
theorem innerL3_read {base n : ℕ} (hn : 14 ≤ n) : innerL3 (m.read base n) =
    if be16 (m (base + 12)) (m (base + 12 + 1)) = 0x8100 then 18 else 14 := by
  rw [innerL3, fieldAt_read (by omega)]

/-- The inner Ethertype is behind the VLAN tag, if there is one. -/
theorem innerEthertype_read {base n : ℕ} (hn : 14 ≤ n) (htag : innerL3 (m.read base n) ≤ n) :
    innerEthertype (m.read base n) =
      if be16 (m (base + 12)) (m (base + 12 + 1)) = 0x8100 then
        be16 (m (base + 14 + 2)) (m (base + 14 + 2 + 1))
      else be16 (m (base + 12)) (m (base + 12 + 1)) := by
  rw [innerEthertype]
  rw [innerL3_read hn] at htag ⊢
  split
  · rename_i hvlan
    rw [if_pos hvlan] at htag
    rw [fieldAt_read (by omega)]
  · rw [fieldAt_read (by omega)]

/-- The VLAN tag in front of the inner ethertype. -/
theorem innerVlan_eq_ok_iff {base n et l3 : ℕ} (hn : 14 ≤ n) :
    (innerVlan base n (be16 (m (base + 12)) (m (base + 12 + 1))) 14).result m = .ok (et, l3) ↔
      innerL3 (m.read base n) ≤ n ∧ et = innerEthertype (m.read base n) ∧
        l3 = innerL3 (m.read base n) := by
  constructor
  · intro hres
    -- a tagged frame is four bytes longer in front, an untagged one is not
    unfold innerVlan at hres
    split at hres
    · rename_i hvlan
      simp only [result_bind_eq_ok_iff, result_failIf_eq_ok_iff, exists_const, result_readU16,
        result_offset, Except.ok.injEq, exists_eq_left', result_pure, Prod.mk.injEq] at hres
      rw [u32_of_small (by omega)] at hres
      obtain ⟨hlen, rfl, rfl⟩ := hres
      have htag : innerL3 (m.read base n) ≤ n := by
        rw [innerL3_read hn, if_pos hvlan]
        omega
      refine ⟨htag, ?_, ?_⟩
      · rw [innerEthertype_read hn htag, if_pos hvlan]
      · rw [innerL3_read hn, if_pos hvlan]
    · rename_i hvlan
      simp only [result_pure, Except.ok.injEq, Prod.mk.injEq] at hres
      obtain ⟨rfl, rfl⟩ := hres
      have htag : innerL3 (m.read base n) ≤ n := by
        rw [innerL3_read hn, if_neg hvlan]
        exact hn
      refine ⟨htag, ?_, ?_⟩
      · rw [innerEthertype_read hn htag, if_neg hvlan]
      · rw [innerL3_read hn, if_neg hvlan]
  · rintro ⟨htag, rfl, rfl⟩
    rw [innerEthertype_read hn htag]
    rw [innerL3_read hn] at htag ⊢
    unfold innerVlan
    split
    · rename_i hvlan
      rw [if_pos hvlan] at htag
      simp only [result_bind_eq_ok_iff, result_failIf_eq_ok_iff, exists_const, result_readU16,
        result_offset, Except.ok.injEq, exists_eq_left', result_pure]
      rw [u32_of_small (by omega)]
      exact ⟨Nat.not_lt.mpr htag, rfl⟩
    · rfl

/-- The inner IPv4 header is read whenever its 20 bytes are there. -/
theorem fills_innerIpv4 {base l3 n : ℕ} {out : ParsedPacket} (hlen : l3 + 20 ≤ n) (hl3 : l3 ≤ 18) :
    Fills (innerIpv4 base l3 n out) m out.mirrorSrcIp := by
  unfold innerIpv4 Fills
  simp only [result_bind_eq_ok_iff, result_failIf_eq_ok_iff, exists_const, result_readByte,
    result_offset, Except.ok.injEq, exists_eq_left', result_ite]
  rw [u32_of_small (by omega)]
  split
  · exact ⟨_, ⟨Nat.not_lt.mpr hlen, rfl⟩, rfl⟩
  · simp only [result_bind_eq_ok_iff, result_offset, Except.ok.injEq, exists_eq_left']
    obtain ⟨out', hout', hip⟩ := fills_extractInnerL4 (m := m) base
      (u32 (l3 + u32 ((m (base + l3) &&& 0x0F).toNat * 4))) n (m (base + u32 (l3 + 9)))
      { out with innerAf := .v4, innerIpProto := m (base + u32 (l3 + 9)) }
    exact ⟨out', ⟨Nat.not_lt.mpr hlen, hout'⟩, hip⟩

/-- The inner IPv6 header is read whenever its 40 bytes are there. -/
theorem fills_innerIpv6 {base l3 n : ℕ} {out : ParsedPacket} (hlen : l3 + 40 ≤ n) (hl3 : l3 ≤ 18) :
    Fills (innerIpv6 base l3 n out) m out.mirrorSrcIp := by
  unfold innerIpv6 Fills
  simp only [result_bind_eq_ok_iff, result_failIf_eq_ok_iff, exists_const, result_readByte,
    result_offset, Except.ok.injEq, exists_eq_left']
  rw [u32_of_small (n := l3 + 40) (by omega)]
  obtain ⟨out', hout', hip⟩ := fills_extractInnerL4 (m := m) base (l3 + 40) n
    (m (base + u32 (l3 + 6)))
    { out with innerAf := .v6, innerIpProto := m (base + u32 (l3 + 6)) }
  exact ⟨out', ⟨Nat.not_lt.mpr hlen, hout'⟩, hip⟩

/-- The inner IP header starts at offset 18 at the latest. -/
theorem innerL3_le (f : List UInt8) : innerL3 f ≤ 18 := by
  unfold innerL3
  split
  · exact Nat.le_refl _
  · omega

/-- The mirrored frame is read whenever it is long enough for what it announces. -/
theorem fills_innerFrame {base n : ℕ} {out : ParsedPacket} (h : IsInner (m.read base n)) :
    Fills (innerFrame base n out) m out.mirrorSrcIp := by
  obtain ⟨hn, htag, hipv4, hipv6⟩ := h
  rw [length_read] at hn htag hipv4 hipv6
  have hvlan := (innerVlan_eq_ok_iff (m := m) hn).mpr ⟨htag, rfl, rfl⟩
  have hl3 := innerL3_le (m.read base n)
  unfold innerFrame Fills
  simp only [result_bind_eq_ok_iff, result_failIf_eq_ok_iff, exists_const, result_readU16,
    Except.ok.injEq, exists_eq_left', hvlan, result_ite]
  split
  · rename_i htype
    obtain ⟨out', hout', hip⟩ : Fills (innerIpv4 base _ n out) m out.mirrorSrcIp :=
      fills_innerIpv4 (hipv4 htype) hl3
    exact ⟨out', ⟨Nat.not_lt.mpr hn, hout'⟩, hip⟩
  · split
    · rename_i htype
      obtain ⟨out', hout', hip⟩ : Fills (innerIpv6 base _ n out) m out.mirrorSrcIp :=
        fills_innerIpv6 (hipv6 htype) hl3
      exact ⟨out', ⟨Nat.not_lt.mpr hn, hout'⟩, hip⟩
    · exact ⟨_, ⟨Nat.not_lt.mpr hn, rfl⟩, rfl⟩

/-- A frame that is read is long enough for what it announces. -/
theorem isInner_of_innerFrame {base n : ℕ} {out out' : ParsedPacket}
    (h : (innerFrame base n out).result m = .ok out') : IsInner (m.read base n) := by
  simp only [innerFrame, result_bind_eq_ok_iff, result_failIf_eq_ok_iff, exists_const,
    result_readU16, Except.ok.injEq, exists_eq_left', Prod.exists, result_ite] at h
  obtain ⟨hn, et, l3, hvlan, hrest⟩ := h
  rw [Nat.not_lt] at hn
  obtain ⟨htag, rfl, rfl⟩ := (innerVlan_eq_ok_iff hn).mp hvlan
  have hl3 := innerL3_le (m.read base n)
  refine ⟨by rwa [length_read], by rwa [length_read], fun htype => ?_, fun htype => ?_⟩
  · rw [if_pos htype] at hrest
    simp only [innerIpv4, result_bind_eq_ok_iff, result_failIf_eq_ok_iff, exists_const,
      result_offset, Except.ok.injEq, exists_eq_left'] at hrest
    have hlen := hrest.1
    rw [u32_of_small (by omega)] at hlen
    rw [length_read]
    exact Nat.not_lt.mp hlen
  · rw [if_neg (by rw [htype]; decide), if_pos htype] at hrest
    simp only [innerIpv6, result_bind_eq_ok_iff, result_failIf_eq_ok_iff, exists_const,
      result_offset, Except.ok.injEq, exists_eq_left'] at hrest
    have hlen := hrest.1
    rw [u32_of_small (by omega)] at hlen
    rw [length_read]
    exact Nat.not_lt.mp hlen

/-- An accepted packet has a frame that the parser has read. -/
theorem innerFrame_of_parseErspan {len : ℕ} {rc : ParseOk} {parsed : ParsedPacket}
    (h : (parseErspan len).result m = .ok (rc, parsed)) :
    ∃ ip inner, (innerFrame parsed.innerPtr parsed.innerLen (.start ip)).result m = .ok inner ∧
      parsed.innerAf = inner.innerAf ∧ parsed.innerIpProto = inner.innerIpProto := by
  simp only [parseErspan, result_bind_eq_ok_iff, Prod.exists, innerDecap, ne_eq, not_true_eq_false,
    if_false, result_pure, Except.ok.injEq, Prod.mk.injEq] at h
  obtain ⟨_, _, -, l3, -, _, _, -, _, _, -, _, -, _, -, _, -, _, -, inner, hinner, -, rfl⟩ := h
  exact ⟨l3.mirrorSrcIp, inner, hinner, rfl, rfl⟩

/-! ### Lengths of the headers -/

/-- An Ethernet header has 18 bytes at most. -/
theorem IsEthernet.length_le {h : List UInt8} {et : ℕ} (heth : IsEthernet h et) : h.length ≤ 18 := by
  cases heth with
  | untagged hlength _ => omega
  | tagged hlength _ _ => omega

/-- An IPv6 extension header has 2048 bytes at most. -/
theorem IsIpv6Chain.length_le {next : UInt8} {hs : List (List UInt8)} (h : IsIpv6Chain next hs) :
    hs.flatten.length ≤ 2048 * hs.length := by
  induction h with
  | gre => simp
  | @ext next h hs head tail ih =>
    have hfield := (byteAt h 1).toNat_lt
    have hlength := head.length
    rw [List.flatten_cons, List.length_append, List.length_cons]
    omega

/-- An outer IP header has 32 KiB at most. -/
theorem OuterIp.length_bytes_le {ip : OuterIp} (h : ip.Valid) : ip.bytes.length ≤ 0x8000 := by
  cases ip with
  | v4 header =>
    have hlength : header.length = (byteAt header 0 &&& 0x0F).toNat * 4 := IsIpv4.length h
    have hihl := ihl_le (byteAt header 0)
    rw [OuterIp.bytes]
    omega
  | v6 header exts =>
    have hlength : header.length = 40 := IsIpv6.length h
    have hcount : exts.length ≤ 8 := IsIpv6.count h
    have hchain := IsIpv6Chain.length_le (IsIpv6.chain h)
    rw [OuterIp.bytes, List.length_append]
    omega

/-- The length of a payload has 16 bits. -/
theorem OuterIp.payloadLength_le (ip : OuterIp) : ip.payloadLength ≤ 65535 := by
  have hfield : ∀ h i, fieldAt h i < 65536 := fun h i => be16_lt _ _
  cases ip with
  | v4 header =>
    have := hfield header 2
    rw [OuterIp.payloadLength]
    omega
  | v6 header exts =>
    have := hfield header 4
    rw [OuterIp.payloadLength]
    omega

/-- A GRE header has 8 bytes at most. -/
theorem IsGre.length_le {h : List UInt8} (hgre : IsGre h) : h.length ≤ 8 := by
  have hlength := hgre.length
  split at hlength
  · omega
  · omega

/-- An ERSPAN header has 20 bytes at most. -/
theorem IsErspan.length_le {h : List UInt8} (herspan : IsErspan h) : h.length ≤ 20 := by
  have hlength := herspan.length
  split at hlength
  · omega
  · omega

/-! ### The packet -/

/-- The part of the mirrored frame that is there, in memory. -/
theorem inner_read {off k declared : ℕ} :
    (m.read off k).take declared = m.read off (min declared k) := by
  rcases Nat.le_total declared k with h | h
  · have hrun := m.take_drop_read off (a := 0) (b := declared) (n := k) (by omega)
    rw [List.drop_zero, Nat.add_zero] at hrun
    rw [hrun, Nat.min_eq_left h]
  · rw [List.take_of_length_le (by simpa using h), Nat.min_eq_right h]

/-- What the parser does behind the headers, once they are read: `d` is the declared length of the
frame, `n` the length that is used. -/
theorem parseErspan_headers {len et off g off₁ s off₂ d n : ℕ} {l3 : OuterL3}
    (heth : (outerEthernet len).result m = .ok (et, off))
    (hl3 : (outerL3 len et off).result m = .ok l3)
    (hgre : (gre len l3.off).result m = .ok (g, off₁))
    (herspan : (erspan len off₁).result m = .ok (s, off₂)) (hlen : len ≤ max32)
    (hpayload : l3.payloadLen ≤ max32) (hsmall : g + s ≤ 28) (hd : l3.payloadLen - (g + s) = d)
    (hn : (if d > 0 ∧ d < len - off₂ then d else len - off₂) = n) {r : ParseOk}
    {out : ParsedPacket} :
    (parseErspan len).result m = .ok (r, out) ↔
      ¬(d = 0 ∧ len - off₂ > 0) ∧ ∃ inner,
        (innerFrame off₂ n (.start l3.mirrorSrcIp)).result m = .ok inner ∧
        r = (if n < d then .innerTruncatedOk else .ok) ∧
        out = { inner with
          innerPtr := off₂
          innerLen := n
          innerTruncated := decide (n < d) } := by
  unfold parseErspan
  simp only [result_bind_eq_ok_iff, heth, hl3, hgre, herspan, Except.ok.injEq, exists_eq_left',
    result_offset, u32_of_small (show g + s ≤ 0x100000 by omega), result_excess hpayload,
    result_excess hlen, hd, hn, result_failIf_eq_ok_iff, exists_const, innerDecap, ne_eq,
    not_true_eq_false, if_false, result_pure, Prod.mk.injEq, decide_eq_true_eq]
  simp only [eq_comm]

/-- A mirrored packet that the parser accepts, put together from the bytes it read. -/
theorem exists_packet {len : ℕ} (hlen : len ≤ max32) {r : ParseOk} {out : ParsedPacket}
    (h : (parseErspan len).result m = .ok (r, out)) :
    ∃ p : MirroredPacket, p.Valid ∧ m.read 0 len = p.bytes := by
  have hsteps := h
  simp only [parseErspan, result_bind_eq_ok_iff, Prod.exists] at hsteps
  obtain ⟨et, off, heth, l3, hl3, g, off₁, hgre, s, off₂, herspan, -⟩ := hsteps
  obtain ⟨het, hoff, hethernet⟩ := outerEthernet_eq_ok_iff.mp heth
  have h18 : off ≤ 18 := by simpa using hethernet.length_le
  obtain ⟨ip, htype, hip, hholds, hiplen, rfl⟩ := (outerL3_eq_ok_iff h18 het).mp hl3
  have hiple := OuterIp.length_bytes_le hip
  have hgreOff : off + ip.bytes.length ≤ 0x80000 := by omega
  obtain ⟨hglen, hisgre, rfl⟩ := (gre_eq_ok_iff hgreOff).mp hgre
  have hg8 : g ≤ 8 := by simpa using hisgre.length_le
  obtain ⟨hslen, hiserspan, rfl⟩ := (erspan_eq_ok_iff (by omega)).mp herspan
  have hs20 : s ≤ 20 := by simpa using hiserspan.length_le
  have hpayload : ip.payloadLength ≤ max32 := Nat.le_trans ip.payloadLength_le (by decide)
  have hd₀ : (OuterL3.mk ip.mirrorSrcIp ip.payloadLength (off + ip.bytes.length)).payloadLen -
      (g + s) = ip.payloadLength - (g + s) := rfl
  obtain ⟨hdeclared, inner, hinner, -, -⟩ :=
    (parseErspan_headers heth hl3 hgre herspan hlen hpayload (by omega) hd₀ rfl).mp h
  obtain ⟨p, hp⟩ : ∃ p : MirroredPacket, p = ⟨m.read 0 off, ip, m.read (off + ip.bytes.length) g,
      m.read (off + ip.bytes.length + g) s,
      m.read (off + ip.bytes.length + g + s) (len - (off + ip.bytes.length + g + s))⟩ := ⟨_, rfl⟩
  have hd : p.declared = ip.payloadLength - (g + s) := by
    rw [hp, MirroredPacket.declared, length_read, length_read]
  have hpos : 0 < ip.payloadLength - (g + s) := by
    by_contra hzero
    -- without a declared length the frame is empty, and an empty frame is not read
    have hframe := isInner_of_innerFrame hinner
    have hethernet := hframe.ethernet
    rw [length_read] at hethernet
    split at hethernet
    · omega
    · omega
  have hframe : p.inner = m.read (off + ip.bytes.length + g + s)
      (if ip.payloadLength - (g + s) > 0 ∧ ip.payloadLength - (g + s) <
        len - (off + ip.bytes.length + g + s) then ip.payloadLength - (g + s)
        else len - (off + ip.bytes.length + g + s)) := by
    rw [MirroredPacket.inner, hd, hp, inner_read]
    congr 1
    split
    · omega
    · omega
  refine ⟨p, ⟨?_, ?_, ?_, ?_, ?_, ?_⟩, ?_⟩
  · rw [hp, htype]
    exact hethernet
  · rw [hp]
    exact hip
  · rw [hp]
    exact hisgre
  · rw [hp]
    exact hiserspan
  · rw [hd]
    exact hpos
  · rw [hframe]
    exact isInner_of_innerFrame hinner
  · have hread : m.read off ip.bytes.length = ip.bytes := hholds
    have hsplit : len = off + (ip.bytes.length + (g + s)) +
        (len - (off + ip.bytes.length + g + s)) := by omega
    calc m.read 0 len
        = m.read 0 (off + (ip.bytes.length + (g + s)) +
            (len - (off + ip.bytes.length + g + s))) := by rw [← hsplit]
      _ = m.read 0 off ++ (ip.bytes ++ (m.read (off + ip.bytes.length) g ++
            m.read (off + ip.bytes.length + g) s)) ++
            m.read (off + ip.bytes.length + g + s) (len - (off + ip.bytes.length + g + s)) := by
          rw [read_add, read_add, read_add, read_add, Nat.zero_add, Nat.zero_add, hread,
            Nat.add_assoc (off + ip.bytes.length), Nat.add_assoc off ip.bytes.length (g + s)]
      _ = p.bytes := by rw [hp, MirroredPacket.bytes, MirroredPacket.headers]

/-- How the parser ends on a mirrored packet. -/
theorem parseErspan_of_valid {len : ℕ} (hlen : len ≤ max32) {p : MirroredPacket} (hp : p.Valid)
    (hbytes : m.read 0 len = p.bytes) :
    ∃ out, (parseErspan len).result m =
        .ok (if min p.declared p.frame.length < p.declared then .innerTruncatedOk else .ok, out) ∧
      out.mirrorSrcIp = p.ip.mirrorSrcIp ∧ out.innerPtr = p.headers.length ∧
      out.innerLen = min p.declared p.frame.length ∧
      out.innerTruncated = decide (min p.declared p.frame.length < p.declared) := by
  have htotal : len = p.bytes.length := by rw [← hbytes, length_read]
  have hall : m.Holds 0 p.bytes := by rw [Holds, ← htotal, hbytes]
  rw [MirroredPacket.bytes, MirroredPacket.headers, List.length_append, List.length_append,
    List.length_append, List.length_append] at htotal
  rw [MirroredPacket.bytes, MirroredPacket.headers, holds_append, holds_append, holds_append,
    holds_append, Nat.zero_add, Nat.zero_add, List.length_append, List.length_append,
    List.length_append] at hall
  obtain ⟨⟨heth, hip, hgre, herspan⟩, hframe⟩ := hall
  have h18 := hp.ethernet.length_le
  have hiple := OuterIp.length_bytes_le hp.ip
  have hgle := hp.gre.length_le
  have hsle := hp.erspan.length_le
  have htype : p.ip.ethertype = 0x0800 ∨ p.ip.ethertype = 0x86DD := by
    cases p.ip with
    | v4 _ => exact Or.inl rfl
    | v6 _ _ => exact Or.inr rfl
  have h₁ : (outerEthernet len).result m = .ok (p.ip.ethertype, p.ethernet.length) := by
    rw [outerEthernet_eq_ok_iff]
    refine ⟨htype, by omega, ?_⟩
    rw [heth]
    exact hp.ethernet
  have h₂ : (outerL3 len p.ip.ethertype p.ethernet.length).result m =
      .ok ⟨p.ip.mirrorSrcIp, p.ip.payloadLength, p.ethernet.length + p.ip.bytes.length⟩ := by
    rw [outerL3_eq_ok_iff h18 htype]
    exact ⟨p.ip, rfl, hp.ip, hip, by omega, rfl⟩
  have h₃ : (gre len (p.ethernet.length + p.ip.bytes.length)).result m =
      .ok (p.gre.length, p.ethernet.length + p.ip.bytes.length + p.gre.length) := by
    rw [gre_eq_ok_iff (by omega)]
    refine ⟨by omega, ?_, rfl⟩
    rw [hgre]
    exact hp.gre
  have h₄ : (erspan len (p.ethernet.length + p.ip.bytes.length + p.gre.length)).result m =
      .ok (p.erspan.length,
        p.ethernet.length + p.ip.bytes.length + p.gre.length + p.erspan.length) := by
    rw [erspan_eq_ok_iff (by omega)]
    refine ⟨by omega, ?_, rfl⟩
    rw [herspan]
    exact hp.erspan
  -- the frame, and the part of it that is used
  generalize hoff : p.ethernet.length + p.ip.bytes.length + p.gre.length + p.erspan.length = off at h₄
  have hheaders : p.headers.length = off := by
    rw [MirroredPacket.headers, List.length_append, List.length_append, List.length_append]
    omega
  have hpos := hp.declared
  have hpayload : p.ip.payloadLength ≤ max32 := Nat.le_trans p.ip.payloadLength_le (by decide)
  have hn : (if p.declared > 0 ∧ p.declared < len - off then p.declared else len - off) =
      min p.declared p.frame.length := by
    split
    · omega
    · omega
  have hinner : IsInner (m.read off (min p.declared p.frame.length)) := by
    have hindex : p.ethernet.length + (p.ip.bytes.length + (p.gre.length + p.erspan.length)) = off := by
      omega
    rw [hindex] at hframe
    have hread : m.read off p.frame.length = p.frame := hframe
    rw [← inner_read, hread]
    exact hp.inner
  obtain ⟨inner, hres, hip⟩ : Fills (innerFrame off _ (.start p.ip.mirrorSrcIp)) m p.ip.mirrorSrcIp :=
    fills_innerFrame hinner
  have hd : (OuterL3.mk p.ip.mirrorSrcIp p.ip.payloadLength
      (p.ethernet.length + p.ip.bytes.length)).payloadLen - (p.gre.length + p.erspan.length) =
      p.declared := rfl
  have hnonzero : ¬(p.declared = 0 ∧ len - off > 0) := by omega
  refine ⟨_, (parseErspan_headers h₁ h₂ h₃ h₄ hlen hpayload (by omega) hd hn).mpr
    ⟨hnonzero, inner, hres, rfl, rfl⟩, hip, hheaders.symm, rfl, rfl⟩

/-- The parser accepts exactly the mirrored packets, and returns the mirror's address and the slice
of the buffer that holds the mirrored frame. -/
theorem parseErspan_accepts (m : ByteMemory) (len : UInt32) :
    ((∃ r out, (parseErspan len.toNat).result m = .ok (r, out)) ↔
      ∃ p : MirroredPacket, p.Valid ∧ m.read 0 len.toNat = p.bytes) ∧
    ∀ p : MirroredPacket, p.Valid → m.read 0 len.toNat = p.bytes →
      ∃ out, (parseErspan len.toNat).result m =
          .ok (if min p.declared p.frame.length < p.declared then .innerTruncatedOk else .ok, out) ∧
        out.mirrorSrcIp = p.ip.mirrorSrcIp ∧ out.innerPtr = p.headers.length ∧
        out.innerLen = min p.declared p.frame.length ∧
        out.innerTruncated = decide (min p.declared p.frame.length < p.declared) := by
  have hlen : len.toNat ≤ max32 := Nat.le_of_lt_succ len.toNat_lt
  refine ⟨⟨?_, ?_⟩, fun p hp hbytes => parseErspan_of_valid hlen hp hbytes⟩
  · rintro ⟨r, out, h⟩
    exact exists_packet hlen h
  · rintro ⟨p, hp, hbytes⟩
    obtain ⟨out, hres, -⟩ := parseErspan_of_valid hlen hp hbytes
    exact ⟨_, out, hres⟩

end InFMon
