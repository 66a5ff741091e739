import InFMon.Parser.Erspan
import InFMon.Parser.Grammar

/-! # The outer headers

Each outer layer of the parser succeeds exactly when the bytes at its offset are a header of the
grammar, and what it returns is read off that header. -/

namespace InFMon

open TracedReader MachineWord ByteMemory

variable {m : ByteMemory} {len off : ℕ}

/-! ### Fields read from memory -/

/-- A byte of what is read, in the packet. -/
theorem byteAt_read {n i : ℕ} (hi : i < n) : byteAt (m.read off n) i = m (off + i) :=
  (m.holds_read off n).getD_eq (by simpa using hi)

/-- Two bytes of what is read, in the packet. -/
theorem fieldAt_read {n i : ℕ} (hi : i + 1 < n) :
    fieldAt (m.read off n) i = be16 (m (off + i)) (m (off + i + 1)) := by
  rw [fieldAt, byteAt_read (by omega), byteAt_read hi, Nat.add_assoc]

/-! ### Ethernet -/

/-- One VLAN tag with an Ethertype behind it, or none. -/
theorem outerVlan_eq_ok_iff {ethertype et off' : ℕ} :
    (outerVlan len ethertype 14).result m = .ok (et, off') ↔
      (ethertype = 0x8100 ∧ 18 ≤ len ∧ et = be16 (m 16) (m 17) ∧ et ≠ 0x8100 ∧ et ≠ 0x88A8 ∧
        off' = 18) ∨
      (ethertype ≠ 0x8100 ∧ ethertype ≠ 0x88A8 ∧ et = ethertype ∧ off' = 14) := by
  unfold outerVlan
  split
  · rename_i htag
    simp only [result_bind_eq_ok_iff, result_failIf_eq_ok_iff, exists_const, result_readU16,
      result_offset, Except.ok.injEq, exists_eq_left', result_pure, Prod.mk.injEq]
    rw [u32_of_small (by omega)]
    simp only [htag, ne_eq, not_true_eq_false, false_and, or_false, true_and]
    constructor
    · rintro ⟨hlen, htype, rfl, rfl⟩
      rw [not_or] at htype
      exact ⟨by omega, rfl, htype.1, htype.2, rfl⟩
    · rintro ⟨hlen, rfl, h1, h2, rfl⟩
      exact ⟨by omega, not_or.mpr ⟨h1, h2⟩, rfl, rfl⟩
  · rename_i htag
    simp only [result_bind_eq_ok_iff, result_failIf_eq_ok_iff, exists_const, Except.ok.injEq,
      result_pure, Prod.mk.injEq, htag, false_and, false_or, not_false_eq_true, true_and, ne_eq]
    rw [eq_comm (a := et), eq_comm (a := off')]

/-- The outer Ethernet header. -/
theorem outerEthernet_eq_ok_iff {et off' : ℕ} :
    (outerEthernet len).result m = .ok (et, off') ↔
      (et = 0x0800 ∨ et = 0x86DD) ∧ off' ≤ len ∧ IsEthernet (m.read 0 off') et := by
  simp only [outerEthernet, result_bind_eq_ok_iff, result_failIf_eq_ok_iff, exists_const,
    result_readU16, Except.ok.injEq, exists_eq_left', result_pure, Prod.exists, Prod.mk.injEq,
    outerVlan_eq_ok_iff]
  constructor
  · rintro ⟨hlen, et, off, hvlan, htype, rfl, rfl⟩
    refine ⟨by omega, ?_⟩
    rcases hvlan with ⟨htag, hlen', het, -, -, rfl⟩ | ⟨-, -, het, rfl⟩
    · refine ⟨hlen', .tagged (by simp) ?_ ?_⟩
      · rw [fieldAt_read (by omega), ← htag]
      · rw [fieldAt_read (by omega), het]
    · refine ⟨by omega, .untagged (by simp) ?_⟩
      rw [fieldAt_read (by omega), het]
  · rintro ⟨htype, hlen, heth⟩
    cases heth with
    | untagged hlength hfield =>
      obtain rfl : off' = 14 := by simpa using hlength
      rw [fieldAt_read (by omega)] at hfield
      refine ⟨by omega, et, 14, Or.inr ?_, by omega, rfl, rfl⟩
      rw [Nat.zero_add] at hfield
      rw [hfield]
      exact ⟨by omega, by omega, rfl, rfl⟩
    | tagged hlength htag hfield =>
      obtain rfl : off' = 18 := by simpa using hlength
      rw [fieldAt_read (by omega), Nat.zero_add] at htag hfield
      exact ⟨by omega, et, 18, Or.inl ⟨htag, hlen, hfield.symm, by omega, by omega, rfl⟩, by omega,
        rfl, rfl⟩

/-! ### The outer IP layer -/

/-- The length of an IPv4 header is at most 15 words. -/
theorem ihl_le (b : UInt8) : (b &&& 0x0F).toNat ≤ 15 := by
  rw [UInt8.toNat_and]
  exact Nat.and_le_right

/-- The length of an IPv4 header is at least 5 words where this is checked. -/
theorem ihl_ge {b : UInt8} (h : 5 ≤ b &&& 0x0F) : 5 ≤ (b &&& 0x0F).toNat :=
  UInt8.le_iff_toNat_le.mp h

/-- An IPv4 header in memory. -/
theorem isIpv4_read_iff {n : ℕ} :
    IsIpv4 (m.read off n) ↔ n = (m off &&& 0x0F).toNat * 4 ∧ m off >>> 4 = 4 ∧ 5 ≤ m off &&& 0x0F ∧
      m (off + 9) = 47 ∧ n ≤ be16 (m (off + 2)) (m (off + 2 + 1)) := by
  constructor
  · rintro ⟨hversion, hihl, hlength, hprotocol, htotal⟩
    have hn : 0 < n := by
      by_contra hn
      obtain rfl : n = 0 := by omega
      have hzero : byteAt (m.read off 0) 0 = 0 := rfl
      rw [hzero] at hversion
      exact absurd hversion (by decide)
    rw [byteAt_read hn, Nat.add_zero] at hversion hihl hlength
    rw [length_read] at hlength htotal
    have h5 := ihl_ge hihl
    rw [byteAt_read (by omega)] at hprotocol
    rw [fieldAt_read (by omega)] at htotal
    exact ⟨hlength, hversion, hihl, hprotocol, htotal⟩
  · rintro ⟨hlength, hversion, hihl, hprotocol, htotal⟩
    have h5 := ihl_ge hihl
    have h0 : byteAt (m.read off n) 0 = m off := byteAt_read (by omega)
    refine ⟨h0 ▸ hversion, h0 ▸ hihl, ?_, ?_, ?_⟩
    · rw [h0, length_read, hlength]
    · rw [byteAt_read (by omega), hprotocol]
    · rw [fieldAt_read (by omega), length_read]
      exact htotal

/-- The outer IPv4 header. -/
theorem outerIpv4_eq_ok_iff (hoff : off ≤ 18) {l3 : OuterL3} :
    (outerIpv4 len off).result m = .ok l3 ↔ ∃ n, off + n ≤ len ∧ IsIpv4 (m.read off n) ∧
      l3 = ⟨⟨.v4, (OuterIp.v4 (m.read off n)).source⟩, (OuterIp.v4 (m.read off n)).payloadLength,
        off + n⟩ := by
  have hihl := ihl_le (m off)
  have htotal := be16_lt (m (off + 2)) (m (off + 2 + 1))
  simp only [outerIpv4, result_bind_eq_ok_iff, result_failIf_eq_ok_iff, exists_const,
    result_readByte, result_readBytes, result_readU16, result_offset, result_less, Except.ok.injEq,
    exists_eq_left', result_pure, not_not, UInt8.not_lt, isIpv4_read_iff]
  rw [u32_of_small (n := (m off &&& 0x0F).toNat * 4) (by omega), u32_of_small (by omega),
    u32_of_small (by omega)]
  constructor
  · rintro ⟨-, hversion, h5, hlen, hprotocol, hle, rfl⟩
    have hge := ihl_ge h5
    refine ⟨(m off &&& 0x0F).toNat * 4, by omega, ⟨rfl, hversion, h5, hprotocol, by omega⟩, ?_⟩
    rw [OuterIp.source, take_drop_read m off (by omega), OuterIp.payloadLength, fieldAt_read (by omega),
      length_read, sub32_of_le (by omega) (by simp only [max32]; omega)]
  · rintro ⟨n, hlen, ⟨rfl, hversion, h5, hprotocol, hle⟩, rfl⟩
    have hge := ihl_ge h5
    refine ⟨by omega, hversion, h5, by omega, hprotocol, by omega, ?_⟩
    rw [OuterIp.source, take_drop_read m off (by omega), OuterIp.payloadLength, fieldAt_read (by omega),
      length_read, sub32_of_le (by omega) (by simp only [max32]; omega)]

/-- The extension headers, when GRE follows them. -/
theorem outerIpv6Ext_eq_ok_iff {room v6ExtLen ext off' : ℕ} {nextHdr : UInt8} (hlen : off ≤ len)
    (hroom : off + 2048 * room ≤ 0x80000) (hext : v6ExtLen + 2048 * room ≤ 0x80000) :
    (outerIpv6Ext len room nextHdr v6ExtLen off).result m = .ok (47, ext, off') ↔
      ∃ hs : List (List UInt8), m.Holds off hs.flatten ∧ off' ≤ len ∧ hs.length ≤ room ∧
        IsIpv6Chain nextHdr hs ∧ ext = v6ExtLen + hs.flatten.length ∧
        off' = off + hs.flatten.length := by
  induction room generalizing nextHdr v6ExtLen off with
  | zero =>
    rw [outerIpv6Ext]
    constructor
    · intro hres
      split at hres
      · simp at hres
      · -- no extension header
        simp only [result_pure, Except.ok.injEq, Prod.mk.injEq] at hres
        obtain ⟨rfl, rfl, rfl⟩ := hres
        exact ⟨[], rfl, hlen, Nat.zero_le _, .gre, rfl, rfl⟩
    · rintro ⟨hs, -, -, hcount, hchain, rfl, rfl⟩
      cases hchain with
      | gre =>
        rw [if_neg (by decide)]
        rfl
      | ext head tail => simp at hcount
  | succ room ih =>
    have hfield := (m (off + 1)).toNat_lt
    rw [outerIpv6Ext]
    constructor
    · intro hres
      split at hres
      · -- one header, and the rest of the chain
        rename_i htype
        simp only [result_bind_eq_ok_iff, result_failIf_eq_ok_iff, exists_const, result_readByte,
          result_offset, Except.ok.injEq, exists_eq_left'] at hres
        simp (disch := omega) only [u32_of_small] at hres
        obtain ⟨-, hfits, hrest⟩ := hres
        obtain ⟨hs, hholds, hle, hcount, hchain, rfl, rfl⟩ :=
          (ih (by omega) (by omega) (by omega)).mp hrest
        refine ⟨m.read off (((m (off + 1)).toNat + 1) * 8) :: hs, ?_, ?_, by simpa using hcount, ?_,
          ?_, ?_⟩
        · rw [List.flatten_cons, holds_append, length_read]
          exact ⟨m.holds_read _ _, hholds⟩
        · exact hle
        · refine .ext ⟨htype, ?_⟩ ?_
          · rw [length_read, byteAt_read (by omega)]
          · rwa [byteAt_read (by omega)]
        · rw [List.flatten_cons, List.length_append, length_read, Nat.add_assoc]
        · rw [List.flatten_cons, List.length_append, length_read, Nat.add_assoc]
      · simp only [result_pure, Except.ok.injEq, Prod.mk.injEq] at hres
        obtain ⟨rfl, rfl, rfl⟩ := hres
        exact ⟨[], rfl, hlen, Nat.zero_le _, .gre, rfl, rfl⟩
    · rintro ⟨hs, hholds, hle, hcount, hchain, rfl, rfl⟩
      cases hchain with
      | gre =>
        rw [if_neg (by decide)]
        rfl
      | @ext _ h hs head tail =>
        obtain ⟨htype, hlength⟩ := head
        rw [List.flatten_cons, holds_append] at hholds
        obtain ⟨hhead, hholds⟩ := hholds
        have hflat : (h :: hs).flatten.length = h.length + hs.flatten.length := by simp
        have h0 : byteAt h 0 = m off := hhead.getD_eq (by omega)
        have h1 : byteAt h 1 = m (off + 1) := hhead.getD_eq (by omega)
        rw [h1] at hlength
        rw [h0] at tail
        rw [if_pos htype]
        simp only [result_bind_eq_ok_iff, result_failIf_eq_ok_iff, exists_const, result_readByte,
          result_offset, Except.ok.injEq, exists_eq_left']
        simp (disch := omega) only [u32_of_small]
        rw [← hlength]
        refine ⟨by omega, by omega, ?_⟩
        rw [ih (by omega) (by omega) (by omega)]
        exact ⟨hs, hholds, hle, by simpa using hcount, tail, by omega, by omega⟩

/-- The difference is read as it is. -/
theorem result_excess {a b : ℕ} (ha : a ≤ max32) : (excess a b).result m = .ok (a - b) := by
  rw [excess, result_ite, result_less, result_pure]
  split
  · rw [sub32_of_le (by omega) ha]
  · rw [Nat.sub_eq_zero_of_le (by omega)]

/-- The chain of extension headers behind an IPv6 header. -/
theorem outerIpv6Ext_start_eq_ok_iff (hoff : off ≤ 58) (hlen : off ≤ len) {ext off' : ℕ}
    {nextHdr : UInt8} :
    (outerIpv6Ext len maxIpv6ExtHeaders nextHdr 0 off).result m = .ok (47, ext, off') ↔
      ∃ hs : List (List UInt8), m.Holds off hs.flatten ∧ off' ≤ len ∧ hs.length ≤ 8 ∧
        IsIpv6Chain nextHdr hs ∧ ext = hs.flatten.length ∧ off' = off + hs.flatten.length := by
  have hroom : off + 2048 * 8 ≤ 0x80000 := by omega
  have hext : 0 + 2048 * 8 ≤ 0x80000 := by omega
  have h : (outerIpv6Ext len 8 nextHdr 0 off).result m = .ok (47, ext, off') ↔ _ :=
    outerIpv6Ext_eq_ok_iff hlen hroom hext
  rw [maxIpv6ExtHeaders, h]
  simp only [Nat.zero_add]

/-- The outer IPv6 header and the extension headers behind it. -/
theorem outerIpv6_eq_ok_iff (hoff : off ≤ 18) {l3 : OuterL3} :
    (outerIpv6 len off).result m = .ok l3 ↔ ∃ hs : List (List UInt8),
      m.Holds (off + 40) hs.flatten ∧ off + 40 + hs.flatten.length ≤ len ∧
      IsIpv6 (m.read off 40) hs ∧
      l3 = ⟨⟨.v6, (OuterIp.v6 (m.read off 40) hs).source⟩,
        (OuterIp.v6 (m.read off 40) hs).payloadLength, off + 40 + hs.flatten.length⟩ := by
  have hpayload : be16 (m (off + 4)) (m (off + 4 + 1)) ≤ max32 :=
    Nat.le_trans (Nat.le_of_lt (be16_lt (m (off + 4)) (m (off + 4 + 1)))) (by decide)
  have h0 : byteAt (m.read off 40) 0 = m off := byteAt_read (by omega)
  have h6 : byteAt (m.read off 40) 6 = m (off + 6) := byteAt_read (by omega)
  simp only [outerIpv6, result_bind_eq_ok_iff, result_failIf_eq_ok_iff, exists_const,
    result_readByte, result_readBytes, result_readU16, result_offset, Except.ok.injEq,
    exists_eq_left', result_pure, not_not, Prod.exists, result_excess hpayload]
  simp (disch := omega) only [u32_of_small]
  constructor
  · rintro ⟨hlen, hversion, next, ext, off', hext, -, rfl, rfl⟩
    obtain ⟨hs, hholds, hle, hcount, hchain, rfl, rfl⟩ :=
      (outerIpv6Ext_start_eq_ok_iff (by omega) (Nat.not_lt.mp hlen)).mp hext
    refine ⟨hs, hholds, hle, ⟨?_, length_read .., hcount, ?_⟩, ?_⟩
    · rw [h0]
      exact hversion
    · rw [h6]
      exact hchain
    · rw [OuterIp.source, OuterIp.payloadLength, take_drop_read m off (by omega),
        fieldAt_read (by omega)]
  · rintro ⟨hs, hholds, hle, ⟨hversion, -, hcount, hchain⟩, rfl⟩
    rw [h0] at hversion
    rw [h6] at hchain
    -- the fixed header is whole, and the chain behind it is read as a chain
    have hstart : off + 40 ≤ len := by omega
    refine ⟨by omega, hversion, 47, hs.flatten.length, off + 40 + hs.flatten.length, ?_, ?_, rfl, ?_⟩
    · rw [outerIpv6Ext_start_eq_ok_iff (by omega) hstart]
      exact ⟨hs, hholds, hle, hcount, hchain, rfl, rfl⟩
    · decide
    · rw [OuterIp.source, OuterIp.payloadLength, take_drop_read m off (by omega),
        fieldAt_read (by omega)]

/-- The source address with its family. -/
def OuterIp.mirrorSrcIp : OuterIp → MirrorSrcIp
  | .v4 header => ⟨.v4, (OuterIp.v4 header).source⟩
  | .v6 header exts => ⟨.v6, (OuterIp.v6 header exts).source⟩

/-- The outer IP layer. -/
theorem outerL3_eq_ok_iff (hoff : off ≤ 18) {et : ℕ} (het : et = 0x0800 ∨ et = 0x86DD)
    {l3 : OuterL3} :
    (outerL3 len et off).result m = .ok l3 ↔ ∃ ip : OuterIp, ip.ethertype = et ∧ ip.Valid ∧
      m.Holds off ip.bytes ∧ off + ip.bytes.length ≤ len ∧
      l3 = ⟨ip.mirrorSrcIp, ip.payloadLength, off + ip.bytes.length⟩ := by
  rw [outerL3, result_ite]
  rcases het with rfl | rfl
  · rw [if_pos rfl, outerIpv4_eq_ok_iff hoff]
    constructor
    · rintro ⟨n, hlen, hip, rfl⟩
      refine ⟨.v4 (m.read off n), rfl, hip, m.holds_read off n, ?_, ?_⟩
      · simpa [OuterIp.bytes] using hlen
      · simp [OuterIp.mirrorSrcIp, OuterIp.bytes]
    · rintro ⟨ip, htype, hip, hholds, hlen, rfl⟩
      cases ip with
      | v4 h =>
        have hread : m.read off h.length = h := hholds
        refine ⟨h.length, hlen, hread.symm ▸ hip, ?_⟩
        rw [hread]
        rfl
      | v6 h hs => exact absurd htype (by simp [OuterIp.ethertype])
  · rw [if_neg (by decide), outerIpv6_eq_ok_iff hoff]
    constructor
    · rintro ⟨hs, hholds, hlen, hip, rfl⟩
      refine ⟨.v6 (m.read off 40) hs, rfl, hip, ?_, ?_, ?_⟩
      · rw [OuterIp.bytes, holds_append, length_read]
        exact ⟨m.holds_read off 40, hholds⟩
      · simp only [OuterIp.bytes, List.length_append, length_read]
        omega
      · simp [OuterIp.mirrorSrcIp, OuterIp.bytes, Nat.add_assoc]
    · rintro ⟨ip, htype, hip, hholds, hlen, rfl⟩
      cases ip with
      | v4 h => exact absurd htype (by simp [OuterIp.ethertype])
      | v6 h hs =>
        -- the fixed header has 40 bytes, so what is behind it are the extension headers
        have h40 : h.length = 40 := IsIpv6.length hip
        rw [OuterIp.bytes, holds_append, h40] at hholds
        simp only [OuterIp.bytes, List.length_append, h40] at hlen
        have hread : m.read off 40 = h := by
          rw [← h40]
          exact hholds.1
        refine ⟨hs, hholds.2, by omega, hread.symm ▸ hip, ?_⟩
        rw [hread]
        simp [OuterIp.mirrorSrcIp, OuterIp.bytes, h40, Nat.add_assoc]

end InFMon
