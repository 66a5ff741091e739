import InFMon.Foundations.ReaderPairs
import InFMon.Parser.Accept

/-! # Snap lengths

A mirror may cut a packet off at any length. A packet that is parsed whole at one length is parsed at
every other length to the same record, as long as the declared frame is there; where it is cut off, the
parser reports a truncation, or the part of the record that the cut leaves. -/

namespace InFMon

open TracedReader MachineWord ByteMemory

/-- The errors that report a packet too short for its headers. -/
def ParseError.IsTruncation (e : ParseError) : Prop :=
  e = .outerTruncated ∨ e = .erspanTruncated ∨ e = .innerEthTruncated ∨ e = .innerL3Truncated

/-- What a cut leaves of a record: the addresses, and a part of the fields with the values they had. -/
structure ParsedPacket.CutFrom (cut out : ParsedPacket) : Prop where
  mirrorSrcIp : cut.mirrorSrcIp = out.mirrorSrcIp
  innerPtr : cut.innerPtr = out.innerPtr
  innerAf : cut.innerAf = out.innerAf
  innerIpProto : cut.innerIpProto = out.innerIpProto
  validFields : cut.validFields ||| out.validFields = out.validFields
  ports : cut.validFields &&& validPorts ≠ 0 → cut.srcPort = out.srcPort ∧ cut.dstPort = out.dstPort
  tcpFlags : cut.validFields &&& validTcpFlags ≠ 0 → cut.tcpFlags = out.tcpFlags
  tcpSeq : cut.validFields &&& validTcpSeq ≠ 0 → cut.tcpSeq = out.tcpSeq
  tcpAck : cut.validFields &&& validTcpAck ≠ 0 → cut.tcpAck = out.tcpAck
  tcpWindow : cut.validFields &&& validTcpWindow ≠ 0 → cut.tcpWindow = out.tcpWindow
  flowKeyPartial : out.flowKeyPartial = true → cut.flowKeyPartial = true

/-- Nothing need be missing. -/
theorem ParsedPacket.CutFrom.refl (out : ParsedPacket) : out.CutFrom out :=
  ⟨rfl, rfl, rfl, rfl, UInt32.or_self, fun _ => ⟨rfl, rfl⟩, fun _ => rfl, fun _ => rfl, fun _ => rfl,
    fun _ => rfl, fun h => h⟩

variable {m : ByteMemory} {n k off : ℕ}

/-- An outer header that is cut is a truncation. -/
theorem isTruncation_outer : ParseError.outerTruncated.IsTruncation := Or.inl rfl

/-- An ERSPAN header that is cut is a truncation. -/
theorem isTruncation_erspan : ParseError.erspanTruncated.IsTruncation := Or.inr (Or.inl rfl)

/-- An inner Ethernet header that is cut is a truncation. -/
theorem isTruncation_innerEth : ParseError.innerEthTruncated.IsTruncation :=
  Or.inr (Or.inr (Or.inl rfl))

/-- An inner IP header that is cut is a truncation. -/
theorem isTruncation_innerL3 : ParseError.innerL3Truncated.IsTruncation :=
  Or.inr (Or.inr (Or.inr rfl))

/-! ### The headers at two lengths -/

variable {α β : Type} {P : β → β → Prop}

/-- A length check at two lengths, in front of the rest of a layer. -/
theorem follows_check {need : ℕ} {e : ParseError} (he : e.IsTruncation)
    {f g : Unit → TracedReader ParseError β}
    (hf : Follows m ParseError.IsTruncation P (f ()) (g ())) :
    Follows m ParseError.IsTruncation P (offset need >>= fun x => failIf (n < x) e >>= f)
      (offset need >>= fun x => failIf (k < x) e >>= g) :=
  follows_bind_same fun _ => follows_failIf_bind he fun _ _ => hf

/-- On less data the outer VLAN tag is read alike, or is cut. -/
theorem follows_outerVlan (ethertype off : ℕ) :
    Follows m ParseError.IsTruncation (fun a b => b = a) (outerVlan n ethertype off)
      (outerVlan k ethertype off) := by
  unfold outerVlan
  refine follows_ite (fun _ => ?_) fun _ => follows_refl _
  exact follows_check isTruncation_outer (follows_refl _)

/-- On less data the outer Ethernet header is read alike, or is cut. -/
theorem follows_outerEthernet : Follows m ParseError.IsTruncation (fun a b => b = a)
    (outerEthernet n) (outerEthernet k) := by
  unfold outerEthernet
  refine follows_failIf_bind isTruncation_outer fun _ _ => follows_bind_same fun t => ?_
  exact (follows_outerVlan t 14).bind_eq fun v => follows_refl _

/-- On less data the outer IPv4 header is read alike, or is cut. -/
theorem follows_outerIpv4 : Follows m ParseError.IsTruncation (fun a b => b = a)
    (outerIpv4 n off) (outerIpv4 k off) := by
  unfold outerIpv4
  refine follows_check isTruncation_outer (follows_bind_same fun verIhl => ?_)
  refine follows_bind_same fun _ => follows_bind_same fun _ => follows_bind_same fun ipHdrLen => ?_
  exact follows_check isTruncation_outer (follows_refl _)

/-- The loop over the extension headers, header by header. -/
theorem follows_outerIpv6Ext (room : ℕ) (nextHdr : UInt8) (v6ExtLen off : ℕ) :
    Follows m ParseError.IsTruncation (fun a b => b = a)
      (outerIpv6Ext n room nextHdr v6ExtLen off) (outerIpv6Ext k room nextHdr v6ExtLen off) := by
  induction room generalizing nextHdr v6ExtLen off with
  | zero =>
    unfold outerIpv6Ext
    exact follows_refl _
  | succ room ih =>
    rw [outerIpv6Ext, outerIpv6Ext]
    refine follows_ite (fun _ => ?_) fun _ => follows_refl _
    refine follows_check isTruncation_outer (follows_bind_same fun extNext => ?_)
    refine follows_bind_same fun extHdrLenField => follows_bind_same fun extLen => ?_
    refine follows_check isTruncation_outer (follows_bind_same fun v6ExtLen => ?_)
    exact follows_bind_same fun off => ih extNext v6ExtLen off

/-- On less data the outer IPv6 header is read alike, or is cut. -/
theorem follows_outerIpv6 : Follows m ParseError.IsTruncation (fun a b => b = a)
    (outerIpv6 n off) (outerIpv6 k off) := by
  unfold outerIpv6
  refine follows_check isTruncation_outer (follows_bind_same fun ver => ?_)
  refine follows_bind_same fun _ => follows_bind_same fun payloadLength => ?_
  refine follows_bind_same fun nextHdr => follows_bind_same fun addr => ?_
  refine follows_bind_same fun off => ?_
  exact (follows_outerIpv6Ext _ nextHdr 0 off).bind_eq fun _ => follows_refl _

/-- On less data the outer IP header is read alike, or is cut. -/
theorem follows_outerL3 (ethertype : ℕ) : Follows m ParseError.IsTruncation (fun a b => b = a)
    (outerL3 n ethertype off) (outerL3 k ethertype off) := by
  unfold outerL3
  exact follows_ite (fun _ => follows_outerIpv4) fun _ => follows_outerIpv6

/-- On less data the GRE header is read alike, or is cut. -/
theorem follows_gre : Follows m ParseError.IsTruncation (fun a b => b = a) (gre n off)
    (gre k off) := by
  unfold gre
  refine follows_check isTruncation_outer (follows_bind_same fun greFlagsVer => ?_)
  refine follows_bind_same fun greProto => follows_bind_same fun _ => follows_bind_same fun _ => ?_
  refine follows_bind_same fun _ => follows_bind_same fun greLen => ?_
  exact follows_check isTruncation_outer (follows_refl _)

/-- On less data the ERSPAN header is read alike, or is cut. -/
theorem follows_erspan : Follows m ParseError.IsTruncation (fun a b => b = a) (erspan n off)
    (erspan k off) := by
  unfold erspan
  refine follows_check isTruncation_erspan (follows_bind_same fun erspanW0 => ?_)
  refine follows_bind_same fun erspanW2 => follows_bind_same fun _ => ?_
  refine follows_bind_same fun erspanHdrLen => ?_
  exact follows_check isTruncation_erspan (follows_refl _)

/-! ### The record at two lengths -/

/-- Another flag does not matter. -/
theorem and_of_or {v f g : UInt32} (h : f &&& g = 0) : (v ||| f) &&& g = v &&& g := by
  have hsplit : (v ||| f) &&& g = (v &&& g) ||| (f &&& g) :=
    UInt32.toBitVec_inj.mp BitVec.and_or_distrib_right
  rw [hsplit, h, UInt32.or_zero]

namespace ParsedPacket

/-- Every valid field holds what the transport header at index `l4` behind `base` says. -/
structure Reads (m : ByteMemory) (base l4 : ℕ) (out : ParsedPacket) : Prop where
  ports : out.validFields &&& validPorts ≠ 0 →
    out.srcPort = be16 (m (base + l4)) (m (base + l4 + 1)) ∧
      out.dstPort = be16 (m (base + l4 + 2)) (m (base + l4 + 2 + 1))
  tcpFlags : out.validFields &&& validTcpFlags ≠ 0 → out.tcpFlags = m (base + u32 (l4 + 13))
  tcpSeq : out.validFields &&& validTcpSeq ≠ 0 → out.tcpSeq =
    be32 (m (base + l4 + 4)) (m (base + l4 + 4 + 1)) (m (base + l4 + 4 + 2)) (m (base + l4 + 4 + 3))
  tcpAck : out.validFields &&& validTcpAck ≠ 0 → out.tcpAck =
    be32 (m (base + l4 + 8)) (m (base + l4 + 8 + 1)) (m (base + l4 + 8 + 2)) (m (base + l4 + 8 + 3))
  tcpWindow : out.validFields &&& validTcpWindow ≠ 0 →
    out.tcpWindow = be16 (m (base + l4 + 14)) (m (base + l4 + 14 + 1))

/-- A field of the header is filled in, and its flag set. -/
structure Adds (m : ByteMemory) (base l4 : ℕ) (flag : UInt32) (out out' : ParsedPacket) : Prop where
  reads : out.Reads m base l4 → out'.Reads m base l4
  validFields : out'.validFields = out.validFields ||| flag
  mirrorSrcIp : out'.mirrorSrcIp = out.mirrorSrcIp
  innerPtr : out'.innerPtr = out.innerPtr
  innerAf : out'.innerAf = out.innerAf
  innerIpProto : out'.innerIpProto = out.innerIpProto
  flowKeyPartial : out'.flowKeyPartial = out.flowKeyPartial

/-- Two records filled in from one header, the second one from a shorter frame. -/
structure Paired (m : ByteMemory) (base l4 : ℕ) (out cut : ParsedPacket) : Prop where
  reads : out.Reads m base l4
  cutReads : cut.Reads m base l4
  validFields : cut.validFields ||| out.validFields = out.validFields
  mirrorSrcIp : cut.mirrorSrcIp = out.mirrorSrcIp
  innerPtr : cut.innerPtr = out.innerPtr
  innerAf : cut.innerAf = out.innerAf
  innerIpProto : cut.innerIpProto = out.innerIpProto
  flowKeyPartial : out.flowKeyPartial = true → cut.flowKeyPartial = true

variable {base l4 : ℕ} {flag : UInt32} {out out' cut cut' : ParsedPacket}

/-- A flag of the shorter frame is a flag of the longer one. -/
theorem valid_of_subset (h : cut.validFields ||| out.validFields = out.validFields)
    (hflag : cut.validFields &&& flag ≠ 0) : out.validFields &&& flag ≠ 0 := by
  have hsplit : (cut.validFields ||| out.validFields) &&& flag =
      (cut.validFields &&& flag) ||| (out.validFields &&& flag) :=
    UInt32.toBitVec_inj.mp BitVec.and_or_distrib_right
  rw [h] at hsplit
  rw [hsplit, ne_eq, UInt32.or_eq_zero_iff]
  exact fun hzero => hflag hzero.1

/-- Two readings of one header agree where both are valid. -/
theorem Paired.cutFrom (h : Paired m base l4 out cut) : cut.CutFrom out where
  mirrorSrcIp := h.mirrorSrcIp
  innerPtr := h.innerPtr
  innerAf := h.innerAf
  innerIpProto := h.innerIpProto
  validFields := h.validFields
  ports hv := by
    have hcut := h.cutReads.ports hv
    have hout := h.reads.ports (valid_of_subset h.validFields hv)
    exact ⟨hcut.1.trans hout.1.symm, hcut.2.trans hout.2.symm⟩
  tcpFlags hv :=
    (h.cutReads.tcpFlags hv).trans (h.reads.tcpFlags (valid_of_subset h.validFields hv)).symm
  tcpSeq hv := (h.cutReads.tcpSeq hv).trans (h.reads.tcpSeq (valid_of_subset h.validFields hv)).symm
  tcpAck hv := (h.cutReads.tcpAck hv).trans (h.reads.tcpAck (valid_of_subset h.validFields hv)).symm
  tcpWindow hv :=
    (h.cutReads.tcpWindow hv).trans (h.reads.tcpWindow (valid_of_subset h.validFields hv)).symm
  flowKeyPartial := h.flowKeyPartial

/-- Nothing is valid at first. -/
theorem Paired.refl (h : out.validFields = 0) : Paired m base l4 out out := by
  have hreads : out.Reads m base l4 := by
    constructor <;> exact fun hv => absurd (by rw [h]; simp) hv
  exact ⟨hreads, hreads, UInt32.or_self, rfl, rfl, rfl, rfl, fun h => h⟩

/-- A partial flow key is no field of the header. -/
theorem Reads.setPartial (h : out.Reads m base l4) (b : Bool) :
    ({ out with flowKeyPartial := b } : ParsedPacket).Reads m base l4 :=
  ⟨h.ports, h.tcpFlags, h.tcpSeq, h.tcpAck, h.tcpWindow⟩

/-- Both flow keys are partial. -/
theorem Paired.setPartial (h : Paired m base l4 out cut) :
    Paired m base l4 { out with flowKeyPartial := true } { cut with flowKeyPartial := true } :=
  { h with
    reads := h.reads.setPartial true
    cutReads := h.cutReads.setPartial true
    flowKeyPartial := fun _ => rfl }

/-- Both frames reach to a field. -/
theorem Paired.add_both (h : Paired m base l4 out cut) (hout : Adds m base l4 flag out out')
    (hcut : Adds m base l4 flag cut cut') : Paired m base l4 out' cut' where
  reads := hout.reads h.reads
  cutReads := hcut.reads h.cutReads
  validFields := by
    rw [hout.validFields, hcut.validFields, UInt32.or_assoc, UInt32.or_comm flag, UInt32.or_assoc,
      UInt32.or_self, ← UInt32.or_assoc, h.validFields]
  mirrorSrcIp := by rw [hcut.mirrorSrcIp, hout.mirrorSrcIp, h.mirrorSrcIp]
  innerPtr := by rw [hcut.innerPtr, hout.innerPtr, h.innerPtr]
  innerAf := by rw [hcut.innerAf, hout.innerAf, h.innerAf]
  innerIpProto := by rw [hcut.innerIpProto, hout.innerIpProto, h.innerIpProto]
  flowKeyPartial := by
    rw [hcut.flowKeyPartial, hout.flowKeyPartial]
    exact h.flowKeyPartial

/-- Only the longer frame reaches to a field. -/
theorem Paired.add_left (h : Paired m base l4 out cut) (hout : Adds m base l4 flag out out') :
    Paired m base l4 out' cut where
  reads := hout.reads h.reads
  cutReads := h.cutReads
  validFields := by rw [hout.validFields, ← UInt32.or_assoc, h.validFields]
  mirrorSrcIp := by rw [hout.mirrorSrcIp, h.mirrorSrcIp]
  innerPtr := by rw [hout.innerPtr, h.innerPtr]
  innerAf := by rw [hout.innerAf, h.innerAf]
  innerIpProto := by rw [hout.innerIpProto, h.innerIpProto]
  flowKeyPartial := by
    rw [hout.flowKeyPartial]
    exact h.flowKeyPartial

/-- The ports are added to what was read, with their bit. -/
theorem adds_ports (out : ParsedPacket) : Adds m base l4 validPorts out { out with
    srcPort := be16 (m (base + l4)) (m (base + l4 + 1))
    dstPort := be16 (m (base + l4 + 2)) (m (base + l4 + 2 + 1))
    validFields := out.validFields ||| validPorts } where
  reads h := {
    ports := fun _ => ⟨rfl, rfl⟩
    tcpFlags := by rw [and_of_or (by decide)]; exact h.tcpFlags
    tcpSeq := by rw [and_of_or (by decide)]; exact h.tcpSeq
    tcpAck := by rw [and_of_or (by decide)]; exact h.tcpAck
    tcpWindow := by rw [and_of_or (by decide)]; exact h.tcpWindow }
  validFields := rfl
  mirrorSrcIp := rfl
  innerPtr := rfl
  innerAf := rfl
  innerIpProto := rfl
  flowKeyPartial := rfl

/-- The sequence number is added, with its bit. -/
theorem adds_tcpSeq (out : ParsedPacket) : Adds m base l4 validTcpSeq out { out with
    tcpSeq := be32 (m (base + l4 + 4)) (m (base + l4 + 4 + 1)) (m (base + l4 + 4 + 2))
      (m (base + l4 + 4 + 3))
    validFields := out.validFields ||| validTcpSeq } where
  reads h := {
    ports := by rw [and_of_or (by decide)]; exact h.ports
    tcpFlags := by rw [and_of_or (by decide)]; exact h.tcpFlags
    tcpSeq := fun _ => rfl
    tcpAck := by rw [and_of_or (by decide)]; exact h.tcpAck
    tcpWindow := by rw [and_of_or (by decide)]; exact h.tcpWindow }
  validFields := rfl
  mirrorSrcIp := rfl
  innerPtr := rfl
  innerAf := rfl
  innerIpProto := rfl
  flowKeyPartial := rfl

/-- The acknowledgement number is added, with its bit. -/
theorem adds_tcpAck (out : ParsedPacket) : Adds m base l4 validTcpAck out { out with
    tcpAck := be32 (m (base + l4 + 8)) (m (base + l4 + 8 + 1)) (m (base + l4 + 8 + 2))
      (m (base + l4 + 8 + 3))
    validFields := out.validFields ||| validTcpAck } where
  reads h := {
    ports := by rw [and_of_or (by decide)]; exact h.ports
    tcpFlags := by rw [and_of_or (by decide)]; exact h.tcpFlags
    tcpSeq := by rw [and_of_or (by decide)]; exact h.tcpSeq
    tcpAck := fun _ => rfl
    tcpWindow := by rw [and_of_or (by decide)]; exact h.tcpWindow }
  validFields := rfl
  mirrorSrcIp := rfl
  innerPtr := rfl
  innerAf := rfl
  innerIpProto := rfl
  flowKeyPartial := rfl

/-- The flags of TCP are added, with their bit. -/
theorem adds_tcpFlags (out : ParsedPacket) : Adds m base l4 validTcpFlags out { out with
    tcpFlags := m (base + u32 (l4 + 13))
    validFields := out.validFields ||| validTcpFlags } where
  reads h := {
    ports := by rw [and_of_or (by decide)]; exact h.ports
    tcpFlags := fun _ => rfl
    tcpSeq := by rw [and_of_or (by decide)]; exact h.tcpSeq
    tcpAck := by rw [and_of_or (by decide)]; exact h.tcpAck
    tcpWindow := by rw [and_of_or (by decide)]; exact h.tcpWindow }
  validFields := rfl
  mirrorSrcIp := rfl
  innerPtr := rfl
  innerAf := rfl
  innerIpProto := rfl
  flowKeyPartial := rfl

/-- The window is added, with its bit. -/
theorem adds_tcpWindow (out : ParsedPacket) : Adds m base l4 validTcpWindow out { out with
    tcpWindow := be16 (m (base + l4 + 14)) (m (base + l4 + 14 + 1))
    validFields := out.validFields ||| validTcpWindow } where
  reads h := {
    ports := by rw [and_of_or (by decide)]; exact h.ports
    tcpFlags := by rw [and_of_or (by decide)]; exact h.tcpFlags
    tcpSeq := by rw [and_of_or (by decide)]; exact h.tcpSeq
    tcpAck := by rw [and_of_or (by decide)]; exact h.tcpAck
    tcpWindow := fun _ => rfl }
  validFields := rfl
  mirrorSrcIp := rfl
  innerPtr := rfl
  innerAf := rfl
  innerIpProto := rfl
  flowKeyPartial := rfl

end ParsedPacket

/-! ### The frame at two lengths -/

open ParsedPacket

variable {base l4 need : ℕ} {flag : UInt32} {out cut : ParsedPacket}

/-- A field is read if the frame is long enough for it. -/
theorem result_ifReaches (field other : TracedReader ParseError ParsedPacket) :
    (ifReaches n need field other).result m =
      if n ≥ u32 need then field.result m else other.result m := by
  rw [ifReaches, result_bind, result_offset]
  exact result_ite _ _ _

/-- A field at two lengths. -/
theorem follows_ifReaches (hk : k ≤ n) {x y x' y' : TracedReader ParseError ParsedPacket}
    {P : ParsedPacket → ParsedPacket → Prop} (hboth : Follows m ParseError.IsTruncation P x x')
    (hone : Follows m ParseError.IsTruncation P x y')
    (hnone : Follows m ParseError.IsTruncation P y y') :
    Follows m ParseError.IsTruncation P (ifReaches n need x y) (ifReaches k need x' y') := by
  intro a ha
  rw [result_ifReaches] at ha ⊢
  by_cases hlong : n ≥ u32 need
  · rw [if_pos hlong] at ha
    by_cases hshort : k ≥ u32 need
    · rw [if_pos hshort]
      exact hboth a ha
    · rw [if_neg hshort]
      exact hone a ha
  · rw [if_neg hlong] at ha
    rw [if_neg (by omega)]
    exact hnone a ha

/-- A field of the TCP header, in both frames. -/
theorem follows_field (hk : k ≤ n) (h : Paired m base l4 out cut) {out' cut' : ParsedPacket}
    (hout : Adds m base l4 flag out out') (hcut : Adds m base l4 flag cut cut')
    {x x' : TracedReader ParseError ParsedPacket} (hx : x.result m = .ok out')
    (hx' : x'.result m = .ok cut') :
    Follows m ParseError.IsTruncation (Paired m base l4) (ifReaches n need x (pure out))
      (ifReaches k need x' (pure cut)) := by
  refine follows_ifReaches hk ?_ ?_ (follows_pure h)
  · exact follows_of_result hx hx' (h.add_both hout hcut)
  · exact follows_of_result hx rfl (h.add_left hout)

/-- A field of the TCP header, in the longer frame. -/
theorem follows_field_left (h : Paired m base l4 out cut) {out' : ParsedPacket}
    (hout : Adds m base l4 flag out out') {x : TracedReader ParseError ParsedPacket}
    (hx : x.result m = .ok out') :
    Follows m ParseError.IsTruncation (Paired m base l4) (ifReaches n need x (pure out))
      (pure cut) := by
  intro a ha
  rw [result_ifReaches] at ha
  split at ha
  · exact follows_of_result hx rfl (h.add_left hout) a ha
  · exact follows_pure h a ha

/-- On less data the ports are the same or missing. -/
theorem follows_extractPorts (hk : k ≤ n) (h : Paired m base l4 out cut) :
    Follows m ParseError.IsTruncation (Paired m base l4) (extractPorts base l4 n out)
      (extractPorts base l4 k cut) := by
  unfold extractPorts
  refine follows_ifReaches hk ?_ ?_ (follows_pure ?_)
  · exact follows_of_result rfl rfl (h.add_both (adds_ports out) (adds_ports cut))
  · -- without ports the record of the shorter frame is partial
    have hleft := h.add_left (adds_ports out)
    exact follows_of_result rfl rfl { hleft with
      cutReads := hleft.cutReads.setPartial true
      flowKeyPartial := fun _ => rfl }
  · exact h.setPartial

/-- The TCP fields in both frames. -/
theorem follows_extractTcp (hk : k ≤ n) (h : Paired m base l4 out cut) :
    Follows m ParseError.IsTruncation (Paired m base l4) (extractTcp base l4 n out)
      (extractTcp base l4 k cut) := by
  unfold extractTcp
  refine Follows.bind (follows_field hk h (adds_tcpSeq out) (adds_tcpSeq cut) rfl rfl)
    fun out cut h => ?_
  refine Follows.bind (follows_field hk h (adds_tcpAck out) (adds_tcpAck cut) rfl rfl)
    fun out cut h => ?_
  refine Follows.bind (follows_field hk h (adds_tcpFlags out) (adds_tcpFlags cut) rfl rfl)
    fun out cut h => ?_
  exact follows_field hk h (adds_tcpWindow out) (adds_tcpWindow cut) rfl rfl

/-- The TCP fields in the longer frame, when the shorter one ends in front of them. -/
theorem follows_extractTcp_left (h : Paired m base l4 out cut) :
    Follows m ParseError.IsTruncation (Paired m base l4) (extractTcp base l4 n out)
      (pure cut) := by
  unfold extractTcp
  refine Follows.bind_left (follows_field_left h (adds_tcpSeq out) rfl) fun out h => ?_
  refine Follows.bind_left (follows_field_left h (adds_tcpAck out) rfl) fun out h => ?_
  refine Follows.bind_left (follows_field_left h (adds_tcpFlags out) rfl) fun out h => ?_
  exact follows_field_left h (adds_tcpWindow out) rfl

/-- The transport header: if the shorter frame reaches to the ports, so does the longer one. -/
theorem follows_extractInnerL4 (hk : k ≤ n) (innerIpProto : UInt8)
    (h : Paired m base l4 out cut) :
    Follows m ParseError.IsTruncation (Paired m base l4)
      (extractInnerL4 base l4 n innerIpProto out) (extractInnerL4 base l4 k innerIpProto cut) := by
  unfold extractInnerL4
  refine follows_ite (fun _ => ?_) fun _ => follows_pure ?_
  · refine (follows_extractPorts hk h).bind fun out cut h => ?_
    by_cases hcut : innerIpProto = 6 ∧ cut.validFields &&& validPorts ≠ 0
    · rw [if_pos hcut, if_pos ⟨hcut.1, valid_of_subset h.validFields hcut.2⟩]
      exact follows_extractTcp hk h
    · rw [if_neg hcut]
      by_cases hout : innerIpProto = 6 ∧ out.validFields &&& validPorts ≠ 0
      · rw [if_pos hout]
        exact follows_extractTcp_left h
      · rw [if_neg hout]
        exact follows_pure h
  · exact h.setPartial

/-- On less data the inner VLAN tag is read alike, or is cut. -/
theorem follows_innerVlan (innerEthertype innerL3Off : ℕ) :
    Follows m ParseError.IsTruncation (fun a b => b = a) (innerVlan base n innerEthertype innerL3Off)
      (innerVlan base k innerEthertype innerL3Off) := by
  unfold innerVlan
  refine follows_ite (fun _ => ?_) fun _ => follows_refl _
  exact follows_check isTruncation_innerL3 (follows_refl _)

variable (hvalid : out.validFields = 0)

include hvalid

/-- On less data the fields of inner IPv4 are the same or missing, or the header is cut. -/
theorem follows_innerIpv4 (hk : k ≤ n) (innerL3Off : ℕ) :
    Follows m ParseError.IsTruncation (fun out cut => cut.CutFrom out)
      (innerIpv4 base innerL3Off n out) (innerIpv4 base innerL3Off k out) := by
  unfold innerIpv4
  refine follows_check isTruncation_innerL3 (follows_bind_same fun _ => ?_)
  refine follows_bind_same fun innerIpProto => follows_bind_same fun verIhl => ?_
  dsimp only
  refine follows_ite (fun _ => follows_pure (.refl _)) fun _ => ?_
  refine follows_bind_same fun innerIpHdrLen => follows_bind_same fun innerL4Off => ?_
  refine Follows.mono (follows_extractInnerL4 hk innerIpProto ?_) fun _ _ h => h.cutFrom
  exact Paired.refl hvalid

/-- On less data the fields of inner IPv6 are the same or missing, or the header is cut. -/
theorem follows_innerIpv6 (hk : k ≤ n) (innerL3Off : ℕ) :
    Follows m ParseError.IsTruncation (fun out cut => cut.CutFrom out)
      (innerIpv6 base innerL3Off n out) (innerIpv6 base innerL3Off k out) := by
  unfold innerIpv6
  refine follows_check isTruncation_innerL3 (follows_bind_same fun _ => ?_)
  refine follows_bind_same fun innerIpProto => follows_bind_same fun innerL4Off => ?_
  refine Follows.mono (follows_extractInnerL4 hk innerIpProto ?_) fun _ _ h => h.cutFrom
  exact Paired.refl hvalid

/-- The mirrored frame. -/
theorem follows_innerFrame (hk : k ≤ n) :
    Follows m ParseError.IsTruncation (fun out cut => cut.CutFrom out)
      (innerFrame base n out) (innerFrame base k out) := by
  unfold innerFrame
  refine follows_failIf_bind isTruncation_innerEth fun _ _ => follows_bind_same fun t => ?_
  refine (follows_innerVlan t 14).bind_eq fun v => ?_
  dsimp only
  refine follows_ite (fun _ => follows_innerIpv4 hvalid hk _) fun _ => ?_
  refine follows_ite (fun _ => follows_innerIpv6 hvalid hk _) fun _ => follows_pure (.refl _)

omit hvalid

/-! ### The packet at two lengths -/

/-- Two lengths exceed a third one by their differences to it. -/
theorem follows_excess {a b c : ℕ} (ha : a ≤ max32) (hb : b ≤ max32) :
    Follows m ParseError.IsTruncation (fun x y => x = a - c ∧ y = b - c) (excess a c)
      (excess b c) :=
  follows_of_result (result_excess ha) (result_excess hb) ⟨rfl, rfl⟩

/-- The parser at two lengths: where the shorter one ends inside the declared frame, it reports that
or a truncated header. -/
theorem follows_parseErspan (hn : n ≤ max32) (hk : k ≤ n) :
    Follows m ParseError.IsTruncation
      (fun a b => a.1 = .ok → k < a.2.innerPtr + a.2.innerLen →
        b.1 = .innerTruncatedOk ∧ b.2.CutFrom a.2)
      (parseErspan n) (parseErspan k) := by
  unfold parseErspan
  refine follows_outerEthernet.bind_eq fun eth => ?_
  refine (follows_outerL3 eth.1).bind_eq fun l3 => follows_gre.bind_eq fun g => ?_
  refine follows_erspan.bind_eq fun s => follows_bind_same fun overheadAfterIp => ?_
  refine follows_bind_same fun d => ?_
  refine (follows_excess hn (Nat.le_trans hk hn)).bind fun actual actualCut hactual => ?_
  obtain ⟨rfl, rfl⟩ := hactual
  refine follows_failIf_bind isTruncation_outer fun hdeclared _ => ?_
  simp only [innerDecap, ne_eq, not_true_eq_false, if_false]
  generalize hlen : (if d > 0 ∧ d < n - s.2 then d else n - s.2) = len
  generalize hcutLen : (if d > 0 ∧ d < k - s.2 then d else k - s.2) = cutLen
  have hle : cutLen ≤ len := by
    split at hlen <;> split at hcutLen <;> omega
  have hstart : Follows m ParseError.IsTruncation (fun out cut => cut.CutFrom out)
      (innerFrame s.2 len (.start l3.mirrorSrcIp)) (innerFrame s.2 cutLen (.start l3.mirrorSrcIp)) :=
    follows_innerFrame rfl hle
  have hframe := hstart.strengthen fun _ h => isInner_of_innerFrame h
  refine hframe.bind fun out cut hcut => follows_pure ?_
  intro hok hinside
  dsimp only at hok hinside ⊢
  have hlong := hcut.2.ethernet
  rw [length_read] at hlong
  have hwhole : ¬ len < d := by
    intro hlt
    rw [if_pos (decide_eq_true hlt)] at hok
    cases hok
  -- the longer frame is the declared one, and the shorter one ends inside of it
  have hshort : cutLen < d := by
    split at hlen <;> split at hcutLen <;> omega
  rw [if_pos (decide_eq_true hshort)]
  exact ⟨rfl, { hcut.1 with innerPtr := rfl }⟩

/-- A frame that is there as declared is there as declared at every length that reaches behind it. -/
theorem frameLen_eq {d a b len : ℕ} (hlen : (if d > 0 ∧ d < a then d else a) = len)
    (hwhole : ¬ len < d) (hdeclared : ¬(d = 0 ∧ a > 0)) (hlong : 14 ≤ len) (hb : len ≤ b) :
    0 < d ∧ (if d > 0 ∧ d < b then d else b) = len := by
  split at hlen <;> split <;> omega

/-- At every length that reaches behind the declared frame the record is the same. -/
theorem parseErspan_of_reaches (hn : n ≤ max32) (hk : k ≤ max32) {out : ParsedPacket}
    (h : (parseErspan n).result m = .ok (.ok, out)) (hreaches : out.innerPtr + out.innerLen ≤ k) :
    (parseErspan k).result m = .ok (.ok, out) := by
  have hsteps := h
  simp only [parseErspan, result_bind_eq_ok_iff, Prod.exists] at hsteps
  obtain ⟨et, off, heth, l3, hl3, g, off₁, hgre, s, off₂, herspan, -⟩ := hsteps
  obtain ⟨het, hoff, hethernet⟩ := outerEthernet_eq_ok_iff.mp heth
  have h18 : off ≤ 18 := by simpa using hethernet.length_le
  obtain ⟨ip, htype, hip, hholds, hiplen, rfl⟩ := (outerL3_eq_ok_iff h18 het).mp hl3
  have hiple := OuterIp.length_bytes_le hip
  have hgreOff : off + ip.bytes.length ≤ 0x80000 := by omega
  obtain ⟨hglen, hisgre, rfl⟩ := (gre_eq_ok_iff hgreOff).mp hgre
  have hg8 : g ≤ 8 := by simpa using hisgre.length_le
  obtain ⟨hslen, hiserspan, rfl⟩ := (erspan_eq_ok_iff (by omega)).mp herspan
  have hs20 : s ≤ 20 := by simpa using hiserspan.length_le
  have hpayload : ip.payloadLength ≤ max32 := Nat.le_trans ip.payloadLength_le (by decide)
  have hd : (OuterL3.mk ip.mirrorSrcIp ip.payloadLength (off + ip.bytes.length)).payloadLen -
      (g + s) = ip.payloadLength - (g + s) := rfl
  obtain ⟨len, hlen⟩ : ∃ len, (if ip.payloadLength - (g + s) > 0 ∧ ip.payloadLength - (g + s) <
      n - (off + ip.bytes.length + g + s) then ip.payloadLength - (g + s)
      else n - (off + ip.bytes.length + g + s)) = len := ⟨_, rfl⟩
  obtain ⟨hdeclared, inner, hinner, hr, rfl⟩ :=
    (parseErspan_headers heth hl3 hgre herspan hn hpayload (by omega) hd hlen).mp h
  have hlong := (isInner_of_innerFrame hinner).ethernet
  rw [length_read] at hlong
  dsimp only at hreaches
  have hwhole : ¬ len < ip.payloadLength - (g + s) := by
    intro hlt
    rw [if_pos hlt] at hr
    cases hr
  -- the headers and the frame are the same at both lengths
  have heth' : (outerEthernet k).result m = .ok (et, off) :=
    outerEthernet_eq_ok_iff.mpr ⟨het, by omega, hethernet⟩
  have hl3' : (outerL3 k et off).result m = _ :=
    (outerL3_eq_ok_iff h18 het).mpr ⟨ip, htype, hip, hholds, by omega, rfl⟩
  have hgre' : (gre k (off + ip.bytes.length)).result m = _ :=
    (gre_eq_ok_iff hgreOff).mpr ⟨by omega, hisgre, rfl⟩
  have herspan' : (erspan k (off + ip.bytes.length + g)).result m = _ :=
    (erspan_eq_ok_iff (by omega)).mpr ⟨by omega, hiserspan, rfl⟩
  obtain ⟨hpos, hlen'⟩ := frameLen_eq (b := k - (off + ip.bytes.length + g + s)) hlen hwhole
    hdeclared hlong (by omega)
  refine (parseErspan_headers heth' hl3' hgre' herspan' hk hpayload (by omega) hd hlen').mpr ?_
  exact ⟨by omega, inner, hinner, hr, rfl⟩

/-- A packet parsed whole is a mirrored packet whose declared frame lies inside the buffer. At every
length that reaches behind this frame the result and the record are the same; at every other length
the parser reports a truncated frame with what the cut leaves of the record, or a truncated header. -/
theorem snap_length_only_truncates (b : ByteMemory) (n : UInt32) (out : ParsedPacket)
    (h : (parseErspan n.toNat).result b = .ok (.ok, out)) :
    ∃ p : MirroredPacket, p.Valid ∧ b.read 0 n.toNat = p.bytes ∧ out.innerPtr = p.headers.length ∧
      out.innerLen = p.declared ∧ p.headers.length + p.declared ≤ n.toNat ∧ ∀ k : UInt32,
        (p.headers.length + p.declared ≤ k.toNat →
          (parseErspan k.toNat).result b = .ok (.ok, out)) ∧
        (k.toNat < p.headers.length + p.declared →
          (∃ e, (parseErspan k.toNat).result b = .error e ∧ e.IsTruncation) ∨
          ∃ cut, (parseErspan k.toNat).result b = .ok (.innerTruncatedOk, cut) ∧
            cut.CutFrom out) := by
  have hn : n.toNat ≤ max32 := Nat.le_of_lt_succ n.toNat_lt
  obtain ⟨p, hp, hbytes⟩ := exists_packet hn h
  obtain ⟨out', hres, -, hptr, hlen, -⟩ := parseErspan_of_valid hn hp hbytes
  rw [h] at hres
  obtain ⟨hok, rfl⟩ := Prod.mk.inj (Except.ok.inj hres)
  have hwhole : ¬ min p.declared p.frame.length < p.declared := by
    intro hlt
    rw [if_pos hlt] at hok
    cases hok
  have hdeclared : out.innerLen = p.declared := by omega
  have htotal : n.toNat = p.headers.length + p.frame.length := by
    rw [← List.length_append, ← MirroredPacket.bytes, ← hbytes, length_read]
  have hinside : p.headers.length + p.declared ≤ n.toNat := by omega
  refine ⟨p, hp, hbytes, hptr, hdeclared, hinside, fun k => ⟨fun hk => ?_, fun hk => ?_⟩⟩
  · exact parseErspan_of_reaches hn (Nat.le_of_lt_succ k.toNat_lt) h (by omega)
  · refine (follows_parseErspan hn (by omega) _ h).imp_right ?_
    rintro ⟨⟨r, cut⟩, hres, hcut⟩
    obtain ⟨rfl, hcut⟩ := hcut rfl (by rw [hptr, hdeclared]; exact hk)
    exact ⟨cut, hres, hcut⟩

/-- A mirrored UDP datagram, with four bytes of padding behind the mirrored frame. -/
def mirroredDatagram : List UInt8 :=
  -- Ethernet, IPv4, GRE and ERSPAN
  List.replicate 12 2 ++ [0x08, 0x00] ++
  [0x45, 0, 0, 78, 0, 0, 0, 0, 64, 47, 0, 0, 192, 0, 2, 1, 192, 0, 2, 9] ++
  [0, 0, 0x22, 0xEB] ++ [0x20, 0, 0, 0, 0, 0, 0, 0, 0, 0, 0, 0] ++
  -- Ethernet, IPv4 and UDP of the mirrored frame, and the padding
  List.replicate 12 4 ++ [0x08, 0x00] ++
  [0x45, 0, 0, 28, 0, 0, 0, 0, 64, 17, 0, 0, 10, 0, 0, 1, 10, 0, 0, 2] ++
  [0x04, 0xD2, 0, 53, 0, 8, 0, 0] ++ [0xAA, 0xBB, 0xCC, 0xDD]

/-- Without its padding the datagram is parsed to the same record, and cut inside its ports to the
addresses alone. -/
theorem datagram_cut : ∃ out : ParsedPacket, out.srcPort = 1234 ∧
    (parseErspan 92).result (fun i => mirroredDatagram.getD i 0) = .ok (.ok, out) ∧
    ∃ cut : ParsedPacket,
      (parseErspan 85).result (fun i => mirroredDatagram.getD i 0) = .ok (.innerTruncatedOk, cut) ∧
      cut.CutFrom out ∧ cut.validFields = 0 := by
  obtain ⟨p, -, -, hptr, hlen, -, hcuts⟩ :=
    snap_length_only_truncates (fun i => mirroredDatagram.getD i 0) 96
      ⟨50, 42, false, ⟨.v4, [192, 0, 2, 1]⟩, 1, 1234, 53, 0, 0, 0, 0, false, 17, .v4⟩
      (by decide +kernel)
  have hreach : p.headers.length + p.declared = 92 := by
    rw [← hptr, ← hlen]
    rfl
  have hcut : (parseErspan (85 : UInt32).toNat).result (fun i => mirroredDatagram.getD i 0) =
      .ok (.innerTruncatedOk, ⟨50, 35, true, ⟨.v4, [192, 0, 2, 1]⟩, 0, 0, 0, 0, 0, 0, 0, true, 17,
        .v4⟩) := by
    decide +kernel
  have hshort : (85 : UInt32).toNat < p.headers.length + p.declared := by
    rw [hreach]
    decide
  refine ⟨_, rfl, (hcuts 92).1 (Nat.le_of_eq hreach), _, hcut, ?_, rfl⟩
  rcases (hcuts 85).2 hshort with ⟨e, herror, -⟩ | ⟨cut, hres, hfrom⟩
  · rw [hcut] at herror
    cases herror
  · rw [hcut] at hres
    cases hres
    exact hfrom

end InFMon
