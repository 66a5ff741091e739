import InFMon.Api.Handler
import InFMon.Frontend.Decode

/-! # Rules and statistics of the front end

`config/model.rs` and `ipc/types.rs`: the flow rules that the front end keeps, and the statistics that
its poller hands to exporters and to the control server. A Rust string is a `String`; where it crosses
to C it is the bytes of its encoding. -/

namespace InFMon

/-! ### Texts -/

/-- `{:016x}`. -/
def hex16 (n : UInt64) : String :=
  let digits := Nat.toDigits 16 n.toNat
  String.ofList (List.replicate (16 - digits.length) '0' ++ digits)

/-- The text of an id, `{hi:016x}-{lo:016x}`. -/
def FlowRuleId.display (id : FlowRuleId) : String := hex16 id.hi ++ "-" ++ hex16 id.lo

/-- The bytes of a string. -/
def utf8Bytes (s : String) : List UInt8 := s.toList.flatMap String.utf8EncodeChar

/-- A string has at least as many bytes as characters. -/
theorem length_le_utf8Bytes (s : String) : s.length ≤ (utf8Bytes s).length := by
  rw [← String.length_toList, utf8Bytes]
  induction s.toList with
  | nil => exact Nat.zero_le _
  | cons c cs ih =>
    have hpos := Char.utf8Size_pos c
    rw [List.flatMap_cons, List.length_append, List.length_cons, String.length_utf8EncodeChar]
    omega

/-- A character has at most four bytes. -/
theorem length_utf8Bytes_le (s : String) : (utf8Bytes s).length ≤ 4 * s.length := by
  rw [← String.length_toList, utf8Bytes]
  induction s.toList with
  | nil => exact Nat.zero_le _
  | cons c cs ih =>
    have hle := Char.utf8Size_le_four c
    rw [List.flatMap_cons, List.length_append, List.length_cons, String.length_utf8EncodeChar]
    omega

/-- The bytes make up the string. -/
theorem toByteArray_utf8Bytes (s : String) : (utf8Bytes s).toByteArray = s.toByteArray :=
  String.utf8Encode_toList

/-- Strings are told apart by their bytes. -/
theorem utf8Bytes_inj {s t : String} : utf8Bytes s = utf8Bytes t ↔ s = t := by
  rw [← List.toByteArray_inj, toByteArray_utf8Bytes, toByteArray_utf8Bytes, String.toByteArray_inj]

/-- The number of bytes is the size of the string. -/
theorem length_utf8Bytes (s : String) : (utf8Bytes s).length = s.utf8ByteSize := by
  rw [← String.size_toByteArray, ← toByteArray_utf8Bytes, List.size_toByteArray]

/-- Sixteen digits are written for every number of 64 bits. -/
theorem length_hex16 (n : UInt64) : (hex16 n).length = 16 := by
  have hle : (Nat.toDigits 16 n.toNat).length ≤ 16 :=
    (Nat.length_toDigits_le_iff (by omega) (by omega)).mpr n.toNat_lt
  rw [hex16, String.length_ofList, List.length_append, List.length_replicate]
  omega

/-- The text of an id has 33 characters. -/
theorem length_display (id : FlowRuleId) : id.display.length = 33 := by
  rw [FlowRuleId.display, String.length_append, String.length_append, length_hex16, length_hex16]
  rfl

/-- The value of a lowercase hexadecimal digit. -/
def hexValue (c : Char) : ℕ := if c.toNat < 58 then c.toNat - 48 else c.toNat - 87

/-- The number that hexadecimal digits stand for. -/
def ofHex (digits : List Char) : ℕ := digits.foldl (fun n c => 16 * n + hexValue c) 0

/-- A hexadecimal digit is read back. -/
theorem hexValue_digitChar : ∀ d < 16, hexValue d.digitChar = d := by decide

/-- The digits of a number stand for it. -/
theorem ofHex_toDigits (n : ℕ) : ofHex (Nat.toDigits 16 n) = n := by
  induction n using Nat.strongRecOn with
  | ind n ih =>
    by_cases hlt : n < 16
    · rw [Nat.toDigits_of_lt_base hlt]
      exact (Nat.zero_add _).trans (hexValue_digitChar n hlt)
    · rw [Nat.toDigits_of_base_le (by omega) (by omega), ofHex, List.foldl_append]
      change 16 * ofHex (Nat.toDigits 16 (n / 16)) + hexValue (n % 16).digitChar = n
      rw [ih _ (by omega), hexValue_digitChar _ (by omega)]
      omega

/-- Numbers are told apart by their sixteen digits. -/
theorem hex16_injective : Function.Injective hex16 := by
  have hvalue : ∀ n : UInt64, ofHex (hex16 n).toList = n.toNat := by
    intro n
    have hzeros : ∀ k, (List.replicate k '0').foldl (fun n c => 16 * n + hexValue c) 0 = 0 := by
      intro k
      induction k with
      | zero => rfl
      | succ k ih => exact ih
    rw [hex16, String.toList_ofList, ofHex, List.foldl_append, hzeros]
    exact ofHex_toDigits n.toNat
  intro a b hab
  rw [← UInt64.toNat_inj, ← hvalue a, ← hvalue b, hab]

/-- Rules are told apart by the texts of their ids. -/
theorem display_injective : Function.Injective FlowRuleId.display := by
  intro a b hab
  have hchars := congrArg String.toList hab
  rw [FlowRuleId.display, FlowRuleId.display, String.toList_append, String.toList_append,
    String.toList_append, String.toList_append, List.append_assoc, List.append_assoc] at hchars
  obtain ⟨hhi, hrest⟩ := List.append_inj hchars (by
    rw [String.length_toList, String.length_toList, length_hex16, length_hex16])
  have hlo := (List.append_inj hrest rfl).2
  exact FlowRuleId.ext (hex16_injective (String.toList_inj.mp hhi))
    (hex16_injective (String.toList_inj.mp hlo))

namespace Frontend

/-! ### Rules -/

/-- `Field`. -/
inductive Field where
  | srcIp
  | dstIp
  | ipProto
  | dscp
  | mirrorSrcIp
  | srcPort
  | dstPort
  deriving DecidableEq, Repr

/-- `EvictionPolicy`. -/
inductive EvictionPolicy where
  | lruDrop
  deriving DecidableEq, Repr

/-- `FlowRule`. -/
structure FlowRule where
  name : String
  fields : List Field
  maxKeys : UInt32
  evictionPolicy : EvictionPolicy
  deriving DecidableEq, Repr

/-! ### Statistics -/

/-- `FlowCounters`. -/
structure FlowCounters where
  packets : UInt64
  bytes : UInt64
  firstSeenNs : UInt64
  lastSeenNs : UInt64
  deriving DecidableEq, Repr

/-- `FlowStats`. -/
structure FlowStats where
  key : List FieldValue
  counters : FlowCounters
  deriving DecidableEq, Repr

/-- `FlowRuleCounters`. -/
structure FlowRuleCounters where
  evictions : UInt64
  drops : UInt64
  packets : UInt64
  bytes : UInt64
  deriving DecidableEq, Repr

/-- Counters of nothing. -/
def FlowRuleCounters.zero : FlowRuleCounters := ⟨0, 0, 0, 0⟩

/-- `FlowRuleStats`. -/
structure FlowRuleStats where
  name : String
  fields : List FieldId
  maxKeys : UInt32
  evictionPolicy : EvictionPolicy
  flows : List FlowStats
  counters : FlowRuleCounters
  deriving DecidableEq, Repr

/-- `FlowStatsSnapshot`. -/
structure FlowStatsSnapshot where
  tickId : UInt64
  wallClockNs : UInt64
  monotonicNs : UInt64
  intervalNs : UInt64
  flowRules : List FlowRuleStats
  deriving DecidableEq, Repr

/-! ### Texts of values -/

/-- The text of an IPv4 address. -/
def ipv4Text (octets : Vector UInt8 4) : String :=
  ".".intercalate (octets.toList.map fun b => toString b.toNat)

/-- `segments`: the eight 16-bit groups of an IPv6 address. -/
def ipv6Segments (octets : IpBytes) : List ℕ :=
  (List.range 8).map fun i => be16 (octets.bytes.getD (2 * i) 0) (octets.bytes.getD (2 * i + 1) 0)

/-- The longest run of zero groups, the first one of these: its start and its length. `start` and
`len` are the current run, in front of group `i`. -/
def longestZeros (i start len : ℕ) (longest : ℕ × ℕ) : List ℕ → ℕ × ℕ
  | [] => longest
  | segment :: segments =>
    if segment = 0 then
      let start := if len = 0 then i else start
      let len := len + 1
      longestZeros (i + 1) start len (if len > longest.2 then (start, len) else longest) segments
    else longestZeros (i + 1) 0 0 longest segments

/-- Groups in hexadecimal with colons in between. -/
def segmentsText (segments : List ℕ) : String :=
  ":".intercalate (segments.map fun segment => String.ofList (Nat.toDigits 16 segment))

/-- The text of an IPv6 address: an IPv4-mapped one shows the IPv4 address, and the longest run of
zeros is left out. -/
def ipv6Text (octets : IpBytes) : String :=
  if octets.bytes.take 12 = mappedPrefix then
    "::ffff:" ++ ipv4Text (Vector.ofFn fun i => octets.bytes.getD (12 + i) 0)
  else
    let segments := ipv6Segments octets
    let zeros := longestZeros 0 0 0 (0, 0) segments
    if zeros.2 > 1 then
      segmentsText (segments.take zeros.1) ++ "::" ++ segmentsText (segments.drop (zeros.1 + zeros.2))
    else segmentsText segments

/-- The text of an address, for `{}` as for `{:?}`. -/
def ipText : IpAddr → String
  | .v4 octets => ipv4Text octets
  | .v6 octets => ipv6Text octets

/-- A field value as `{:?}` prints it. -/
def fieldValueDebug : FieldValue → String
  | .ip addr => "Ip(" ++ ipText addr ++ ")"
  | .proto p => "Proto(" ++ toString p.toNat ++ ")"
  | .dscp d => "Dscp(" ++ toString d.toNat ++ ")"
  | .port p => "Port(" ++ toString p.toNat ++ ")"

end Frontend

end InFMon
