import InFMon.DataPath.FlowFields
import Mathlib.Algebra.Ring.Nat

/-! # Key decoding in the front end

`ipc/types.rs` and `ipc/decode.rs`: the fields of a flow rule and their values, and the decoder of key
bytes. Indexing, slicing and subtraction panic where Rust's do. -/

namespace InFMon

/-! ### Fields and values -/

/-- `FieldId`. -/
inductive FieldId where
  | srcIp
  | dstIp
  | ipProto
  | dscp
  | mirrorSrcIp
  | srcPort
  | dstPort
  deriving DecidableEq, Repr

namespace FieldId

/-- The discriminant of a field. -/
def code : FieldId → ℕ
  | srcIp => 0
  | dstIp => 1
  | ipProto => 2
  | dscp => 3
  | mirrorSrcIp => 4
  | srcPort => 5
  | dstPort => 6

/-- The name of a field as `{:?}` prints it. -/
def debug : FieldId → String
  | srcIp => "SrcIp"
  | dstIp => "DstIp"
  | ipProto => "IpProto"
  | dscp => "Dscp"
  | mirrorSrcIp => "MirrorSrcIp"
  | srcPort => "SrcPort"
  | dstPort => "DstPort"

/-- The number of key bytes of a field. -/
def width : FieldId → ℕ
  | srcIp => 16
  | dstIp => 16
  | ipProto => 1
  | dscp => 1
  | mirrorSrcIp => 16
  | srcPort => 2
  | dstPort => 2

end FieldId

/-- `IpAddr`: the octets of an IPv4 or an IPv6 address. -/
inductive IpAddr where
  | v4 (octets : Vector UInt8 4)
  | v6 (octets : IpBytes)
  deriving DecidableEq, Repr

/-- `FieldValue`. -/
inductive FieldValue where
  | ip (addr : IpAddr)
  | proto (p : UInt8)
  | dscp (d : UInt8)
  | port (p : UInt16)
  deriving DecidableEq, Repr

/-! ### Outcomes -/

/-- How a decoder fails: with an error of its own, or with a panic. -/
inductive DecodeFailure where
  | statsFormat (message : String)
  | panic
  deriving DecidableEq, Repr

/-- `a - b` on `usize`. -/
def usizeSub (a b : ℕ) : Except DecodeFailure ℕ :=
  if b ≤ a then .ok (a - b) else .error .panic

/-- `bytes[i]`. -/
def byteIndex (bytes : List UInt8) (i : ℕ) : Except DecodeFailure UInt8 :=
  match bytes[i]? with
  | some b => .ok b
  | none => .error .panic

/-- `&bytes[a..b]`. -/
def byteSlice (bytes : List UInt8) (a b : ℕ) : Except DecodeFailure (List UInt8) :=
  if a ≤ b ∧ b ≤ bytes.length then .ok ((bytes.drop a).take (b - a)) else .error .panic

/-! ### The decoder -/

/-- The octets in front of an embedded IPv4 address. -/
def mappedPrefix : List UInt8 := List.replicate 10 0 ++ [0xFF, 0xFF]

/-- `decode_ip`: an IPv4-mapped address is an IPv4 address. -/
def decodeIp (bytes : IpBytes) : IpAddr :=
  if bytes.bytes.take 12 = mappedPrefix then .v4 (Vector.ofFn fun i => bytes.bytes.getD (12 + i) 0)
  else .v6 bytes

/-- The address fields. -/
def decodeIpField (field : FieldId) (keyBytes : List UInt8) (offset : ℕ) :
    Except DecodeFailure (FieldValue × ℕ) :=
  if offset + 16 > keyBytes.length then do
    let rest ← usizeSub keyBytes.length offset
    .error (.statsFormat ("key too short for " ++ field.debug ++ " at offset " ++ toString offset ++
      ": need 16 bytes, have " ++ toString rest))
  else do
    let bytes ← byteSlice keyBytes offset (offset + 16)
    if bytes.length = 16 then .ok (.ip (decodeIp (.ofBytes bytes)), offset + 16)
    else
      .error (.statsFormat ("failed to convert " ++ field.debug ++ " bytes at offset " ++
        toString offset))

/-- The fields of one byte. -/
def decodeByteField (field : FieldId) (value : UInt8 → FieldValue) (keyBytes : List UInt8)
    (offset : ℕ) : Except DecodeFailure (FieldValue × ℕ) :=
  if offset ≥ keyBytes.length then
    .error (.statsFormat ("key too short for " ++ field.debug ++ " at offset " ++ toString offset))
  else do
    let b ← byteIndex keyBytes offset
    .ok (value b, offset + 1)

/-- `u16::from_be_bytes`. -/
def u16FromBeBytes (hi lo : UInt8) : UInt16 := UInt16.ofNat (be16 hi lo)

/-- The port fields. -/
def decodePortField (field : FieldId) (keyBytes : List UInt8) (offset : ℕ) :
    Except DecodeFailure (FieldValue × ℕ) :=
  if offset + 2 > keyBytes.length then do
    let rest ← usizeSub keyBytes.length offset
    .error (.statsFormat ("key too short for " ++ field.debug ++ " at offset " ++ toString offset ++
      ": need 2 bytes, have " ++ toString rest))
  else do
    let hi ← byteIndex keyBytes offset
    let lo ← byteIndex keyBytes (offset + 1)
    .ok (.port (u16FromBeBytes hi lo), offset + 2)

/-- The `match` in the loop of `decode_key`: the value of a field and the offset behind it. -/
def decodeField (field : FieldId) (keyBytes : List UInt8) (offset : ℕ) :
    Except DecodeFailure (FieldValue × ℕ) :=
  match field with
  | .srcIp => decodeIpField .srcIp keyBytes offset
  | .dstIp => decodeIpField .dstIp keyBytes offset
  | .mirrorSrcIp => decodeIpField .mirrorSrcIp keyBytes offset
  | .ipProto => decodeByteField .ipProto .proto keyBytes offset
  | .dscp => decodeByteField .dscp .dscp keyBytes offset
  | .srcPort => decodePortField .srcPort keyBytes offset
  | .dstPort => decodePortField .dstPort keyBytes offset

/-- The loop of `decode_key`. -/
def decodeFrom (keyBytes : List UInt8) :
    List FieldId → ℕ → List FieldValue → Except DecodeFailure (List FieldValue × ℕ)
  | [], offset, values => .ok (values, offset)
  | field :: fields, offset, values => do
    let (value, offset) ← decodeField field keyBytes offset
    decodeFrom keyBytes fields offset (values ++ [value])

/-- `decode_key`. -/
def decodeKey (fields : List FieldId) (keyBytes : List UInt8) :
    Except DecodeFailure (List FieldValue) := do
  let (values, offset) ← decodeFrom keyBytes fields 0 []
  -- the fields must use up the key
  if offset ≠ keyBytes.length then do
    let rest ← usizeSub keyBytes.length offset
    .error (.statsFormat ("key has " ++ toString rest ++ " trailing bytes"))
  else .ok values

/-! ### What one field decodes to -/

/-- The value of a field with the given encoding. -/
def FieldId.value (field : FieldId) (bytes : List UInt8) : FieldValue :=
  match field with
  | .srcIp | .dstIp | .mirrorSrcIp => .ip (decodeIp (.ofBytes bytes))
  | .ipProto => .proto (bytes.getD 0 0)
  | .dscp => .dscp (bytes.getD 0 0)
  | .srcPort | .dstPort => .port (u16FromBeBytes (bytes.getD 0 0) (bytes.getD 1 0))

/-- A byte inside the key is read. -/
theorem byteIndex_of_lt {bytes : List UInt8} {i : ℕ} (h : i < bytes.length) :
    byteIndex bytes i = .ok (bytes.getD i 0) := by
  rw [byteIndex, List.getD_eq_getElem?_getD, List.getElem?_eq_getElem h]
  rfl

/-- The byte at an index behind an offset. -/
theorem getD_drop_take (bytes : List UInt8) {offset i n : ℕ} (hi : i < n) :
    ((bytes.drop offset).take n).getD i 0 = bytes.getD (offset + i) 0 := by
  rw [List.getD_eq_getElem?_getD, List.getElem?_take, if_pos hi, List.getElem?_drop,
    List.getD_eq_getElem?_getD]

/-- A field that is there decodes to its value. -/
theorem decodeField_of_le {field : FieldId} {bytes : List UInt8} {offset : ℕ}
    (h : offset + field.width ≤ bytes.length) : decodeField field bytes offset =
      .ok (field.value ((bytes.drop offset).take field.width), offset + field.width) := by
  -- one argument for each of the three decoders that the fields share
  have hip : ∀ f : FieldId, offset + 16 ≤ bytes.length → decodeIpField f bytes offset =
      .ok (.ip (decodeIp (.ofBytes ((bytes.drop offset).take 16))), offset + 16) := by
    intro f hle
    have hsub : offset + 16 - offset = 16 := by omega
    have hlength : ((bytes.drop offset).take 16).length = 16 := by
      rw [List.length_take, List.length_drop]
      omega
    have hslice : byteSlice bytes offset (offset + 16) = .ok ((bytes.drop offset).take 16) := by
      rw [byteSlice, if_pos ⟨by omega, hle⟩, hsub]
    rw [decodeIpField, if_neg (by omega), hslice]
    change (if ((bytes.drop offset).take 16).length = 16 then _ else _) = _
    rw [if_pos hlength]
  have hbyte : ∀ (f : FieldId) (value : UInt8 → FieldValue), offset + 1 ≤ bytes.length →
      decodeByteField f value bytes offset =
        .ok (value (((bytes.drop offset).take 1).getD 0 0), offset + 1) := by
    intro f value hle
    rw [decodeByteField, if_neg (by omega), byteIndex_of_lt (by omega),
      getD_drop_take bytes (by omega)]
    rfl
  have hport : ∀ f : FieldId, offset + 2 ≤ bytes.length → decodePortField f bytes offset =
      .ok (.port (u16FromBeBytes (((bytes.drop offset).take 2).getD 0 0)
        (((bytes.drop offset).take 2).getD 1 0)), offset + 2) := by
    intro f hle
    rw [decodePortField, if_neg (by omega), byteIndex_of_lt (by omega), byteIndex_of_lt (by omega),
      getD_drop_take bytes (by omega), getD_drop_take bytes (by omega)]
    rfl
  cases field with
  | srcIp => exact hip .srcIp h
  | dstIp => exact hip .dstIp h
  | ipProto => exact hbyte .ipProto .proto h
  | dscp => exact hbyte .dscp .dscp h
  | mirrorSrcIp => exact hip .mirrorSrcIp h
  | srcPort => exact hport .srcPort h
  | dstPort => exact hport .dstPort h

/-- A field that is not there is an error, not a panic: the offset lies in the key. -/
theorem decodeField_of_lt {field : FieldId} {bytes : List UInt8} {offset : ℕ}
    (hoffset : offset ≤ bytes.length) (h : bytes.length < offset + field.width) :
    ∃ message, decodeField field bytes offset = .error (.statsFormat message) := by
  have hsub : usizeSub bytes.length offset = .ok (bytes.length - offset) := by
    rw [usizeSub, if_pos hoffset]
  have hip : ∀ f : FieldId, bytes.length < offset + 16 →
      ∃ message, decodeIpField f bytes offset = .error (.statsFormat message) := by
    intro f hlt
    rw [decodeIpField, if_pos hlt, hsub]
    exact ⟨_, rfl⟩
  have hbyte : ∀ (f : FieldId) (value : UInt8 → FieldValue), bytes.length < offset + 1 →
      ∃ message, decodeByteField f value bytes offset = .error (.statsFormat message) := by
    intro f value hlt
    rw [decodeByteField, if_pos (Nat.le_of_lt_succ hlt)]
    exact ⟨_, rfl⟩
  have hport : ∀ f : FieldId, bytes.length < offset + 2 →
      ∃ message, decodePortField f bytes offset = .error (.statsFormat message) := by
    intro f hlt
    rw [decodePortField, if_pos hlt, hsub]
    exact ⟨_, rfl⟩
  cases field with
  | srcIp => exact hip .srcIp h
  | dstIp => exact hip .dstIp h
  | ipProto => exact hbyte .ipProto .proto h
  | dscp => exact hbyte .dscp .dscp h
  | mirrorSrcIp => exact hip .mirrorSrcIp h
  | srcPort => exact hport .srcPort h
  | dstPort => exact hport .dstPort h

/-! ### What a key decodes to -/

/-- The width of a key. -/
def fieldsWidth (fields : List FieldId) : ℕ := (fields.map FieldId.width).sum

/-- The values of a key of the right width. -/
def fieldValues : List FieldId → List UInt8 → List FieldValue
  | [], _ => []
  | field :: fields, bytes =>
    field.value (bytes.take field.width) :: fieldValues fields (bytes.drop field.width)

/-- The loop over a key that is long enough. -/
theorem decodeFrom_of_le {bytes : List UInt8} {fields : List FieldId} {offset : ℕ}
    {values : List FieldValue} (h : offset + fieldsWidth fields ≤ bytes.length) :
    decodeFrom bytes fields offset values =
      .ok (values ++ fieldValues fields (bytes.drop offset), offset + fieldsWidth fields) := by
  induction fields generalizing offset values with
  | nil => simp [decodeFrom, fieldValues, fieldsWidth]
  | cons field fields ih =>
    rw [fieldsWidth, List.map_cons, List.sum_cons] at h ⊢
    rw [decodeFrom, decodeField_of_le (by omega)]
    change decodeFrom bytes fields (offset + field.width) _ = _
    rw [ih (by rw [fieldsWidth]; omega), fieldValues, List.drop_drop, List.append_assoc,
      List.singleton_append, fieldsWidth, Nat.add_assoc]

/-- The loop over a key that is too short. -/
theorem decodeFrom_of_lt {bytes : List UInt8} {fields : List FieldId} {offset : ℕ}
    {values : List FieldValue} (hoffset : offset ≤ bytes.length)
    (h : bytes.length < offset + fieldsWidth fields) :
    ∃ message, decodeFrom bytes fields offset values = .error (.statsFormat message) := by
  induction fields generalizing offset values with
  | nil =>
    rw [fieldsWidth, List.map_nil, List.sum_nil] at h
    omega
  | cons field fields ih =>
    rw [fieldsWidth, List.map_cons, List.sum_cons] at h
    rw [decodeFrom]
    by_cases hle : offset + field.width ≤ bytes.length
    · rw [decodeField_of_le hle]
      exact ih hle (by rw [fieldsWidth]; omega)
    · obtain ⟨message, hmessage⟩ := decodeField_of_lt hoffset (Nat.lt_of_not_le hle)
      rw [hmessage]
      exact ⟨message, rfl⟩

/-- A key of the right width decodes to the values of its fields. -/
theorem decodeKey_of_length {fields : List FieldId} {bytes : List UInt8}
    (h : bytes.length = fieldsWidth fields) :
    decodeKey fields bytes = .ok (fieldValues fields bytes) := by
  have hle : 0 + fieldsWidth fields ≤ bytes.length := by omega
  rw [decodeKey, decodeFrom_of_le hle]
  change (if 0 + fieldsWidth fields ≠ bytes.length then _ else _) = _
  rw [if_neg (by omega), List.nil_append, List.drop_zero]

/-- A key of another width is an error, not a panic. -/
theorem decodeKey_of_ne {fields : List FieldId} {bytes : List UInt8}
    (h : bytes.length ≠ fieldsWidth fields) :
    ∃ message, decodeKey fields bytes = .error (.statsFormat message) := by
  rw [decodeKey]
  by_cases hlt : bytes.length < 0 + fieldsWidth fields
  · obtain ⟨message, hmessage⟩ :
        ∃ message, decodeFrom bytes fields 0 [] = .error (.statsFormat message) :=
      decodeFrom_of_lt (Nat.zero_le _) hlt
    rw [hmessage]
    exact ⟨message, rfl⟩
  · rw [decodeFrom_of_le (Nat.le_of_not_lt hlt)]
    change ∃ message, (if 0 + fieldsWidth fields ≠ bytes.length then _ else _) = _
    rw [if_pos (by omega), usizeSub, if_pos (Nat.le_of_not_lt hlt)]
    exact ⟨_, rfl⟩

end InFMon
