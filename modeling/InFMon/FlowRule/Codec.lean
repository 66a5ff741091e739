import InFMon.FlowRule.Key
import InFMon.Frontend.Decode

/-! # The key codec

The encoder of the back end and the decoder of the front end, which share nothing but the numbering of
the fields: what one writes the other reads, and a key tells two records apart exactly when they differ
in a listed field. -/

namespace InFMon

open ByteMemory

/-! ### Values of a record -/

/-- The value of a field of a record, as the front end shows it. -/
def FlowFields.value (fields : FlowFields) : FieldId → FieldValue
  | .srcIp => .ip (decodeIp fields.srcIp)
  | .dstIp => .ip (decodeIp fields.dstIp)
  | .ipProto => .proto fields.ipProto
  | .dscp => .dscp (fields.dscp &&& 0x3F)
  | .mirrorSrcIp => .ip (decodeIp fields.mirrorSrcIp)
  | .srcPort => .port fields.srcPort
  | .dstPort => .port fields.dstPort

/-- Two records agree on a field; of the DSCP only six bits count. -/
def FlowFields.Agree (a b : FlowFields) : ℕ → Prop
  | 0 => a.srcIp = b.srcIp
  | 1 => a.dstIp = b.dstIp
  | 2 => a.ipProto = b.ipProto
  | 3 => a.dscp.toNat % 64 = b.dscp.toNat % 64
  | 4 => a.mirrorSrcIp = b.mirrorSrcIp
  | 5 => a.srcPort = b.srcPort
  | 6 => a.dstPort = b.dstPort
  | _ => True

/-- Two records agree on a field when they encode it alike. -/
theorem fieldBytes_eq_iff (a b : FlowFields) (field : ℕ) :
    fieldBytes a field = fieldBytes b field ↔ a.Agree b field := by
  have hip : ∀ {x y : IpBytes}, x.bytes = y.bytes ↔ x = y :=
    ⟨IpBytes.bytes_injective, fun h => by rw [h]⟩
  have hport : ∀ {x y : UInt16}, portBytes x = portBytes y ↔ x = y :=
    ⟨portBytes_injective, fun h => by rw [h]⟩
  have hdscp : ∀ x : UInt8, (x &&& 0x3F).toNat = x.toNat % 64 := by
    intro x
    rw [UInt8.toNat_and]
    exact Nat.and_two_pow_sub_one_eq_mod x.toNat 6
  match field with
  | 0 => exact hip
  | 1 => exact hip
  | 2 => simp [fieldBytes, FlowFields.Agree]
  | 3 => simp only [fieldBytes, FlowFields.Agree, List.cons.injEq, and_true, ← UInt8.toNat_inj, hdscp]
  | 4 => exact hip
  | 5 => exact hport
  | 6 => exact hport
  | _ + 7 => simp [fieldBytes, FlowFields.Agree]

/-! ### Addresses -/

/-- An address is read back from its bytes. -/
theorem IpBytes.ofBytes_bytes (ip : IpBytes) : IpBytes.ofBytes ip.bytes = ip :=
  IpBytes.bytes_injective (IpBytes.bytes_ofBytes ip.length_bytes)

/-- The bytes of an IPv4-mapped address. -/
theorem IpBytes.bytes_v4Mapped {octets : List UInt8} (h : octets.length = 4) :
    (IpBytes.v4Mapped octets).bytes = mappedPrefix ++ octets := by
  unfold IpBytes.v4Mapped
  rw [IpBytes.bytes_ofBytes]
  · rfl
  · simp [h]

/-- The list of the octets of a four-byte vector. -/
theorem toList_ofFn_octets (bytes : List UInt8) :
    (Vector.ofFn fun i : Fin 4 => bytes.getD (12 + i) 0).toList =
      [bytes.getD 12 0, bytes.getD 13 0, bytes.getD 14 0, bytes.getD 15 0] := by
  rfl

/-- An address is known by what it decodes to. -/
theorem decodeIp_injective {a b : IpBytes} (h : decodeIp a = decodeIp b) : a = b := by
  unfold decodeIp at h
  split at h
  · rename_i ha
    split at h
    · rename_i hb
      have hoctets := congrArg Vector.toList (IpAddr.v4.inj h)
      rw [toList_ofFn_octets, toList_ofFn_octets] at hoctets
      apply IpBytes.bytes_injective
      rw [← List.take_append_drop 12 a.bytes, ← List.take_append_drop 12 b.bytes, ha, hb]
      congr 1
      have hdrop : ∀ ip : IpBytes, ip.bytes.drop 12 = [ip.bytes.getD 12 0, ip.bytes.getD 13 0,
          ip.bytes.getD 14 0, ip.bytes.getD 15 0] := by
        intro ip
        have hlength := ip.length_bytes
        apply List.ext_getElem
        · rw [List.length_drop, hlength]
          rfl
        · intro i hi hi'
          rw [List.getElem_drop]
          simp only [List.length_cons, List.length_nil] at hi'
          have hcases : i = 0 ∨ i = 1 ∨ i = 2 ∨ i = 3 := by omega
          rcases hcases with rfl | rfl | rfl | rfl
          all_goals simp [List.getD_eq_getElem?_getD, hlength]
      rw [hdrop, hdrop, hoctets]
    · exact absurd h (by simp)
  · split at h
    · exact absurd h (by simp)
    · exact IpAddr.v6.inj h

/-- An IPv4-mapped address decodes to the IPv4 address in it. -/
theorem decodeIp_v4Mapped (a b c d : UInt8) :
    decodeIp (.v4Mapped [a, b, c, d]) = .v4 #v[a, b, c, d] := by
  have hbytes : (IpBytes.v4Mapped [a, b, c, d]).bytes = _ := IpBytes.bytes_v4Mapped rfl
  have htake : (mappedPrefix ++ [a, b, c, d]).take 12 = mappedPrefix := rfl
  unfold decodeIp
  rw [hbytes, if_pos htake]
  rfl

/-- Any other address is an IPv6 address. -/
theorem decodeIp_of_ne {ip : IpBytes} (h : ∀ a b c d, ip ≠ .v4Mapped [a, b, c, d]) :
    decodeIp ip = .v6 ip := by
  unfold decodeIp
  apply if_neg
  intro htake
  have hlength := ip.length_bytes
  have hdrop : (ip.bytes.drop 12).length = 4 := by
    rw [List.length_drop, hlength]
  obtain ⟨a, b, c, d, hoctets⟩ : ∃ a b c d, ip.bytes.drop 12 = [a, b, c, d] := by
    match ip.bytes.drop 12, hdrop with
    | [a, b, c, d], _ => exact ⟨a, b, c, d, rfl⟩
  apply h a b c d
  apply IpBytes.bytes_injective
  rw [IpBytes.bytes_v4Mapped rfl, ← htake, ← hoctets, List.take_append_drop]

/-! ### Values of a key -/

/-- The code of a field is below their number. -/
theorem FieldId.code_lt (field : FieldId) : field.code < fieldCountMax := by
  cases field
  all_goals decide

/-- Both sides have the same widths. -/
theorem FieldId.width_eq (field : FieldId) : fieldWidth field.code = field.width := by
  cases field
  all_goals rfl

/-- Every field that exists is a `FieldId`. -/
theorem exists_fieldIds {list : List ℕ} (h : ∀ f ∈ list, f < fieldCountMax) :
    ∃ ids : List FieldId, ids.map FieldId.code = list := by
  induction list with
  | nil => exact ⟨[], rfl⟩
  | cons field rest ih =>
    obtain ⟨ids, hids⟩ := ih fun f hf => h f (List.mem_cons_of_mem field hf)
    obtain ⟨id, hid⟩ : ∃ id : FieldId, id.code = field := by
      obtain rfl | rfl | rfl | rfl | rfl | rfl | rfl := field_cases (h field List.mem_cons_self)
      · exact ⟨.srcIp, rfl⟩
      · exact ⟨.dstIp, rfl⟩
      · exact ⟨.ipProto, rfl⟩
      · exact ⟨.dscp, rfl⟩
      · exact ⟨.mirrorSrcIp, rfl⟩
      · exact ⟨.srcPort, rfl⟩
      · exact ⟨.dstPort, rfl⟩
    exact ⟨id :: ids, by rw [List.map_cons, hid, hids]⟩

/-- A field of a record decodes to its value. -/
theorem value_fieldBytes (fields : FlowFields) (field : FieldId) :
    field.value (fieldBytes fields field.code) = fields.value field := by
  have hport : ∀ port : UInt16,
      u16FromBeBytes (port >>> 8).toUInt8 (port &&& 0xFF).toUInt8 = port := by
    intro port
    rw [u16FromBeBytes, be16_portBytes]
    exact UInt16.ofNat_toNat
  have hip : ∀ ip : IpBytes, FieldValue.ip (decodeIp (.ofBytes ip.bytes)) = .ip (decodeIp ip) := by
    intro ip
    rw [IpBytes.ofBytes_bytes]
  cases field with
  | srcIp => exact hip fields.srcIp
  | dstIp => exact hip fields.dstIp
  | ipProto => rfl
  | dscp => rfl
  | mirrorSrcIp => exact hip fields.mirrorSrcIp
  | srcPort => exact congrArg FieldValue.port (hport fields.srcPort)
  | dstPort => exact congrArg FieldValue.port (hport fields.dstPort)

/-- The key of a record decodes to its values. -/
theorem fieldValues_keyBytes (fields : FlowFields) (ids : List FieldId) :
    fieldValues ids (keyBytes fields (ids.map FieldId.code)) = ids.map fields.value := by
  induction ids with
  | nil => rfl
  | cons field ids ih =>
    have hlength : (fieldBytes fields field.code).length = field.width := by
      rw [length_fieldBytes fields field.code_lt, field.width_eq]
    rw [List.map_cons, keyBytes, List.flatMap_cons, fieldValues, List.take_left' hlength,
      List.drop_left' hlength, value_fieldBytes, List.map_cons]
    rw [keyBytes] at ih
    rw [ih]

/-- The key of a record has the width the front end expects. -/
theorem length_keyBytes_map_code (fields : FlowFields) (ids : List FieldId) :
    (keyBytes fields (ids.map FieldId.code)).length = fieldsWidth ids := by
  induction ids with
  | nil => rfl
  | cons field ids ih =>
    rw [keyBytes] at ih
    rw [List.map_cons, keyBytes, List.flatMap_cons, List.length_append, ih,
      length_fieldBytes fields field.code_lt, field.width_eq, fieldsWidth, fieldsWidth,
      List.map_cons, List.sum_cons]

/-- Ports are told apart by their bytes. -/
theorem u16FromBeBytes_injective {a b c d : UInt8} (h : u16FromBeBytes a b = u16FromBeBytes c d) :
    a = c ∧ b = d := by
  have ha := a.toNat_lt
  have hb := b.toNat_lt
  have hc := c.toNat_lt
  have hd := d.toNat_lt
  have hnat := congrArg UInt16.toNat h
  rw [u16FromBeBytes, u16FromBeBytes, UInt16.toNat_ofNat_of_lt' (be16_lt a b),
    UInt16.toNat_ofNat_of_lt' (be16_lt c d), be16, be16] at hnat
  rw [← UInt8.toNat_inj, ← UInt8.toNat_inj]
  omega

/-- An encoding of the right width is known by its value. -/
theorem FieldId.value_injective {field : FieldId} {a b : List UInt8} (ha : a.length = field.width)
    (hb : b.length = field.width) (h : field.value a = field.value b) : a = b := by
  -- one argument for the addresses, one for the single bytes, one for the ports
  have hip : a.length = 16 → b.length = 16 →
      FieldValue.ip (decodeIp (.ofBytes a)) = .ip (decodeIp (.ofBytes b)) → a = b := by
    intro ha hb heq
    have hbytes := decodeIp_injective (FieldValue.ip.inj heq)
    rw [← IpBytes.bytes_ofBytes ha, ← IpBytes.bytes_ofBytes hb, hbytes]
  have hbyte : a.length = 1 → b.length = 1 → a.getD 0 0 = b.getD 0 0 → a = b := by
    intro ha hb heq
    obtain ⟨x, rfl⟩ := List.length_eq_one_iff.mp ha
    obtain ⟨y, rfl⟩ := List.length_eq_one_iff.mp hb
    exact congrArg (fun z => [z]) heq
  have hport : a.length = 2 → b.length = 2 →
      FieldValue.port (u16FromBeBytes (a.getD 0 0) (a.getD 1 0)) =
        .port (u16FromBeBytes (b.getD 0 0) (b.getD 1 0)) → a = b := by
    intro ha hb heq
    obtain ⟨x₀, x₁, rfl⟩ := List.length_eq_two.mp ha
    obtain ⟨y₀, y₁, rfl⟩ := List.length_eq_two.mp hb
    obtain ⟨h₀, h₁⟩ := u16FromBeBytes_injective (FieldValue.port.inj heq)
    have h₀ : x₀ = y₀ := h₀
    have h₁ : x₁ = y₁ := h₁
    rw [h₀, h₁]
  cases field with
  | srcIp => exact hip ha hb h
  | dstIp => exact hip ha hb h
  | ipProto => exact hbyte ha hb (FieldValue.proto.inj h)
  | dscp => exact hbyte ha hb (FieldValue.dscp.inj h)
  | mirrorSrcIp => exact hip ha hb h
  | srcPort => exact hport ha hb h
  | dstPort => exact hport ha hb h

/-- A key of the right width is known by its values. -/
theorem fieldValues_injective {fields : List FieldId} {a b : List UInt8}
    (ha : a.length = fieldsWidth fields) (hb : b.length = fieldsWidth fields)
    (h : fieldValues fields a = fieldValues fields b) : a = b := by
  induction fields generalizing a b with
  | nil =>
    rw [List.length_eq_zero_iff.mp ha, List.length_eq_zero_iff.mp hb]
  | cons field fields ih =>
    rw [fieldsWidth, List.map_cons, List.sum_cons] at ha hb
    rw [fieldValues, fieldValues, List.cons.injEq] at h
    have hhead : a.take field.width = b.take field.width :=
      FieldId.value_injective (by rw [List.length_take]; omega) (by rw [List.length_take]; omega) h.1
    have htail : a.drop field.width = b.drop field.width :=
      ih (by rw [List.length_drop, fieldsWidth]; omega)
        (by rw [List.length_drop, fieldsWidth]; omega) h.2
    rw [← List.take_append_drop field.width a, ← List.take_append_drop field.width b, hhead, htail]

/-! ### Both sides -/

/-- The decoder never panics, accepts exactly the keys of the right width, and tells them apart. -/
theorem decodeKey_spec (fields : List FieldId) (bytes : List UInt8) :
    decodeKey fields bytes ≠ .error .panic ∧
    ((∃ values, decodeKey fields bytes = .ok values) ↔ bytes.length = fieldsWidth fields) ∧
    ∀ bytes' values, decodeKey fields bytes = .ok values → decodeKey fields bytes' = .ok values →
      bytes = bytes' := by
  have hok : ∀ {bytes : List UInt8}, (∃ values, decodeKey fields bytes = .ok values) →
      bytes.length = fieldsWidth fields := by
    rintro bytes ⟨values, hvalues⟩
    by_contra hne
    obtain ⟨message, hmessage⟩ := decodeKey_of_ne hne
    rw [hmessage] at hvalues
    exact absurd hvalues (by simp)
  refine ⟨?_, ⟨hok, fun hlength => ⟨_, decodeKey_of_length hlength⟩⟩, ?_⟩
  · by_cases hlength : bytes.length = fieldsWidth fields
    · rw [decodeKey_of_length hlength]
      simp
    · obtain ⟨message, hmessage⟩ := decodeKey_of_ne hlength
      rw [hmessage]
      simp
  · intro bytes' values hvalues hvalues'
    have hlength := hok ⟨values, hvalues⟩
    have hlength' := hok ⟨values, hvalues'⟩
    rw [decodeKey_of_length hlength] at hvalues
    rw [decodeKey_of_length hlength'] at hvalues'
    apply fieldValues_injective hlength hlength'
    rw [Except.ok.inj hvalues, Except.ok.inj hvalues']

/-- The keys of a valid rule: the back end writes them, the front end reads them, and they tell
records apart that differ in a listed field. -/
theorem key_codec (rule : FlowRule) (hrule : flowRuleValidate rule = .ok) :
    (∃ ids : List FieldId, ids.map FieldId.code = rule.fields) ∧
    ∀ ids : List FieldId, ids.map FieldId.code = rule.fields →
      (∀ (fields : FlowFields) (keyBuf : ByteMemory),
        (∀ i, flowRuleKeyWidth rule.fields ≤ i → encodeKey rule fields keyBuf i = keyBuf i) ∧
        flowRuleKeyWidth rule.fields ≤ 64 ∧
        decodeKey ids ((encodeKey rule fields keyBuf).read 0 (flowRuleKeyWidth rule.fields)) =
          .ok (ids.map fields.value)) ∧
      (∀ (a b : FlowFields) (keyBuf keyBuf' : ByteMemory),
        ((encodeKey rule a keyBuf).read 0 (flowRuleKeyWidth rule.fields) =
            (encodeKey rule b keyBuf').read 0 (flowRuleKeyWidth rule.fields) ↔
          ∀ f ∈ rule.fields, a.Agree b f) ∧
        ((∀ f ∈ rule.fields, a.Agree b f) → ids.map a.value = ids.map b.value)) ∧
      (∀ a b c d : UInt8, decodeIp (.v4Mapped [a, b, c, d]) = .v4 #v[a, b, c, d]) ∧
      (∀ ip, (∀ a b c d, ip ≠ .v4Mapped [a, b, c, d]) → decodeIp ip = .v6 ip) ∧
      ∀ (schema : List FieldId) (bytes : List UInt8),
        decodeKey schema bytes ≠ .error .panic ∧
        ((∃ values, decodeKey schema bytes = .ok values) ↔
          bytes.length = (schema.map FieldId.width).sum) ∧
        ∀ bytes' values, decodeKey schema bytes = .ok values →
          decodeKey schema bytes' = .ok values → bytes = bytes' := by
  obtain ⟨hfields, -, hwidth⟩ := FlowRule.fields_of_valid hrule
  refine ⟨exists_fieldIds hfields, fun ids hids => ⟨?_, ?_, decodeIp_v4Mapped,
    fun ip => decodeIp_of_ne, decodeKey_spec⟩⟩
  · intro fields keyBuf
    refine ⟨fun i hi => ?_, hwidth, ?_⟩
    · rw [encodeKey_eq fields keyBuf hrule]
      apply write_of_ge
      rw [length_keyBytes fields hrule]
      omega
    · rw [read_encodeKey fields keyBuf hrule, ← hids,
        decodeKey_of_length (length_keyBytes_map_code fields ids), fieldValues_keyBytes]
  · intro a b keyBuf keyBuf'
    -- keys are equal iff they agree field by field, each field standing at its own place
    have hkeys : keyBytes a rule.fields = keyBytes b rule.fields ↔
        ∀ f ∈ rule.fields, a.Agree b f := by
      rw [keyBytes_eq_iff a b hfields]
      simp only [fieldBytes_eq_iff]
    refine ⟨?_, fun hagree => ?_⟩
    · rw [read_encodeKey a keyBuf hrule, read_encodeKey b keyBuf' hrule, hkeys]
    · rw [← fieldValues_keyBytes, ← fieldValues_keyBytes, hids, hkeys.mpr hagree]

/-- A rule with all seven fields, in an order of its own. -/
theorem key_codec_all_fields :
    decodeKey [.dstPort, .srcIp, .dscp, .ipProto, .mirrorSrcIp, .srcPort, .dstIp]
      ((encodeKey ⟨[0x61, 0x62], [6, 0, 3, 2, 4, 5, 1], 8, 0, 0⟩ FlowFields.zero (fun _ => 7)).read 0
        (flowRuleKeyWidth [6, 0, 3, 2, 4, 5, 1])) =
      .ok ([.dstPort, .srcIp, .dscp, .ipProto, .mirrorSrcIp, .srcPort, .dstIp].map
        FlowFields.zero.value) :=
  (((key_codec ⟨[0x61, 0x62], [6, 0, 3, 2, 4, 5, 1], 8, 0, 0⟩ (by decide)).2
    [.dstPort, .srcIp, .dscp, .ipProto, .mirrorSrcIp, .srcPort, .dstIp] rfl).1 .zero
      (fun _ => 7)).2.2

end InFMon
