import InFMon.FlowRule.RuleList
import InFMon.DataPath.FlowFields

/-! # Flow keys

The key encoder of `flow_rule.c`. It writes the listed fields one behind the other into a key buffer;
what it writes is the concatenation of the fields' encodings. -/

namespace InFMon

open ByteMemory

/-! ### The encoder -/

/-- A 16-bit value in network order. -/
def portBytes (port : UInt16) : List UInt8 := [(port >>> 8).toUInt8, (port &&& 0xFF).toUInt8]

/-- The `switch` in the loop of `infmon_flow_rule_encode_key`: the offset and the buffer after one
field. -/
def encodeField (fields : FlowFields) (off : ℕ) (keyBuf : ByteMemory) : ℕ → ℕ × ByteMemory
  | 0 => (off + 16, keyBuf.write off fields.srcIp.bytes)
  | 1 => (off + 16, keyBuf.write off fields.dstIp.bytes)
  | 2 => (off + 1, keyBuf.write off [fields.ipProto])
  | 3 => (off + 1, keyBuf.write off [fields.dscp &&& 0x3F])
  | 4 => (off + 16, keyBuf.write off fields.mirrorSrcIp.bytes)
  | 5 => (off + 2, keyBuf.write off (portBytes fields.srcPort))
  | 6 => (off + 2, keyBuf.write off (portBytes fields.dstPort))
  | _ => (off, keyBuf)

/-- The loop of `infmon_flow_rule_encode_key`. -/
def encodeFrom (fields : FlowFields) : List ℕ → ℕ → ByteMemory → ByteMemory
  | [], _, keyBuf => keyBuf
  | field :: rest, off, keyBuf =>
    let next := encodeField fields off keyBuf field
    encodeFrom fields rest next.1 next.2

/-- `infmon_flow_rule_encode_key`. -/
def encodeKey (rule : FlowRule) (fields : FlowFields) (keyBuf : ByteMemory) : ByteMemory :=
  encodeFrom fields rule.fields 0 keyBuf

/-! ### What is written -/

/-- The encoding of one field. -/
def fieldBytes (fields : FlowFields) : ℕ → List UInt8
  | 0 => fields.srcIp.bytes
  | 1 => fields.dstIp.bytes
  | 2 => [fields.ipProto]
  | 3 => [fields.dscp &&& 0x3F]
  | 4 => fields.mirrorSrcIp.bytes
  | 5 => portBytes fields.srcPort
  | 6 => portBytes fields.dstPort
  | _ => []

/-- The key of a flow: the encodings of the listed fields, one behind the other. -/
def keyBytes (fields : FlowFields) (list : List ℕ) : List UInt8 := list.flatMap (fieldBytes fields)

/-- A field that exists is one of seven. -/
theorem field_cases {field : ℕ} (h : field < fieldCountMax) :
    field = 0 ∨ field = 1 ∨ field = 2 ∨ field = 3 ∨ field = 4 ∨ field = 5 ∨ field = 6 := by
  simp only [fieldCountMax] at h
  omega

/-- The encoding of a field has the field's width. -/
theorem length_fieldBytes (fields : FlowFields) {field : ℕ} (h : field < fieldCountMax) :
    (fieldBytes fields field).length = fieldWidth field := by
  obtain rfl | rfl | rfl | rfl | rfl | rfl | rfl := field_cases h
  · exact fields.srcIp.length_bytes
  · exact fields.dstIp.length_bytes
  · rfl
  · rfl
  · exact fields.mirrorSrcIp.length_bytes
  · rfl
  · rfl

/-- One field is its encoding, written at the offset. -/
theorem encodeField_eq (fields : FlowFields) (off : ℕ) (keyBuf : ByteMemory) {field : ℕ}
    (h : field < fieldCountMax) : encodeField fields off keyBuf field =
      (off + (fieldBytes fields field).length, keyBuf.write off (fieldBytes fields field)) := by
  rw [length_fieldBytes fields h]
  obtain rfl | rfl | rfl | rfl | rfl | rfl | rfl := field_cases h
  all_goals rfl

/-- The loop writes the encodings one behind the other. -/
theorem encodeFrom_eq (fields : FlowFields) {list : List ℕ} (h : ∀ f ∈ list, f < fieldCountMax)
    (off : ℕ) (keyBuf : ByteMemory) :
    encodeFrom fields list off keyBuf = keyBuf.write off (keyBytes fields list) := by
  induction list generalizing off keyBuf with
  | nil => exact (write_nil keyBuf off).symm
  | cons field rest ih =>
    have hfield := h field List.mem_cons_self
    rw [encodeFrom, encodeField_eq fields off keyBuf hfield, keyBytes, List.flatMap_cons]
    rw [ih (fun f hf => h f (List.mem_cons_of_mem field hf)), write_append]
    rfl

/-! ### Widths -/

/-- The loop of `infmon_flow_rule_key_width` sums the widths of fields that exist. -/
theorem keyWidthFrom_eq_sum {list : List ℕ} (h : ∀ f ∈ list, f < fieldCountMax) (w : ℕ) :
    keyWidthFrom w list = w + (list.map fieldWidth).sum := by
  induction list generalizing w with
  | nil => rfl
  | cons field rest ih =>
    have hwidth : fieldWidth field ≠ 0 := by
      obtain rfl | rfl | rfl | rfl | rfl | rfl | rfl := field_cases (h field List.mem_cons_self)
      all_goals decide
    rw [keyWidthFrom, if_neg hwidth, ih (fun f hf => h f (List.mem_cons_of_mem field hf)),
      List.map_cons, List.sum_cons, Nat.add_assoc]

/-- The key of known fields is as wide as these together. -/
theorem flowRuleKeyWidth_eq_sum {list : List ℕ} (h : ∀ f ∈ list, f < fieldCountMax) :
    flowRuleKeyWidth list = (list.map fieldWidth).sum := by
  rw [flowRuleKeyWidth, keyWidthFrom_eq_sum h, Nat.zero_add]

/-- The fields of a key are as wide as their bytes. -/
theorem sum_fieldWidth (fields : FlowFields) {list : List ℕ} (h : ∀ f ∈ list, f < fieldCountMax) :
    (list.map fieldWidth).sum = (keyBytes fields list).length := by
  induction list with
  | nil => rfl
  | cons field rest ih =>
    rw [List.map_cons, List.sum_cons, ih (fun f hf => h f (List.mem_cons_of_mem field hf)), keyBytes,
      keyBytes, List.flatMap_cons, List.length_append,
      length_fieldBytes fields (h field List.mem_cons_self)]

/-- Fields that pass the check exist. -/
theorem lt_of_fieldsValid {seen list : List ℕ} (h : fieldsValid seen list = true) :
    ∀ f ∈ list, f < fieldCountMax := by
  induction list generalizing seen with
  | nil => exact fun f hf => absurd hf List.not_mem_nil
  | cons field rest ih =>
    rw [fieldsValid] at h
    split at h
    · exact absurd h (by simp)
    · split at h
      · exact absurd h (by simp)
      · intro f hf
        rcases List.mem_cons.mp hf with rfl | hf
        · omega
        · exact ih h f hf

/-- The fields of a valid rule exist, and its key has room in a key buffer. -/
theorem FlowRule.fields_of_valid {rule : FlowRule} (h : flowRuleValidate rule = .ok) :
    (∀ f ∈ rule.fields, f < fieldCountMax) ∧ 0 < flowRuleKeyWidth rule.fields ∧
      flowRuleKeyWidth rule.fields ≤ flowRuleKeyMax := by
  have hvalid := flowRuleValidate_ok_iff.mp h
  exact ⟨lt_of_fieldsValid hvalid.fields, Nat.pos_of_ne_zero hvalid.keyWidth_ne, hvalid.keyWidth_le⟩

/-- The key of a valid rule has the rule's width. -/
theorem length_keyBytes (fields : FlowFields) {rule : FlowRule} (h : flowRuleValidate rule = .ok) :
    (keyBytes fields rule.fields).length = flowRuleKeyWidth rule.fields := by
  have hfields := (FlowRule.fields_of_valid h).1
  rw [flowRuleKeyWidth_eq_sum hfields, sum_fieldWidth fields hfields]

/-- The encoder of a valid rule writes the key at the start of the buffer. -/
theorem encodeKey_eq (fields : FlowFields) (keyBuf : ByteMemory) {rule : FlowRule}
    (h : flowRuleValidate rule = .ok) :
    encodeKey rule fields keyBuf = keyBuf.write 0 (keyBytes fields rule.fields) :=
  encodeFrom_eq fields (FlowRule.fields_of_valid h).1 0 keyBuf

/-- What is read back from the buffer is the key. -/
theorem read_encodeKey (fields : FlowFields) (keyBuf : ByteMemory) {rule : FlowRule}
    (h : flowRuleValidate rule = .ok) :
    (encodeKey rule fields keyBuf).read 0 (flowRuleKeyWidth rule.fields) =
      keyBytes fields rule.fields := by
  rw [encodeKey_eq fields keyBuf h, ← length_keyBytes fields h, read_write_self]

/-! ### Equal keys -/

/-- The two bytes of a 16-bit value make it up. -/
theorem be16_portBytes (port : UInt16) :
    be16 (port >>> 8).toUInt8 (port &&& 0xFF).toUInt8 = port.toNat := by
  have hport := port.toNat_lt
  have hhi : (port >>> 8).toUInt8.toNat = port.toNat / 256 % 256 := by
    rw [UInt16.toNat_toUInt8, UInt16.toNat_shiftRight, Nat.shiftRight_eq_div_pow]
    rfl
  have hlo : (port &&& 0xFF).toUInt8.toNat = port.toNat % 256 := by
    rw [UInt16.toNat_toUInt8, UInt16.toNat_and]
    change (port.toNat &&& (2 ^ 8 - 1)) % 2 ^ 8 = _
    rw [Nat.and_two_pow_sub_one_eq_mod, Nat.mod_mod]
  rw [be16, hhi, hlo]
  omega

/-- A 16-bit value is known by its bytes. -/
theorem portBytes_injective {a b : UInt16} (h : portBytes a = portBytes b) : a = b := by
  simp only [portBytes, List.cons.injEq, and_true] at h
  apply UInt16.toNat_inj.mp
  rw [← be16_portBytes a, ← be16_portBytes b, h.1, h.2]

/-- Two records have the same key exactly when they have the same encoding of every listed field. -/
theorem keyBytes_eq_iff (a b : FlowFields) {list : List ℕ} (h : ∀ f ∈ list, f < fieldCountMax) :
    keyBytes a list = keyBytes b list ↔ ∀ f ∈ list, fieldBytes a f = fieldBytes b f := by
  induction list with
  | nil => simp [keyBytes]
  | cons field rest ih =>
    have hfield := h field List.mem_cons_self
    have hlength : (fieldBytes a field).length = (fieldBytes b field).length := by
      rw [length_fieldBytes a hfield, length_fieldBytes b hfield]
    rw [keyBytes, keyBytes, List.flatMap_cons, List.flatMap_cons, List.forall_mem_cons,
      ← ih fun f hf => h f (List.mem_cons_of_mem field hf)]
    constructor
    · exact fun heq => List.append_inj heq hlength
    · rintro ⟨hhead, htail⟩
      rw [keyBytes, keyBytes] at htail
      rw [hhead, htail]

end InFMon
