import InFMon.Frontend.AddressText
import InFMon.Otlp.Emission

/-! # Identity of time series

A collector tells the time series of a metric apart by the attributes of their points alone. In a
snapshot whose rules and keys can be told apart, no two points of a metric have the same attributes, and
the attributes of a flow are its rule and the values of its key. -/

namespace InFMon.Otlp

open Frontend (FlowCounters FlowRuleStats FlowStats FlowStatsSnapshot ipText ipText_injective
  length_ipText_le)

/-! ### The attributes that a flow should have -/

/-- The key of the attribute of a field. -/
def attributeKey : FieldId → String
  | .srcIp => "flow.src_ip"
  | .dstIp => "flow.dst_ip"
  | .ipProto => "flow.ip_proto"
  | .dscp => "flow.dscp"
  | .mirrorSrcIp => "flow.mirror_src_ip"
  | .srcPort => "flow.src_port"
  | .dstPort => "flow.dst_port"

/-- Addresses are attributes by their text, other values by their number. -/
def attributeValue : FieldValue → AnyValue
  | .ip addr => .stringValue (ipText addr)
  | .proto p => .intValue p.toNat
  | .dscp d => .intValue d.toNat
  | .port p => .intValue p.toNat

/-- The attribute of a field with a value. -/
def fieldKeyValue (fv : FieldId × FieldValue) : KeyValue := ⟨attributeKey fv.1, attributeValue fv.2⟩

/-- The rule of a flow and the values of its key. -/
def flowKeyValues (fr : FlowRuleStats) (flow : FlowStats) : List KeyValue :=
  ⟨"flow-rule", .stringValue fr.name⟩ :: (fr.fields.zip flow.key).map fieldKeyValue

/-- Fields have different attribute keys. -/
theorem attributeKey_injective : Function.Injective attributeKey := by
  intro a b hab
  cases a
  all_goals
    cases b
    all_goals first | rfl | exact absurd hab (by decide +kernel)

/-- No field has the key of the rule's name. -/
theorem attributeKey_ne (field : FieldId) : attributeKey field ≠ "flow-rule" := by
  cases field
  all_goals decide +kernel

/-! ### Decoded keys -/

/-- What a decoded key is made of. -/
theorem eq_fieldValues_of_decodeKey {fields : List FieldId} {bytes : List UInt8}
    {key : List FieldValue} (h : decodeKey fields bytes = .ok key) : key = fieldValues fields bytes := by
  have hlength := (decodeKey_spec fields bytes).2.1.mp ⟨key, h⟩
  rw [decodeKey_of_length hlength] at h
  exact (Except.ok.inj h).symm

section
variable {fields : List FieldId} {key : List FieldValue}

/-- Every field has a value in a decoded key. -/
theorem length_of_decodeKey (h : ∃ bytes, decodeKey fields bytes = .ok key) :
    key.length = fields.length := by
  obtain ⟨bytes, hbytes⟩ := h
  obtain rfl := eq_fieldValues_of_decodeKey hbytes
  clear hbytes
  induction fields generalizing bytes with
  | nil => rfl
  | cons field fields ih => rw [fieldValues, List.length_cons, ih, List.length_cons]

/-- Every value of a decoded key is one of its field. -/
theorem exists_value_of_decodeKey (h : ∃ bytes, decodeKey fields bytes = .ok key) :
    ∀ fv ∈ fields.zip key, ∃ b, fv.2 = fv.1.value b := by
  obtain ⟨bytes, hbytes⟩ := h
  obtain rfl := eq_fieldValues_of_decodeKey hbytes
  clear hbytes
  induction fields generalizing bytes with
  | nil => exact fun fv hfv => absurd hfv List.not_mem_nil
  | cons field fields ih =>
    rw [fieldValues, List.zip_cons_cons, List.forall_mem_cons]
    exact ⟨⟨bytes.take field.width, rfl⟩, ih (bytes.drop field.width)⟩

end

/-- Values of one field are told apart by their attributes. -/
theorem attributeValue_inj {field : FieldId} {a b : List UInt8}
    (h : attributeValue (field.value a) = attributeValue (field.value b)) :
    field.value a = field.value b := by
  have hint : ∀ {m n : ℕ}, AnyValue.intValue m = .intValue n → m = n :=
    fun heq => Int.ofNat.inj (AnyValue.intValue.inj heq)
  cases field with
  | srcIp => exact congrArg FieldValue.ip (ipText_injective (AnyValue.stringValue.inj h))
  | dstIp => exact congrArg FieldValue.ip (ipText_injective (AnyValue.stringValue.inj h))
  | mirrorSrcIp => exact congrArg FieldValue.ip (ipText_injective (AnyValue.stringValue.inj h))
  | ipProto => exact congrArg FieldValue.proto (UInt8.toNat_inj.mp (hint h))
  | dscp => exact congrArg FieldValue.dscp (UInt8.toNat_inj.mp (hint h))
  | srcPort => exact congrArg FieldValue.port (UInt16.toNat_inj.mp (hint h))
  | dstPort => exact congrArg FieldValue.port (UInt16.toNat_inj.mp (hint h))

/-! ### The attributes that are built -/

/-- No text of an address is truncated. -/
theorem kvStringCounted_ipText (key : String) (addr : IpAddr) :
    kvStringCounted key (ipText addr) = (⟨key, .stringValue (ipText addr)⟩, 0) := by
  have htext := length_ipText_le addr
  have hbytes := length_utf8Bytes_le (ipText addr)
  refine kvStringCounted_of_le key ?_
  rw [attributeLengthCap]
  omega

/-- A decoded address is in no mapped form any more. -/
theorem renderIp_decodeIp (ip : IpBytes) : renderIp (decodeIp ip) = ipText (decodeIp ip) := by
  rw [decodeIp]
  split
  · rfl
  · rw [renderIp, if_neg ‹_›]

/-- A field with a value of its own has an attribute, which is not truncated. -/
theorem fieldAttribute_value (field : FieldId) (bytes : List UInt8) :
    fieldAttribute field (field.value bytes) = some (fieldKeyValue (field, field.value bytes), 0) := by
  have hip : ∀ (key : String) (ip : IpBytes), some (kvStringCounted key (renderIp (decodeIp ip))) =
      some (⟨key, .stringValue (ipText (decodeIp ip))⟩, 0) := by
    intro key ip
    rw [renderIp_decodeIp, kvStringCounted_ipText]
  cases field with
  | srcIp => exact hip "flow.src_ip" (.ofBytes bytes)
  | dstIp => exact hip "flow.dst_ip" (.ofBytes bytes)
  | mirrorSrcIp => exact hip "flow.mirror_src_ip" (.ofBytes bytes)
  | ipProto => rfl
  | dscp => rfl
  | srcPort => rfl
  | dstPort => rfl

/-- The attributes are ordered by their keys. -/
theorem buildFlowAttributes_sorted (fr : FlowRuleStats) (flow : FlowStats) (fields : List FieldId) :
    (buildFlowAttributes fr flow fields).1.Pairwise fun a b => a.key ≤ b.key := by
  have htotal : Std.Total fun a b : KeyValue => a.key ≤ b.key := ⟨fun a b =>
    String.le_total a.key b.key⟩
  have htrans : IsTrans KeyValue fun a b => a.key ≤ b.key := ⟨fun a b c =>
    String.le_trans⟩
  exact List.pairwise_insertionSort _ _

section
variable {fr : FlowRuleStats} {flow : FlowStats}

/-- The attributes of a flow are its rule and the values of its key. -/
theorem buildFlowAttributes_perm (hname : (utf8Bytes fr.name).length ≤ 256)
    (hkey : ∃ bytes, decodeKey fr.fields bytes = .ok flow.key) :
    (buildFlowAttributes fr flow fr.fields).1.Perm (flowKeyValues fr flow) := by
  have hfields : (fr.fields.zip flow.key).filterMap (fun fv => fieldAttribute fv.1 fv.2) =
      (fr.fields.zip flow.key).map fun fv => (fieldKeyValue fv, 0) := by
    refine List.filterMap_eq_map_iff_forall_eq_some.mpr fun fv hfv => ?_
    obtain ⟨b, hb⟩ := exists_value_of_decodeKey hkey fv hfv
    rw [fieldKeyValue, hb, fieldAttribute_value]
    rfl
  rw [buildFlowAttributes]
  dsimp only
  refine (List.perm_insertionSort _ _).trans (.of_eq ?_)
  rw [hfields, kvStringCounted_of_le "flow-rule" hname, flowKeyValues, List.map_cons, List.map_map]
  rfl

/-- No key occurs twice. -/
theorem nodup_keys_flowKeyValues (hfields : fr.fields.Nodup)
    (hlength : flow.key.length = fr.fields.length) :
    ((flowKeyValues fr flow).map KeyValue.key).Nodup := by
  have hzip : (fr.fields.zip flow.key).map Prod.fst = fr.fields := List.map_fst_zip hlength.ge
  have hkeys : ((fr.fields.zip flow.key).map fieldKeyValue).map KeyValue.key =
      ((fr.fields.zip flow.key).map Prod.fst).map attributeKey := by
    rw [List.map_map, List.map_map]
    rfl
  rw [hzip] at hkeys
  rw [flowKeyValues, List.map_cons, hkeys, List.nodup_cons]
  constructor
  · intro hmem
    obtain ⟨field, -, hfield⟩ := List.mem_map.mp hmem
    exact attributeKey_ne field hfield
  · exact hfields.map attributeKey_injective

end

/-! ### Flows with the same attributes -/

/-- Lists of attributes with the same elements agree on every key. -/
theorem eq_of_perm_of_key {l l' : List KeyValue} (hperm : l.Perm l')
    (hkeys : (l'.map KeyValue.key).Nodup) {a b : KeyValue} (ha : a ∈ l) (hb : b ∈ l')
    (hkey : a.key = b.key) : a = b :=
  List.inj_on_of_nodup_map hkeys (hperm.mem_iff.mp ha) hb hkey

section
variable {fr fr' : FlowRuleStats} {flow flow' : FlowStats}

/-- Flows with the same attributes are of rules with the same name. -/
theorem name_eq_of_perm (hperm : (flowKeyValues fr flow).Perm (flowKeyValues fr' flow'))
    (hkeys : ((flowKeyValues fr' flow').map KeyValue.key).Nodup) : fr.name = fr'.name := by
  have hrule := eq_of_perm_of_key hperm hkeys List.mem_cons_self List.mem_cons_self rfl
  exact AnyValue.stringValue.inj (KeyValue.mk.inj hrule).2

/-- The key of a flow is known by its attributes. -/
theorem key_eq_of_perm (hkey : ∃ bytes, decodeKey fr.fields bytes = .ok flow.key)
    (hkey' : ∃ bytes, decodeKey fr.fields bytes = .ok flow'.key)
    (hperm : (flowKeyValues fr flow).Perm (flowKeyValues fr flow'))
    (hkeys : ((flowKeyValues fr flow').map KeyValue.key).Nodup) : flow.key = flow'.key := by
  have hlength := length_of_decodeKey hkey
  have hlength' := length_of_decodeKey hkey'
  refine List.ext_getElem (hlength.trans hlength'.symm) fun i hi hi' => ?_
  have hfield : i < fr.fields.length := by omega
  have hmem : ∀ {key : List FieldValue} (hkey : i < key.length),
      (fr.fields[i], key[i]) ∈ fr.fields.zip key := by
    intro key hkey
    have hzip : i < (fr.fields.zip key).length := by
      rw [List.length_zip]
      omega
    rw [← List.getElem_zip (h := hzip)]
    exact List.getElem_mem hzip
  -- the attributes of the same field
  have heq := eq_of_perm_of_key hperm hkeys
    (List.mem_cons_of_mem _ (List.mem_map_of_mem (hmem hi)))
    (List.mem_cons_of_mem _ (List.mem_map_of_mem (hmem hi'))) rfl
  obtain ⟨b, hb⟩ : ∃ b, flow.key[i] = fr.fields[i].value b := exists_value_of_decodeKey hkey _ (hmem hi)
  obtain ⟨b', hb'⟩ : ∃ b, flow'.key[i] = fr.fields[i].value b :=
    exists_value_of_decodeKey hkey' _ (hmem hi')
  have hvalue : attributeValue flow.key[i] = attributeValue flow'.key[i] := (KeyValue.mk.inj heq).2
  rw [hb, hb'] at hvalue ⊢
  exact attributeValue_inj hvalue

end

/-! ### Metrics of a request -/

section
variable {name description unit : String} {dataPoints : List NumberDataPoint} {metric : Metric}

/-- A sum that is there has its name and its data points. -/
theorem named_of_mem_sumMetric (h : metric ∈ sumMetric name description unit dataPoints) :
    (metric.name, metric.dataPoints) = (name, dataPoints) := by
  rw [sumMetric] at h
  split at h
  · cases h
  · rw [List.mem_singleton.mp h]
    rfl

/-- A gauge that is there has its name and its data points. -/
theorem named_of_mem_gaugeMetric (h : metric ∈ gaugeMetric name description unit dataPoints) :
    (metric.name, metric.dataPoints) = (name, dataPoints) := by
  rw [gaugeMetric] at h
  split at h
  · cases h
  · rw [List.mem_singleton.mp h]
    rfl

/-- Every metric of flows and rules has the points that are collected under its name. -/
theorem Points.mem_named {p : Points} (h : metric ∈ p.metrics) :
    (metric.name, metric.dataPoints) ∈ p.named := by
  rw [Points.metrics] at h
  simp only [List.mem_append] at h
  rw [Points.named]
  obtain ((((((h | h) | h) | h) | h) | h) | h) | h := h
  · simp [named_of_mem_sumMetric h]
  · simp [named_of_mem_sumMetric h]
  · simp [named_of_mem_gaugeMetric h]
  · simp [named_of_mem_gaugeMetric h]
  · simp [named_of_mem_sumMetric h]
  · simp [named_of_mem_sumMetric h]
  · simp [named_of_mem_sumMetric h]
  · simp [named_of_mem_sumMetric h]

end

/-- The name of a metric lies in a namespace. -/
def Metric.Under (m : Metric) (space : String) : Prop := space.toList <+: m.name.toList

instance (m : Metric) (space : String) : Decidable (m.Under space) :=
  inferInstanceAs (Decidable (space.toList <+: m.name.toList))

/-- The points of a metric are told apart by their attributes. -/
def Metric.Distinct (m : Metric) : Prop := (m.dataPoints.map NumberDataPoint.attributes).Nodup

/-- The metrics of the exporter itself lie in another namespace. -/
theorem mem_named_of_under (e : OtlpExporter) (snap : FlowStatsSnapshot) (m : ExporterMetrics)
    {metric : Metric} (h : metric ∈ (e.buildRequest snap m).1.metrics)
    (hunder : metric.Under "infmon.flow." ∨ metric.Under "infmon.flow-rule.") :
    (metric.name, metric.dataPoints) ∈ (e.collect snap).named := by
  -- the names of the exporter itself begin with `infmon.exporter.`
  have hother : ∀ name ∈ exporterNames, ¬"infmon.flow.".toList <+: name.toList ∧
      ¬"infmon.flow-rule.".toList <+: name.toList := by decide +kernel
  rw [metrics_buildRequest, List.mem_append] at h
  obtain hflow | hself := h
  · exact Points.mem_named hflow
  · have hname := hother metric.name (name_of_mem_selfMetrics _ _ hself)
    exact absurd hunder (not_or.mpr hname)

/-! ### Snapshots that tell their flows apart -/

/-- Rules are told apart by their names, which fit into an attribute, and the flows of a rule by their
keys, which are decoded for its fields. -/
structure Separated (snap : FlowStatsSnapshot) : Prop where
  names : (snap.flowRules.map FlowRuleStats.name).Nodup
  short : ∀ fr ∈ snap.flowRules, (utf8Bytes fr.name).length ≤ 256
  fields : ∀ fr ∈ snap.flowRules, fr.fields.Nodup
  decoded : ∀ fr ∈ snap.flowRules, ∀ flow ∈ fr.flows, ∃ bytes, decodeKey fr.fields bytes = .ok flow.key
  keys : ∀ fr ∈ snap.flowRules, (fr.flows.map FlowStats.key).Nodup

/-- The attributes of a flow are in order, each key occurs once, and they are the rule and the values of
its key, one for every field. -/
structure Identifies (attributes : List KeyValue) (fr : FlowRuleStats) (flow : FlowStats) : Prop where
  sorted : (attributes.map KeyValue.key).Pairwise (· ≤ ·)
  nodup : (attributes.map KeyValue.key).Nodup
  exactly : attributes.Perm (flowKeyValues fr flow)
  every : flow.key.length = fr.fields.length

/-- An exported flow is a flow of a rule of the snapshot. -/
theorem mem_of_mem_exportedFlows {rules : List FlowRuleStats} {emitted : List ℕ}
    {f : FlowRuleStats × FlowStats} (h : f ∈ exportedFlows rules emitted) :
    f.1 ∈ rules ∧ f.2 ∈ f.1.flows := by
  obtain ⟨rule, hrule, hf⟩ := List.mem_flatMap.mp h
  obtain ⟨flow, hflow, rfl⟩ := List.mem_map.mp hf
  exact ⟨(List.of_mem_zip hrule).1, List.mem_of_mem_take hflow⟩

section
variable {snap : FlowStatsSnapshot} (h : Separated snap) {emitted : List ℕ}
include h

/-- In a separated snapshot the attributes identify an exported flow. -/
theorem Separated.identifies {f : FlowRuleStats × FlowStats}
    (hf : f ∈ exportedFlows snap.flowRules emitted) :
    Identifies (buildFlowAttributes f.1 f.2 f.1.fields).1 f.1 f.2 := by
  obtain ⟨hrule, hflow⟩ := mem_of_mem_exportedFlows hf
  have hkey := h.decoded f.1 hrule f.2 hflow
  have hperm := buildFlowAttributes_perm (h.short f.1 hrule) hkey
  have hlength := length_of_decodeKey hkey
  exact
    { sorted := List.pairwise_map.mpr (buildFlowAttributes_sorted f.1 f.2 f.1.fields)
      nodup := (hperm.map KeyValue.key).nodup_iff.mpr
        (nodup_keys_flowKeyValues (h.fields f.1 hrule) hlength)
      exactly := hperm
      every := hlength }

/-- Flows are told apart by their attributes. -/
theorem Separated.eq_of_attributes {f g : FlowRuleStats × FlowStats}
    (hf : f ∈ exportedFlows snap.flowRules emitted) (hg : g ∈ exportedFlows snap.flowRules emitted)
    (heq : (buildFlowAttributes f.1 f.2 f.1.fields).1 = (buildFlowAttributes g.1 g.2 g.1.fields).1) :
    f = g := by
  obtain ⟨hrule, hflow⟩ := mem_of_mem_exportedFlows hf
  obtain ⟨hrule', hflow'⟩ := mem_of_mem_exportedFlows hg
  have hperm : (flowKeyValues f.1 f.2).Perm (flowKeyValues g.1 g.2) := by
    have hexactly := (h.identifies hf).exactly.symm
    rw [heq] at hexactly
    exact hexactly.trans (h.identifies hg).exactly
  have hkeys := nodup_keys_flowKeyValues (h.fields g.1 hrule') (h.identifies hg).every
  -- the rules have the same name, and so the same fields
  have hfr : f.1 = g.1 :=
    List.inj_on_of_nodup_map h.names hrule hrule' (name_eq_of_perm hperm hkeys)
  have hkey := h.decoded f.1 hrule f.2 hflow
  have hkey' := h.decoded g.1 hrule' g.2 hflow'
  rw [← hfr] at hperm hkeys hkey' hflow'
  have hstats : f.2 = g.2 :=
    List.inj_on_of_nodup_map (h.keys f.1 hrule) hflow hflow' (key_eq_of_perm hkey hkey' hperm hkeys)
  exact Prod.ext hfr hstats

/-- No flow is exported twice. -/
theorem Separated.nodup_exportedFlows (hlength : snap.flowRules.length ≤ emitted.length) :
    (exportedFlows snap.flowRules emitted).Nodup := by
  rw [exportedFlows, List.nodup_flatMap]
  constructor
  · intro rule hrule
    have hflows := (h.keys rule.1 (List.of_mem_zip hrule).1).of_map
    exact (hflows.sublist (List.take_sublist _ _)).map (Prod.mk_right_injective rule.1)
  · have hnames : ((snap.flowRules.zip emitted).map fun rule => rule.1.name).Nodup := by
      have hzip := h.names
      rw [← List.map_fst_zip hlength, List.map_map] at hzip
      exact hzip
    refine (List.pairwise_map.mp hnames).imp fun hne f hf hf' => hne ?_
    obtain ⟨flow, -, rfl⟩ := List.mem_map.mp hf
    obtain ⟨flow', -, heq⟩ := List.mem_map.mp hf'
    rw [← (Prod.mk.inj heq).1]

/-- The points of flows are told apart. -/
theorem Separated.nodup_flowPoints (hlength : snap.flowRules.length ≤ emitted.length) (wall : UInt64)
    (start value : FlowCounters → UInt64) :
    (((exportedFlows snap.flowRules emitted).map (flowPoint wall start value)).map
      NumberDataPoint.attributes).Nodup := by
  rw [List.map_map]
  exact (h.nodup_exportedFlows hlength).map_on fun f hf g hg => h.eq_of_attributes hf hg

/-- The points of rules are told apart by their names. -/
theorem Separated.nodup_rulePoints {point : FlowRuleStats → NumberDataPoint} (rest : List KeyValue)
    (hpoint : ∀ fr, (point fr).attributes = kvString "flow-rule" fr.name :: rest) :
    ((snap.flowRules.map point).map NumberDataPoint.attributes).Nodup := by
  rw [List.map_map]
  refine h.names.of_map.map_on fun fr hfr fr' hfr' heq => ?_
  -- a name that fits is not truncated
  have hname : ∀ fr ∈ snap.flowRules,
      kvString "flow-rule" fr.name = ⟨"flow-rule", .stringValue fr.name⟩ :=
    fun fr hfr => congrArg Prod.fst (kvStringCounted_of_le "flow-rule" (h.short fr hfr))
  rw [Function.comp_apply, Function.comp_apply, hpoint, hpoint, hname fr hfr, hname fr' hfr'] at heq
  have hvalue := (KeyValue.mk.inj (List.cons.inj heq).1).2
  exact List.inj_on_of_nodup_map h.names hfr hfr' (AnyValue.stringValue.inj hvalue)

end

/-! ### Series -/

/-- The points of a metric are those of the exported flows or those of all rules. -/
theorem dataPoints_of_under (e : OtlpExporter) (snap : FlowStatsSnapshot) (m : ExporterMetrics)
    {metric : Metric} (hmetric : metric ∈ (e.buildRequest snap m).1.metrics)
    (hunder : metric.Under "infmon.flow." ∨ metric.Under "infmon.flow-rule.") :
    (∃ start, ∃ shown ∈ [FlowCounters.packets, FlowCounters.bytes, FlowCounters.lastSeenNs],
      metric.dataPoints = (exportedFlows snap.flowRules (e.flowsToEmit snap.flowRules)).map
        (flowPoint snap.wallClockNs start shown)) ∨
    ¬metric.Under "infmon.flow." ∧ ∃ rest point,
      (∀ fr, (point fr).attributes = kvString "flow-rule" fr.name :: rest) ∧
      metric.dataPoints = snap.flowRules.map point := by
  have hother : ∀ name ∈ ["infmon.flow-rule.flows", "infmon.flow-rule.evictions",
      "infmon.flow-rule.drops", "infmon.flow-rule.packets", "infmon.flow-rule.bytes"],
      ¬"infmon.flow.".toList <+: name.toList := by decide +kernel
  obtain ⟨truncated, hcollect⟩ := collect_points e snap
  have hnamed := mem_named_of_under e snap m hmetric hunder
  rw [hcollect] at hnamed
  simp only [Points.named, List.mem_cons, List.not_mem_nil, or_false, Prod.mk.injEq] at hnamed
  rw [Metric.Under]
  obtain ⟨-, hpoints⟩ | ⟨-, hpoints⟩ | ⟨-, hpoints⟩ | ⟨hname, hpoints⟩ | ⟨hname, hpoints⟩ |
    ⟨hname, hpoints⟩ | ⟨hname, hpoints⟩ | ⟨hname, hpoints⟩ := hnamed
  -- the packets, the bytes and the last packet of the flows
  · exact .inl ⟨_, FlowCounters.packets, by simp, hpoints⟩
  · exact .inl ⟨_, FlowCounters.bytes, by simp, hpoints⟩
  · exact .inl ⟨_, FlowCounters.lastSeenNs, by simp, hpoints⟩
  -- the flows, the evictions, the drops, the packets and the bytes of the rules
  · exact .inr ⟨hother _ (by simp [hname]), [], _, fun _ => rfl, hpoints⟩
  · exact .inr ⟨hother _ (by simp [hname]), [], _, fun _ => rfl, hpoints⟩
  · exact .inr ⟨hother _ (by simp [hname]), [kvString "reason" "eviction_failed"], _, fun _ => rfl,
      hpoints⟩
  · exact .inr ⟨hother _ (by simp [hname]), [], _, fun _ => rfl, hpoints⟩
  · exact .inr ⟨hother _ (by simp [hname]), [], _, fun _ => rfl, hpoints⟩

/-- **Time series are uniquely and exactly attributed.** If a snapshot tells its rules and flows apart,
no two points of a metric of flows or of rules have the same attributes. The points of a metric of flows
are those of the exported flows in their order, each with one counter of its flow; their attributes are
in order and without repeated keys, and are exactly the rule and the values of the key of that flow. -/
theorem series_identified (e : OtlpExporter) {snap : FlowStatsSnapshot} (m : ExporterMetrics)
    (h : Separated snap) :
    ∀ metric ∈ (e.buildRequest snap m).1.metrics,
      (metric.Under "infmon.flow." ∨ metric.Under "infmon.flow-rule." → metric.Distinct) ∧
      (metric.Under "infmon.flow." →
        ∃ shown ∈ [FlowCounters.packets, FlowCounters.bytes, FlowCounters.lastSeenNs],
          List.Forall₂ (fun p f =>
              p.value = some (.asInt (saturatingI64 (shown f.2.counters).toNat)) ∧
              Identifies p.attributes f.1 f.2)
            metric.dataPoints (exportedFlows snap.flowRules (e.flowsToEmit snap.flowRules))) := by
  intro metric hmetric
  constructor
  · intro hunder
    rw [Metric.Distinct]
    obtain ⟨start, shown, -, hpoints⟩ | ⟨-, rest, point, hpoint, hpoints⟩ :=
      dataPoints_of_under e snap m hmetric hunder
    · have hlength := (flowsToEmit_le e snap.flowRules).length_eq.le
      rw [hpoints]
      exact h.nodup_flowPoints hlength snap.wallClockNs start shown
    · rw [hpoints]
      exact h.nodup_rulePoints rest hpoint
  · intro hunder
    obtain ⟨start, shown, hshown, hpoints⟩ | ⟨hnot, -⟩ :=
      dataPoints_of_under e snap m hmetric (.inl hunder)
    · refine ⟨shown, hshown, ?_⟩
      rw [hpoints, List.forall₂_map_left_iff, List.forall₂_same]
      exact fun f hf => ⟨rfl, h.identifies hf⟩
    · exact absurd hunder hnot

/-- Some snapshot with two rules, one of them with an IPv4 and an IPv6 address. -/
def separatedRules : FlowStatsSnapshot where
  tickId := 0
  wallClockNs := 0
  monotonicNs := 0
  intervalNs := 0
  flowRules :=
    [("by-source", [.dscp, .srcIp], [0 :: (mappedPrefix ++ [192, 0, 2, 1]),
        0 :: (0x20 :: 0x01 :: 0x0D :: 0xB8 :: List.replicate 12 0)]),
      ("by-class", [.dscp], [[46]])].map fun rule =>
    { name := rule.1
      fields := rule.2.1
      maxKeys := 16
      evictionPolicy := .lruDrop
      flows := rule.2.2.map fun bytes =>
        { key := fieldValues rule.2.1 bytes
          counters := { packets := 1, bytes := 64, firstSeenNs := 0, lastSeenNs := 0 } }
      counters := { evictions := 0, drops := 0, packets := 2, bytes := 128 } }

/-- The two rules are separated. -/
theorem separated_separatedRules : Separated separatedRules where
  names := by decide +kernel
  short := by decide +kernel
  fields := by decide +kernel
  decoded := by
    simp only [separatedRules, List.map_cons, List.map_nil, List.forall_mem_cons]
    refine ⟨⟨⟨_, decodeKey_of_length rfl⟩, ⟨_, decodeKey_of_length rfl⟩, ?_⟩,
      ⟨⟨_, decodeKey_of_length rfl⟩, ?_⟩, ?_⟩
    all_goals exact fun _ hnil => absurd hnil List.not_mem_nil
  keys := by decide +kernel

/-- The packets of three flows. -/
theorem series_identified_separatedRules :
    ∃ metric ∈ (defaultExporter.buildRequest separatedRules .zero).1.metrics,
      metric.name = "infmon.flow.packets" ∧ metric.dataPoints.length = 3 ∧ metric.Distinct := by
  have hpos : 0 < (defaultExporter.buildRequest separatedRules .zero).1.metrics.length := by
    decide +kernel
  have hmem := List.get_mem (defaultExporter.buildRequest separatedRules .zero).1.metrics ⟨0, hpos⟩
  refine ⟨_, hmem, by decide +kernel +revert, by decide +kernel +revert, ?_⟩
  exact (series_identified defaultExporter .zero separated_separatedRules _ hmem).1
    (.inl (by decide +kernel +revert))

end InFMon.Otlp
