import InFMon.Frontend.Control
import InFMon.Plugin.SnapshotBudget

/-! # A rule on its way to the back end

The control server forwards a rule over its client, the C function and the message of VAPI to the
plugin's handler. Every layer has bounds of its own: what the layers accept they pass on, but the
handler rewrites a limit of no keys and cuts off an eighth field. -/

namespace InFMon.Frontend

/-! ### The same rule on both sides -/

/-- The value of a field in `infmon_field_t`. -/
def Field.cValue : Field → ℕ
  | .srcIp => 0
  | .dstIp => 1
  | .ipProto => 2
  | .dscp => 3
  | .mirrorSrcIp => 4
  | .srcPort => 5
  | .dstPort => 6

/-- The value of a policy in `infmon_eviction_policy_t`. -/
def EvictionPolicy.cValue : EvictionPolicy → ℕ
  | .lruDrop => 0

/-- A rule of the front end and a rule of the back end are the same: name, ordered fields, limit and
policy. -/
structure SameRule (rule : FlowRule) (stored : InFMon.FlowRule) : Prop where
  name : stored.name = utf8Bytes rule.name
  fields : stored.fields = rule.fields.map Field.cValue
  maxKeys : stored.maxKeys = rule.maxKeys.toNat
  evictionPolicy : stored.evictionPolicy = rule.evictionPolicy.cValue

/-- A field is sent as its value. -/
theorem toNat_fieldToU8 (field : Field) : (fieldToU8 field).toNat = field.cValue := by
  cases field <;> rfl

/-- An eviction policy is sent as its value. -/
theorem toNat_evictionToU8 (policy : EvictionPolicy) :
    (evictionToU8 policy).toNat = policy.cValue := by
  cases policy
  rfl

/-! ### What the handler makes of the message -/

/-- A padded name is read back up to its NUL. -/
theorem takeWhile_padded {name : List UInt8} (hnul : 0 ∉ name) (hlength : name.length ≤ 31) :
    ((List.ofFn fun i : Fin 32 => (name.take 31).getD i 0).take 31).takeWhile (· ≠ 0) = name := by
  have hpadded : (List.ofFn fun i : Fin 32 => (name.take 31).getD i 0) =
      name ++ List.replicate (32 - name.length) 0 := by
    have hlengths : (List.ofFn fun i : Fin 32 => (name.take 31).getD i 0).length =
        (name ++ List.replicate (32 - name.length) 0).length := by
      rw [List.length_ofFn, List.length_append, List.length_replicate]
      omega
    refine List.ext_getElem hlengths fun i hi _ => ?_
    rw [List.length_ofFn] at hi
    rw [List.getElem_ofFn, List.take_of_length_le hlength, List.getD_eq_getElem?_getD]
    dsimp only
    by_cases hlt : i < name.length
    · rw [List.getElem?_eq_getElem hlt, List.getElem_append_left hlt]
      rfl
    · rw [List.getElem?_eq_none (by omega), List.getElem_append_right (by omega),
        List.getElem_replicate]
      rfl
  have hzeros : (List.replicate (31 - name.length) (0 : UInt8)).takeWhile (· ≠ 0) = [] := by
    cases 31 - name.length with
    | zero => rfl
    | succ k => rfl
  have hkeep : ∀ b ∈ name, decide (b ≠ 0) = true :=
    fun b hb => decide_eq_true fun hzero => hnul (hzero ▸ hb)
  rw [hpadded, List.take_append, List.take_of_length_le hlength, List.take_replicate,
    Nat.min_eq_left (by omega), List.takeWhile_append_of_pos hkeep, hzeros, List.append_nil]

variable {memory : FlowRuleAddMsg} {name : List UInt8} {fields : List Field} {maxKeys : UInt32}
  {policy : EvictionPolicy}

/-- The message of a rule. -/
theorem messageRule_name (hnul : 0 ∉ name) (hlength : name.length ≤ 31) :
    (Plugin.messageRule (flowRuleAddPayload memory name (fields.map fieldToU8) maxKeys
      (evictionToU8 policy) (UInt32.ofNat fields.length))).name = name := by
  rw [Plugin.messageRule, flowRuleAddPayload]
  dsimp only
  rw [Vector.toList_ofFn]
  exact takeWhile_padded hnul hlength

/-- Up to seven fields arrive as they are. -/
theorem messageRule_fields (hlength : fields.length ≤ 7) :
    (Plugin.messageRule (flowRuleAddPayload memory name (fields.map fieldToU8) maxKeys
      (evictionToU8 policy) (UInt32.ofNat fields.length))).fields = fields.map Field.cValue := by
  have hcount : (UInt32.ofNat fields.length).toNat = fields.length :=
    UInt32.toNat_ofNat_of_lt' (Nat.lt_of_le_of_lt hlength (by decide))
  have hclamp : (if fields.length > flowRuleFieldsMax then flowRuleFieldsMax else fields.length) =
      fields.length := if_neg (Nat.not_lt.mpr hlength)
  rw [Plugin.messageRule, flowRuleAddPayload]
  dsimp only
  rw [hcount, hclamp, Vector.toList_ofFn]
  refine List.ext_getElem (by simp; omega) fun i hi hi' => ?_
  rw [List.length_map] at hi'
  rw [List.getElem_map, List.getElem_take, List.getElem_ofFn, List.getElem_map,
    if_pos hi', List.getD_eq_getElem?_getD, List.getElem?_map, List.getElem?_eq_getElem hi']
  exact toNat_fieldToU8 _

/-- A limit arrives as it is, but none is made 65536. -/
theorem messageRule_maxKeys (mp : FlowRuleAddMsg) : (Plugin.messageRule mp).maxKeys =
    if mp.maxKeys = 0 then 65536 else mp.maxKeys.toNat := rfl

/-- Registering a rule computes its key width and nothing else. -/
theorem sameRule_register_iff {rule : FlowRule} {stored : InFMon.FlowRule} :
    SameRule rule stored.register ↔ SameRule rule stored :=
  ⟨fun h => ⟨h.name, h.fields, h.maxKeys, h.evictionPolicy⟩,
    fun h => ⟨h.name, h.fields, h.maxKeys, h.evictionPolicy⟩⟩

/-- The handler never stores more than seven fields. -/
theorem length_messageRule_fields (mp : FlowRuleAddMsg) :
    (Plugin.messageRule mp).fields.length ≤ 7 := by
  rw [Plugin.messageRule]
  dsimp only
  rw [List.length_map, List.length_take]
  refine (Nat.min_le_left _ _).trans ?_
  split
  · exact Nat.le_refl 7
  · exact Nat.le_of_not_lt ‹_›

/-- The message carries the rule exactly when it has a limit and at most seven fields. -/
theorem sameRule_messageRule_iff {name : String} (hnul : 0 ∉ utf8Bytes name)
    (hlength : (utf8Bytes name).length ≤ 31) :
    SameRule ⟨name, fields, maxKeys, policy⟩
      (Plugin.messageRule (flowRuleAddPayload memory (utf8Bytes name) (fields.map fieldToU8) maxKeys
        (evictionToU8 policy) (UInt32.ofNat fields.length))).register ↔
      maxKeys ≠ 0 ∧ fields.length ≤ 7 := by
  have hmaxKeys := messageRule_maxKeys (flowRuleAddPayload memory (utf8Bytes name)
    (fields.map fieldToU8) maxKeys (evictionToU8 policy) (UInt32.ofNat fields.length))
  change _ = if maxKeys = 0 then 65536 else maxKeys.toNat at hmaxKeys
  rw [sameRule_register_iff]
  constructor
  · intro h
    constructor
    · rintro rfl
      rw [h.maxKeys, if_pos rfl] at hmaxKeys
      cases hmaxKeys
    · have hfields := congrArg List.length h.fields
      rw [List.length_map] at hfields
      exact hfields ▸ length_messageRule_fields _
  · rintro ⟨hkeys, hfields⟩
    exact
      { name := messageRule_name hnul hlength
        fields := messageRule_fields hfields
        maxKeys := hmaxKeys.trans (if_neg hkeys)
        evictionPolicy := toNat_evictionToU8 policy }

/-! ### The whole way -/

/-- The rule that the server appends and the rule that the plugin stores at its first free index. -/
def Survives (before : Plugin) (out : Response × ControlState × Plugin) : Prop :=
  ∃ rule stored, out.2.1.flowRules.getLast? = some rule ∧
    out.2.2.api.ruleSet.get before.api.ruleSet.count = some stored ∧ SameRule rule stored

/-- A request to add a rule that is answered with ok leaves the same rule on both sides exactly when it
sets a limit and has at most seven fields: in every state of the server, behind every run of the
plugin. -/
theorem rule_survives_iff (errno : VnetApiErrno) (vlibNumWorkers : ℕ) (events : List PluginEvent)
    (state : ControlState) (env : ApiEnv) (memory : Option FlowRuleAddMsg) (replied : Bool)
    (params : FlowRuleAddParams)
    (hok : (state.handleFlowRuleAdd (some (pluginVapi errno env memory replied)) params
      (Runs.run PluginSystem.step (.start vlibNumWorkers) events).plugin).1.ok = true) :
    Survives (Runs.run PluginSystem.step (.start vlibNumWorkers) events).plugin
        (state.handleFlowRuleAdd (some (pluginVapi errno env memory replied)) params
          (Runs.run PluginSystem.step (.start vlibNumWorkers) events).plugin) ↔
      params.maxKeys ≠ 0 ∧ params.fields.length ≤ 7 := by
  obtain ⟨es, hs⟩ := PluginSystem.sound_run vlibNumWorkers events
  generalize (Runs.run PluginSystem.step (.start vlibNumWorkers) events).plugin = p at hs hok ⊢
  rcases state.handleFlowRuleAdd_cases (pluginVapi errno env memory replied) params p with
    ⟨hfail, -⟩ | ⟨id, -, -, hclient, hstate⟩
  · rw [hfail] at hok
    cases hok
  obtain ⟨hnul, hlength, -, payload, hsent⟩ := clientFlowRuleAdd_ok (congrArg Prod.fst hclient)
  rw [hclient, pluginVapi_flowRuleAdd] at hsent
  obtain ⟨hreply, hplugin⟩ := Prod.mk.inj hsent
  -- the plugin has answered with 0, so it has stored the rule of the message
  have hretval : (p.flowRuleAddHandler env (flowRuleAddPayload payload (utf8Bytes params.name)
      (params.fields.map fieldToU8) params.maxKeys (evictionToU8 params.evictionPolicy)
      (UInt32.ofNat params.fields.length))).1.retval = none := by
    split at hreply
    · exact errno.retval_eq_zero_iff.mp (Prod.mk.inj (Option.some.inj hreply)).1
    · cases hreply
  rcases (Plugin.flowRuleAddHandler_cases hs env _).2 with ⟨hne, -⟩ | ⟨tables, -, hadded⟩
  · exact absurd hretval hne
  have hstored : (state.handleFlowRuleAdd (some (pluginVapi errno env memory replied)) params
      p).2.2.api.ruleSet.get p.api.ruleSet.count = some (Plugin.messageRule (flowRuleAddPayload
        payload (utf8Bytes params.name) (params.fields.map fieldToU8) params.maxKeys
        (evictionToU8 params.evictionPolicy) (UInt32.ofNat params.fields.length))).register := by
    rw [← hplugin, hs.aligned.count_eq, hadded.aligned.rules.get_eq (by simp)]
    simp
  rw [Survives, hstate, hstored]
  dsimp only
  have hsame := @sameRule_messageRule_iff payload params.fields params.maxKeys
    params.evictionPolicy params.name hnul hlength
  rw [List.getLast?_concat, ← hsame]
  constructor
  · rintro ⟨rule, stored, hrule, hst, hsame⟩
    rwa [← Option.some.inj hrule, ← Option.some.inj hst] at hsame
  · exact fun hsame => ⟨_, _, rfl, rfl, hsame⟩

/-! ### Two requests -/

/-- Error codes that are all -1. -/
def minusOne : VnetApiErrno := ⟨fun _ => -1, fun _ => by decide⟩

/-- A message as `memset` leaves it. -/
def zeroMsg : FlowRuleAddMsg :=
  ⟨Vector.replicate 32 0, 0, Vector.replicate 8 0, 0, 0⟩

/-- The first request to a server without rules in front of a plugin that has just been loaded. -/
def firstRequest (params : FlowRuleAddParams) : Response × ControlState × Plugin :=
  (ControlState.new []).handleFlowRuleAdd
    (some (pluginVapi minusOne (envAt 0) (some zeroMsg) true)) params (.start 0)

/-- A rule `ab` on the protocol. -/
def protoParams (maxKeys : UInt32) : FlowRuleAddParams := ⟨"ab", [.ipProto], maxKeys, .lruDrop⟩

/-- A rule `ab` on all seven fields and one of them again. -/
def eightFields : FlowRuleAddParams :=
  ⟨"ab", [.srcIp, .dstIp, .ipProto, .dscp, .mirrorSrcIp, .srcPort, .dstPort, .srcIp], 2, .lruDrop⟩

/-- A rule with a limit of two keys survives. -/
theorem rule_survives_two_keys :
    (firstRequest (protoParams 2)).1.ok = true ∧
      Survives (.start 0) (firstRequest (protoParams 2)) := by
  have hok : (firstRequest (protoParams 2)).1.ok = true := by decide +kernel
  exact ⟨hok, (rule_survives_iff minusOne 0 [] (ControlState.new []) (envAt 0) (some zeroMsg) true
    (protoParams 2) hok).mpr ⟨by decide, by decide⟩⟩

/-- Both requests are answered with ok. The first rule is kept without a limit and stored with 65536
keys; the second is kept with eight fields and stored with seven. -/
theorem accepted_rules_rewritten :
    ((firstRequest (protoParams 0)).1.ok = true ∧
      (firstRequest (protoParams 0)).2.1.flowRules.map FlowRule.maxKeys = [0] ∧
      ((firstRequest (protoParams 0)).2.2.api.ruleSet.get 0).map InFMon.FlowRule.maxKeys =
        some 65536 ∧
      ¬ Survives (.start 0) (firstRequest (protoParams 0))) ∧
    (firstRequest eightFields).1.ok = true ∧
      (firstRequest eightFields).2.1.flowRules.map (fun rule => rule.fields.length) = [8] ∧
      ((firstRequest eightFields).2.2.api.ruleSet.get 0).map (fun rule => rule.fields.length) =
        some 7 ∧
      ¬ Survives (.start 0) (firstRequest eightFields) := by
  have hzero : ∀ params, (firstRequest params).2.1.flowRules.getLast?.map
      (fun rule => (rule.maxKeys.toNat, rule.fields.length)) ≠
        ((firstRequest params).2.2.api.ruleSet.get 0).map
          (fun rule => (rule.maxKeys, rule.fields.length)) →
      ¬ Survives (.start 0) (firstRequest params) := by
    rintro params hne ⟨rule, stored, hrule, hstored, hsame⟩
    refine hne ?_
    change (firstRequest params).2.2.api.ruleSet.get 0 = some stored at hstored
    rw [hrule, hstored, Option.map_some, Option.map_some, hsame.maxKeys, hsame.fields,
      List.length_map]
  refine ⟨⟨by decide +kernel, by decide +kernel, by decide +kernel, hzero _ (by decide +kernel)⟩,
    by decide +kernel, by decide +kernel, by decide +kernel, hzero _ (by decide +kernel)⟩

end InFMon.Frontend
