import InFMon.Frontend.Model
import InFMon.Plugin.Handlers

/-! # The control client

`infmon_vapi_client.c` and `vapi_control_client.rs`: the C functions that send one request over VAPI and
wait for its reply, and the Rust functions around them. VAPI is outside; what it does with a request is
a parameter, with a state `β` behind it. -/

namespace InFMon.Frontend

/-! ### VAPI -/

/-- What VAPI does for one request: the memory it allocates for a message, with what is in there, or
`NULL`; and the reply to a message, or none when the call fails or no reply comes. -/
structure Vapi (β : Type) where
  allocFlowRuleAdd : Option FlowRuleAddMsg
  flowRuleAdd : FlowRuleAddMsg → β → Option (ℤ × FlowRuleId) × β
  allocFlowRuleDel : Bool
  flowRuleDel : FlowRuleId → β → Option ℤ × β

/-- The values of VPP's error codes, none of which is 0. -/
structure VnetApiErrno where
  code : VnetApiError → ℤ
  code_ne : ∀ e, code e ≠ 0

/-- The return value of a reply. -/
def VnetApiErrno.retval (errno : VnetApiErrno) : Option VnetApiError → ℤ
  | none => 0
  | some e => errno.code e

/-- The return value is zero when there is no error. -/
theorem VnetApiErrno.retval_eq_zero_iff (errno : VnetApiErrno) {e : Option VnetApiError} :
    errno.retval e = 0 ↔ e = none := by
  cases e with
  | none => exact iff_of_true rfl rfl
  | some e => exact iff_of_false (errno.code_ne e) (by simp)

/-- VAPI in front of the plugin: it delivers the fields of a message unchanged, and the reply unless
that is lost. -/
def pluginVapi (errno : VnetApiErrno) (env : ApiEnv) (memory : Option FlowRuleAddMsg)
    (replied : Bool) : Vapi Plugin where
  allocFlowRuleAdd := memory
  flowRuleAdd msg p :=
    let out := p.flowRuleAddHandler env msg
    (if replied then some (errno.retval out.1.retval, out.1.flowRuleId) else none, out.2)
  allocFlowRuleDel := memory.isSome
  flowRuleDel id p :=
    let out := p.flowRuleDelHandler env id
    (if replied then some (errno.retval out.1) else none, out.2)

/-- A deletion over VAPI is served by the plugin's handler. -/
theorem pluginVapi_flowRuleDel (errno : VnetApiErrno) (env : ApiEnv)
    (memory : Option FlowRuleAddMsg) (replied : Bool) (id : FlowRuleId) (p : Plugin) :
    (pluginVapi errno env memory replied).flowRuleDel id p =
      (if replied then some (errno.retval (p.flowRuleDelHandler env id).1) else none,
        (p.flowRuleDelHandler env id).2) := rfl

/-- An addition over VAPI is served by the plugin's handler. -/
theorem pluginVapi_flowRuleAdd (errno : VnetApiErrno) (env : ApiEnv)
    (memory : Option FlowRuleAddMsg) (replied : Bool) (msg : FlowRuleAddMsg) (p : Plugin) :
    (pluginVapi errno env memory replied).flowRuleAdd msg p =
      (if replied then
          some (errno.retval (p.flowRuleAddHandler env msg).1.retval,
            (p.flowRuleAddHandler env msg).1.flowRuleId)
        else none, (p.flowRuleAddHandler env msg).2) := rfl

/-! ### The C functions -/

variable {β : Type}

/-- The payload of the message for a rule: the name, cut and padded with NULs, and the fields over what
was in the memory. -/
def flowRuleAddPayload (memory : FlowRuleAddMsg) (name fields : List UInt8) (maxKeys : UInt32)
    (evictionPolicy : UInt8) (fieldCount : UInt32) : FlowRuleAddMsg where
  name := Vector.ofFn fun i => (name.take 31).getD i 0
  fieldCount := fieldCount
  fields := Vector.ofFn fun i =>
    if (i : ℕ) < fieldCount.toNat then fields.getD i 0 else memory.fields[i]
  maxKeys := maxKeys
  evictionPolicy := evictionPolicy

/-- `infmon_vapi_flow_rule_add`: the id of the rule, or the return value of the failure. -/
def infmonVapiFlowRuleAdd (vapi : Vapi β) (name fields : List UInt8) (fieldCount : UInt32)
    (maxKeys : UInt32) (evictionPolicy : UInt8) (b : β) : Except ℤ FlowRuleId × β :=
  match vapi.allocFlowRuleAdd with
  | none => (.error (-1), b)
  | some memory =>
    -- the message is freed again
    if name.length ≥ 32 then (.error (-1), b)
    else if fieldCount.toNat > 8 then (.error (-1), b)
    else
      let out := vapi.flowRuleAdd
        (flowRuleAddPayload memory name fields maxKeys evictionPolicy fieldCount) b
      match out.1 with
      -- the backend may have added the rule all the same
      | none => (.error (-1), out.2)
      | some (retval, id) => if retval ≠ 0 then (.error retval, out.2) else (.ok id, out.2)

/-- `infmon_vapi_flow_rule_del`: the return value. -/
def infmonVapiFlowRuleDel (vapi : Vapi β) (id : FlowRuleId) (b : β) : ℤ × β :=
  if vapi.allocFlowRuleDel then
    let out := vapi.flowRuleDel id b
    (out.1.getD (-1), out.2)
  else (-1, b)

/-! ### The Rust functions -/

/-- `VapiError`. -/
inductive VapiError where
  | connectFailed
  | snapshotFailed (s : String)
  | listFailed
  | flowRuleFailed (s : String)
  deriving DecidableEq, Repr

/-- The text of an error. -/
def VapiError.display : VapiError → String
  | connectFailed => "failed to connect to VPP API"
  | snapshotFailed s => "snapshot_inline_dump failed: " ++ s
  | listFailed => "list_flow_rules failed"
  | flowRuleFailed s => "flow rule operation failed: " ++ s

/-- `field_to_u8`. -/
def fieldToU8 : Field → UInt8
  | .srcIp => 0
  | .dstIp => 1
  | .ipProto => 2
  | .dscp => 3
  | .mirrorSrcIp => 4
  | .srcPort => 5
  | .dstPort => 6

/-- The byte of an eviction policy. -/
def evictionToU8 : EvictionPolicy → UInt8
  | .lruDrop => 0

/-- `CString::new`: the bytes of a string without a NUL. -/
def cString (s : String) : Option (List UInt8) :=
  if 0 ∈ utf8Bytes s then none else some (utf8Bytes s)

/-- `VapiControlClient::flow_rule_add`. -/
def clientFlowRuleAdd (vapi : Vapi β) (name : String) (fields : List Field) (maxKeys : UInt32)
    (evictionPolicy : EvictionPolicy) (b : β) : Except VapiError FlowRuleId × β :=
  match cString name with
  | none => (.error (.flowRuleFailed "invalid name"), b)
  | some cName =>
    let fieldBytes := fields.map fieldToU8
    let out := infmonVapiFlowRuleAdd vapi cName fieldBytes (UInt32.ofNat fieldBytes.length) maxKeys
      (evictionToU8 evictionPolicy) b
    match out.1 with
    | .error rv =>
      (.error (.flowRuleFailed ("flow_rule_add failed (rv=" ++ toString rv ++ ")")), out.2)
    | .ok id => (.ok id, out.2)

/-- `VapiControlClient::flow_rule_del`. -/
def clientFlowRuleDel (vapi : Vapi β) (id : FlowRuleId) (b : β) : Except VapiError Unit × β :=
  let out := infmonVapiFlowRuleDel vapi id b
  if out.1 ≠ 0 then
    (.error (.flowRuleFailed ("flow_rule_del failed (rv=" ++ toString out.1 ++ ")")), out.2)
  else (.ok (), out.2)

/-! ### What a success says -/

/-- A rule that the C function adds has a name of at most 31 bytes and at most eight fields as counted,
and the message with its payload was answered with 0 and the id. -/
theorem infmonVapiFlowRuleAdd_ok {vapi : Vapi β} {name fields : List UInt8}
    {fieldCount maxKeys : UInt32} {evictionPolicy : UInt8} {b : β} {id : FlowRuleId}
    (h : (infmonVapiFlowRuleAdd vapi name fields fieldCount maxKeys evictionPolicy b).1 = .ok id) :
    name.length ≤ 31 ∧ fieldCount.toNat ≤ 8 ∧ ∃ memory,
      vapi.flowRuleAdd (flowRuleAddPayload memory name fields maxKeys evictionPolicy fieldCount) b =
        (some (0, id),
          (infmonVapiFlowRuleAdd vapi name fields fieldCount maxKeys evictionPolicy b).2) := by
  unfold infmonVapiFlowRuleAdd at h ⊢
  cases hmemory : vapi.allocFlowRuleAdd with
  | none =>
    rw [hmemory] at h
    cases h
  | some memory =>
    rw [hmemory] at h
    dsimp only at h ⊢
    by_cases hlong : name.length ≥ 32
    · rw [if_pos hlong] at h
      cases h
    by_cases hmany : fieldCount.toNat > 8
    · rw [if_neg hlong, if_pos hmany] at h
      cases h
    rw [if_neg hlong, if_neg hmany] at h ⊢
    refine ⟨by omega, by omega, memory, ?_⟩
    -- from here on only the reply counts: `ok` is a reply whose return value is 0
    generalize vapi.flowRuleAdd _ b = out at h ⊢
    obtain ⟨reply, b'⟩ := out
    cases reply with
    | none => cases h
    | some reply =>
      obtain ⟨retval, id'⟩ := reply
      dsimp only at h ⊢
      by_cases hrv : retval ≠ 0
      · rw [if_pos hrv] at h
        cases h
      · rw [if_neg hrv] at h ⊢
        obtain rfl : id' = id := Except.ok.inj h
        obtain rfl : retval = 0 := not_not.mp hrv
        rfl

/-- Where the C function fails it has sent nothing, or the message was not answered with 0. -/
theorem infmonVapiFlowRuleAdd_error {vapi : Vapi β} {name fields : List UInt8}
    {fieldCount maxKeys : UInt32} {evictionPolicy : UInt8} {b : β} {rv : ℤ}
    (h : (infmonVapiFlowRuleAdd vapi name fields fieldCount maxKeys evictionPolicy b).1 =
      .error rv) :
    (infmonVapiFlowRuleAdd vapi name fields fieldCount maxKeys evictionPolicy b).2 = b ∨
    ∃ msg, (infmonVapiFlowRuleAdd vapi name fields fieldCount maxKeys evictionPolicy b).2 =
      (vapi.flowRuleAdd msg b).2 ∧ ∀ id, (vapi.flowRuleAdd msg b).1 ≠ some (0, id) := by
  unfold infmonVapiFlowRuleAdd at h ⊢
  cases hmemory : vapi.allocFlowRuleAdd with
  | none => exact Or.inl rfl
  | some memory =>
    rw [hmemory] at h
    dsimp only at h ⊢
    by_cases hlong : name.length ≥ 32
    · rw [if_pos hlong]
      exact Or.inl rfl
    by_cases hmany : fieldCount.toNat > 8
    · rw [if_neg hlong, if_pos hmany]
      exact Or.inl rfl
    rw [if_neg hlong, if_neg hmany] at h ⊢
    -- the message has been sent, and what came back was no reply with return value 0
    right
    generalize hmsg : flowRuleAddPayload memory name fields maxKeys evictionPolicy fieldCount = msg
      at h ⊢
    refine ⟨msg, ?_⟩
    generalize vapi.flowRuleAdd msg b = out at h ⊢
    obtain ⟨reply, b'⟩ := out
    cases reply with
    | none => exact ⟨rfl, fun id hid => by cases hid⟩
    | some reply =>
      obtain ⟨retval, id'⟩ := reply
      dsimp only at h ⊢
      by_cases hrv : retval ≠ 0
      · rw [if_pos hrv]
        exact ⟨rfl, fun id hid => hrv (Prod.mk.inj (Option.some.inj hid)).1⟩
      · rw [if_neg hrv] at h
        cases h

/-- Where the client fails to add a rule it has sent nothing, or the message was not answered
with 0. -/
theorem clientFlowRuleAdd_error {vapi : Vapi β} {name : String} {fields : List Field}
    {maxKeys : UInt32} {evictionPolicy : EvictionPolicy} {b : β} {err : VapiError}
    (h : (clientFlowRuleAdd vapi name fields maxKeys evictionPolicy b).1 = .error err) :
    (clientFlowRuleAdd vapi name fields maxKeys evictionPolicy b).2 = b ∨
    ∃ msg, (clientFlowRuleAdd vapi name fields maxKeys evictionPolicy b).2 =
      (vapi.flowRuleAdd msg b).2 ∧ ∀ id, (vapi.flowRuleAdd msg b).1 ≠ some (0, id) := by
  unfold clientFlowRuleAdd at h ⊢
  cases hname : cString name with
  | none => exact Or.inl rfl
  | some cName =>
    rw [hname] at h
    dsimp only at h ⊢
    cases hout : (infmonVapiFlowRuleAdd vapi cName (fields.map fieldToU8)
      (UInt32.ofNat (fields.map fieldToU8).length) maxKeys (evictionToU8 evictionPolicy) b).1 with
    | ok id =>
      rw [hout] at h
      cases h
    | error rv => exact infmonVapiFlowRuleAdd_error hout

/-- What the client reports of a removal is the reply to it; without memory it sends nothing. -/
theorem clientFlowRuleDel_eq (vapi : Vapi β) (id : FlowRuleId) (b : β) :
    (clientFlowRuleDel vapi id b).2 = (if vapi.allocFlowRuleDel then (vapi.flowRuleDel id b).2 else b) ∧
    ((clientFlowRuleDel vapi id b).1 = .ok () ↔
      vapi.allocFlowRuleDel = true ∧ (vapi.flowRuleDel id b).1 = some 0) := by
  unfold clientFlowRuleDel infmonVapiFlowRuleDel
  cases vapi.allocFlowRuleDel with
  | false => exact ⟨rfl, iff_of_false (by simp) (by simp)⟩
  | true =>
    rw [if_pos rfl, if_pos rfl]
    generalize vapi.flowRuleDel id b = out
    obtain ⟨reply, b'⟩ := out
    cases reply with
    | none => exact ⟨rfl, iff_of_false (by simp) (by simp)⟩
    | some retval =>
      dsimp only [Option.getD_some]
      by_cases hrv : retval = 0
      · rw [if_neg (not_not.mpr hrv)]
        exact ⟨rfl, iff_of_true rfl ⟨rfl, congrArg some hrv⟩⟩
      · rw [if_pos hrv]
        exact ⟨rfl, iff_of_false (by simp) fun h => hrv (Option.some.inj h.2)⟩

/-- A rule that the client adds has in addition a name without a NUL. -/
theorem clientFlowRuleAdd_ok {vapi : Vapi β} {name : String} {fields : List Field} {maxKeys : UInt32}
    {evictionPolicy : EvictionPolicy} {b : β} {id : FlowRuleId}
    (h : (clientFlowRuleAdd vapi name fields maxKeys evictionPolicy b).1 = .ok id) :
    0 ∉ utf8Bytes name ∧ (utf8Bytes name).length ≤ 31 ∧ (UInt32.ofNat fields.length).toNat ≤ 8 ∧
    ∃ memory, vapi.flowRuleAdd
      (flowRuleAddPayload memory (utf8Bytes name) (fields.map fieldToU8) maxKeys
        (evictionToU8 evictionPolicy) (UInt32.ofNat fields.length)) b =
      (some (0, id), (clientFlowRuleAdd vapi name fields maxKeys evictionPolicy b).2) := by
  unfold clientFlowRuleAdd cString at h ⊢
  by_cases hnul : 0 ∈ utf8Bytes name
  · rw [if_pos hnul] at h
    cases h
  rw [if_neg hnul] at h ⊢
  dsimp only at h ⊢
  have hlength : (fields.map fieldToU8).length = fields.length := List.length_map _
  rw [hlength] at h ⊢
  cases hout : (infmonVapiFlowRuleAdd vapi (utf8Bytes name) (fields.map fieldToU8)
    (UInt32.ofNat fields.length) maxKeys (evictionToU8 evictionPolicy) b).1 with
  | error rv =>
    rw [hout] at h
    cases h
  | ok id' =>
    rw [hout] at h
    obtain rfl : id' = id := Except.ok.inj h
    exact ⟨hnul, infmonVapiFlowRuleAdd_ok hout⟩

end InFMon.Frontend
