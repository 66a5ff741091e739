import InFMon.Config.RuleSet
import InFMon.Foundations.Runs
import InFMon.Frontend.RuleTransfer

/-! # Runs of the control server

The server handles one request after another. Its list of rules grows by an add request that is not
refused and otherwise only shrinks; a rule is added without the checks that `validate_config` makes, so
the list stays valid as long as the rules of the requests would pass `FlowRuleSet::add`. -/

namespace InFMon.Frontend

open Checks Runs

variable {β : Type}

/-! ### The server -/

/-- A request, with what VAPI does for it and with the poller's answer to a pull. -/
structure ServedRequest (β : Type) where
  vapi : Vapi β
  outcome : Except PullError FlowStatsSnapshot
  request : Request

/-- The state of the control server and the one behind VAPI. -/
structure Server (β : Type) where
  control : ControlState
  backend : β

/-- The rule of a request. -/
def FlowRuleAddParams.rule (params : FlowRuleAddParams) : FlowRule :=
  ⟨params.name, params.fields, params.maxKeys, params.evictionPolicy⟩

namespace Server

/-- A request is served by a server that has a client or not. -/
def step (connected : Bool) (s : Server β) (e : ServedRequest β) : Server β :=
  let out := s.control.handleRequest (if connected then some e.vapi else none) e.outcome e.request
    s.backend
  ⟨out.2.1, out.2.2⟩

/-- The add request is not refused: the name is free, and the client, if there is one, reports
success. -/
structure Appends (connected : Bool) (s : Server β) (e : ServedRequest β)
    (params : FlowRuleAddParams) : Prop where
  free : params.name ∉ s.control.flowRules.map FlowRule.name
  accepted : connected = true → ∃ id, (clientFlowRuleAdd e.vapi params.name params.fields
    params.maxKeys params.evictionPolicy s.backend).1 = .ok id

variable {connected : Bool} {s : Server β} {e : ServedRequest β} {params : FlowRuleAddParams}

variable (connected s) in
/-- The rule of an add request is appended unless the request is refused. -/
theorem step_add (h : e.request = .flowRuleAdd params) :
    (Appends connected s e params ∧
      (s.step connected e).control.flowRules = s.control.flowRules ++ [params.rule]) ∨
    (¬ Appends connected s e params ∧
      (s.step connected e).control.flowRules = s.control.flowRules) := by
  rw [step, h, ControlState.handleRequest]
  dsimp only
  unfold ControlState.handleFlowRuleAdd
  dsimp only
  by_cases hname : (s.control.flowRules.any fun r => r.name == params.name) = true
  · rw [if_pos hname]
    exact Or.inr ⟨fun happ => happ.free (FlowRuleSet.any_name_iff.mp hname), rfl⟩
  rw [if_neg hname]
  have hfree : params.name ∉ s.control.flowRules.map FlowRule.name :=
    mt FlowRuleSet.any_name_iff.mpr hname
  -- without a back end the rule is taken as it is
  cases connected with
  | false => exact Or.inl ⟨⟨hfree, fun h => by cases h⟩, rfl⟩
  | true =>
    cases hout : (clientFlowRuleAdd e.vapi params.name params.fields params.maxKeys
      params.evictionPolicy s.backend).1 with
    | ok id =>
      refine Or.inl ⟨⟨hfree, fun _ => ⟨id, hout⟩⟩, ?_⟩
      simp only [if_true, hout]
      rfl
    | error err =>
      refine Or.inr ⟨fun happ => ?_, ?_⟩
      · obtain ⟨id, hid⟩ := happ.accepted rfl
        rw [hout] at hid
        cases hid
      · simp only [if_true, hout]

/-- No other request adds a rule. -/
theorem step_sublist (h : ∀ params, e.request ≠ .flowRuleAdd params) :
    (s.step connected e).control.flowRules.Sublist s.control.flowRules := by
  rw [step]
  cases hreq : e.request with
  | flowRuleAdd params => exact absurd hreq (h params)
  | flowRuleRm name =>
    rw [ControlState.handleRequest]
    dsimp only
    unfold ControlState.handleFlowRuleRm
    split
    · split
      · exact List.filter_sublist
      split
      · exact List.filter_sublist
      dsimp only
      split
      · exact List.Sublist.refl _
      · exact List.filter_sublist
    · exact List.Sublist.refl _
  | flowRuleList => exact List.Sublist.refl _
  | flowRuleShow name => exact List.Sublist.refl _
  | statsShow name => exact List.Sublist.refl _
  | statsPull =>
    -- a pull replaces the snapshot and keeps the rules
    rw [ControlState.handleRequest]
    dsimp only
    unfold ControlState.handleStatsPull
    split <;> exact List.Sublist.refl _

/-! ### Valid lists of rules -/

/-- An add request that is not refused is for a rule that `FlowRuleSet::add` takes behind the rules of
the server. -/
def Checked (connected : Bool) (s : Server β) (e : ServedRequest β) : Prop :=
  ∀ params, e.request = .flowRuleAdd params → Appends connected s e params →
    (FlowRuleSet.add ⟨s.control.flowRules, maxKeysBudget⟩ params.rule).1 = .ok ()

/-- From valid rules a request leads to valid rules when it is checked, and only then. -/
theorem validRules_step_iff (h : ValidRules s.control.flowRules) :
    ValidRules (s.step connected e).control.flowRules ↔ Checked connected s e := by
  by_cases hadd : ∃ params, e.request = .flowRuleAdd params
  · obtain ⟨params, hreq⟩ := hadd
    have hchecked : Checked connected s e ↔ (Appends connected s e params →
        (FlowRuleSet.add ⟨s.control.flowRules, maxKeysBudget⟩ params.rule).1 = .ok ()) := by
      constructor
      · exact fun hall => hall params hreq
      · intro hparams params' hreq'
        obtain rfl : params = params' := Request.flowRuleAdd.inj (hreq.symm.trans hreq')
        exact hparams
    rw [hchecked]
    rcases step_add connected s hreq with ⟨happ, hrules⟩ | ⟨hrefused, hrules⟩
    · rw [hrules, validRules_concat_iff h, FlowRuleSet.add_ok_iff]
      exact ⟨fun htakes _ => htakes, fun htakes => htakes happ⟩
    · rw [hrules]
      exact iff_of_true h fun happ => absurd happ hrefused
  · have hno : ∀ params, e.request ≠ .flowRuleAdd params := fun params hreq => hadd ⟨params, hreq⟩
    exact iff_of_true (h.sublist (step_sublist hno)) fun params hreq => absurd hreq (hno params)

/-- From rules that `validate_config` accepts on, the rules of the server are valid in every state of a
run exactly when every add request of the run that is not refused is for a rule that
`FlowRuleSet::add` takes behind the rules of its state. -/
theorem valid_throughout_iff (connected : Bool) (rules : List FlowRule)
    (h : validateFlowRules rules = .ok ()) (b : β) (events : List (ServedRequest β)) :
    Throughout (step connected) (fun s => validateFlowRules s.control.flowRules = .ok ())
        ⟨.new rules, b⟩ events ↔
      Meets (step connected) (Checked connected) ⟨.new rules, b⟩ events :=
  throughout_iff_meets (I := fun s : Server β => ValidRules s.control.flowRules)
    (validateFlowRules_ok_iff.mp h)
    (fun _ _ hvalid => (validRules_step_iff hvalid).mpr)
    (fun _ => validateFlowRules_ok_iff.mpr)
    fun _ _ hvalid hcond hrules =>
      hcond ((validRules_step_iff hvalid).mp (validateFlowRules_ok_iff.mp hrules))

/-- A request to add a rule, delivered to a plugin that has just been loaded. -/
def addRequest (params : FlowRuleAddParams) : ServedRequest Plugin where
  vapi := pluginVapi minusOne (envAt 0) (some zeroMsg) true
  outcome := .error .notConnected
  request := .flowRuleAdd params

/-- One valid rule that is added. -/
theorem valid_throughout_two_keys :
    Throughout (step true) (fun s => validateFlowRules s.control.flowRules = .ok ())
      ⟨.new [], .start 0⟩ [addRequest (protoParams 2)] := by
  refine (valid_throughout_iff true [] rfl (.start 0) [addRequest (protoParams 2)]).mpr ?_
  refine meets_cons.mpr ⟨?_, meets_nil⟩
  rintro params hreq -
  obtain rfl := Request.flowRuleAdd.inj hreq
  decide +kernel

/-- A rule without a limit is kept, by a server without a client as by one whose plugin has accepted
it. -/
theorem zero_keys_kept :
    validateFlowRules [] = .ok () ∧ ∀ connected, ¬ Throughout (step connected)
      (fun s => validateFlowRules s.control.flowRules = .ok ())
      ⟨.new [], Plugin.start 0⟩ [addRequest (protoParams 0)] := by
  refine ⟨rfl, fun connected h => ?_⟩
  have hlast := h [addRequest (protoParams 0)] [] rfl
  revert hlast
  cases connected <;> decide +kernel

end Server

end InFMon.Frontend
