import InFMon.Frontend.ControlRuns

/-! # The rules on both sides

The control server keeps a list of rules and the ids under which the back end has them. As long as it
starts without rules it adds and removes on both sides; the rules of its configuration it never
forwards. -/

namespace InFMon.Frontend

open Runs

/-! ### The client in front of the plugin -/

section Client

variable {errno : VnetApiErrno} {env : ApiEnv} {memory : Option FlowRuleAddMsg} {p : Plugin}
  {es : List RuleEntry}

variable (errno env memory) in
/-- A rule is added in the back end under its name and the id of the reply, or the client reports an
error and the back end has the entries it had. -/
theorem clientFlowRuleAdd_cases (h : p.Sound es) (name : String) (fields : List Field)
    (maxKeys : UInt32) (policy : EvictionPolicy) :
    let out := clientFlowRuleAdd (pluginVapi errno env memory true) name fields maxKeys policy p
    ((∃ err, out.1 = .error err) ∧ out.2.Sound es) ∨
      ∃ id rule tables, out.1 = .ok id ∧ rule.name = utf8Bytes name ∧
        out.2.Sound (es ++ [⟨rule, id, tables⟩]) := by
  dsimp only
  cases hout : (clientFlowRuleAdd (pluginVapi errno env memory true) name fields maxKeys policy
    p).1 with
  | ok id =>
    obtain ⟨hnul, hlength, -, payload, hsent⟩ := clientFlowRuleAdd_ok hout
    have hname := @messageRule_name payload (utf8Bytes name) fields maxKeys policy hnul hlength
    rw [pluginVapi_flowRuleAdd, if_pos rfl] at hsent
    generalize flowRuleAddPayload payload (utf8Bytes name) (fields.map fieldToU8) maxKeys
      (evictionToU8 policy) (UInt32.ofNat fields.length) = msg at hname hsent
    obtain ⟨hreply, hplugin⟩ := Prod.mk.inj hsent
    obtain ⟨hretval, hid⟩ := Prod.mk.inj (Option.some.inj hreply)
    rw [← hplugin]
    rcases (Plugin.flowRuleAddHandler_cases h env msg).2 with ⟨hne, -⟩ | ⟨tables, -, hadded⟩
    · exact absurd (errno.retval_eq_zero_iff.mp hretval) hne
    · rw [hid] at hadded
      exact Or.inr ⟨id, (Plugin.messageRule msg).register, tables, rfl, hname, hadded⟩
  | error err =>
    refine Or.inl ⟨⟨err, rfl⟩, ?_⟩
    rcases clientFlowRuleAdd_error hout with heq | ⟨msg, heq, hreply⟩
    · rw [heq]
      exact h
    · rw [pluginVapi_flowRuleAdd, if_pos rfl] at hreply
      rw [heq, pluginVapi_flowRuleAdd]
      rcases (Plugin.flowRuleAddHandler_cases h env msg).2 with ⟨-, -, hs⟩ | ⟨tables, hout', -⟩
      · exact hs
      · -- the plugin has answered with 0
        have hretval : (p.flowRuleAddHandler env msg).1.retval = none := by rw [hout']
        rw [hretval] at hreply
        exact absurd rfl (hreply _)

variable (errno env memory) in
/-- A rule is deleted in the back end: the one whose name the handler finds for the id. Or the client
reports an error, because it has no memory for the message or because the id is zero or the id of no
rule, and the back end has the entries it had. -/
theorem clientFlowRuleDel_cases (h : p.Sound es) (id : FlowRuleId) :
    let out := clientFlowRuleDel (pluginVapi errno env memory true) id p
    (out.1 ≠ .ok () ∧ out.2.Sound es ∧ (memory = none ∨ id.isZero = true ∨
        (p.apiCtxEnsure env.memory).nameOfId id = none)) ∨
      ∃ i, ∃ hi : i < es.length, memory.isSome = true ∧ id.isZero = false ∧
        (p.apiCtxEnsure env.memory).nameOfId id = some es[i].rule.name ∧ out.1 = .ok () ∧
        out.2.Sound (es.eraseIdx i) := by
  dsimp only
  obtain ⟨hafter, hok⟩ := clientFlowRuleDel_eq (pluginVapi errno env memory true) id p
  rw [pluginVapi_flowRuleDel] at hafter hok
  rw [hafter, Ne, hok]
  have halloc : (pluginVapi errno env memory true).allocFlowRuleDel = memory.isSome := rfl
  rw [halloc, if_pos rfl, Option.some_inj, errno.retval_eq_zero_iff]
  cases memory with
  | none => exact Or.inl ⟨by simp, h, Or.inl rfl⟩
  | some memory =>
    rw [Option.isSome_some, if_pos rfl]
    rcases (Plugin.flowRuleDelHandler_cases h env id).2 with
      ⟨hne, hs, -, hwhy⟩ | ⟨i, hi, -, hzero, hname, hnone, hs⟩
    · exact Or.inl ⟨fun h => hne h.2, hs, Or.inr hwhy⟩
    · exact Or.inr ⟨i, hi, rfl, hzero, hname, ⟨rfl, hnone⟩, hs⟩

end Client

/-! ### Requests with true replies -/

/-- A request to a server whose client gets the plugin's reply to everything that it sends. `memory` is
what it gets for a message. -/
structure BackendRequest where
  env : ApiEnv
  memory : Option FlowRuleAddMsg
  outcome : Except PullError FlowStatsSnapshot
  request : Request

namespace Server

/-- The server serves a request with the plugin behind it. -/
def stepPlugin (errno : VnetApiErrno) (s : Server Plugin) (e : BackendRequest) : Server Plugin :=
  s.step true ⟨pluginVapi errno e.env e.memory true, e.outcome, e.request⟩

/-- Both sides have the same rules, and the map has the ids of the back end. -/
structure Agree (s : Server Plugin) : Prop where
  names : ∀ bytes, (∃ rule ∈ s.control.flowRules, utf8Bytes rule.name = bytes) ↔
    ∃ i < s.backend.api.ruleSet.count, (s.backend.api.ruleSet.rules i).name = bytes
  ids : ∀ name id, s.control.ruleIdMap name = some id ↔ ∃ i < s.backend.api.ruleSet.count,
    (s.backend.api.ruleSet.rules i).name = utf8Bytes name ∧ s.backend.api.ctx.flowRuleIds i = id

/-- A removal that reaches the back end goes by an id under which the back end finds the rule of that
name, and no rule before it. -/
def Unambiguous (s : Server Plugin) (e : BackendRequest) : Prop :=
  ∀ name id, e.request = .flowRuleRm name → s.control.ruleIdMap name = some id →
    e.memory.isSome = true → id.isZero = false → s.backend.nameOfId id = some (utf8Bytes name)

/-- The server has the rules of the entries `es` in the same order, under their ids. -/
structure Synced (s : Server Plugin) (es : List RuleEntry) : Prop where
  sound : s.backend.Sound es
  names : s.control.flowRules.map (fun rule => utf8Bytes rule.name) = es.map fun e => e.rule.name
  ids : ∀ name id, s.control.ruleIdMap name = some id ↔
    ∃ e ∈ es, e.rule.name = utf8Bytes name ∧ e.id = id

section Synced

variable {s : Server Plugin} {es : List RuleEntry}

/-- The names of the entries are distinct. -/
theorem Synced.nodup (h : s.Synced es) : (es.map fun e => e.rule.name).Nodup := by
  have hnames := h.sound.aligned.rules.names
  rwa [List.map_map] at hnames

/-- A name of the server is the name of an entry. -/
theorem Synced.mem_names_iff (h : s.Synced es) {name : String} :
    name ∈ s.control.flowRules.map FlowRule.name ↔ ∃ e ∈ es, e.rule.name = utf8Bytes name := by
  have hmap : utf8Bytes name ∈ s.control.flowRules.map (fun rule => utf8Bytes rule.name) ↔
      utf8Bytes name ∈ es.map fun e => e.rule.name := by rw [h.names]
  simpa only [List.mem_map, utf8Bytes_inj] using hmap

/-- The rules of the back end are those of its entries. -/
theorem backend_rule_iff (h : s.backend.Sound es) {bytes : List UInt8} :
    (∃ i < s.backend.api.ruleSet.count, (s.backend.api.ruleSet.rules i).name = bytes) ↔
      ∃ e ∈ es, e.rule.name = bytes := by
  rw [h.aligned.count_eq]
  constructor
  · rintro ⟨i, hi, hname⟩
    exact ⟨es[i], List.getElem_mem hi, h.aligned.rule_eq hi ▸ hname⟩
  · rintro ⟨e, he, hname⟩
    obtain ⟨i, hi, rfl⟩ := List.getElem_of_mem he
    exact ⟨i, hi, (h.aligned.rule_eq hi).symm ▸ hname⟩

/-- Both sides in step have the same rules under the same ids. -/
theorem Synced.agree (h : s.Synced es) : s.Agree where
  names bytes := by
    rw [backend_rule_iff h.sound]
    have hmap : bytes ∈ s.control.flowRules.map (fun rule => utf8Bytes rule.name) ↔
        bytes ∈ es.map fun e => e.rule.name := by rw [h.names]
    simpa only [List.mem_map] using hmap
  ids name id := by
    rw [h.ids, h.sound.aligned.count_eq]
    constructor
    · rintro ⟨e, he, hname, hid⟩
      obtain ⟨i, hi, rfl⟩ := List.getElem_of_mem he
      exact ⟨i, hi, (h.sound.aligned.rule_eq hi).symm ▸ hname,
        (h.sound.aligned.id_eq hi).trans hid⟩
    · rintro ⟨i, hi, hname, hid⟩
      exact ⟨es[i], List.getElem_mem hi, h.sound.aligned.rule_eq hi ▸ hname,
        (h.sound.aligned.id_eq hi).symm.trans hid⟩

/-- A plugin with entries is set up. -/
theorem ensure_of_mem {p : Plugin} (h : p.Sound es) {e : RuleEntry} (he : e ∈ es) (memory : Bool) :
    p.apiCtxEnsure memory = p := by
  rcases Plugin.apiCtxEnsure_cases memory p with heq | ⟨hready, -⟩
  · exact heq
  · obtain ⟨rfl, -⟩ := h.fresh hready
    exact absurd he List.not_mem_nil

variable {errno : VnetApiErrno} {env : ApiEnv} {memory : Option FlowRuleAddMsg}

/-- A request to add a rule adds it on both sides or on none. -/
theorem Synced.add (h : s.Synced es) (params : FlowRuleAddParams) :
    let out := s.control.handleFlowRuleAdd (some (pluginVapi errno env memory true)) params s.backend
    ∃ es', Synced ⟨out.2.1, out.2.2⟩ es' := by
  dsimp only
  unfold ControlState.handleFlowRuleAdd
  dsimp only
  by_cases hname : (s.control.flowRules.any fun r => r.name == params.name) = true
  · rw [if_pos hname]
    exact ⟨es, h⟩
  rw [if_neg hname]
  have hfree : ¬ ∃ e ∈ es, e.rule.name = utf8Bytes params.name :=
    fun hmem => hname (FlowRuleSet.any_name_iff.mpr (h.mem_names_iff.mpr hmem))
  rcases clientFlowRuleAdd_cases errno env memory h.sound
    params.name params.fields params.maxKeys params.evictionPolicy with
    ⟨⟨err, herr⟩, hs⟩ | ⟨id, rule, tables, hok, hrule, hs⟩
  · rw [herr]
    exact ⟨es, hs, h.names, h.ids⟩
  · rw [hok]
    refine ⟨_, hs, ?_, fun name id' => ?_⟩
    · rw [List.map_append, List.map_append, h.names]
      exact congrArg _ (congrArg (fun n => [n]) hrule.symm)
    · dsimp only
      by_cases hsame : name = params.name
      · -- the new name had no id before
        rw [hsame, Function.update_self, Option.some_inj]
        constructor
        · rintro rfl
          exact ⟨_, List.mem_append_right _ (List.mem_singleton_self _), hrule, rfl⟩
        · rintro ⟨e, he, hname', hid⟩
          rcases List.mem_append.mp he with he | he
          · exact absurd ⟨e, he, hname'⟩ hfree
          · rw [List.mem_singleton.mp he] at hid
            exact hid
      · rw [Function.update_of_ne hsame, h.ids]
        constructor
        · rintro ⟨e, he, hrest⟩
          exact ⟨e, List.mem_append_left _ he, hrest⟩
        · rintro ⟨e, he, hname', hid⟩
          rcases List.mem_append.mp he with he | he
          · exact ⟨e, he, hname', hid⟩
          · rw [List.mem_singleton.mp he] at hname'
            exact absurd (utf8Bytes_inj.mp (hname'.symm.trans hrule)) hsame

variable (errno env memory) in
/-- A request to remove a rule either changes no entry, because the name is unknown or the deletion
does not get through; or it removes the name from the server and deletes the rule that the back end
finds for its id. -/
theorem Synced.rm_cases (h : s.Synced es) (name : String) :
    let out := s.control.handleFlowRuleRm (some (pluginVapi errno env memory true)) name s.backend
    (Synced ⟨out.2.1, out.2.2⟩ es ∧ ∀ id, s.control.ruleIdMap name = some id →
      memory = none ∨ id.isZero = true ∨ (s.backend.apiCtxEnsure env.memory).nameOfId id = none) ∨
    ∃ id i, ∃ hi : i < es.length, s.control.ruleIdMap name = some id ∧ memory.isSome = true ∧
      id.isZero = false ∧ s.backend.nameOfId id = some es[i].rule.name ∧
      out.2.1 = s.control.removeLocally name ∧ out.2.2.Sound (es.eraseIdx i) := by
  dsimp only
  unfold ControlState.handleFlowRuleRm
  by_cases hname : (s.control.flowRules.any fun r => r.name == name) = true
  · rw [if_pos hname]
    dsimp only
    cases hmap : s.control.ruleIdMap name with
    | none =>
      -- every rule of the server has an id
      obtain ⟨e, he, hrule⟩ := h.mem_names_iff.mp (FlowRuleSet.any_name_iff.mp hname)
      rw [(h.ids name e.id).mpr ⟨e, he, hrule, rfl⟩] at hmap
      cases hmap
    | some id =>
      dsimp only
      obtain ⟨e, he, -⟩ := (h.ids name id).mp hmap
      rcases clientFlowRuleDel_cases errno env memory h.sound id with
        ⟨hfail, hs, hwhy⟩ | ⟨i, hi, hmemory, hzero, hfound, hok, hs⟩
      · left
        refine ⟨?_, fun id' hid => Option.some.inj hid ▸ hwhy⟩
        split
        · exact ⟨hs, h.names, h.ids⟩
        · rename_i hok
          exact absurd hok hfail
      · right
        rw [ensure_of_mem h.sound he] at hfound
        refine ⟨id, i, hi, rfl, hmemory, hzero, hfound, ?_, ?_⟩
        · rw [hok]
        · rw [hok]
          exact hs
  · rw [if_neg hname]
    refine Or.inl ⟨h, fun id hid => absurd (FlowRuleSet.any_name_iff.mpr (h.mem_names_iff.mpr ?_)) hname⟩
    obtain ⟨e, he, hrule, -⟩ := (h.ids name id).mp hid
    exact ⟨e, he, hrule⟩

/-- Taking out an entry takes out the entries of its name. -/
theorem Synced.mem_eraseIdx_iff (h : s.Synced es) {i : ℕ} (hi : i < es.length) {e : RuleEntry} :
    e ∈ es.eraseIdx i ↔ e ∈ es ∧ e.rule.name ≠ es[i].rule.name := by
  have hinj : ∀ j (hj : j < es.length), es[j].rule.name = es[i].rule.name → j = i := by
    intro j hj heq
    have hlen : j < (es.map fun e => e.rule.name).length := by rwa [List.length_map]
    have hlen' : i < (es.map fun e => e.rule.name).length := by rwa [List.length_map]
    have hsame : (es.map fun e => e.rule.name)[j] = (es.map fun e => e.rule.name)[i] := by
      rwa [List.getElem_map, List.getElem_map]
    exact h.nodup.getElem_inj_iff.mp hsame
  rw [List.mem_eraseIdx_iff_getElem]
  constructor
  · rintro ⟨j, hj, hne, rfl⟩
    exact ⟨List.getElem_mem hj, fun heq => hne (hinj j hj heq)⟩
  · rintro ⟨he, hne⟩
    obtain ⟨j, hj, rfl⟩ := List.getElem_of_mem he
    exact ⟨j, hj, fun heq => hne (by subst heq; rfl), rfl⟩

/-- The names behind a local removal. -/
theorem removeLocally_names (control : ControlState) (name : String) :
    (control.removeLocally name).flowRules.map (fun rule => utf8Bytes rule.name) =
      (control.flowRules.map fun rule => utf8Bytes rule.name).filter (· != utf8Bytes name) := by
  rw [ControlState.removeLocally, List.filter_map]
  refine congrArg _ (List.filter_congr fun rule _ => ?_)
  rw [Function.comp_apply, Bool.eq_iff_iff, bne_iff_ne, bne_iff_ne, Ne, Ne, utf8Bytes_inj]

/-- Removing the name on the server keeps both sides in step when the entry taken out has it. -/
theorem Synced.removed (h : s.Synced es) {name : String} {i : ℕ} (hi : i < es.length)
    (hname : es[i].rule.name = utf8Bytes name) {p : Plugin} (hs : p.Sound (es.eraseIdx i)) :
    Synced ⟨s.control.removeLocally name, p⟩ (es.eraseIdx i) where
  sound := hs
  names := by
    have hlt : i < (es.map fun e => e.rule.name).length := by rwa [List.length_map]
    have herase := h.nodup.erase_getElem i hlt
    rw [removeLocally_names, h.names, ← List.eraseIdx_map, ← herase, h.nodup.erase_eq_filter,
      List.getElem_map, hname]
  ids := fun name' id' => by
    have hmem := h.ids name' id'
    dsimp only [ControlState.removeLocally]
    by_cases hsame : name' = name
    · rw [hsame, Function.update_self]
      refine iff_of_false (by simp) ?_
      rintro ⟨e, he, hrule, -⟩
      exact ((h.mem_eraseIdx_iff hi).mp he).2 (hrule.trans hname.symm)
    · rw [Function.update_of_ne hsame, hmem]
      constructor
      · rintro ⟨e, he, hrule, hid⟩
        refine ⟨e, (h.mem_eraseIdx_iff hi).mpr ⟨he, fun heq => hsame ?_⟩, hrule, hid⟩
        exact utf8Bytes_inj.mp (hrule.symm.trans (heq.trans hname))
      · rintro ⟨e, he, hrest⟩
        exact ⟨e, ((h.mem_eraseIdx_iff hi).mp he).1, hrest⟩

/-! ### Runs -/

/-- An unambiguous request keeps both sides in step. -/
theorem Synced.step (h : s.Synced es) {e : BackendRequest} (hcond : Unambiguous s e) :
    ∃ es', (s.stepPlugin errno e).Synced es' := by
  rw [stepPlugin, Server.step]
  cases hreq : e.request with
  | flowRuleAdd params => exact h.add params
  | flowRuleRm name =>
    rw [if_pos rfl, ControlState.handleRequest]
    dsimp only
    rcases h.rm_cases errno e.env e.memory name with
      ⟨hsame, -⟩ | ⟨id, i, hi, hmap, hmemory, hzero, hfound, hcontrol, hs⟩
    · exact ⟨es, hsame⟩
    · have hname := Option.some.inj (hfound.symm.trans (hcond name id hreq hmap hmemory hzero))
      rw [hcontrol]
      exact ⟨_, h.removed hi hname hs⟩
  | flowRuleList => exact ⟨es, h⟩
  | flowRuleShow name => exact ⟨es, h⟩
  | statsShow name => exact ⟨es, h⟩
  | statsPull =>
    -- a pull replaces the snapshot
    rw [ControlState.handleRequest]
    dsimp only
    unfold ControlState.handleStatsPull
    split <;> exact ⟨es, h.sound, h.names, h.ids⟩

/-- An ambiguous removal takes the name off the server and leaves its rule in the back end. -/
theorem Synced.broken (h : s.Synced es) {e : BackendRequest} (hcond : ¬ Unambiguous s e) :
    ¬ (s.stepPlugin errno e).Agree := by
  rw [Unambiguous] at hcond
  push Not at hcond
  obtain ⟨name, id, hreq, hmap, hmemory, hzero, hother⟩ := hcond
  obtain ⟨own, hown, hrule, hid⟩ := (h.ids name id).mp hmap
  have hensure := ensure_of_mem h.sound hown e.env.memory
  rw [stepPlugin, Server.step, hreq, if_pos rfl, ControlState.handleRequest]
  dsimp only
  rcases h.rm_cases errno e.env e.memory name with
    ⟨-, hwhy⟩ | ⟨id', i, hi, hmap', -, -, hfound, hcontrol, hs⟩
  · -- the deletion gets through: there is a rule with this id
    exfalso
    obtain ⟨found, hfound⟩ := h.sound.nameOfId_isSome hzero (h.sound.hasRule_iff.mpr ⟨own, hown, hid⟩)
    rcases hwhy id hmap with hnone | hzero' | hnone
    · rw [hnone] at hmemory
      cases hmemory
    · rw [hzero] at hzero'
      cases hzero'
    · rw [hensure, hfound] at hnone
      cases hnone
  · obtain rfl : id = id' := Option.some.inj (hmap.symm.trans hmap')
    intro hagree
    have hne : own.rule.name ≠ es[i].rule.name := by
      intro heq
      rw [hfound, ← heq, hrule] at hother
      exact hother rfl
    have hleft := (hagree.names (utf8Bytes name)).mpr ((backend_rule_iff hs).mpr
      ⟨own, (h.mem_eraseIdx_iff hi).mpr ⟨hown, hne⟩, hrule⟩)
    obtain ⟨rule, hmem, hname⟩ := hleft
    rw [hcontrol, ControlState.removeLocally, List.mem_filter, utf8Bytes_inj.mp hname] at hmem
    simp at hmem

end Synced

/-- A request, with memory for it. -/
def requestAt (now : UInt64) (request : Request) : BackendRequest where
  env := envAt now
  memory := some zeroMsg
  outcome := .error .notConnected
  request := request

/-- Two rules on the protocol are added, and the first one is removed. -/
def addAddRm : List BackendRequest :=
  [requestAt 0 (.flowRuleAdd (protoParams 2)),
    requestAt 1 (.flowRuleAdd { protoParams 2 with name := "cd" }), requestAt 2 (.flowRuleRm "ab")]

end Server

end InFMon.Frontend
