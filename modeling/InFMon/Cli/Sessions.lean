import InFMon.Cli.Client
import InFMon.Foundations.Sessions
import InFMon.Frontend.ControlRuns

/-! # Sessions of commands

One command of `infmonctl` after another in front of one control server, each with its connection. To the
one who runs them the server is a book of rules: what it has is told by the commands and their exit codes
alone. -/

namespace InFMon.Cli

open Frontend

/-! ### A command in front of the server -/

variable {β : Type}

/-- A command, with the course of its connection, with what VAPI does meanwhile and with the poller's
answer to a pull. -/
structure Invocation (β : Type) where
  isRoot : Bool
  command : Command
  course : Course
  vapi : Vapi β
  outcome : Except PullError FlowStatsSnapshot

/-- The client of a server that has one. -/
def Invocation.client (connected : Bool) (e : Invocation β) : Option (Vapi β) :=
  if connected then some e.vapi else none

/-- The control socket of a server. -/
def serverLink (serde : SerdeJson) (connected : Bool) (e : Invocation β) : Link (Server β) :=
  { course := e.course
    serve := fun input s =>
      let out := serveConnection serde (e.client connected) e.outcome input s.control s.backend
      (out.1, ⟨out.2.1, out.2.2⟩) }

/-- One command. -/
def invoke (serde : SerdeJson) (connected : Bool) (s : Server β) (e : Invocation β) :
    (ℤ × Printed) × Server β :=
  runCommand serde (serverLink serde connected e) e.isRoot e.command s

/-- What the server answers to a request. -/
def answerTo (connected : Bool) (s : Server β) (e : Invocation β) (request : Request) : Response :=
  (s.control.handleRequest (e.client connected) e.outcome request s.backend).1

/-- The connection lasts until the reply is read, and the request and the answer to it have texts that are
read back, within the limits of 64 KiB. -/
def Delivered (serde : SerdeJson) (connected : Bool) (s : Server β) (e : Invocation β) : Prop :=
  ∀ request print, prepare e.isRoot e.command = .ok (request, print) → e.course = .answered ∧
    ∃ text reply, ValidRequest serde request text ∧
      serde.responseText (answerTo connected s e request) = .ok reply ∧
      ReadsBack serde.responseOf reply (answerTo connected s e request) ∧
      (utf8Bytes reply).length ≤ maxResponse

variable {serde : SerdeJson} {connected : Bool} {s : Server β} {e : Invocation β}

/-- A command to add a rule, with the rights for it and a spec that is accepted. -/
theorem prepare_add {spec : List String} {rule : Frontend.FlowRule} (hroot : e.isRoot = true)
    (hcommand : e.command = .flowRuleAdd spec) (hspec : parseSpec spec = .ok rule) :
    prepare e.isRoot e.command =
      .ok (addRequestOf rule, fun r => finish (.added rule.name) (r.bind idOfData)) := by
  rw [hroot, hcommand, prepare, if_neg (by decide), hspec]

/-- A command that is delivered prints what it makes of the server's answer. -/
theorem invoke_delivered (h : Delivered serde connected s e) {request : Request}
    {print : Except CtlError (Option ResponseData) → ℤ × Printed}
    (hprepare : prepare e.isRoot e.command = .ok (request, print)) :
    invoke serde connected s e = (print (checkResponse (answerTo connected s e request)),
      s.step connected ⟨e.vapi, e.outcome, request⟩) := by
  obtain ⟨hcourse, text, reply, hvalid, hreply, hreads, hfits⟩ := h request print hprepare
  have hserve := serveConnection_valid hvalid (e.client connected) e.outcome s.control s.backend hreply
  have hread := (readResponse_eq_iff hreads).mpr hfits
  have hrpc : rpcAt serde (serverLink serde connected e) request s =
      (.ok (answerTo connected s e request), s.step connected ⟨e.vapi, e.outcome, request⟩) := by
    unfold rpcAt serverLink
    simp only [hcourse, hvalid.written, hserve, reduceCtorEq, if_false]
    rw [show readResponse serde _ = _ from hread]
    rfl
  rw [invoke, runCommand, hprepare]
  dsimp only
  rw [rpcOk, hrpc]

/-- A command without a call leaves the server alone. -/
theorem invoke_error {out : ℤ × Printed} (hprepare : prepare e.isRoot e.command = .error out) :
    invoke serde connected s e = (out, s) := by
  rw [invoke, runCommand, hprepare]

/-! ### Replies that are lost -/

/-- An error of the call decides the exit code. -/
theorem prepare_print_error {isRoot : Bool} {command : Command} {request : Request}
    {print : Except CtlError (Option ResponseData) → ℤ × Printed}
    (hprepare : prepare isRoot command = .ok (request, print)) (err : CtlError) :
    (print (.error err)).1 = ctlErrorToExitCode err := by
  unfold prepare at hprepare
  cases command with
  | flowRuleAdd spec =>
    dsimp only at hprepare
    split at hprepare
    · cases hprepare
    · split at hprepare
      · cases hprepare
      · cases hprepare
        rfl
  | flowRuleRm target all =>
    dsimp only at hprepare
    split at hprepare
    · cases hprepare
    · split at hprepare
      · cases hprepare
      · cases hprepare
        rfl
  | _ =>
    cases hprepare
    rfl

/-- A command whose reply is lost exits with 1, and the server has done what it does when the reply is
read. -/
theorem invoke_unanswered (hcourse : e.course = .unanswered) {request : Request}
    {print : Except CtlError (Option ResponseData) → ℤ × Printed}
    (hprepare : prepare e.isRoot e.command = .ok (request, print)) :
    (invoke serde connected s e).1.1 = exitFailure ∧
      (invoke serde connected s e).2 =
        (invoke serde connected s { e with course := .answered }).2 := by
  obtain ⟨⟨err, herr, hcode⟩, hstate⟩ := rpcAt_unanswered serde
    (serverLink serde connected e).serve request s
  have hlink : serverLink serde connected e = ⟨.unanswered, (serverLink serde connected e).serve⟩ := by
    rw [← hcourse]
    rfl
  rw [← hlink] at herr hstate
  refine ⟨?_, ?_⟩
  · rw [invoke, runCommand, hprepare]
    dsimp only
    rw [rpcOk, herr]
    exact (prepare_print_error hprepare err).trans hcode
  · simp only [invoke, runCommand, hprepare, rpcOk_snd]
    exact hstate

/-! ### The book of rules -/

/-- A command as it is for the book: whether those behind the server do their part. -/
structure BookInput where
  isRoot : Bool
  command : Command
  granted : Bool

namespace RuleBook

/-- The names in the book. -/
def names (rules : List Frontend.FlowRule) : List String := rules.map Frontend.FlowRule.name

/-- One command: its exit code, the rules that it lists, and the rules behind it. -/
def step (rules : List Frontend.FlowRule) (i : BookInput) :
    (ℤ × Option (List FlowRuleData)) × List Frontend.FlowRule :=
  match i.command with
  | .flowRuleAdd spec =>
    if i.isRoot = false then ((exitPermissionDenied, none), rules)
    else
      match parseSpec spec with
      | .error _ => ((exitUsage, none), rules)
      | .ok rule =>
        if rule.name ∈ names rules then ((exitConflict, none), rules)
        else if i.granted then ((exitSuccess, none), rules ++ [rule])
        else ((exitFailure, none), rules)
  | .flowRuleRm target all =>
    if i.isRoot = false then ((exitPermissionDenied, none), rules)
    else if all then ((exitFailure, none), rules)
    else if target ∉ names rules then ((exitNotFound, none), rules)
    else if i.granted then ((exitSuccess, none), rules.filter fun r => r.name != target)
    else ((exitFailure, none), rules)
  | .flowRuleList => ((exitSuccess, some (rules.map ruleData)), rules)
  | .flowRuleShow target =>
    ((if target ∈ names rules then exitSuccess else exitNotFound, none), rules)
  | .statsShow _ => ((exitSuccess, none), rules)
  | .statsPull => ((if i.granted then exitSuccess else exitFailure, none), rules)

end RuleBook

/-- The back end, if there is one, takes the rule. -/
def acceptsRule (vapi : Option (Vapi β)) (rule : Frontend.FlowRule) (b : β) : Bool :=
  match vapi with
  | none => true
  | some vapi =>
    (clientFlowRuleAdd vapi rule.name rule.fields rule.maxKeys rule.evictionPolicy b).1.isOk

/-- The back end, if there is one and the server knows an id of the rule, gives the rule up. -/
def givesUpRule (vapi : Option (Vapi β)) (ruleId : Option FlowRuleId) (b : β) : Bool :=
  match vapi, ruleId with
  | some vapi, some id => (clientFlowRuleDel vapi id b).1.isOk
  | _, _ => true

/-- Those behind the server do their part: the back end for its rules, the poller for a pull. -/
def granted (connected : Bool) (s : Server β) (e : Invocation β) : Bool :=
  match e.command with
  | .flowRuleAdd spec =>
    match parseSpec spec with
    | .error _ => false
    | .ok rule => acceptsRule (e.client connected) rule s.backend
  | .flowRuleRm target _ => givesUpRule (e.client connected) (s.control.ruleIdMap target) s.backend
  | .statsPull => e.outcome.isOk
  | _ => true

/-- The exit code is the one of the book, and so are the rules that are printed. -/
def Tells (out : ℤ × Printed) (book : ℤ × Option (List FlowRuleData)) : Prop :=
  out.1 = book.1 ∧ ∀ rules, book.2 = some rules → out.2 = .rules rules

/-! ### What the server answers -/

/-- A name is taken when the rule book has it. -/
theorem any_name_iff_names {rules : List Frontend.FlowRule} {name : String} :
    (rules.any fun r => r.name == name) = true ↔ name ∈ RuleBook.names rules :=
  Frontend.FlowRuleSet.any_name_iff

/-- The server takes a rule whose name is free if the back end does. -/
theorem answerTo_add (connected : Bool) (s : Server β) (e : Invocation β) (rule : Frontend.FlowRule) :
    let answer := answerTo connected s e (addRequestOf rule)
    let rules := (s.step connected ⟨e.vapi, e.outcome, addRequestOf rule⟩).control.flowRules
    (rule.name ∈ RuleBook.names s.control.flowRules ∧
      (∃ m, answer = .err 6 m) ∧ rules = s.control.flowRules) ∨
    (rule.name ∉ RuleBook.names s.control.flowRules ∧
      acceptsRule (e.client connected) rule s.backend = true ∧
      (∃ id : FlowRuleId, answer = .okData (.flowRuleId id.display)) ∧
        rules = s.control.flowRules ++ [rule]) ∨
    (rule.name ∉ RuleBook.names s.control.flowRules ∧
      acceptsRule (e.client connected) rule s.backend = false ∧
      (∃ m, answer = .err 7 m) ∧ rules = s.control.flowRules) := by
  unfold answerTo addRequestOf Server.step ControlState.handleRequest
    ControlState.handleFlowRuleAdd Invocation.client
  dsimp only
  generalize (if connected then some e.vapi else none) = vapi
  -- the name is looked up before the back end is asked
  by_cases hname : (s.control.flowRules.any fun r => r.name == rule.name) = true
  · rw [if_pos hname]
    exact .inl ⟨any_name_iff_names.mp hname, ⟨_, rfl⟩, rfl⟩
  have hfree := mt any_name_iff_names.mpr hname
  rw [if_neg hname]
  cases vapi with
  | none => exact .inr (.inl ⟨hfree, rfl, ⟨_, rfl⟩, rfl⟩)
  | some vapi =>
    rw [acceptsRule]
    dsimp only
    cases hout : (clientFlowRuleAdd vapi rule.name rule.fields rule.maxKeys rule.evictionPolicy
      s.backend).1 with
    | ok id => exact .inr (.inl ⟨hfree, rfl, ⟨id, rfl⟩, rfl⟩)
    | error err => exact .inr (.inr ⟨hfree, rfl, ⟨_, rfl⟩, rfl⟩)

/-- The server gives up a rule that it has if the back end does. -/
theorem answerTo_rm (connected : Bool) (s : Server β) (e : Invocation β) (target : String) :
    let answer := answerTo connected s e (.flowRuleRm target)
    let rules := (s.step connected ⟨e.vapi, e.outcome, .flowRuleRm target⟩).control.flowRules
    let gives := givesUpRule (e.client connected) (s.control.ruleIdMap target) s.backend
    (target ∉ RuleBook.names s.control.flowRules ∧
      (∃ m, answer = .err 3 m) ∧ rules = s.control.flowRules) ∨
    (target ∈ RuleBook.names s.control.flowRules ∧ gives = true ∧ answer = .okEmpty ∧
      rules = s.control.flowRules.filter fun r => r.name != target) ∨
    (target ∈ RuleBook.names s.control.flowRules ∧ gives = false ∧
      (∃ m, answer = .err 7 m) ∧ rules = s.control.flowRules) := by
  unfold answerTo Server.step ControlState.handleRequest ControlState.handleFlowRuleRm
    Invocation.client
  dsimp only
  generalize (if connected then some e.vapi else none) = vapi
  -- the name is looked up before the back end is asked
  by_cases hname : (s.control.flowRules.any fun r => r.name == target) = true
  swap
  · rw [if_neg hname]
    exact .inl ⟨mt any_name_iff_names.mpr hname, ⟨_, rfl⟩, rfl⟩
  have hmem := any_name_iff_names.mp hname
  rw [if_pos hname]
  cases vapi with
  | none => exact .inr (.inl ⟨hmem, rfl, rfl, rfl⟩)
  | some vapi =>
    dsimp only
    cases s.control.ruleIdMap target with
    | none => exact .inr (.inl ⟨hmem, rfl, rfl, rfl⟩)
    | some id =>
      rw [givesUpRule]
      dsimp only
      cases hout : (clientFlowRuleDel vapi id s.backend).1 with
      | ok _ => exact .inr (.inl ⟨hmem, rfl, rfl, rfl⟩)
      | error err => exact .inr (.inr ⟨hmem, rfl, ⟨_, rfl⟩, rfl⟩)

/-- The server shows the rules that it has. -/
theorem answerTo_show (connected : Bool) (s : Server β) (e : Invocation β) (target : String) :
    let answer := answerTo connected s e (.flowRuleShow target)
    (target ∈ RuleBook.names s.control.flowRules ∧
      ∃ detail, answer = .okData (.flowRuleDetail detail)) ∨
    (target ∉ RuleBook.names s.control.flowRules ∧ ∃ m, answer = .err 3 m) := by
  unfold answerTo ControlState.handleRequest ControlState.handleFlowRuleShow
  dsimp only
  cases hfind : s.control.flowRules.find? fun r => r.name == target with
  | none =>
    refine .inr ⟨fun hmem => ?_, ⟨_, rfl⟩⟩
    obtain ⟨r, hr, hname⟩ := List.mem_map.mp hmem
    exact absurd hname (by simpa using List.find?_eq_none.mp hfind r hr)
  | some rule =>
    exact .inl ⟨List.mem_map.mpr ⟨rule, List.mem_of_find?_eq_some hfind,
      by simpa using List.find?_some hfind⟩, ⟨_, rfl⟩⟩

/-! ### The server as a book -/

/-- An exit code without rules to print. -/
theorem tells_code {out : ℤ × Printed} {code : ℤ} (h : out.1 = code) : Tells out (code, none) :=
  ⟨h, fun _ hnone => by cases hnone⟩

/-- The server does to itself and to the command what the book does. -/
def TellsBook (serde : SerdeJson) (connected : Bool) (s : Server β) (e : Invocation β) : Prop :=
  let book := RuleBook.step s.control.flowRules ⟨e.isRoot, e.command, granted connected s e⟩
  Tells (invoke serde connected s e).1 book.1 ∧
    (invoke serde connected s e).2.control.flowRules = book.2

/-- A command that ends without a call. -/
theorem tells_of_error {out : ℤ × Printed} {code : ℤ}
    (hprepare : prepare e.isRoot e.command = .error out) (hcode : out.1 = code)
    (hbook : RuleBook.step s.control.flowRules ⟨e.isRoot, e.command, granted connected s e⟩ =
      ((code, none), s.control.flowRules)) : TellsBook serde connected s e := by
  unfold TellsBook
  rw [invoke_error hprepare, hbook]
  exact ⟨tells_code hcode, rfl⟩

/-- A command whose call prints no rules. -/
theorem tells_of_answer (h : Delivered serde connected s e) {request : Request}
    {print : Except CtlError (Option ResponseData) → ℤ × Printed}
    (hprepare : prepare e.isRoot e.command = .ok (request, print)) {answer : Response}
    (hanswer : answerTo connected s e request = answer) {code : ℤ}
    (hcode : (print (checkResponse answer)).1 = code) {rules : List Frontend.FlowRule}
    (hrules : (s.step connected ⟨e.vapi, e.outcome, request⟩).control.flowRules = rules)
    (hbook : RuleBook.step s.control.flowRules ⟨e.isRoot, e.command, granted connected s e⟩ =
      ((code, none), rules)) : TellsBook serde connected s e := by
  unfold TellsBook
  rw [invoke_delivered h hprepare, hbook, hanswer]
  exact ⟨tells_code hcode, hrules⟩

/-- The id that the server has written is read. -/
theorem idOfData_display (id : FlowRuleId) :
    idOfData (some (.flowRuleId id.display)) = .ok id := by
  rw [idOfData, FlowRuleId.fromStr_display]

/-- The exit code of an addition tells what it did. -/
theorem tells_add {spec : List String} (hcommand : e.command = .flowRuleAdd spec)
    (h : Delivered serde connected s e) : TellsBook serde connected s e := by
  by_cases hroot : e.isRoot = false
  · refine tells_of_error (by rw [hcommand, prepare, if_pos hroot]) rfl ?_
    simp only [RuleBook.step, hcommand, if_pos hroot]
  cases hspec : parseSpec spec with
  | error m =>
    refine tells_of_error (by rw [hcommand, prepare, if_neg hroot, hspec]) rfl ?_
    simp only [RuleBook.step, hcommand, if_neg hroot, hspec]
  | ok rule =>
    have hprepare := prepare_add (Bool.not_eq_false _ ▸ hroot) hcommand hspec
    have hgranted : granted connected s e = acceptsRule (e.client connected) rule s.backend := by
      rw [granted, hcommand]
      dsimp only
      rw [hspec]
    -- the book asks the same two questions: is the name free, and does the back end accept
    have hbook : ∀ i : BookInput, i = ⟨e.isRoot, e.command, granted connected s e⟩ →
        RuleBook.step s.control.flowRules i =
          if rule.name ∈ RuleBook.names s.control.flowRules then
            ((exitConflict, none), s.control.flowRules)
          else if acceptsRule (e.client connected) rule s.backend then
            ((exitSuccess, none), s.control.flowRules ++ [rule])
          else ((exitFailure, none), s.control.flowRules) := by
      rintro i rfl
      simp only [RuleBook.step, hcommand, if_neg hroot, hspec, hgranted]
    rcases answerTo_add connected s e rule with ⟨hname, ⟨m, hanswer⟩, hrules⟩ |
      ⟨hname, haccepts, ⟨id, hanswer⟩, hrules⟩ | ⟨hname, haccepts, ⟨m, hanswer⟩, hrules⟩
    · exact tells_of_answer h hprepare hanswer rfl hrules ((hbook _ rfl).trans (if_pos hname))
    · refine tells_of_answer h hprepare hanswer ?_ hrules
        ((hbook _ rfl).trans ((if_neg hname).trans (if_pos haccepts)))
      simp only [checkResponse, Response.okData, if_true, Except.bind, idOfData_display, finish]
    · exact tells_of_answer h hprepare hanswer rfl hrules
        ((hbook _ rfl).trans ((if_neg hname).trans (if_neg (Bool.eq_false_iff.mp haccepts))))

/-- The exit code of a removal tells what it did. -/
theorem tells_rm {target : String} {all : Bool} (hcommand : e.command = .flowRuleRm target all)
    (h : Delivered serde connected s e) : TellsBook serde connected s e := by
  by_cases hroot : e.isRoot = false
  · refine tells_of_error (by rw [hcommand, prepare, if_pos hroot]) rfl ?_
    simp only [RuleBook.step, hcommand, if_pos hroot]
  by_cases hall : all = true
  · refine tells_of_error (by rw [hcommand, prepare, if_neg hroot, if_pos hall]) rfl ?_
    simp only [RuleBook.step, hcommand, if_neg hroot, if_pos hall]
  have hprepare : prepare e.isRoot e.command =
      .ok (.flowRuleRm target, finish fun _ => .removed target) := by
    rw [hcommand, prepare, if_neg hroot, if_neg hall]
  have hgranted : granted connected s e =
      givesUpRule (e.client connected) (s.control.ruleIdMap target) s.backend := by
    rw [granted, hcommand]
  -- the book asks the same two questions: is the name there, and does the back end agree
  have hbook : ∀ i : BookInput, i = ⟨e.isRoot, e.command, granted connected s e⟩ →
      RuleBook.step s.control.flowRules i =
        if target ∉ RuleBook.names s.control.flowRules then
          ((exitNotFound, none), s.control.flowRules)
        else if givesUpRule (e.client connected) (s.control.ruleIdMap target) s.backend then
          ((exitSuccess, none), s.control.flowRules.filter fun r => r.name != target)
        else ((exitFailure, none), s.control.flowRules) := by
    rintro i rfl
    simp only [RuleBook.step, hcommand, if_neg hroot, if_neg hall, hgranted]
  rcases answerTo_rm connected s e target with ⟨hname, ⟨m, hanswer⟩, hrules⟩ |
    ⟨hname, hgives, hanswer, hrules⟩ | ⟨hname, hgives, ⟨m, hanswer⟩, hrules⟩
  · exact tells_of_answer h hprepare hanswer rfl hrules ((hbook _ rfl).trans (if_pos hname))
  · exact tells_of_answer h hprepare hanswer rfl hrules
      ((hbook _ rfl).trans ((if_neg (not_not.mpr hname)).trans (if_pos hgives)))
  · exact tells_of_answer h hprepare hanswer rfl hrules ((hbook _ rfl).trans
      ((if_neg (not_not.mpr hname)).trans (if_neg (Bool.eq_false_iff.mp hgives))))

/-- A list shows the rules of the book. -/
theorem tells_list (hcommand : e.command = .flowRuleList) (h : Delivered serde connected s e) :
    TellsBook serde connected s e := by
  have hprepare : prepare e.isRoot e.command = .ok (.flowRuleList, fun r =>
      finish (fun rules => .rules (rules.map ruleData)) (r.bind rulesOfData)) := by
    rw [hcommand, prepare]
  unfold TellsBook
  rw [invoke_delivered h hprepare, RuleBook.step, hcommand]
  refine ⟨⟨rfl, fun rules hrules => ?_⟩, rfl⟩
  obtain rfl := Option.some.inj hrules
  -- what is read from the list are the rules, and so is what is printed
  show Printed.rules (((s.control.flowRules.map ruleData).map _).map ruleData) = _
  rw [List.map_map, List.map_map]
  rfl

/-- Showing a rule changes nothing. -/
theorem tells_show {target : String} (hcommand : e.command = .flowRuleShow target)
    (h : Delivered serde connected s e) : TellsBook serde connected s e := by
  have hprepare : prepare e.isRoot e.command = .ok (.flowRuleShow target, fun r =>
      finish (fun s => .detail (detailData s)) (r.bind statsOfData)) := by
    rw [hcommand, prepare]
  rcases answerTo_show connected s e target with ⟨hname, ⟨detail, hanswer⟩⟩ | ⟨hname, ⟨m, hanswer⟩⟩
  · refine tells_of_answer h hprepare hanswer rfl rfl ?_
    simp only [RuleBook.step, hcommand, if_pos hname]
    rfl
  · refine tells_of_answer h hprepare hanswer rfl rfl ?_
    simp only [RuleBook.step, hcommand, if_neg hname]
    rfl

/-- A pull changes no rule. -/
theorem tells_pull (hcommand : e.command = .statsPull) (h : Delivered serde connected s e) :
    TellsBook serde connected s e := by
  have hprepare : prepare e.isRoot e.command = .ok (.statsPull, fun r =>
      finish (fun d => .pulled d.1 d.2.1 d.2.2) (r.bind pullOfData)) := by
    rw [hcommand, prepare]
  have hbook : RuleBook.step s.control.flowRules ⟨e.isRoot, e.command, granted connected s e⟩ =
      ((if e.outcome.isOk then exitSuccess else exitFailure, none), s.control.flowRules) := by
    simp only [RuleBook.step, hcommand, granted]
  cases houtcome : e.outcome with
  | ok snapshot =>
    rw [houtcome] at hbook
    refine tells_of_answer h hprepare rfl ?_ ?_ hbook
    · rw [answerTo, houtcome]
      rfl
    · rw [houtcome]
      rfl
  | error err =>
    -- the codes of the four failures are none that the command has an exit code for
    rw [houtcome] at hbook
    refine tells_of_answer h hprepare rfl ?_ ?_ hbook
    · rw [answerTo, houtcome]
      cases err <;> rfl
    · rw [houtcome]
      cases err <;> rfl

/-- A command that is delivered does to the server what it does to the book. -/
theorem tells_of_delivered (h : Delivered serde connected s e) : TellsBook serde connected s e := by
  cases hcommand : e.command with
  | flowRuleAdd spec => exact tells_add hcommand h
  | flowRuleRm target all => exact tells_rm hcommand h
  | flowRuleList => exact tells_list hcommand h
  | flowRuleShow target => exact tells_show hcommand h
  | statsShow name =>
    have hprepare : prepare e.isRoot e.command =
        .ok (.statsShow name, fun r => finish .stats (r.bind showOfData)) := by
      rw [hcommand, prepare]
    refine tells_of_answer h hprepare rfl rfl rfl ?_
    simp only [RuleBook.step, hcommand]
    rfl
  | statsPull => exact tells_pull hcommand h

/-! ### A session -/

/-- A reader of some texts only. -/
def oneOf {α : Type} (texts : List (String × α)) (s : String) : Except String α :=
  match texts.find? fun t => s = t.1 ∨ s = t.1 ++ "\n" with
  | some t => .ok t.2
  | none => .error "EOF while parsing an object"

/-- A text is read back by a reader for which none of its texts is a beginning of another one. -/
theorem readsBack_oneOf {α : Type} {texts : List (String × α)} {text : String} {a : α}
    (hline : OneLine text)
    (hwhole : texts.find? (fun t => text = t.1 ∨ text = t.1 ++ "\n") = some (text, a))
    (hfull : texts.find? (fun t => text ++ "\n" = t.1 ∨ text ++ "\n" = t.1 ++ "\n") = some (text, a))
    (hpart : ∀ t ∈ texts, t.1 = text ∨ ¬ utf8Bytes t.1 <+: utf8Bytes text) :
    ReadsBack (oneOf texts) text a where
  one_line := hline
  whole := by rw [oneOf, hwhole]
  line := by rw [oneOf, hfull]
  part s hlead hne := by
    suffices hnone : texts.find? (fun t => s = t.1 ∨ s = t.1 ++ "\n") = none by
      exact ⟨_, by rw [oneOf, hnone]⟩
    refine List.find?_eq_none.mpr fun t ht hs => ?_
    rcases of_decide_eq_true hs with rfl | rfl
    · exact (hpart t ht).elim hne fun hnot => hnot hlead
    · rw [utf8Bytes_line] at hlead
      rcases hpart t ht with heq | hnot
      · have hle := hlead.length_le
        rw [heq, List.length_append, List.length_singleton] at hle
        omega
      · exact hnot ((List.prefix_append _ _).trans hlead)

/-- The JSON of a request to add a rule on the protocol. -/
def addText : String :=
  "\x7b\"method\":\"flow_rule_add\",\"params\":\x7b\"name\":\"ab\",\"fields\":[\"ip_proto\"],\"max_keys\":2,\"eviction_policy\":\"lru_drop\"\x7d\x7d"

/-- The JSON of a request for the rules. -/
def listText : String := "\x7b\"method\":\"flow_rule_list\"\x7d"

/-- The JSON of the answers of a server without a client: the rule is added, it is there already, and
it is listed. -/
def answerTexts : List (String × Response) :=
  [("\x7b\"ok\":true,\"data\":\x7b\"type\":\"FlowRuleId\",\"id\":\"0000000000000001-0000000000000000\"\x7d\x7d",
      .okData (.flowRuleId "0000000000000001-0000000000000000")),
    ("\x7b\"ok\":false,\"error\":\x7b\"code\":6,\"message\":\"flow rule 'ab' already exists\"\x7d\x7d",
      .err 6 "flow rule 'ab' already exists"),
    ("\x7b\"ok\":true,\"data\":\x7b\"type\":\"FlowRuleList\",\"rules\":[\x7b\"name\":\"ab\",\"fields\":[\"ip_proto\"],\"max_keys\":2,\"eviction_policy\":\"lru_drop\"\x7d]\x7d\x7d",
      .okData (.flowRuleList [⟨"ab", [.ipProto], 2, .lruDrop⟩]))]

/-- JSON for these requests and answers. -/
def sessionSerde : SerdeJson where
  requestText
    | .flowRuleAdd _ => .ok addText
    | .flowRuleList => .ok listText
    | _ => .error "no request of the session"
  requestOf := oneOf [(addText, .flowRuleAdd (protoParams 2)), (listText, .flowRuleList)]
  responseText response :=
    match answerTexts.find? fun t => t.2 = response with
    | some t => .ok t.1
    | none => .error "no answer of the session"
  responseOf := oneOf answerTexts

/-- A command of root in front of a server without a client. -/
def asRoot (command : Command) : Invocation Unit where
  isRoot := true
  command := command
  course := .answered
  vapi :=
    { allocFlowRuleAdd := none
      flowRuleAdd := fun _ b => (none, b)
      allocFlowRuleDel := false
      flowRuleDel := fun _ b => (none, b) }
  outcome := .error .notConnected

/-- The rule is added, added once more, and the rules are listed. -/
def addTwice : List (Invocation Unit) :=
  [asRoot (.flowRuleAdd ["name=ab", "fields=ip_proto", "max_keys=2"]),
    asRoot (.flowRuleAdd ["max_keys=2", "fields=ip_proto", "name=ab"]), asRoot .flowRuleList]

/-- The replies of the session are read back, and each fits. -/
theorem readsBack_answerTexts : ∀ t ∈ answerTexts, ReadsBack sessionSerde.responseOf t.1 t.2 ∧
    sessionSerde.responseText t.2 = .ok t.1 ∧ (utf8Bytes t.1).length ≤ maxResponse := by
  have hall : ∀ t ∈ answerTexts, OneLine t.1 ∧
      answerTexts.find? (fun t' => t.1 = t'.1 ∨ t.1 = t'.1 ++ "\n") = some t ∧
      answerTexts.find? (fun t' => t.1 ++ "\n" = t'.1 ∨ t.1 ++ "\n" = t'.1 ++ "\n") = some t ∧
      (∀ t' ∈ answerTexts, t'.1 = t.1 ∨ ¬ utf8Bytes t'.1 <+: utf8Bytes t.1) ∧
      answerTexts.find? (fun t' => t'.2 = t.2) = some t ∧
      (utf8Bytes t.1).length ≤ maxResponse := by
    decide +kernel
  intro t ht
  obtain ⟨hline, hwhole, hfull, hpart, hfind, hfits⟩ := hall t ht
  refine ⟨readsBack_oneOf hline hwhole hfull hpart, ?_, hfits⟩
  show (match answerTexts.find? (fun t' => t'.2 = t.2) with
    | some t => Except.ok t.1
    | none => Except.error "no answer of the session") = Except.ok t.1
  rw [hfind]

/-- The request that adds the rule is valid. -/
theorem validRequest_add (params : FlowRuleAddParams) (h : params = protoParams 2) :
    ValidRequest sessionSerde (.flowRuleAdd params) addText where
  written := rfl
  reads := by
    subst h
    refine readsBack_oneOf (by decide +kernel) ?_ ?_ ?_
    · exact List.find?_cons_of_pos (by decide +kernel)
    · exact List.find?_cons_of_pos (by decide +kernel)
    · intro t ht
      rcases List.mem_pair.mp ht with rfl | rfl
      · exact .inl rfl
      · exact .inr (by decide +kernel)
  fits := by decide +kernel

/-- The request for the list is valid. -/
theorem validRequest_list : ValidRequest sessionSerde .flowRuleList listText where
  written := rfl
  reads := by
    refine readsBack_oneOf (by decide +kernel) ?_ ?_ ?_
    · exact (List.find?_cons_of_neg (by decide +kernel)).trans
        (List.find?_cons_of_pos (by decide +kernel))
    · exact (List.find?_cons_of_neg (by decide +kernel)).trans
        (List.find?_cons_of_pos (by decide +kernel))
    · intro t ht
      rcases List.mem_pair.mp ht with rfl | rfl
      · exact .inr (by decide +kernel)
      · exact .inl rfl
  fits := by decide +kernel

/-- A command with a request and an answer of the session. -/
theorem delivered_of_texts {s : Server Unit} {e : Invocation Unit} {request : Request}
    {print : Except CtlError (Option ResponseData) → ℤ × Printed}
    (hprepare : prepare e.isRoot e.command = .ok (request, print)) (hcourse : e.course = .answered)
    {text : String} (hvalid : ValidRequest sessionSerde request text)
    (hanswer : answerTo false s e request ∈ answerTexts.map Prod.snd) :
    Delivered sessionSerde false s e := by
  obtain ⟨t, ht, heq⟩ := List.mem_map.mp hanswer
  obtain ⟨hreads, hwritten, hfits⟩ := readsBack_answerTexts t ht
  intro request' print' hprepare'
  obtain ⟨rfl, -⟩ := Prod.mk.inj (Except.ok.inj (hprepare'.symm.trans hprepare))
  exact ⟨hcourse, text, t.1, hvalid, heq ▸ hwritten, heq ▸ hreads, hfits⟩

/-- The words of a rule may stand in any order. -/
theorem parseSpec_ab : parseSpec ["name=ab", "fields=ip_proto", "max_keys=2"] =
      .ok ⟨"ab", [.ipProto], 2, .lruDrop⟩ ∧
    parseSpec ["max_keys=2", "fields=ip_proto", "name=ab"] =
      .ok ⟨"ab", [.ipProto], 2, .lruDrop⟩ := by
  decide +kernel

/-- Every command of the session is answered. -/
theorem delivered_addTwice :
    Runs.Meets (fun s e => (invoke sessionSerde false s e).2) (Delivered sessionSerde false)
      ⟨.new [], ()⟩ addTwice := by
  have hprepare := prepare_add (e := (asRoot (.flowRuleAdd _) : Invocation Unit)) rfl rfl
    parseSpec_ab.1
  have hprepare' := prepare_add (e := (asRoot (.flowRuleAdd _) : Invocation Unit)) rfl rfl
    parseSpec_ab.2
  have hfirst := delivered_of_texts (s := ⟨.new [], ()⟩) hprepare rfl (validRequest_add _ rfl)
    (by decide +kernel)
  -- the server behind a command that is delivered is found without its bytes
  have hsecond := delivered_of_texts
    (s := (invoke sessionSerde false ⟨.new [], ()⟩ (asRoot (.flowRuleAdd _))).2) hprepare'
    rfl (validRequest_add _ rfl) (by rw [invoke_delivered hfirst hprepare]; decide +kernel)
  refine Runs.meets_cons.mpr ⟨hfirst, Runs.meets_cons.mpr ⟨hsecond, Runs.meets_cons.mpr
    ⟨delivered_of_texts rfl rfl validRequest_list ?_, Runs.meets_nil⟩⟩⟩
  rw [invoke_delivered hsecond hprepare', invoke_delivered hfirst hprepare]
  decide +kernel

/-! ### Sessions -/

/-- What a command is for the book. -/
def bookInput (connected : Bool) (s : Server β) (e : Invocation β) : BookInput :=
  ⟨e.isRoot, e.command, granted connected s e⟩

/-- **The server is a rule book.** In every session of commands that are delivered, their exit codes and
the rules that they list are those of the book, and the server has the rules of the book in the end. -/
theorem session_is_rule_book (serde : SerdeJson) (connected : Bool) (s : Server β)
    {events : List (Invocation β)}
    (h : Runs.Meets (fun s e => (invoke serde connected s e).2) (Delivered serde connected) s
      events) :
    let session := Sessions.run (invoke serde connected) s events
    let book := Sessions.run RuleBook.step s.control.flowRules
      (Sessions.translate (invoke serde connected) (bookInput connected) s events)
    List.Forall₂ Tells session.1 book.1 ∧ session.2.control.flowRules = book.2 := by
  have hsimulates : Sessions.Simulates (invoke serde connected) RuleBook.step
      (fun (s : Server β) rules => s.control.flowRules = rules) (Delivered serde connected)
      (bookInput connected)
      Tells := by
    rintro s rules e rfl he
    exact tells_of_delivered he
  exact hsimulates.run rfl h

/-- The rule is added once, by the server as by the book. -/
theorem session_is_rule_book_twice :
    let book := Sessions.run RuleBook.step []
      (Sessions.translate (invoke sessionSerde false) (bookInput false) ⟨.new [], ()⟩ addTwice)
    List.Forall₂ Tells (Sessions.run (invoke sessionSerde false) ⟨.new [], ()⟩ addTwice).1 book.1 ∧
      book.1.map Prod.fst = [0, 6, 0] ∧ book.2 = [⟨"ab", [.ipProto], 2, .lruDrop⟩] :=
  ⟨(session_is_rule_book sessionSerde false ⟨.new [], ()⟩ delivered_addTwice).1, by decide +kernel,
    by decide +kernel⟩

/-! ### What the exit codes tell -/

/-- What one who sees a command and its exit code takes the rules to be. -/
def told (rules : List Frontend.FlowRule) (command : Command) (code : ℤ) : List Frontend.FlowRule :=
  if code = exitSuccess then
    match command with
    | .flowRuleAdd spec =>
      match parseSpec spec with
      | .ok rule => rules ++ [rule]
      | .error _ => rules
    | .flowRuleRm target _ => rules.filter fun r => r.name != target
    | _ => rules
  else rules

/-- The book changes as its exit code tells, and only lists what it has. -/
theorem RuleBook.step_told (rules : List Frontend.FlowRule) (i : BookInput) :
    (RuleBook.step rules i).2 = told rules i.command (RuleBook.step rules i).1.1 ∧
      (i.command = .flowRuleList →
        (RuleBook.step rules i).1 = (exitSuccess, some (rules.map ruleData))) := by
  obtain ⟨isRoot, command, granted⟩ := i
  unfold RuleBook.step told
  cases command with
  | flowRuleAdd spec =>
    -- in each branch of the command both sides read the same answer of the server
    refine ⟨?_, fun h => by cases h⟩
    dsimp only
    split
    · rfl
    cases parseSpec spec with
    | error e => rfl
    | ok rule =>
      dsimp only
      split
      · rfl
      · split <;> rfl
  | flowRuleRm target all =>
    refine ⟨?_, fun h => by cases h⟩
    dsimp only
    split
    · rfl
    split
    · rfl
    split
    · rfl
    · split <;> rfl
  | flowRuleList => exact ⟨rfl, fun _ => rfl⟩
  | flowRuleShow target => exact ⟨(ite_self _).symm, fun h => by cases h⟩
  | statsShow name => exact ⟨rfl, fun h => by cases h⟩
  | statsPull => exact ⟨(ite_self _).symm, fun h => by cases h⟩

/-- What one who sees the commands and their exit codes takes the rules to be. -/
def toldBy : List Frontend.FlowRule → List (Invocation β) → List (ℤ × Printed) → List Frontend.FlowRule
  | rules, e :: events, out :: outs => toldBy (told rules e.command out.1) events outs
  | rules, _, _ => rules

/-- After a session the server has the rules that the exit codes tell. -/
theorem toldBy_run {events : List (Invocation β)}
    (h : Runs.Meets (fun s e => (invoke serde connected s e).2) (Delivered serde connected) s
      events) :
    (Sessions.run (invoke serde connected) s events).2.control.flowRules =
      toldBy s.control.flowRules events (Sessions.run (invoke serde connected) s events).1 := by
  induction events generalizing s with
  | nil => rfl
  | cons e events ih =>
    obtain ⟨he, hrest⟩ := Runs.meets_cons.mp h
    obtain ⟨⟨hcode, -⟩, hrules⟩ := tells_of_delivered he
    rw [(RuleBook.step_told _ _).1, ← hcode] at hrules
    rw [Sessions.run, ih hrest, hrules, toldBy]

/-- **Exit codes tell the rules.** In every session of commands that are delivered, whatever the back end
refuses, the rules of the server are the ones it had with those of every `flow-rule add` that has exited
with 0 behind them, without those of every `flow-rule rm` that has; and every `flow-rule list` prints the
rules that the exit codes in front of it tell. -/
theorem exit_codes_tell_rules (serde : SerdeJson) (connected : Bool) (s : Server β)
    {events : List (Invocation β)}
    (h : Runs.Meets (fun s e => (invoke serde connected s e).2) (Delivered serde connected) s
      events) :
    (Sessions.run (invoke serde connected) s events).2.control.flowRules =
        toldBy s.control.flowRules events (Sessions.run (invoke serde connected) s events).1 ∧
      ∀ pre e post, events = pre ++ e :: post → e.command = .flowRuleList →
        let before := Sessions.run (invoke serde connected) s pre
        (invoke serde connected before.2 e).1 =
          (exitSuccess, .rules ((toldBy s.control.flowRules pre before.1).map ruleData)) := by
  refine ⟨toldBy_run h, ?_⟩
  rintro pre e post rfl hcommand
  obtain ⟨hpre, hpost⟩ := Runs.meets_append.mp h
  rw [← Sessions.run_snd (invoke serde connected)] at hpost
  obtain ⟨⟨hcode, hprinted⟩, -⟩ := tells_of_delivered (Runs.meets_cons.mp hpost).1
  have hlist := (RuleBook.step_told (Sessions.run (invoke serde connected) s pre).2.control.flowRules
    (bookInput connected (Sessions.run (invoke serde connected) s pre).2 e)).2 hcommand
  dsimp only
  rw [← toldBy_run hpre]
  exact Prod.ext (hcode.trans (congrArg Prod.fst hlist)) (hprinted _ (congrArg Prod.snd hlist))

/-- The list has the rule that was added with 0. -/
theorem exit_codes_tell_rules_twice :
    let before := Sessions.run (invoke sessionSerde false) ⟨.new [], ()⟩ (addTwice.take 2)
    before.1.map Prod.fst = [0, 6] ∧
      (invoke sessionSerde false before.2 (asRoot .flowRuleList)).1 =
        (0, .rules [⟨"ab", [.ipProto], 2, .lruDrop⟩]) := by
  have hlist := (exit_codes_tell_rules sessionSerde false ⟨.new [], ()⟩ delivered_addTwice).2
    (addTwice.take 2) (asRoot .flowRuleList) [] rfl rfl
  exact ⟨by decide +kernel, hlist.trans (by decide +kernel)⟩

end InFMon.Cli
