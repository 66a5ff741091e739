import InFMon.Config.RuleSet

/-! # The texts of configuration errors

The messages of `ValidationError` and `CrudError`. Whatever is wrong with a rule or an exporter, the
text of the error has its name in it. -/

namespace InFMon.Frontend

open Checks

/-! ### Texts -/

/-- The name of a field as `{:?}` prints it. -/
def Field.debug : Field → String
  | .srcIp => "SrcIp"
  | .dstIp => "DstIp"
  | .ipProto => "IpProto"
  | .dscp => "Dscp"
  | .mirrorSrcIp => "MirrorSrcIp"
  | .srcPort => "SrcPort"
  | .dstPort => "DstPort"

/-- A message about a part of the configuration that has a name. -/
def messageAbout (part name problem : String) : String :=
  part ++ " '" ++ name ++ ("': " ++ problem)

/-- The text of a validation error, with `{:?}` of strings. -/
def ValidationError.display (debug : String → String) : ValidationError → String
  | .duplicateName name => "duplicate flow-rule name: " ++ name
  | .emptyFields name => messageAbout "flow-rule" name "fields list is empty"
  | .duplicateField name field => messageAbout "flow-rule" name ("duplicate field " ++ field.debug)
  | .zeroMaxKeys name => messageAbout "flow-rule" name "max_keys must be >= 1"
  | .maxKeysExceedsBudget name maxKeys =>
    messageAbout "flow-rule" name ("max_keys " ++ toString maxKeys.toNat ++
      " exceeds per-rule budget " ++ toString maxKeysBudget.toNat)
  | .keyWidthExceeded name width =>
    messageAbout "flow-rule" name ("key width " ++ toString width.toNat ++ " exceeds maximum " ++
      toString maxKeyWidth.toNat)
  | .budgetExceeded total =>
    "total max_keys " ++ toString total.toNat ++ " exceeds budget " ++ toString maxKeysBudget.toNat
  | .tooManyRules count max =>
    "too many flow rules: " ++ toString count ++ " exceeds maximum " ++ toString max
  | .invalidName name =>
    "flow-rule name '" ++ name ++ "' is invalid: must match ^[a-z0-9][a-z0-9_-]\x7b1,30\x7d$"
  | .zeroPollingInterval => "frontend: polling_interval_ms must be > 0"
  | .zeroShutdownGrace => "frontend: shutdown_grace_ms must be > 0"
  | .invalidStartupTimeout value => "frontend: invalid startup_timeout format: " ++ debug value
  | .emptyExporterType name => messageAbout "exporter" name "type is empty"
  | .unknownExporterType name kind known =>
    messageAbout "exporter" name ("unknown type '" ++ kind ++ "' (known: " ++ known ++ ")")
  | .emptyExporterName index => "exporter at index " ++ toString index ++ ": name is empty"
  | .duplicateExporterName name => "duplicate exporter name: " ++ name
  | .zeroQueueDepth name => messageAbout "exporter" name "queue_depth must be >= 1"
  | .queueDepthTooLarge name depth max =>
    messageAbout "exporter" name ("queue_depth " ++ toString depth ++ " exceeds maximum " ++
      toString max)
  | .invalidExportTimeout name value =>
    messageAbout "exporter" name ("invalid export_timeout format: " ++ debug value)
  | .invalidOverflowPolicy name policy valid =>
    messageAbout "exporter" name ("unknown on_overflow policy '" ++ policy ++ "' (valid: " ++ valid ++
      ")")
  | .zeroStartupTimeout => "frontend: startup_timeout must be > 0"
  | .zeroExportTimeout name => messageAbout "exporter" name "export_timeout must be > 0"
  | .invalidExporterName name =>
    messageAbout "exporter" name "name is invalid: must match ^[a-z0-9][a-z0-9_-]\x7b1,30\x7d$"
  | .missingOtlpEndpoint name =>
    messageAbout "exporter" name "OTLP exporter must have a non-empty 'endpoint'"
  | .missingLogFileConfig => "logging: destination is 'file' but no file config provided"
  | .emptyLogFilePath => "logging: file path must not be empty"
  | .syslogWithFileConfig =>
    "logging: destination is 'syslog' but file config was provided (ambiguous)"

/-- The text of an error of the rule set. -/
def CrudError.display (debug : String → String) : CrudError → String
  | .nameExists name => "flow-rule name already exists: " ++ name
  | .notFound name => "flow-rule not found: " ++ name
  | .invalidSpec e => "validation error: " ++ e.display debug
  | .budgetExceeded used requested budget =>
    "budget exceeded: adding " ++ toString requested.toNat ++ " keys would exceed budget " ++
      toString budget.toNat ++ " (used: " ++ toString used.toNat ++ ")"
  | .setFull max => "flow-rule set is full (max " ++ toString max ++ ")"

/-! ### Names in texts -/

/-- The first text stands in the second one. -/
def StandsIn (name text : String) : Prop := name.toList <:+: text.toList

/-- A text stands in what it is a part of. -/
theorem standsIn_append (before name behind : String) : StandsIn name (before ++ name ++ behind) := by
  rw [StandsIn, String.toList_append, String.toList_append]
  exact List.infix_append ..

/-- What stands in a text stands in a longer one. -/
theorem StandsIn.behind {name text : String} (h : StandsIn name text) (before : String) :
    StandsIn name (before ++ text) := by
  rw [StandsIn, String.toList_append]
  exact h.trans (List.suffix_append _ _).isInfix

/-- The name stands in the message about it. -/
theorem standsIn_messageAbout (part name problem : String) :
    StandsIn name (messageAbout part name problem) := standsIn_append ..

/-- A text stands in itself. -/
theorem standsIn_self (name : String) : StandsIn name name := List.infix_rfl

/-- The rule or the exporter that an error is about. -/
def ValidationError.subject : ValidationError → Option String
  | .duplicateName name | .emptyFields name | .duplicateField name _ | .zeroMaxKeys name
  | .maxKeysExceedsBudget name _ | .keyWidthExceeded name _ | .invalidName name
  | .emptyExporterType name | .unknownExporterType name _ _ | .duplicateExporterName name
  | .zeroQueueDepth name | .queueDepthTooLarge name _ _ | .invalidExportTimeout name _
  | .invalidOverflowPolicy name _ _ | .zeroExportTimeout name | .invalidExporterName name
  | .missingOtlpEndpoint name => some name
  | _ => none

/-- The text of an error has the name of what it is about in it. -/
theorem ValidationError.subject_standsIn (debug : String → String) {e : ValidationError}
    {name : String} (h : e.subject = some name) : StandsIn name (e.display debug) := by
  cases e with
  | budgetExceeded | tooManyRules | zeroPollingInterval | zeroShutdownGrace | invalidStartupTimeout
  | emptyExporterName | zeroStartupTimeout | missingLogFileConfig | emptyLogFilePath
  | syslogWithFileConfig => cases h
  | duplicateName | duplicateExporterName =>
    obtain rfl := Option.some.inj h
    exact (standsIn_self _).behind _
  | invalidName =>
    obtain rfl := Option.some.inj h
    exact standsIn_append ..
  | _ =>
    obtain rfl := Option.some.inj h
    exact standsIn_messageAbout ..

/-! ### Errors of the validators -/

/-- Whatever is wrong with a rule, the error is about this rule. -/
theorem validateRule_errors (rule : FlowRule) :
    ErrorsSatisfy (fun e => e.subject = some rule.name) (validateRule rule) := by
  unfold validateRule
  refine .bind (errorsSatisfy_reject rfl) ?_
  refine .bind (errorsSatisfy_reject rfl) ?_
  refine .bind (errorsSatisfy_rejectSome fun _ => rfl) ?_
  refine .bind (errorsSatisfy_reject rfl) ?_
  refine .bind (errorsSatisfy_reject rfl) ?_
  exact errorsSatisfy_reject rfl

/-- Whatever is wrong with an exporter, the error is about this exporter, or about the place of one that
has no name. -/
theorem validateExporter_errors (entry : ExporterEntry) (index : ℕ) :
    ErrorsSatisfy (fun e => e = .emptyExporterName index ∨ e.subject = some entry.name)
      (validateExporter entry index) := by
  have hduration : ErrorsSatisfy (fun e => e = .emptyExporterName index ∨ e.subject = some entry.name)
      (validateDuration entry.exportTimeout (.invalidExportTimeout entry.name entry.exportTimeout)
        (.zeroExportTimeout entry.name)) := by
    unfold validateDuration
    split
    · exact errorsSatisfy_error (.inr rfl)
    · exact errorsSatisfy_reject (.inr rfl)
  unfold validateExporter
  refine .bind (errorsSatisfy_reject (.inl rfl)) ?_
  refine .bind (errorsSatisfy_reject (.inr rfl)) ?_
  refine .bind (errorsSatisfy_reject (.inr rfl)) ?_
  refine .bind (errorsSatisfy_reject (.inr rfl)) ?_
  refine .bind (errorsSatisfy_reject (.inr rfl)) ?_
  refine .bind (errorsSatisfy_reject (.inr rfl)) ?_
  refine .bind hduration ?_
  refine .bind (errorsSatisfy_reject (.inr rfl)) ?_
  exact errorsSatisfy_reject (.inr rfl)

/-- Whatever is wrong in a list of rules, the error is about one of them. -/
theorem validateRules_errors (names : List String) (rules : List FlowRule) :
    ErrorsSatisfy (fun e => ∃ rule ∈ rules, e.subject = some rule.name)
      (validateRules names rules) := by
  induction rules generalizing names with
  | nil => exact errorsSatisfy_ok
  | cons rule rules ih =>
    refine .bind (errorsSatisfy_reject ⟨rule, List.mem_cons_self, rfl⟩) (.bind ?_ ?_)
    · exact (validateRule_errors rule).mono fun e he => ⟨rule, List.mem_cons_self, he⟩
    · exact (ih (rule.name :: names)).mono fun e he =>
        he.imp fun r hr => ⟨List.mem_cons_of_mem rule hr.1, hr.2⟩

/-- The flow rules of a configuration are rejected with an error about one of them, or about their
number or their keys. -/
theorem validateFlowRules_errors (rules : List FlowRule) :
    ErrorsSatisfy (fun e => (∃ rule ∈ rules, e.subject = some rule.name) ∨
      e = .tooManyRules rules.length flowRuleSetMax ∨ e = .budgetExceeded (totalKeys rules))
      (validateFlowRules rules) :=
  ((validateRules_errors [] rules).mono fun _ he => .inl he).bind
    (.bind (errorsSatisfy_reject (.inr (.inl rfl))) (errorsSatisfy_reject (.inr (.inr rfl))))

/-- **Rules are named.** When a rule cannot be added, the text of the error has its name in it, unless
the set is full or has too few keys left. -/
theorem FlowRuleSet.add_error_names (debug : String → String) {set : FlowRuleSet} {rule : FlowRule}
    {e : CrudError} (h : (set.add rule).1 = .error e) :
    StandsIn rule.name (e.display debug) ∨ e = .setFull flowRuleSetMax ∨
      e = .budgetExceeded set.usedKeys rule.maxKeys set.maxKeysBudget := by
  unfold FlowRuleSet.add at h
  split at h
  · rename_i v hv
    obtain rfl := Except.error.inj h
    have hname := ValidationError.subject_standsIn debug (validateRule_errors rule v hv)
    exact .inl (hname.behind _)
  split at h
  · exact .inr (.inl (Except.error.inj h).symm)
  split at h
  · obtain rfl := Except.error.inj h
    exact .inl ((standsIn_self rule.name).behind _)
  split at h
  · exact .inr (.inr (Except.error.inj h).symm)
  · cases h

end InFMon.Frontend
