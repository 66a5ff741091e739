import InFMon.Config.Model
import InFMon.Foundations.Checks
import InFMon.Foundations.MachineWord
import InFMon.Foundations.Numerals

/-! # Validation of the configuration

`config/validate.rs`. Every validator is the sequence of its checks; the part of `validate_config` that
reads the flow rules accepts the lists with distinct names, valid rules, at most sixteen of them and at
most 16 Mi keys in total. -/

namespace InFMon.Frontend

open Checks

/-! ### Constants and errors -/

/-- `MAX_KEY_WIDTH`. -/
def maxKeyWidth : UInt32 := 64

/-- `MAX_KEYS_BUDGET`. -/
def maxKeysBudget : UInt32 := 16 * 1024 * 1024

/-- `NAME_MAX_LEN`. -/
def nameMaxLen : ℕ := 31

/-- `NAME_MIN_LEN`. -/
def nameMinLen : ℕ := 2

/-- `FLOW_RULE_SET_MAX`. -/
def flowRuleSetMax : ℕ := 16

/-- `KNOWN_EXPORTER_TYPES`. -/
def knownExporterTypes : List String := ["otlp"]

/-- `VALID_OVERFLOW_POLICIES`. -/
def validOverflowPolicies : List String := ["drop_newest"]

/-- `MAX_QUEUE_DEPTH`. -/
def maxQueueDepth : ℕ := 10000

/-- `ValidationError`. -/
inductive ValidationError where
  | duplicateName (name : String)
  | emptyFields (name : String)
  | duplicateField (name : String) (field : Field)
  | zeroMaxKeys (name : String)
  | maxKeysExceedsBudget (name : String) (maxKeys : UInt32)
  | keyWidthExceeded (name : String) (width : UInt32)
  | budgetExceeded (total : UInt64)
  | tooManyRules (count max : ℕ)
  | invalidName (name : String)
  | zeroPollingInterval
  | zeroShutdownGrace
  | invalidStartupTimeout (value : String)
  | emptyExporterType (name : String)
  | unknownExporterType (name kind known : String)
  | emptyExporterName (index : ℕ)
  | duplicateExporterName (name : String)
  | zeroQueueDepth (name : String)
  | queueDepthTooLarge (name : String) (depth max : ℕ)
  | invalidExportTimeout (name value : String)
  | invalidOverflowPolicy (name policy valid : String)
  | zeroStartupTimeout
  | zeroExportTimeout (name : String)
  | invalidExporterName (name : String)
  | missingOtlpEndpoint (name : String)
  | missingLogFileConfig
  | emptyLogFilePath
  | syslogWithFileConfig
  deriving DecidableEq, Repr

/-! ### Names -/

/-- `is_ascii_lowercase`. -/
def isAsciiLowercase (b : UInt8) : Bool := 0x61 ≤ b && b ≤ 0x7A

/-- `is_ascii_digit`. -/
def isAsciiDigit (b : UInt8) : Bool := 0x30 ≤ b && b ≤ 0x39

/-- `is_valid_name`. -/
def isValidName (name : String) : Bool :=
  let bytes := utf8Bytes name
  if ¬ (nameMinLen ≤ bytes.length ∧ bytes.length ≤ nameMaxLen) then false
  else
    match bytes with
    | [] => false
    | first :: rest =>
      if !isAsciiLowercase first && !isAsciiDigit first then false
      else rest.all fun b => isAsciiLowercase b || isAsciiDigit b || b == 0x5F || b == 0x2D

/-! ### Durations -/

/-- `char::is_whitespace`. -/
def isWhitespace (c : Char) : Bool :=
  let n := c.toNat
  (0x09 ≤ n && n ≤ 0x0D) || n == 0x20 || n == 0x85 || n == 0xA0 || n == 0x1680 ||
    (0x2000 ≤ n && n ≤ 0x200A) || n == 0x2028 || n == 0x2029 || n == 0x202F || n == 0x205F ||
    n == 0x3000

/-- `str::trim`. -/
def trim (s : List Char) : List Char :=
  (((s.dropWhile isWhitespace).reverse).dropWhile isWhitespace).reverse

/-- `str::strip_suffix`. -/
def stripSuffix (suffix s : List Char) : Option (List Char) :=
  if suffix.isSuffixOf s then some (s.take (s.length - suffix.length)) else none

/-- `str::parse::<u64>`. -/
def parseU64 (s : List Char) : Option UInt64 :=
  (Numerals.fromStrRadix 10 (2 ^ 64) s).toOption.map UInt64.ofNat

/-- `parse_duration_str`: milliseconds. A product too large for 64 bits wraps around. -/
def parseDurationStr (s : String) : Option UInt64 :=
  let s := trim s.toList
  -- in front of the single letters, as this suffix ends in one of them
  match stripSuffix ['m', 's'] s with
  | some ms => parseU64 (trim ms)
  | none =>
    match stripSuffix ['h'] s with
    | some h => (parseU64 (trim h)).map (· * 3600000)
    | none =>
      match stripSuffix ['m'] s with
      | some m => (parseU64 (trim m)).map (· * 60000)
      | none =>
        match stripSuffix ['s'] s with
        | some secs => (parseU64 (trim secs)).map (· * 1000)
        | none => if s.all Char.isDigit && !s.isEmpty then parseU64 s else none

/-! ### The validators -/

/-- The `match` on a duration that must be there and must not be zero. -/
def validateDuration (value : String) (invalid zero : ValidationError) :
    Except ValidationError Unit :=
  match parseDurationStr value with
  | none => .error invalid
  | some ms => reject (ms = 0) zero

/-- `validate_rule`. -/
def validateRule (rule : FlowRule) : Except ValidationError Unit := do
  reject (isValidName rule.name = false) (.invalidName rule.name)
  reject (rule.fields = []) (.emptyFields rule.name)
  rejectSome (firstRepeated [] rule.fields) (.duplicateField rule.name)
  reject (rule.maxKeys = 0) (.zeroMaxKeys rule.name)
  reject (rule.maxKeys > maxKeysBudget) (.maxKeysExceedsBudget rule.name rule.maxKeys)
  let width := (rule.fields.map Field.width).sum
  reject (width > maxKeyWidth) (.keyWidthExceeded rule.name width)

/-- `validate_frontend`. -/
def validateFrontend (cfg : FrontendConfig) : Except ValidationError Unit := do
  reject (cfg.pollingIntervalMs = 0) .zeroPollingInterval
  reject (cfg.shutdownGraceMs = 0) .zeroShutdownGrace
  validateDuration cfg.startupTimeout (.invalidStartupTimeout cfg.startupTimeout)
    .zeroStartupTimeout

/-- An OTLP exporter has an endpoint. -/
def hasEndpoint (entry : ExporterEntry) : Bool :=
  (((entry.extra "endpoint").bind YamlValue.asStr).map fun s => !s.isEmpty).getD false

/-- `validate_exporter`. -/
def validateExporter (entry : ExporterEntry) (index : ℕ) : Except ValidationError Unit := do
  reject (entry.name = "") (.emptyExporterName index)
  reject (isValidName entry.name = false) (.invalidExporterName entry.name)
  reject (entry.kind = "") (.emptyExporterType entry.name)
  reject (entry.kind ∉ knownExporterTypes)
    (.unknownExporterType entry.name entry.kind (", ".intercalate knownExporterTypes))
  reject (entry.queueDepth = 0) (.zeroQueueDepth entry.name)
  reject (entry.queueDepth > maxQueueDepth)
    (.queueDepthTooLarge entry.name entry.queueDepth maxQueueDepth)
  validateDuration entry.exportTimeout (.invalidExportTimeout entry.name entry.exportTimeout)
    (.zeroExportTimeout entry.name)
  reject (entry.kind = "otlp" ∧ hasEndpoint entry = false) (.missingOtlpEndpoint entry.name)
  reject (entry.onOverflow ∉ validOverflowPolicies)
    (.invalidOverflowPolicy entry.name entry.onOverflow (", ".intercalate validOverflowPolicies))

/-- `validate_logging`. -/
def validateLogging (cfg : LoggingConfig) : Except ValidationError Unit := do
  reject (cfg.destination = .file ∧ cfg.file = none) .missingLogFileConfig
  reject (cfg.destination = .file ∧ cfg.file = some "") .emptyLogFilePath
  reject (cfg.destination = .syslog ∧ cfg.file.isSome) .syslogWithFileConfig

/-- The loop of `validate_config` over the flow rules, with the names so far. -/
def validateRules (names : List String) : List FlowRule → Except ValidationError Unit
  | [] => .ok ()
  | rule :: rules => do
    reject (rule.name ∈ names) (.duplicateName rule.name)
    validateRule rule
    validateRules (rule.name :: names) rules

/-- The loop of `validate_config` over the exporters from index `i` on, with the names so far. -/
def validateExporters (i : ℕ) (names : List String) :
    List ExporterEntry → Except ValidationError Unit
  | [] => .ok ()
  | entry :: entries => do
    validateExporter entry i
    reject (entry.name ∈ names) (.duplicateExporterName entry.name)
    validateExporters (i + 1) (entry.name :: names) entries

/-- The keys of all rules, summed up in 64 bits. -/
def totalKeys (rules : List FlowRule) : UInt64 := (rules.map fun r => r.maxKeys.toUInt64).sum

/-- The part of `validate_config` about the flow rules. -/
def validateFlowRules (rules : List FlowRule) : Except ValidationError Unit := do
  validateRules [] rules
  reject (rules.length > flowRuleSetMax) (.tooManyRules rules.length flowRuleSetMax)
  reject (totalKeys rules > maxKeysBudget.toUInt64) (.budgetExceeded (totalKeys rules))

/-- `validate_config`. -/
def validateConfig (config : Config) : Except ValidationError Unit := do
  optional validateFrontend config.frontend
  optional validateLogging config.logging
  validateFlowRules config.flowRules
  optional (validateExporters 0 []) config.exporters

/-! ### What is accepted -/

/-- A rule that is valid by itself. -/
structure FlowRule.Valid (rule : FlowRule) : Prop where
  name : isValidName rule.name = true
  fields_ne : rule.fields ≠ []
  fields_nodup : rule.fields.Nodup
  maxKeys_ne : rule.maxKeys ≠ 0
  maxKeys_le : rule.maxKeys ≤ maxKeysBudget
  width_le : (rule.fields.map Field.width).sum ≤ maxKeyWidth

/-- `validate_rule` accepts the valid rules. -/
theorem validateRule_ok_iff {rule : FlowRule} : validateRule rule = .ok () ↔ rule.Valid := by
  simp only [validateRule, bind_ok_iff, reject_ok_iff, rejectSome_ok_iff,
    firstRepeated_eq_none_iff, Bool.not_eq_false]
  constructor
  · rintro ⟨hname, hfields, ⟨hnodup, -⟩, hne, hle, hwidth⟩
    exact ⟨hname, hfields, hnodup, hne, UInt32.not_lt.mp hle, UInt32.not_lt.mp hwidth⟩
  · rintro ⟨hname, hfields, hnodup, hne, hle, hwidth⟩
    exact ⟨hname, hfields, ⟨hnodup, fun _ _ => List.not_mem_nil⟩, hne, UInt32.not_lt.mpr hle,
      UInt32.not_lt.mpr hwidth⟩

/-- The sum of all limits. -/
def limitSum (rules : List FlowRule) : ℕ := (rules.map fun r => r.maxKeys.toNat).sum

/-- Rules that a configuration may have together. -/
structure ValidRules (rules : List FlowRule) : Prop where
  names : (rules.map FlowRule.name).Nodup
  valid : ∀ rule ∈ rules, rule.Valid
  length_le : rules.length ≤ flowRuleSetMax
  limitSum_le : limitSum rules ≤ maxKeysBudget.toNat

/-- The limit of the first rule, and of the others. -/
theorem limitSum_cons (rule : FlowRule) (rules : List FlowRule) :
    limitSum (rule :: rules) = rule.maxKeys.toNat + limitSum rules := by
  rw [limitSum, List.map_cons, List.sum_cons, limitSum]

/-- The limits of both lists. -/
theorem limitSum_append (rules more : List FlowRule) :
    limitSum (rules ++ more) = limitSum rules + limitSum more := by
  rw [limitSum, List.map_append, List.sum_append, limitSum, limitSum]

/-- Every limit has 32 bits. -/
theorem limitSum_lt (rules : List FlowRule) : limitSum rules ≤ rules.length * 2 ^ 32 := by
  induction rules with
  | nil => exact Nat.zero_le _
  | cons rule rules ih =>
    have hlt := rule.maxKeys.toNat_lt
    rw [limitSum_cons, List.length_cons, Nat.succ_mul]
    omega

/-- The limits of a set of rules are added up without an overflow. -/
theorem toNat_totalKeys {rules : List FlowRule} (h : rules.length ≤ flowRuleSetMax) :
    (totalKeys rules).toNat = limitSum rules := by
  have hmap : (rules.map fun r => r.maxKeys.toUInt64).map UInt64.toNat =
      rules.map fun r => r.maxKeys.toNat := by
    rw [List.map_map]
    rfl
  have hlt : limitSum rules < 2 ^ 64 := by
    have hle := limitSum_lt rules
    rw [flowRuleSetMax] at h
    omega
  rw [totalKeys, MachineWord.toNat_sum64 (by rwa [hmap]), hmap, limitSum]

/-- The loop over the rules lets through valid rules with new and distinct names. -/
theorem validateRules_ok_iff {names : List String} {rules : List FlowRule} :
    validateRules names rules = .ok () ↔
      (rules.map FlowRule.name).Nodup ∧ (∀ rule ∈ rules, rule.name ∉ names) ∧
        ∀ rule ∈ rules, rule.Valid := by
  induction rules generalizing names with
  | nil =>
    exact iff_of_true rfl ⟨List.nodup_nil, fun _ h => absurd h List.not_mem_nil,
      fun _ h => absurd h List.not_mem_nil⟩
  | cons rule rules ih =>
    simp only [validateRules, bind_ok_iff, reject_ok_iff, validateRule_ok_iff, ih]
    rw [List.map_cons, List.nodup_cons, List.forall_mem_cons, List.forall_mem_cons]
    constructor
    · rintro ⟨hnew, hvalid, hnodup, hfresh, hall⟩
      have hname : rule.name ∉ rules.map FlowRule.name := by
        rintro h
        obtain ⟨r, hr, heq⟩ := List.mem_map.mp h
        exact hfresh r hr (heq ▸ List.mem_cons_self)
      exact ⟨⟨hname, hnodup⟩,
        ⟨hnew, fun r hr h => hfresh r hr (List.mem_cons_of_mem _ h)⟩, hvalid, hall⟩
    · rintro ⟨⟨hname, hnodup⟩, ⟨hnew, hfresh⟩, hvalid, hall⟩
      refine ⟨hnew, hvalid, hnodup, fun r hr h => ?_, hall⟩
      rcases List.mem_cons.mp h with heq | h
      · exact hname (heq ▸ List.mem_map_of_mem hr)
      · exact hfresh r hr h

/-- The part about the flow rules accepts the lists of valid rules. -/
theorem validateFlowRules_ok_iff {rules : List FlowRule} :
    validateFlowRules rules = .ok () ↔ ValidRules rules := by
  simp only [validateFlowRules, bind_ok_iff, reject_ok_iff, validateRules_ok_iff]
  constructor
  · rintro ⟨⟨hnodup, -, hvalid⟩, hlength, htotal⟩
    have hle : rules.length ≤ flowRuleSetMax := Nat.le_of_not_lt hlength
    refine ⟨hnodup, hvalid, hle, ?_⟩
    rw [← toNat_totalKeys hle]
    exact Nat.le_of_not_lt htotal
  · rintro ⟨hnodup, hvalid, hle, htotal⟩
    refine ⟨⟨hnodup, fun _ _ => List.not_mem_nil, hvalid⟩, Nat.not_lt.mpr hle, ?_⟩
    rw [← toNat_totalKeys hle] at htotal
    exact Nat.not_lt.mpr htotal

end InFMon.Frontend
