import InFMon.Plugin.Handlers

/-! # The debug CLI

The command `infmon flow-rule add` of `infmon_nodes.c`. The CLI keeps a rule set of its own, creates the
tables of a new rule in the plugin main and publishes its rules. -/

namespace InFMon

open CountedLoop

/-! ### The command line -/

/-- The limit of a command that sets none. -/
def cliMaxKeysDefault : UInt32 := 65536

/-- What `unformat` finds on the line: whether there is unknown input, the name, the list of fields as
one string and the limit. -/
structure CliArgs where
  unknownInput : Bool
  name : Option (List UInt8)
  fields : Option (List UInt8)
  maxKeys : UInt32 := cliMaxKeysDefault

/-- `clib_error_return`: the ways in which the command fails. -/
inductive CliError where
  | unknownInput
  | nameRequired
  | fieldsRequired
  | unknownField (tok : List UInt8)
  | noValidFields
  | failedToCreateRuleSet
  | flowRuleAddFailed (rc : FlowRuleResult)
  deriving DecidableEq, Repr

/-- The bytes of a text in ASCII. -/
def asciiBytes (s : String) : List UInt8 := s.toList.map fun c => UInt8.ofNat c.toNat

/-- The field names of the command, in the order of `infmon_field_t`. -/
def cliFieldNames : List (List UInt8) :=
  ["src_ip", "dst_ip", "ip_proto", "dscp", "mirror_src_ip", "src_port", "dst_port"].map asciiBytes

/-- The field that a token names. -/
def cliField (tok : List UInt8) : Option ℕ := cliFieldNames.idxOf? tok

/-- `strtok_r` on a comma: the parts between commas that are not empty. -/
def cliTokens (s : List UInt8) : List (List UInt8) := (s.splitOn 0x2C).filter fun tok => !tok.isEmpty

/-- The loop over the tokens, with the fields found so far. It ends after seven fields. -/
def cliFieldsFrom (fields : List ℕ) : List (List UInt8) → Except CliError (List ℕ)
  | [] => .ok fields
  | tok :: toks =>
    if fields.length < flowRuleFieldsMax then
      match cliField tok with
      -- one unknown name refuses the whole command
      | none => .error (.unknownField tok)
      | some field => cliFieldsFrom (fields ++ [field]) toks
    -- further tokens are not looked at
    else .ok fields

/-- The rule that the command asks for. The name is cut at 30 characters. -/
def cliRule (args : CliArgs) : Except CliError FlowRule :=
  if args.unknownInput then .error .unknownInput
  else
    match args.name, args.fields with
    | none, _ => .error .nameRequired
    | some _, none => .error .fieldsRequired
    | some name, some fieldsStr =>
      match cliFieldsFrom [] (cliTokens fieldsStr) with
      | .error e => .error e
      | .ok fields =>
        if fields.length = 0 then .error .noValidFields
        else
          .ok
            { name := name.take (flowRuleNameMax - 1)
              fields := fields
              maxKeys := args.maxKeys.toNat
              evictionPolicy := 0
              keyWidth := 0 }

namespace Plugin

/-! ### The command -/

/-- `infmon_publish_rules`. -/
def cliPublishRules (set : FlowRuleSet) (p : Plugin) : Plugin :=
  { p with
    cliRef := { rules := decide (set.count > 0), count := set.count }
    main := { p.main with flowRuleSet := some .cli } }

/-- The number of workers that the CLI creates tables for. -/
def cliWorkers (p : Plugin) : ℕ := if p.main.numWorkers > 0 then p.main.numWorkers else 1

/-- Create the tables of the CLI's newest rule in the plugin main. If one fails, those of the workers
before are destroyed and the loop ends. -/
def cliCreateTables (set : FlowRuleSet) (allocs : ℕ → Alloc) (p : Plugin) : Plugin :=
  match set.get (set.count - 1) with
  | none => p
  | some added =>
    if set.count - 1 < maxActiveFlowRules then
      match forUpToExcept p.cliWorkers (addTable (set.count - 1) added allocs)
        (p.main.tables, p.heap) with
      -- the command does not look at the outcome
      | .ok s | .error s =>
        { p with
          main := { p.main with tables := s.1 }
          api := { p.api with heap := s.2 } }
    else p

/-- The rule set of the CLI, which is created on first use, with `memory` for whether it can be. -/
def cliSetEnsure (memory : Bool) (p : Plugin) : Option FlowRuleSet :=
  match p.cliRuleSet with
  | some set => some set
  | none => if memory then FlowRuleSet.create flowRuleMaxKeysBudget else none

/-- `infmon_flow_rule_add_command_fn`. A rule that the rule set takes is published, also when its tables
could not be created. -/
def cliFlowRuleAdd (memory : Bool) (args : CliArgs) (allocs : ℕ → Alloc) (p : Plugin) :
    Except CliError Unit × Plugin :=
  match cliRule args with
  | .error e => (.error e, p)
  | .ok spec =>
    match p.cliSetEnsure memory with
    | none => (.error .failedToCreateRuleSet, p)
    | some set =>
      match set.add spec with
      | (.ok, set) =>
        let p := { p with cliRuleSet := some set }
        (.ok (), (p.cliCreateTables set allocs).cliPublishRules set)
      -- the rule set stays, though the rule was refused
      | (rc, set) => (.error (.flowRuleAddFailed rc), { p with cliRuleSet := some set })

end Plugin

/-! ### Both ways to control the plugin -/

/-- What changes the plugin: a command of the debug CLI, or a request of the binary API. -/
inductive ControlOp where
  | cli (memory : Bool) (args : CliArgs) (allocs : ℕ → Alloc)
  | request (request : Plugin.Request)

/-- The state behind one of them. -/
def Plugin.control (p : Plugin) : ControlOp → Plugin
  | .cli memory args allocs => (p.cliFlowRuleAdd memory args allocs).2
  | .request request => p.serve request

end InFMon
