import InFMon.Plugin.Cli

/-! # One description, two requests

A rule as an operator describes it, the command of the debug CLI and the message of the binary API that
ask for it, and the rules that the two handlers make of them. -/

namespace InFMon

open Plugin

/-! ### Descriptions -/

/-- A valid name fits its array, and NUL is not a character of it. -/
theorem nameValid_spec {name : List UInt8} (h : nameValid name = true) :
    name.length ≤ flowRuleNameMax ∧ ∀ c ∈ name, c ≠ 0 := by
  unfold nameValid at h
  split at h
  · cases h
  rename_i hlength
  refine ⟨by omega, ?_⟩
  rintro _ hc rfl
  cases name with
  | nil => cases hc
  | cons first rest =>
    rw [Bool.and_eq_true, List.all_eq_true] at h
    rcases List.mem_cons.mp hc with heq | hrest
    · rw [← heq] at h
      exact absurd h.1 (by decide)
    · exact absurd (h.2 0 hrest) (by decide)

/-- A rule as an operator describes it: a valid name, one to eight of the field names, and a limit. -/
structure RuleDescription where
  name : List UInt8
  fields : List (Fin 7)
  maxKeys : UInt32
  name_valid : nameValid name = true
  fields_ne : fields ≠ []
  fields_le : fields.length ≤ 8

/-- The name of a field on the command line. -/
def cliFieldName (field : Fin 7) : List UInt8 := cliFieldNames.getD field []

namespace RuleDescription

/-- The command `infmon flow-rule add` for a description. -/
def cliArgs (d : RuleDescription) : CliArgs where
  unknownInput := false
  name := some d.name
  fields := some ([0x2C].intercalate (d.fields.map cliFieldName))
  maxKeys := d.maxKeys

/-- A name fits in the array of a rule. -/
theorem name_length_le (d : RuleDescription) : d.name.length ≤ flowRuleNameMax :=
  (nameValid_spec d.name_valid).1

/-- The message `flow_rule_add` for a description, in arrays filled up with zeros. -/
def message (d : RuleDescription) : FlowRuleAddMsg where
  name :=
    ⟨(d.name ++ List.replicate (32 - d.name.length) 0).toArray, by
      have h := d.name_length_le
      simp only [flowRuleNameMax] at h
      simp only [List.size_toArray, List.length_append, List.length_replicate]
      omega⟩
  fieldCount := UInt32.ofNat d.fields.length
  fields :=
    ⟨(d.fields.map (fun field : Fin 7 => UInt8.ofNat field.val) ++
        List.replicate (8 - d.fields.length) 0).toArray, by
      have h := d.fields_le
      simp only [List.size_toArray, List.length_append, List.length_map, List.length_replicate]
      omega⟩
  maxKeys := d.maxKeys
  evictionPolicy := 0

/-- A rule over the first seven fields of a description. -/
def ruleWith (d : RuleDescription) (name : List UInt8) (maxKeys : ℕ) : FlowRule where
  name := name
  fields := (d.fields.take flowRuleFieldsMax).map Fin.val
  maxKeys := maxKeys
  evictionPolicy := 0
  keyWidth := 0

/-- The rule that the API makes of a description: 0 stands for the default limit. -/
def apiRule (d : RuleDescription) : FlowRule :=
  d.ruleWith d.name (if d.maxKeys = 0 then 65536 else d.maxKeys.toNat)

/-- The rule that the CLI makes of a description: the name is cut at 30 characters. -/
def cutRule (d : RuleDescription) : FlowRule :=
  d.ruleWith (d.name.take (flowRuleNameMax - 1)) d.maxKeys.toNat

end RuleDescription

/-! ### The command line -/

/-- The command finds each field under its name. -/
theorem cliField_name (field : Fin 7) : cliField (cliFieldName field) = some field.val := by
  revert field
  decide +kernel

/-- The tokens between the commas are the names. -/
theorem cliTokens_names {fields : List (Fin 7)} (h : fields ≠ []) :
    cliTokens ([0x2C].intercalate (fields.map cliFieldName)) = fields.map cliFieldName := by
  have hname : ∀ field : Fin 7, (0x2C : UInt8) ∉ cliFieldName field ∧ cliFieldName field ≠ [] := by
    decide +kernel
  rw [cliTokens, List.splitOn_intercalate _ ?_ (by simpa using h), List.filter_eq_self]
  · intro tok htok
    obtain ⟨field, -, rfl⟩ := List.mem_map.mp htok
    simpa using (hname field).2
  · intro tok htok
    obtain ⟨field, -, rfl⟩ := List.mem_map.mp htok
    exact (hname field).1

/-- The loop takes the fields in order until there are seven. -/
theorem cliFieldsFrom_names (found : List ℕ) (fields : List (Fin 7)) :
    cliFieldsFrom found (fields.map cliFieldName) =
      .ok (found ++ (fields.take (flowRuleFieldsMax - found.length)).map Fin.val) := by
  induction fields generalizing found with
  | nil => simp [cliFieldsFrom]
  | cons field fields ih =>
    rw [List.map_cons, cliFieldsFrom]
    by_cases hroom : found.length < flowRuleFieldsMax
    · obtain ⟨n, hn⟩ : ∃ n, flowRuleFieldsMax - found.length = n + 1 :=
        ⟨flowRuleFieldsMax - found.length - 1, by omega⟩
      have hn' : flowRuleFieldsMax - (found ++ [field.val]).length = n := by
        rw [List.length_append, List.length_singleton]
        omega
      rw [if_pos hroom, cliField_name]
      dsimp only
      rw [ih, hn, hn', List.take_succ_cons, List.map_cons, List.append_assoc]
      rfl
    · -- an eighth name is not looked at any more
      rw [if_neg hroom, show flowRuleFieldsMax - found.length = 0 from by omega]
      simp

namespace RuleDescription

/-- The CLI reads the description with its name cut. -/
theorem cliRule_eq (d : RuleDescription) : cliRule d.cliArgs = .ok d.cutRule := by
  have hfields : ((d.fields.take flowRuleFieldsMax).map Fin.val).length ≠ 0 := by
    have hne : 0 < d.fields.length := List.length_pos_of_ne_nil d.fields_ne
    simp only [List.length_map, List.length_take, flowRuleFieldsMax, fieldCountMax]
    omega
  simp only [cliRule, cliArgs, Bool.false_eq_true, if_false, cliTokens_names d.fields_ne,
    cliFieldsFrom_names, List.nil_append, List.length_nil, Nat.sub_zero, if_neg hfields]
  rfl

/-! ### The message -/

/-- The API reads the description from its message. -/
theorem messageRule_eq (d : RuleDescription) : messageRule d.message = d.apiRule := by
  have hname : ((d.name ++ List.replicate (32 - d.name.length) 0).take flowRuleNameMax).takeWhile
      (fun c => decide (c ≠ 0)) = d.name := by
    have hle := d.name_length_le
    rw [List.take_append, List.take_of_length_le hle, List.take_replicate,
      List.takeWhile_append_of_pos fun c hc => by
        simpa using (nameValid_spec d.name_valid).2 c hc]
    -- behind the name there are only zeros
    rw [List.takeWhile_replicate]
    simp
  have hcount : (UInt32.ofNat d.fields.length).toNat = d.fields.length := by
    have hle := d.fields_le
    rw [UInt32.toNat_ofNat']
    exact Nat.mod_eq_of_lt (by omega)
  have hfields : ∀ n ≤ d.fields.length, (((d.fields.map fun field : Fin 7 => UInt8.ofNat field.val) ++
      List.replicate (8 - d.fields.length) 0).take n).map UInt8.toNat =
        (d.fields.take n).map Fin.val := by
    intro n hn
    rw [List.take_append_of_le_length (by simpa using hn), ← List.map_take, List.map_map]
    refine List.map_congr_left fun field _ => ?_
    show (UInt8.ofNat field.val).toNat = field.val
    rw [UInt8.toNat_ofNat']
    exact Nat.mod_eq_of_lt (by omega)
  unfold messageRule
  simp only [message, Vector.toList, hcount]
  rw [hname]
  simp only [apiRule, ruleWith]
  congr 1
  split
  · rename_i hlarge
    exact hfields _ (by omega)
  · rename_i hsmall
    rw [hfields _ (Nat.le_refl _), List.take_of_length_le (Nat.le_refl _),
      List.take_of_length_le (Nat.le_of_not_lt hsmall)]

/-- For a name of at most 30 characters and a limit, both make the same rule. -/
theorem cutRule_eq_apiRule (d : RuleDescription) (hname : d.name.length ≤ flowRuleNameMax - 1)
    (hkeys : d.maxKeys ≠ 0) : d.cutRule = d.apiRule := by
  rw [cutRule, apiRule, List.take_of_length_le hname, if_neg hkeys]

end RuleDescription

end InFMon
