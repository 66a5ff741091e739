import InFMon.Config.RuleSet
import InFMon.FlowRule.Key
import InFMon.Frontend.RuleTransfer

/-! # Two rule sets

The rule set of the front end and the rule set of the back end are written independently: one keeps a
vector and sums up its limits for every check, the other one keeps an array, a count and a running sum.
They accept the same rules, reject the others for the same reasons, and hold the same list. -/

namespace InFMon.Frontend

open Checks

/-! ### The same validation -/

/-- A rule as a caller of the back end fills it in. -/
def FlowRule.toC (rule : FlowRule) (keyWidth : ℕ) : InFMon.FlowRule where
  name := utf8Bytes rule.name
  fields := rule.fields.map Field.cValue
  maxKeys := rule.maxKeys.toNat
  evictionPolicy := rule.evictionPolicy.cValue
  keyWidth := keyWidth

/-- The value of a field is below their number. -/
theorem cValue_lt (field : Field) : field.cValue < fieldCountMax := by cases field <;> decide

/-- Fields have different values. -/
theorem cValue_inj {a b : Field} : a.cValue = b.cValue ↔ a = b := by
  constructor
  · cases a <;> cases b <;> simp [Field.cValue]
  · exact congrArg Field.cValue

/-- A field stands in a list when its value does. -/
theorem cValue_mem_map {field : Field} {fields : List Field} :
    field.cValue ∈ fields.map Field.cValue ↔ field ∈ fields := by
  simp only [List.mem_map, cValue_inj, exists_eq_right]

/-- Both sides have the same widths. -/
theorem fieldWidth_cValue (field : Field) : fieldWidth field.cValue = field.width.toNat := by
  cases field <;> rfl

/-- Both sides accept the same names. -/
theorem nameValid_utf8Bytes (name : String) : nameValid (utf8Bytes name) = isValidName name := by
  unfold nameValid isValidName
  dsimp only
  generalize utf8Bytes name = bytes
  by_cases hlength : bytes.length < 2 ∨ bytes.length > flowRuleNameMax
  · rw [if_pos hlength, if_pos]
    rw [flowRuleNameMax] at hlength
    rw [nameMinLen, nameMaxLen]
    omega
  · rw [if_neg hlength, if_neg]
    · cases bytes with
      | nil => rfl
      | cons first rest =>
        dsimp only
        have hfirst : (!isAsciiLowercase first && !isAsciiDigit first) = !nameFirstValid first := by
          rw [← Bool.not_or]
          rfl
        rw [hfirst]
        cases hvalid : nameFirstValid first with
        | false => rfl
        | true => rfl
    · rw [flowRuleNameMax] at hlength
      rw [nameMinLen, nameMaxLen]
      omega

/-- Both sides look for repeated fields. -/
theorem fieldsValid_cValue (seen fields : List Field) :
    fieldsValid (seen.map Field.cValue) (fields.map Field.cValue) =
      (firstRepeated seen fields).isNone := by
  induction fields generalizing seen with
  | nil => rfl
  | cons field fields ih =>
    rw [List.map_cons, fieldsValid, if_neg (Nat.not_le.mpr (cValue_lt field)), firstRepeated]
    by_cases hseen : field ∈ seen
    · rw [if_pos hseen, if_pos (cValue_mem_map.mpr hseen)]
      rfl
    · rw [if_neg hseen, if_neg (mt cValue_mem_map.mp hseen), ← List.map_cons, ih]

/-- There are seven fields to choose from. -/
theorem length_le_of_nodup {fields : List Field} (h : fields.Nodup) : fields.length ≤ 7 := by
  have hsub : fields.map Field.cValue ⊆ List.range 7 := by
    intro n hn
    obtain ⟨field, -, rfl⟩ := List.mem_map.mp hn
    exact List.mem_range.mpr (cValue_lt field)
  have hnodup := h.map (f := Field.cValue) fun _ _ => cValue_inj.mp
  have hle := (hnodup.subperm hsub).length_le
  rwa [List.length_map, List.length_range] at hle

/-- Widths of distinct fields are added up without an overflow. -/
theorem toNat_sum_width {fields : List Field} (h : fields.Nodup) :
    (fields.map Field.width).sum.toNat = ((fields.map Field.cValue).map fieldWidth).sum := by
  have hmap : (fields.map Field.width).map UInt32.toNat =
      (fields.map Field.cValue).map fieldWidth := by
    rw [List.map_map, List.map_map]
    exact List.map_congr_left fun field _ => (fieldWidth_cValue field).symm
  have hle : ((fields.map Field.cValue).map fieldWidth).sum ≤
      ((fields.map Field.cValue).map fieldWidth).length • 16 := by
    refine List.sum_le_card_nsmul _ 16 fun w hw => ?_
    rw [List.map_map] at hw
    obtain ⟨field, -, rfl⟩ := List.mem_map.mp hw
    cases field <;> decide
  have hlength := length_le_of_nodup h
  rw [List.length_map, List.length_map, Nat.nsmul_eq_mul] at hle
  rw [MachineWord.toNat_sum32 (by rw [hmap]; omega), hmap]

/-- A key with a field is not empty. -/
theorem sum_fieldWidth_ne_zero {fields : List Field} (h : fields ≠ []) :
    ((fields.map Field.cValue).map fieldWidth).sum ≠ 0 := by
  cases fields with
  | nil => exact absurd rfl h
  | cons field fields =>
    have hpos : 0 < fieldWidth field.cValue := by cases field <;> decide
    rw [List.map_cons, List.map_cons, List.sum_cons]
    omega

/-- Both sides accept the same rules. -/
theorem toC_valid_iff (rule : FlowRule) (keyWidth : ℕ) : (rule.toC keyWidth).Valid ↔ rule.Valid := by
  have hfields : fieldsValid [] (rule.fields.map Field.cValue) = true ↔ rule.fields.Nodup := by
    have h := fieldsValid_cValue [] rule.fields
    rw [List.map_nil] at h
    rw [h, Option.isNone_iff_eq_none, firstRepeated_eq_none_iff,
      and_iff_left fun _ _ => List.not_mem_nil]
  -- every field has a C value within the enumeration, so no width is looked up outside the table
  have hexists : ∀ f ∈ rule.fields.map Field.cValue, f < fieldCountMax := by
    intro f hf
    obtain ⟨field, -, rfl⟩ := List.mem_map.mp hf
    exact cValue_lt field
  constructor
  · intro h
    have hnodup := hfields.mp h.fields
    have hwidth := h.keyWidth_le
    rw [FlowRule.toC, flowRuleKeyWidth_eq_sum hexists, ← toNat_sum_width hnodup] at hwidth
    exact
      { name := (nameValid_utf8Bytes rule.name).symm.trans h.name
        fields_ne := fun hnil => h.fields_ne (by rw [FlowRule.toC, hnil]; rfl)
        fields_nodup := hnodup
        maxKeys_ne := fun hzero => h.maxKeys_ne (by rw [FlowRule.toC, hzero]; rfl)
        maxKeys_le := h.maxKeys_le
        width_le := hwidth }
  · intro h
    have hlength : (rule.fields.map Field.cValue).length = rule.fields.length := List.length_map _
    have hwidth := flowRuleKeyWidth_eq_sum hexists
    exact
      { name := (nameValid_utf8Bytes rule.name).trans h.name
        fields_ne := fun hzero => h.fields_ne (List.length_eq_zero_iff.mp (hlength.symm.trans hzero))
        fields_le := hlength.trans_le (length_le_of_nodup h.fields_nodup)
        fields := hfields.mpr h.fields_nodup
        maxKeys_ne := fun hzero => h.maxKeys_ne (UInt32.toNat_inj.mp hzero)
        maxKeys_le := h.maxKeys_le
        evictionPolicy := by cases hp : rule.evictionPolicy; simp [FlowRule.toC, hp]; decide
        keyWidth_ne := hwidth ▸ sum_fieldWidth_ne_zero h.fields_ne
        keyWidth_le := (hwidth.trans (toNat_sum_width h.fields_nodup).symm).trans_le h.width_le }

/-! ### Operations on both sets -/

/-- An operation: to add a rule, whose key width a caller of the back end may have filled in, or to
remove one. -/
inductive SetOp where
  | add (rule : FlowRule) (keyWidth : ℕ)
  | rm (name : String)

/-- The two sets. -/
structure SetPair where
  rust : FlowRuleSet
  c : InFMon.FlowRuleSet

/-- The error class of a result. -/
def errorClass {α : Type} : Except CrudError α → FlowRuleResult
  | .ok _ => .ok
  | .error (.nameExists _) => .errNameExists
  | .error (.notFound _) => .errNotFound
  | .error (.invalidSpec _) => .errInvalidSpec
  | .error (.budgetExceeded _ _ _) => .errBudgetExceeded
  | .error (.setFull _) => .errSetFull

/-- The operation on the set of the front end. -/
def SetOp.onRust (set : FlowRuleSet) : SetOp → FlowRuleResult × FlowRuleSet
  | add rule _ => (errorClass (set.add rule).1, (set.add rule).2)
  | rm name => (errorClass (set.rm name).1, (set.rm name).2)

/-- The operation on the set of the back end. -/
def SetOp.onC (set : InFMon.FlowRuleSet) : SetOp → FlowRuleResult × InFMon.FlowRuleSet
  | add rule keyWidth => set.add (rule.toC keyWidth)
  | rm name => set.rm (utf8Bytes name)

/-- Both sets take the operation. -/
def SetPair.step (p : SetPair) (op : SetOp) : SetPair := ⟨(op.onRust p.rust).2, (op.onC p.c).2⟩

/-- The two sets have the same budget, and the back end's set holds a list of the same rules. -/
structure SetPair.Same (p : SetPair) (rs : List InFMon.FlowRule) : Prop where
  holds : p.c.Holds rs
  rules : List.Forall₂ SameRule p.rust.rules rs
  budget : p.c.maxKeysBudget = p.rust.maxKeysBudget.toNat

/-- The same rules have the same limits. -/
theorem sum_maxKeys_eq {rules : List FlowRule} {rs : List InFMon.FlowRule}
    (h : List.Forall₂ SameRule rules rs) : (rs.map InFMon.FlowRule.maxKeys).sum = limitSum rules := by
  induction h with
  | nil => rfl
  | cons hsame _ ih => rw [List.map_cons, List.sum_cons, ih, limitSum_cons, hsame.maxKeys]

/-- The same rules have the same names. -/
theorem utf8Bytes_mem_names {rules : List FlowRule} {rs : List InFMon.FlowRule} {name : String}
    (h : List.Forall₂ SameRule rules rs) :
    utf8Bytes name ∈ rs.map InFMon.FlowRule.name ↔ name ∈ rules.map FlowRule.name := by
  induction h with
  | nil => exact iff_of_false List.not_mem_nil List.not_mem_nil
  | cons hsame _ ih =>
    rw [List.map_cons, List.map_cons, List.mem_cons, List.mem_cons, ih, hsame.name, utf8Bytes_inj]

/-- Entries at the same index can be taken out of related lists. -/
theorem forall₂_eraseIdx {α β : Type} {R : α → β → Prop} {as : List α} {bs : List β}
    (h : List.Forall₂ R as bs) (i : ℕ) : List.Forall₂ R (as.eraseIdx i) (bs.eraseIdx i) := by
  induction h generalizing i with
  | nil => exact List.Forall₂.nil
  | cons hab hrest ih =>
    cases i with
    | zero => exact hrest
    | succ i => exact List.Forall₂.cons hab (ih i)

namespace SetPair.Same

variable {p : SetPair} {rs : List InFMon.FlowRule}

/-- Both sides have as many rules. -/
theorem count_eq (h : p.Same rs) : p.c.count = p.rust.rules.length :=
  h.holds.count.trans h.rules.length_eq.symm

/-- Both sides use as many keys. -/
theorem usedKeys_eq (h : p.Same rs) : p.c.usedKeys = limitSum p.rust.rules :=
  h.holds.usedKeys.trans (sum_maxKeys_eq h.rules)

/-- A name is taken on one side when it is on the other. -/
theorem find_iff (h : p.Same rs) {name : String} :
    (p.c.find (utf8Bytes name)).isSome = true ↔
      (p.rust.rules.any fun r => r.name == name) = true := by
  rw [InFMon.FlowRuleSet.find, Option.isSome_map, FlowRuleSet.any_name_iff,
    ← utf8Bytes_mem_names h.rules, ← not_iff_not, ← h.holds.indexOf_eq_none_iff]
  simp

/-- The search of the back end finds the index that the search of the front end finds. -/
theorem indexOf_eq (h : p.Same rs) (name : String) :
    p.c.indexOf (utf8Bytes name) =
      (p.rust.rules.findFinIdx? fun r => r.name == name).map Fin.val := by
  cases hfind : p.rust.rules.findFinIdx? fun r => r.name == name with
  | none =>
    rw [List.findFinIdx?_eq_none_iff] at hfind
    rw [Option.map_none, h.holds.indexOf_eq_none_iff, utf8Bytes_mem_names h.rules]
    intro hmem
    obtain ⟨r, hr, hname⟩ := List.mem_map.mp hmem
    simpa [hname] using hfind r hr
  | some pos =>
    obtain ⟨hname, -⟩ := List.findFinIdx?_eq_some_iff.mp hfind
    have hlt : pos.val < rs.length := h.rules.length_eq ▸ pos.isLt
    rw [Option.map_some, h.holds.indexOf_eq_some_iff]
    refine ⟨hlt, ?_⟩
    have hsame := (List.forall₂_iff_get.mp h.rules).2 pos.val pos.isLt hlt
    rw [List.get_eq_getElem, List.get_eq_getElem] at hsame
    rw [hsame.name]
    exact congrArg utf8Bytes (by simpa using hname)

/-! ### One operation -/

/-- Both sets make the same checks in the same order. -/
theorem errorClass_add (h : p.Same rs) (rule : FlowRule) (keyWidth : ℕ) :
    errorClass (p.rust.add rule).1 = (p.c.add (rule.toC keyWidth)).1 := by
  unfold FlowRuleSet.add InFMon.FlowRuleSet.add
  cases hvalid : validateRule rule with
  | error e =>
    have hinvalid : flowRuleValidate (rule.toC keyWidth) ≠ .ok := by
      rw [Ne, flowRuleValidate_ok_iff, toC_valid_iff, ← validateRule_ok_iff, hvalid]
      exact fun h => by cases h
    rw [if_pos hinvalid]
    exact (flowRuleValidate_eq_of_ne hinvalid).symm
  | ok u =>
    have hok : flowRuleValidate (rule.toC keyWidth) = .ok :=
      flowRuleValidate_ok_iff.mpr ((toC_valid_iff rule keyWidth).mpr (validateRule_ok_iff.mp hvalid))
    rw [if_neg (not_not.mpr hok), h.count_eq]
    dsimp only
    have hplace : p.rust.rules.length ≥ InFMon.flowRuleSetMax ↔
        p.rust.rules.length ≥ flowRuleSetMax := Iff.rfl
    have hfound : (p.c.find (rule.toC keyWidth).name).isSome = true ↔
        (p.rust.rules.any fun r => r.name == rule.name) = true := h.find_iff
    by_cases hfull : p.rust.rules.length ≥ flowRuleSetMax
    · rw [if_pos hfull, if_pos (hplace.mpr hfull)]
      rfl
    rw [if_neg hfull, if_neg (mt hplace.mp hfull)]
    by_cases hname : (p.rust.rules.any fun r => r.name == rule.name) = true
    · rw [if_pos hname, if_pos (hfound.mpr hname)]
      rfl
    rw [if_neg hname, if_neg (mt hfound.mp hname)]
    -- the running sum of the one side is the sum that the other side computes
    have hkeys : p.c.usedKeys + (rule.toC keyWidth).maxKeys > p.c.maxKeysBudget ↔
        p.rust.usedKeys + rule.maxKeys.toUInt64 > p.rust.maxKeysBudget.toUInt64 := by
      rw [h.usedKeys_eq, h.budget, gt_iff_lt, gt_iff_lt, UInt64.lt_iff_toNat_lt,
        FlowRuleSet.toNat_usedKeys_add (Nat.lt_of_not_le hfull)]
      rfl
    by_cases hover : p.rust.usedKeys + rule.maxKeys.toUInt64 > p.rust.maxKeysBudget.toUInt64
    · rw [if_pos hover, if_pos (hkeys.mpr hover)]
      rfl
    · rw [if_neg hover, if_neg (mt hkeys.mp hover)]
      rfl

/-- The class of a success is that of nothing else. -/
theorem errorClass_eq_ok_iff {r : Except CrudError Unit} : errorClass r = .ok ↔ r = .ok () := by
  cases r with
  | ok u => exact iff_of_true rfl rfl
  | error e => exact iff_of_false (by cases e <;> simp [errorClass]) (by simp)

/-- A rule is the same when it is translated and registered. -/
theorem sameRule_toC (rule : FlowRule) (keyWidth : ℕ) :
    SameRule rule (rule.toC keyWidth).register := ⟨rfl, rfl, rfl, rfl⟩

/-- Both sets append the rule, or both stay as they are. -/
theorem add (h : p.Same rs) (rule : FlowRule) (keyWidth : ℕ) :
    ((p.c.add (rule.toC keyWidth)).1 = .ok ∧
        (p.step (.add rule keyWidth)).Same (rs ++ [(rule.toC keyWidth).register])) ∨
      ((p.c.add (rule.toC keyWidth)).1 ≠ .ok ∧ p.step (.add rule keyWidth) = p) := by
  have hrust : (p.rust.add rule).1 = .ok () ↔ (p.c.add (rule.toC keyWidth)).1 = .ok := by
    rw [← h.errorClass_add, errorClass_eq_ok_iff]
  rw [SetPair.step]
  dsimp only [SetOp.onRust, SetOp.onC]
  rw [FlowRuleSet.add_eq]
  rcases h.holds.add (rule.toC keyWidth) with ⟨hok, hholds, hbudget⟩ | ⟨hne, hset⟩
  · rw [if_pos (hrust.mpr hok)]
    exact Or.inl ⟨hok, hholds,
      List.rel_append h.rules (List.Forall₂.cons (sameRule_toC rule keyWidth) List.Forall₂.nil),
      hbudget.trans h.budget⟩
  · rw [if_neg (mt hrust.mp hne), hset]
    exact Or.inr ⟨hne, rfl⟩

/-- Both sets take out the rule at the same index, or none has the name and both stay as they are. -/
theorem rm (h : p.Same rs) (name : String) :
    errorClass (p.rust.rm name).1 = (p.c.rm (utf8Bytes name)).1 ∧
    (((p.c.rm (utf8Bytes name)).1 = .ok ∧ ∃ i, (p.step (.rm name)).Same (rs.eraseIdx i)) ∨
      ((p.c.rm (utf8Bytes name)).1 ≠ .ok ∧ p.step (.rm name) = p)) := by
  have hindex := h.indexOf_eq name
  rw [SetPair.step]
  dsimp only [SetOp.onRust, SetOp.onC]
  rw [FlowRuleSet.rm]
  cases hfind : p.rust.rules.findFinIdx? fun r => r.name == name with
  | none =>
    rw [hfind, Option.map_none] at hindex
    rw [InFMon.FlowRuleSet.rm, hindex]
    exact ⟨rfl, Or.inr ⟨by simp, rfl⟩⟩
  | some pos =>
    rw [hfind, Option.map_some] at hindex
    obtain ⟨hok, hholds, hbudget⟩ := h.holds.rm hindex
    exact ⟨hok.symm, Or.inl ⟨hok, pos.val, hholds, forall₂_eraseIdx h.rules pos.val,
      hbudget.trans h.budget⟩⟩

end SetPair.Same

/-! ### All operations -/

/-- What holds of the set of the back end: the running sum, the empty entries and the key widths. -/
structure Consistent (set : InFMon.FlowRuleSet) : Prop where
  usedKeys : set.usedKeys = (set.list.map InFMon.FlowRule.maxKeys).sum
  zero : ∀ i, set.count ≤ i → set.rules i = .zero
  keyWidth : ∀ rule ∈ set.list, rule.keyWidth = (rule.fields.map fieldWidth).sum

namespace SetPair.Same

variable {p : SetPair} {rs : List InFMon.FlowRule}

/-- The operation has the same result on both sides, and one that is rejected changes nothing. -/
theorem step (h : p.Same rs) (op : SetOp) :
    (op.onRust p.rust).1 = (op.onC p.c).1 ∧
      ((∃ rs', (p.step op).Same rs') ∧ ((op.onC p.c).1 ≠ .ok → p.step op = p)) := by
  cases op with
  | add rule keyWidth =>
    refine ⟨h.errorClass_add rule keyWidth, ?_⟩
    rcases h.add rule keyWidth with ⟨hok, hsame⟩ | ⟨-, heq⟩
    · exact ⟨⟨_, hsame⟩, fun hne => absurd hok hne⟩
    · exact ⟨⟨rs, heq.symm ▸ h⟩, fun _ => heq⟩
  | rm name =>
    obtain ⟨hclass, hcases⟩ := h.rm name
    refine ⟨hclass, ?_⟩
    rcases hcases with ⟨hok, i, hsame⟩ | ⟨-, heq⟩
    · exact ⟨⟨_, hsame⟩, fun hne => absurd hok hne⟩
    · exact ⟨⟨rs, heq.symm ▸ h⟩, fun _ => heq⟩

/-- The C side is consistent. -/
theorem consistent (h : p.Same rs) : Consistent p.c := by
  refine ⟨h.holds.list_eq.symm ▸ h.holds.usedKeys, fun i => h.holds.rules_eq_zero, ?_⟩
  rw [h.holds.list_eq]
  intro rule hrule
  obtain ⟨i, hi, rfl⟩ := List.getElem_of_mem hrule
  have hsame := (List.forall₂_iff_get.mp h.rules).2 i (h.rules.length_eq.symm ▸ hi) hi
  rw [List.get_eq_getElem, List.get_eq_getElem] at hsame
  rw [(h.holds.registered _ hrule).keyWidth_eq, flowRuleKeyWidth_eq_sum]
  rw [hsame.fields]
  intro f hf
  obtain ⟨field, -, rfl⟩ := List.mem_map.mp hf
  exact cValue_lt field

end SetPair.Same

/-- Two empty sets with the same budget. -/
theorem same_empty {budget : UInt32} {set : InFMon.FlowRuleSet}
    (h : InFMon.FlowRuleSet.create budget.toNat = some set) :
    SetPair.Same ⟨.new budget, set⟩ [] := by
  refine ⟨.of_create h, List.Forall₂.nil, ?_⟩
  rw [InFMon.FlowRuleSet.create] at h
  split at h
  · cases h
  · cases h
    rfl

/-- From empty sets with the same budget, every sequence of operations leaves the same rules in the
same order on both sides; every further operation has the same result, and changes nothing when it is
rejected. -/
theorem ruleSets_bisimilar (budget : UInt32) (hbudget : budget ≤ maxKeysBudget) :
    ∃ set, InFMon.FlowRuleSet.create budget.toNat = some set ∧ ∀ ops : List SetOp,
      let p := Runs.run SetPair.step ⟨.new budget, set⟩ ops
      List.Forall₂ SameRule p.rust.rules p.c.list ∧ Consistent p.c ∧
        ∀ op : SetOp, (op.onRust p.rust).1 = (op.onC p.c).1 ∧
          ((op.onC p.c).1 ≠ .ok → p.step op = p) := by
  have hcreate : ∃ set, InFMon.FlowRuleSet.create budget.toNat = some set := by
    have hle : ¬ budget.toNat > flowRuleMaxKeysBudget := Nat.not_lt.mpr hbudget
    rw [InFMon.FlowRuleSet.create, if_neg hle]
    exact ⟨_, rfl⟩
  obtain ⟨set, hset⟩ := hcreate
  refine ⟨set, hset, fun ops => ?_⟩
  obtain ⟨rs, h⟩ : ∃ rs, (Runs.run SetPair.step ⟨.new budget, set⟩ ops).Same rs :=
    Runs.always (I := fun p => ∃ rs, SetPair.Same p rs) ⟨[], same_empty hset⟩
      (fun p op h => h.elim fun _ h => (h.step op).2.1) ops
  exact ⟨h.holds.list_eq.symm ▸ h.rules, h.consistent,
    fun op => ⟨(h.step op).1, (h.step op).2.2⟩⟩

/-- A rule `ab` on the protocol is added to both sets. -/
def addProto : SetOp := .add ⟨"ab", [.ipProto], 2, .lruDrop⟩ 0

/-- What is left in Rust when the rule is added and removed again. -/
def addedAndRemoved : FlowRuleSet :=
  ((SetOp.rm "ab").onRust (addProto.onRust (.new maxKeysBudget)).2).2

/-- The rule is added, removed, added again and refused as a duplicate. -/
theorem ruleSets_bisimilar_proto :
    ∃ set, InFMon.FlowRuleSet.create maxKeysBudget.toNat = some set ∧
      let added := SetPair.step ⟨.new maxKeysBudget, set⟩ addProto
      let removed := added.step (.rm "ab")
      let again := removed.step addProto
      (addProto.onC set).1 = .ok ∧ ((SetOp.rm "ab").onC added.c).1 = .ok ∧ removed.c.list = [] ∧
        (addProto.onC removed.c).1 = .ok ∧ (addProto.onC again.c).1 = .errNameExists ∧
        again.step addProto = again := by
  obtain ⟨set, hset, hall⟩ := ruleSets_bisimilar maxKeysBudget UInt32.le_rfl
  obtain ⟨-, -, hfirst⟩ := hall []
  obtain ⟨-, -, hadded⟩ := hall [addProto]
  obtain ⟨hrules, -, hremoved⟩ := hall [addProto, .rm "ab"]
  obtain ⟨-, -, hagain⟩ := hall [addProto, .rm "ab", addProto]
  -- what Rust answers, and so C
  have hadd : (addProto.onRust (.new maxKeysBudget)).1 = .ok := by decide +kernel
  have hrm : ((SetOp.rm "ab").onRust (addProto.onRust (.new maxKeysBudget)).2).1 = .ok := by
    decide +kernel
  have hnil : addedAndRemoved.rules = [] := by decide +kernel
  have hback : (addProto.onRust addedAndRemoved).1 = .ok := by decide +kernel
  have htwice : (addProto.onRust (addProto.onRust addedAndRemoved).2).1 = .errNameExists := by
    decide +kernel
  have hduplicate := (hagain addProto).1.symm.trans htwice
  refine ⟨set, hset, (hfirst addProto).1.symm.trans hadd, (hadded (.rm "ab")).1.symm.trans hrm, ?_,
    (hremoved addProto).1.symm.trans hback, hduplicate,
    (hagain addProto).2 (by rw [hduplicate]; decide)⟩
  change List.Forall₂ SameRule addedAndRemoved.rules _ at hrules
  rw [hnil] at hrules
  exact List.forall₂_nil_left_iff.mp hrules

end InFMon.Frontend
