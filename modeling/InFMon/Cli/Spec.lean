import InFMon.Config.Validate
import InFMon.Foundations.Numerals

/-! # The words of a flow-rule spec

`infmonctl flow-rule add` takes a rule as words `key=value`, which it reads one after another: the last
name, number of keys and eviction policy count, and the fields of all words add up. -/

namespace InFMon.Cli

open Frontend JoinedText Numerals

/-! ### The parser -/

/-- The field that a name in the spec stands for. -/
def fieldNamed (s : List Char) : Option Field :=
  match String.ofList s with
  | "src_ip" => some .srcIp
  | "dst_ip" => some .dstIp
  | "ip_proto" => some .ipProto
  | "dscp" => some .dscp
  | "mirror_src_ip" => some .mirrorSrcIp
  | "src_port" => some .srcPort
  | "dst_port" => some .dstPort
  | _ => none

/-- The eviction policy that a value stands for. -/
def evictionPolicyNamed (v : List Char) : Option EvictionPolicy :=
  match String.ofList v with
  | "lru_drop" => some .lruDrop
  | _ => none

/-- What the loop of `run_flow_rule` has read so far. -/
structure SpecState where
  name : Option String
  fields : List Field
  maxKeys : UInt32
  evictionPolicy : EvictionPolicy
  deriving DecidableEq, Repr

/-- In front of the first word. -/
def SpecState.start : SpecState := ⟨none, [], 1024, .lruDrop⟩

/-- The loop over the fields of one word. -/
def pushFields (fields : List Field) : List (List Char) → Except String (List Field)
  | [] => .ok fields
  | f :: rest =>
    match fieldNamed (trim f) with
    | none => .error ("unknown field: " ++ String.ofList (trim f))
    | some field => pushFields (fields ++ [field]) rest

/-- The inner `match` of the loop over the words, on a key. -/
def specValue (s : SpecState) (k : String) (v : List Char) : Except String SpecState :=
  match k with
  | "name" => .ok { s with name := some (String.ofList v) }
  | "fields" =>
    match pushFields s.fields (v.splitOn ',') with
    | .ok fields => .ok { s with fields := fields }
    | .error e => .error e
  | "max_keys" =>
    match fromStrRadix 10 (2 ^ 32) v with
    | .ok n => .ok { s with maxKeys := UInt32.ofNat n }
    | .error _ => .error ("invalid max_keys: " ++ String.ofList v)
  | "eviction_policy" =>
    match evictionPolicyNamed v with
    | some policy => .ok { s with evictionPolicy := policy }
    | none => .error ("unknown eviction_policy: " ++ String.ofList v ++ " (supported: lru_drop)")
  | k => .error ("unknown spec key: " ++ k)

/-- One iteration of the loop over the words. -/
def specWord (s : SpecState) (kv : String) : Except String SpecState :=
  match splitOnce '=' kv.toList with
  | none => .error ("invalid spec format, expected key=value: " ++ kv)
  | some (k, v) => specValue s (String.ofList k) v

/-- The rule of a spec, or what the command complains of. -/
def parseSpec (spec : List String) : Except String Frontend.FlowRule :=
  match spec.foldlM specWord .start with
  | .error e => .error e
  | .ok s =>
    match s.name with
    | none => .error "flow-rule add: name=<name> is required"
    | some name =>
      if s.fields = [] then .error "flow-rule add: fields=<field,...> is required"
      else .ok ⟨name, s.fields, s.maxKeys, s.evictionPolicy⟩

/-! ### What one word says -/

/-- The name of a field in a spec. -/
def fieldWord : Field → String
  | .srcIp => "src_ip"
  | .dstIp => "dst_ip"
  | .ipProto => "ip_proto"
  | .dscp => "dscp"
  | .mirrorSrcIp => "mirror_src_ip"
  | .srcPort => "src_port"
  | .dstPort => "dst_port"

/-- A field is read from its word only. -/
theorem fieldNamed_eq_some_iff {s : List Char} {f : Field} :
    fieldNamed s = some f ↔ String.ofList s = fieldWord f := by
  constructor
  · intro h
    unfold fieldNamed at h
    split at h <;> first | (obtain rfl := Option.some.inj h; assumption) | cases h
  · intro h
    rw [fieldNamed, h]
    cases f <;> rfl

/-- The eviction policy is read from its word only. -/
theorem evictionPolicyNamed_eq_some_iff {v : List Char} {policy : EvictionPolicy} :
    evictionPolicyNamed v = some policy ↔ String.ofList v = "lru_drop" := by
  constructor
  · intro h
    unfold evictionPolicyNamed at h
    split at h
    · assumption
    · cases h
  · intro h
    rw [evictionPolicyNamed, h]
    rfl

/-- What a word says. -/
inductive SpecItem where
  | name (name : String)
  | fields (fields : List Field)
  | maxKeys (n : UInt32)
  | evictionPolicy (policy : EvictionPolicy)
  deriving DecidableEq, Repr

/-- The text is a decimal numeral: digits, behind a plus sign or not. -/
def IsNumeral (text : List Char) (n : UInt32) : Prop :=
  ∃ digits values, digits ≠ [] ∧ (text = digits ∨ text = '+' :: digits) ∧
    AreDigits 10 digits values ∧ digitsValue 10 0 values = n.toNat

/-- The words that say something. -/
inductive Says (kv : String) : SpecItem → Prop where
  | name (name : String) (h : kv = "name=" ++ name) : Says kv (.name name)
  | fields (pieces : List (List Char)) (fields : List Field) (hne : pieces ≠ [])
      (hpieces : ∀ piece ∈ pieces, ',' ∉ piece)
      (h : kv = "fields=" ++ String.ofList ([','].intercalate pieces))
      (hfields : List.Forall₂ (fun piece f => String.ofList (trim piece) = fieldWord f) pieces fields) :
      Says kv (.fields fields)
  | maxKeys (text : List Char) (n : UInt32) (h : kv = "max_keys=" ++ String.ofList text)
      (hn : IsNumeral text n) : Says kv (.maxKeys n)
  | evictionPolicy (policy : EvictionPolicy) (h : kv = "eviction_policy=lru_drop") :
      Says kv (.evictionPolicy policy)

/-- What an item changes. -/
def SpecItem.apply (s : SpecState) : SpecItem → SpecState
  | .name value => { s with name := some value }
  | .fields more => { s with fields := s.fields ++ more }
  | .maxKeys n => { s with maxKeys := n }
  | .evictionPolicy policy => { s with evictionPolicy := policy }

/-- The fields of all pieces come behind those that are there. -/
theorem pushFields_eq_ok_iff {fields all : List Field} {pieces : List (List Char)} :
    pushFields fields pieces = .ok all ↔ ∃ more, all = fields ++ more ∧
      List.Forall₂ (fun piece f => String.ofList (trim piece) = fieldWord f) pieces more := by
  induction pieces generalizing fields with
  | nil =>
    constructor
    · intro h
      obtain rfl := Except.ok.inj h
      exact ⟨[], (List.append_nil fields).symm, .nil⟩
    · rintro ⟨more, rfl, hmore⟩
      cases hmore
      rw [List.append_nil]
      rfl
  | cons piece pieces ih =>
    rw [pushFields]
    constructor
    · intro h
      split at h
      · cases h
      · rename_i field hfield
        obtain ⟨more, rfl, hmore⟩ := ih.mp h
        exact ⟨field :: more, by rw [List.append_assoc, List.singleton_append],
          .cons (fieldNamed_eq_some_iff.mp hfield) hmore⟩
    · rintro ⟨more, rfl, hmore⟩
      cases hmore with
      | @cons _ field _ more hfield hmore =>
        rw [fieldNamed_eq_some_iff.mpr hfield]
        exact ih.mpr ⟨more, by rw [List.append_assoc, List.singleton_append], hmore⟩

/-- A word with a key is split behind it. -/
theorem specWord_key {key : String} (h : '=' ∉ key.toList) (s : SpecState) (v : List Char) :
    specWord s (key ++ "=" ++ String.ofList v) = specValue s key v := by
  have hsplit : splitOnce '=' (key ++ "=" ++ String.ofList v).toList = some (key.toList, v) := by
    refine splitOnce_eq_some_iff.mpr ⟨h, ?_⟩
    rw [String.toList_append, String.toList_append, String.toList_ofList, String.toList_ofList,
      List.append_assoc]
    rfl
  rw [specWord, hsplit]
  dsimp only
  rw [String.ofList_toList]

/-- A word that is taken has a key. -/
theorem exists_key_of_specWord {s s' : SpecState} {kv : String} (h : specWord s kv = .ok s') :
    ∃ k v, kv = k ++ "=" ++ String.ofList v ∧ specValue s k v = .ok s' := by
  unfold specWord at h
  split at h
  · cases h
  rename_i k v hsplit
  refine ⟨String.ofList k, v, ?_, h⟩
  have hparts := (splitOnce_eq_some_iff.mp hsplit).2
  rw [← String.toList_inj, String.toList_append, String.toList_append, String.toList_ofList,
    String.toList_ofList, String.toList_ofList, hparts, List.append_assoc]
  rfl

/-- A number of 32 bits is read from its numerals only. -/
theorem isNumeral_iff {text : List Char} {n : UInt32} :
    fromStrRadix 10 (2 ^ 32) text = .ok n.toNat ↔ IsNumeral text n := by
  rw [fromStrRadix_eq_ok_iff (by decide) (by decide)]
  refine exists_congr fun digits => exists_congr fun values => ?_
  exact and_congr_right fun _ => and_congr_right fun _ => and_congr_right fun _ =>
    and_iff_left n.toNat_lt

/-- What the value of a key changes. -/
theorem says_of_specValue {s s' : SpecState} {k : String} {v : List Char}
    (h : specValue s k v = .ok s') :
    ∃ item, Says (k ++ "=" ++ String.ofList v) item ∧ s' = item.apply s := by
  -- the cases are the keys in the order in which `specValue` tries them
  unfold specValue at h
  split at h
  · obtain rfl := Except.ok.inj h
    exact ⟨_, .name (String.ofList v) rfl, rfl⟩
  · split at h
    · rename_i all hall
      obtain rfl := Except.ok.inj h
      obtain ⟨more, rfl, hmore⟩ := pushFields_eq_ok_iff.mp hall
      refine ⟨_, .fields (v.splitOn ',') more (List.splitOn_ne_nil ',' v)
        (fun piece hpiece => notMem_of_mem_splitOn hpiece) ?_ hmore, rfl⟩
      rw [List.intercalate_splitOn]
      rfl
    · cases h
  · split at h
    · rename_i n hn
      obtain rfl := Except.ok.inj h
      obtain ⟨-, -, -, -, -, -, hlt⟩ := (fromStrRadix_eq_ok_iff (by decide) (by decide)).mp hn
      have hread : fromStrRadix 10 (2 ^ 32) v = .ok (UInt32.ofNat n).toNat :=
        hn.trans (congrArg _ (UInt32.toNat_ofNat_of_lt' hlt).symm)
      exact ⟨_, .maxKeys v (UInt32.ofNat n) rfl (isNumeral_iff.mp hread), rfl⟩
    · cases h
  · split at h
    · rename_i policy hpolicy
      obtain rfl := Except.ok.inj h
      refine ⟨_, .evictionPolicy policy ?_, rfl⟩
      rw [evictionPolicyNamed_eq_some_iff.mp hpolicy]
      rfl
    · cases h
  · cases h

/-- A word is taken if it says something, and does what it says. -/
theorem specWord_eq_ok_iff {s s' : SpecState} {kv : String} :
    specWord s kv = .ok s' ↔ ∃ item, Says kv item ∧ s' = item.apply s := by
  constructor
  · intro h
    obtain ⟨k, v, rfl, hvalue⟩ := exists_key_of_specWord h
    exact says_of_specValue hvalue
  · rintro ⟨item, hword, rfl⟩
    -- each kind of word is a known key, so `specWord` reads its value by that key
    cases hword with
    | name value h =>
      have hkv : kv = "name" ++ "=" ++ String.ofList value.toList := by
        rw [h, String.ofList_toList]
        rfl
      rw [hkv, specWord_key (by decide), specValue, String.ofList_toList]
      rfl
    | fields pieces fields hne hpieces h hfields =>
      have hkv : kv = "fields" ++ "=" ++ String.ofList ([','].intercalate pieces) := h
      have hpush : pushFields s.fields pieces = .ok (s.fields ++ fields) :=
        pushFields_eq_ok_iff.mpr ⟨fields, rfl, hfields⟩
      rw [hkv, specWord_key (by decide), specValue, List.splitOn_intercalate ',' hpieces hne, hpush]
      rfl
    | maxKeys text n h hn =>
      have hkv : kv = "max_keys" ++ "=" ++ String.ofList text := h
      rw [hkv, specWord_key (by decide), specValue, isNumeral_iff.mpr hn]
      dsimp only
      rw [UInt32.ofNat_toNat]
      rfl
    | evictionPolicy policy h =>
      have hkv : kv = "eviction_policy" ++ "=" ++ String.ofList "lru_drop".toList := h
      rw [hkv, specWord_key (by decide)]
      cases policy
      rfl

/-! ### What a spec says -/

namespace SpecItem

/-- The names among the items. -/
def names : SpecItem → List String
  | .name value => [value]
  | _ => []

/-- The fields among the items. -/
def fieldList : SpecItem → List Field
  | .fields more => more
  | _ => []

/-- The limits among the items. -/
def limits : SpecItem → List UInt32
  | .maxKeys n => [n]
  | _ => []

/-- The eviction policies among the items. -/
def policies : SpecItem → List EvictionPolicy
  | .evictionPolicy policy => [policy]
  | _ => []

/-- The key of an item. -/
def key : SpecItem → String
  | .name _ => "name"
  | .fields _ => "fields"
  | .maxKeys _ => "max_keys"
  | .evictionPolicy _ => "eviction_policy"

end SpecItem

/-- Behind some items: the last name, limit and policy, and the fields of all of them. -/
theorem foldl_apply (s : SpecState) (items : List SpecItem) :
    items.foldl SpecItem.apply s =
      { name := (items.flatMap SpecItem.names).getLast?.or s.name
        fields := s.fields ++ items.flatMap SpecItem.fieldList
        maxKeys := (items.flatMap SpecItem.limits).getLastD s.maxKeys
        evictionPolicy := (items.flatMap SpecItem.policies).getLastD s.evictionPolicy } := by
  induction items using List.reverseRecOn with
  | nil => simp
  | append_singleton items item ih =>
    rw [List.foldl_append, ih]
    cases item <;>
      simp [SpecItem.apply, SpecItem.names, SpecItem.fieldList, SpecItem.limits, SpecItem.policies]

/-- The loop over the words goes through if each of them says something. -/
theorem foldlM_specWord_eq_ok_iff {words : List String} {s s' : SpecState} :
    words.foldlM specWord s = .ok s' ↔
      ∃ items, List.Forall₂ Says words items ∧ s' = items.foldl SpecItem.apply s := by
  induction words generalizing s with
  | nil =>
    constructor
    · intro h
      obtain rfl := Except.ok.inj h
      exact ⟨[], .nil, rfl⟩
    · rintro ⟨items, hitems, rfl⟩
      cases hitems
      rfl
  | cons kv words ih =>
    rw [List.foldlM_cons]
    constructor
    · intro h
      -- the fold stops at the first word that is refused
      cases hfirst : specWord s kv with
      | error e =>
        rw [hfirst] at h
        cases h
      | ok s₁ =>
        rw [hfirst] at h
        obtain ⟨item, hword, rfl⟩ := specWord_eq_ok_iff.mp hfirst
        obtain ⟨items, hitems, rfl⟩ := ih.mp h
        exact ⟨item :: items, .cons hword hitems, rfl⟩
    · rintro ⟨items, hitems, rfl⟩
      cases hitems with
      | @cons _ item _ items hword hitems =>
        rw [specWord_eq_ok_iff.mpr ⟨item, hword, rfl⟩]
        exact ih.mpr ⟨items, hitems, rfl⟩

/-- The rule that items make up. -/
structure SpecRule (items : List SpecItem) (rule : Frontend.FlowRule) : Prop where
  name : (items.flatMap SpecItem.names).getLast? = some rule.name
  fields : items.flatMap SpecItem.fieldList = rule.fields
  fields_ne : rule.fields ≠ []
  maxKeys : (items.flatMap SpecItem.limits).getLastD 1024 = rule.maxKeys
  evictionPolicy : (items.flatMap SpecItem.policies).getLastD .lruDrop = rule.evictionPolicy

/-- The end of the parser, behind the loop. -/
theorem parseSpec_of_items {words : List String} {items : List SpecItem}
    (h : List.Forall₂ Says words items) {rule : Frontend.FlowRule} :
    parseSpec words = .ok rule ↔ SpecRule items rule := by
  have hfold := foldl_apply .start items
  rw [parseSpec, foldlM_specWord_eq_ok_iff.mpr ⟨items, h, rfl⟩]
  dsimp only
  generalize items.foldl SpecItem.apply .start = s at hfold ⊢
  have hname : s.name = (items.flatMap SpecItem.names).getLast? := by
    rw [hfold]
    exact Option.or_none
  have hfields : s.fields = items.flatMap SpecItem.fieldList := by rw [hfold]; rfl
  have hmaxKeys : s.maxKeys = (items.flatMap SpecItem.limits).getLastD 1024 := by rw [hfold]; rfl
  have hpolicy : s.evictionPolicy = (items.flatMap SpecItem.policies).getLastD .lruDrop := by
    rw [hfold, SpecState.start]
  constructor
  · intro hrule
    split at hrule
    · cases hrule
    rename_i name hsome
    split at hrule
    · cases hrule
    rename_i hne
    obtain rfl := Except.ok.inj hrule
    exact ⟨hname.symm.trans hsome, hfields.symm, hne, hmaxKeys.symm, hpolicy.symm⟩
  · intro hrule
    rw [hname, hrule.name]
    dsimp only
    rw [if_neg (hfields.trans hrule.fields ▸ hrule.fields_ne), hfields, hrule.fields, hmaxKeys,
      hrule.maxKeys, hpolicy, hrule.evictionPolicy]

/-- A rule is read from words that say one. -/
theorem parseSpec_eq_ok_iff {words : List String} {rule : Frontend.FlowRule} :
    parseSpec words = .ok rule ↔ ∃ items, List.Forall₂ Says words items ∧ SpecRule items rule := by
  constructor
  · intro h
    obtain ⟨items, hitems⟩ : ∃ items, List.Forall₂ Says words items := by
      unfold parseSpec at h
      split at h
      · cases h
      · rename_i s hs
        obtain ⟨items, hitems, -⟩ := foldlM_specWord_eq_ok_iff.mp hs
        exact ⟨items, hitems⟩
    exact ⟨items, hitems, (parseSpec_of_items hitems).mp h⟩
  · rintro ⟨items, hitems, hrule⟩
    exact (parseSpec_of_items hitems).mpr hrule

/-- **The specs that are accepted.** A spec gives a rule exactly if each of its words says something and
what they say in the end makes up the rule: the last name, all fields in their order, at least one, and
the last limit and eviction policy, or 1024 and `lru_drop`. -/
theorem spec_accepted_iff (words : List String) (rule : Frontend.FlowRule) :
    parseSpec words = .ok rule ↔
      ∃ items, List.Forall₂ Says words items ∧ SpecRule items rule := parseSpec_eq_ok_iff

/-! ### The order of the words -/

/-- The key of a word. -/
def keyOf (kv : String) : Option String := (splitOnce '=' kv.toList).map fun p => String.ofList p.1

/-- A word has the key of the item that it says. -/
theorem Says.key {kv : String} {item : SpecItem} (h : Says kv item) : keyOf kv = some item.key := by
  have hkey : ∀ key v : String, '=' ∉ key.toList → keyOf (key ++ "=" ++ v) = some key := by
    intro key v hnot
    have hsplit : splitOnce '=' (key ++ "=" ++ v).toList = some (key.toList, v.toList) := by
      refine splitOnce_eq_some_iff.mpr ⟨hnot, ?_⟩
      rw [String.toList_append, String.toList_append, List.append_assoc]
      rfl
    rw [keyOf, hsplit, Option.map_some, String.ofList_toList]
  cases h with
  | name value h => exact h ▸ hkey "name" value (by decide)
  | fields pieces fields _ _ h _ => exact h ▸ hkey "fields" _ (by decide)
  | maxKeys text n h _ => exact h ▸ hkey "max_keys" _ (by decide)
  | evictionPolicy policy h => exact h ▸ hkey "eviction_policy" "lru_drop" (by decide)

/-- Words have the keys of the items that they say. -/
theorem keyOf_says {words : List String} {items : List SpecItem}
    (h : List.Forall₂ Says words items) : words.map keyOf = items.map fun item => some item.key := by
  induction h with
  | nil => rfl
  | cons hword _ ih => rw [List.map_cons, List.map_cons, hword.key, ih]

section Order

variable {words words' : List String} {item : String → SpecItem}

/-- What the words of one key contribute is not changed by the others. -/
theorem flatMap_of_key {β : Type} {f : SpecItem → List β} {key : String}
    (hf : ∀ item : SpecItem, item.key ≠ key → f item = [])
    (hitem : ∀ kv ∈ words, Says kv (item kv)) :
    (words.map item).flatMap f =
      ((words.filter fun kv => keyOf kv = some key).map item).flatMap f := by
  induction words with
  | nil => rfl
  | cons kv words ih =>
    obtain ⟨hfirst, hrest⟩ := List.forall_mem_cons.mp hitem
    rw [List.map_cons, List.flatMap_cons, ih hrest]
    by_cases hkey : keyOf kv = some key
    · rw [List.filter_cons_of_pos (by simpa using hkey)]
      rfl
    · rw [List.filter_cons_of_neg (by simpa using hkey), hf, List.nil_append]
      rintro rfl
      exact hkey hfirst.key

/-- The rule depends on the words of each key only. -/
theorem SpecRule.of_filters (hitem : ∀ kv ∈ words, Says kv (item kv))
    (hitem' : ∀ kv ∈ words', Says kv (item kv))
    (h : ∀ key, words.filter (fun kv => keyOf kv = key) = words'.filter fun kv => keyOf kv = key)
    {rule : Frontend.FlowRule} (hrule : SpecRule (words.map item) rule) :
    SpecRule (words'.map item) rule := by
  have hsame : ∀ {β : Type} {f : SpecItem → List β} (key : String),
      (∀ item : SpecItem, item.key ≠ key → f item = []) →
        (words'.map item).flatMap f = (words.map item).flatMap f := by
    intro β f key hf
    rw [flatMap_of_key hf hitem, flatMap_of_key hf hitem', h]
  have hnames := hsame (f := SpecItem.names) "name" fun i hi => by
    cases i <;> first | rfl | exact absurd rfl hi
  have hfields := hsame (f := SpecItem.fieldList) "fields" fun i hi => by
    cases i <;> first | rfl | exact absurd rfl hi
  have hlimits := hsame (f := SpecItem.limits) "max_keys" fun i hi => by
    cases i <;> first | rfl | exact absurd rfl hi
  have hpolicies := hsame (f := SpecItem.policies) "eviction_policy" fun i hi => by
    cases i <;> first | rfl | exact absurd rfl hi
  exact ⟨hnames ▸ hrule.name, hfields ▸ hrule.fields, hrule.fields_ne, hlimits ▸ hrule.maxKeys,
    hpolicies ▸ hrule.evictionPolicy⟩

/-- Words of different keys can change places. -/
theorem parseSpec_of_filters
    (h : ∀ key, words.filter (fun kv => keyOf kv = key) = words'.filter fun kv => keyOf kv = key)
    {rule : Frontend.FlowRule} (hrule : parseSpec words = .ok rule) : parseSpec words' = .ok rule := by
  classical
  have hmem : ∀ kv, kv ∈ words' → kv ∈ words := by
    intro kv hkv
    have hfilter : kv ∈ words'.filter fun w => keyOf w = keyOf kv :=
      List.mem_filter.mpr ⟨hkv, decide_eq_true rfl⟩
    rw [← h] at hfilter
    exact (List.mem_filter.mp hfilter).1
  obtain ⟨items, hitems, -⟩ := parseSpec_eq_ok_iff.mp hrule
  have hword : ∀ kv ∈ words, ∃ item, Says kv item := by
    intro kv hkv
    obtain ⟨i, hi, rfl⟩ := List.getElem_of_mem hkv
    exact ⟨_, hitems.get hi (hitems.length_eq ▸ hi)⟩
  -- one item for each word, wherever the word stands
  obtain ⟨item, hitem⟩ : ∃ item : String → SpecItem, ∀ kv ∈ words, Says kv (item kv) := by
    refine ⟨fun kv => if hkv : ∃ item, Says kv item then hkv.choose else .name "", fun kv hkv => ?_⟩
    dsimp only
    rw [dif_pos (hword kv hkv)]
    exact (hword kv hkv).choose_spec
  have hall : ∀ ws : List String, (∀ kv ∈ ws, Says kv (item kv)) →
      List.Forall₂ Says ws (ws.map item) := by
    intro ws hws
    rw [List.forall₂_map_right_iff, List.forall₂_same]
    exact hws
  have hitem' : ∀ kv ∈ words', Says kv (item kv) := fun kv hkv => hitem kv (hmem kv hkv)
  exact (parseSpec_of_items (hall words' hitem')).mpr
    (((parseSpec_of_items (hall words hitem)).mp hrule).of_filters hitem hitem' h)

end Order

/-! ### Written specs -/

/-- A rule as the words of a spec. -/
def specWords (rule : Frontend.FlowRule) : List String :=
  ["name=" ++ rule.name,
    "fields=" ++ String.ofList ([','].intercalate (rule.fields.map fun f => (fieldWord f).toList)),
    "max_keys=" ++ String.ofList (Nat.toDigits 10 rule.maxKeys.toNat), "eviction_policy=lru_drop"]

/-- **A spec in any order.** The words of a rule with fields give the rule back, in whatever order they
stand. -/
theorem spec_read_back {rule : Frontend.FlowRule} (hfields : rule.fields ≠ []) {words : List String}
    (h : words.Perm (specWords rule)) : parseSpec words = .ok rule := by
  have hfieldWord : ∀ f : Field, String.ofList (trim (fieldWord f).toList) = fieldWord f ∧
      ',' ∉ (fieldWord f).toList := by
    intro f
    cases f <;> decide +kernel
  have hword : List.Forall₂ Says (specWords rule) [.name rule.name, .fields rule.fields,
      .maxKeys rule.maxKeys, .evictionPolicy rule.evictionPolicy] := by
    refine .cons (.name _ rfl) (.cons (.fields _ _ ?_ ?_ rfl ?_) (.cons (.maxKeys _ _ rfl ?_)
      (.cons (.evictionPolicy _ rfl) .nil)))
    · simpa using hfields
    · intro piece hpiece
      obtain ⟨f, -, rfl⟩ := List.mem_map.mp hpiece
      exact (hfieldWord f).2
    · rw [List.forall₂_map_left_iff, List.forall₂_same]
      exact fun f _ => (hfieldWord f).1
    · exact isNumeral_iff.mp
        (fromStrRadix_toDigits (k := 0) (by decide) (by decide) rule.maxKeys.toNat_lt)
  have hrule : parseSpec (specWords rule) = .ok rule :=
    (parseSpec_of_items hword).mpr ⟨rfl, by simp [SpecItem.fieldList], hfields, rfl, rfl⟩
  -- each key stands in one word only, so no two words of one key change places
  have hkeys : (specWords rule).map keyOf =
      [some "name", some "fields", some "max_keys", some "eviction_policy"] := keyOf_says hword
  refine parseSpec_of_filters (fun key => ?_) hrule
  have hperm := h.filter fun kv => decide (keyOf kv = key)
  have hone : ((specWords rule).filter fun kv => decide (keyOf kv = key)).length ≤ 1 := by
    have hnodup : ((specWords rule).map keyOf).Nodup := by
      rw [hkeys]
      decide
    have hcount := List.nodup_iff_count_le_one.mp hnodup key
    rw [List.count, List.countP_map, List.countP_eq_length_filter] at hcount
    refine le_of_eq_of_le (congrArg List.length (List.filter_congr fun kv _ => ?_)) hcount
    rw [Function.comp_apply, beq_eq_decide]
  generalize (specWords rule).filter (fun kv => decide (keyOf kv = key)) = own at hperm hone ⊢
  cases own with
  | nil => exact (List.perm_nil.mp hperm).symm
  | cons kv own =>
    obtain rfl : own = [] := List.length_eq_zero_iff.mp (by simpa using hone)
    exact (List.perm_singleton.mp hperm).symm

/-- The words of a rule, the last one first. -/
theorem spec_read_back_reversed :
    parseSpec (specWords ⟨"a=b", [.srcIp, .dstPort], 16, .lruDrop⟩).reverse =
      .ok ⟨"a=b", [.srcIp, .dstPort], 16, .lruDrop⟩ :=
  spec_read_back (by decide) (List.reverse_perm _)

end InFMon.Cli
