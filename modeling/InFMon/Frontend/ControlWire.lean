import InFMon.Foundations.CappedLine
import InFMon.Frontend.Control
import Mathlib.Algebra.Order.BigOperators.Group.List

/-! # Requests and replies on the control socket

`run_server` of `control.rs` and `rpc` of `control_client.rs`: each side writes one JSON text and a
newline, and reads one line through a limit of 64 KiB. The texts are those of `serde_json`, a parameter
here; time limits and connections that break are left out. -/

namespace InFMon.Frontend

open CappedLine

/-! ### JSON texts -/

/-- `serde_json` for the messages of the protocol: `to_string` and `from_str`, with the text of the
error where they fail. -/
structure SerdeJson where
  requestText : Request → Except String String
  requestOf : String → Except String Request
  responseText : Response → Except String String
  responseOf : String → Except String Response

/-- What `serde_json` promises about the text of one value: no newline stands in it, it is read back,
also with a newline behind it, and no beginning of it is the text of a value. -/
structure ReadsBack {α : Type} (of : String → Except String α) (text : String) (a : α) : Prop where
  one_line : '\n' ∉ text.toList
  whole : of text = .ok a
  line : of (text ++ "\n") = .ok a
  part : ∀ s, utf8Bytes s <+: utf8Bytes text → s ≠ text → ∃ e, of s = .error e

/-! ### Reading a line -/

/-- `MAX_LINE` of the server. -/
def maxLine : ℕ := 64 * 1024

/-- `MAX_RESPONSE` of the client. -/
def maxResponse : ℕ := 64 * 1024

/-- `read_line` on `take(limit)`. It fails on bytes that are not UTF-8. -/
def readLine (limit : ℕ) (input : List UInt8) : Option String :=
  String.fromUTF8? (cappedLine 0x0A limit input).toByteArray

/-- Reading bytes as UTF-8 is the inverse of writing a string. -/
theorem fromUTF8?_eq_some_iff {bytes : List UInt8} {s : String} :
    String.fromUTF8? bytes.toByteArray = some s ↔ utf8Bytes s = bytes := by
  have hbytes := toByteArray_utf8Bytes s
  rw [String.fromUTF8?]
  constructor
  · intro h
    split at h
    · obtain rfl := Option.some.inj h
      exact List.toByteArray_inj.mp (hbytes.trans rfl)
    · cases h
  · rintro rfl
    rw [dif_pos (hbytes ▸ s.isValidUTF8)]
    refine congrArg some (String.toByteArray_inj.mp ?_)
    exact hbytes

/-- The byte of a newline is written for a newline only. -/
theorem newline_mem_utf8Bytes {s : String} (h : 0x0A ∈ utf8Bytes s) : '\n' ∈ s.toList := by
  obtain ⟨c, hc, hbytes⟩ := List.mem_flatMap.mp h
  have hbyte : ∀ m < 256, (0x0A : UInt8) = UInt8.ofNat m → m = 10 := by
    intro m hm heq
    have hnat := congrArg UInt8.toNat heq
    rw [UInt8.toNat_ofNat', Nat.mod_eq_of_lt hm] at hnat
    exact hnat.symm
  suffices heq : c = '\n' from heq ▸ hc
  simp only [String.utf8EncodeChar] at hbytes
  split at hbytes
  · rename_i hle
    exact Char.toNat_inj.mp
      (hbyte c.val.toNat (Nat.lt_of_le_of_lt hle (by decide)) (List.mem_singleton.mp hbytes))
  · -- the bytes of other characters are 128 or more
    exfalso
    split at hbytes
    · simp only [List.mem_cons, List.not_mem_nil, or_false] at hbytes
      rcases hbytes with h | h <;> have := hbyte _ (by omega) h <;> omega
    split at hbytes
    · simp only [List.mem_cons, List.not_mem_nil, or_false] at hbytes
      rcases hbytes with h | h | h <;> have := hbyte _ (by omega) h <;> omega
    · simp only [List.mem_cons, List.not_mem_nil, or_false] at hbytes
      rcases hbytes with h | h | h | h <;> have := hbyte _ (by omega) h <;> omega

/-- The bytes of both texts. -/
theorem utf8Bytes_append (s t : String) : utf8Bytes (s ++ t) = utf8Bytes s ++ utf8Bytes t := by
  rw [utf8Bytes, String.toList_append, List.flatMap_append]
  rfl

/-- The bytes of a text with a newline behind it. -/
theorem utf8Bytes_line (text : String) : utf8Bytes (text ++ "\n") = utf8Bytes text ++ [0x0A] := by
  rw [utf8Bytes_append]
  rfl

variable {text : String} {limit : ℕ}

/-- A text shorter than the limit is read with its newline. -/
theorem readLine_of_lt (h : '\n' ∉ text.toList) (hlt : (utf8Bytes text).length < limit) :
    readLine limit (utf8Bytes (text ++ "\n")) = some (text ++ "\n") := by
  rw [readLine, fromUTF8?_eq_some_iff, utf8Bytes_line,
    cappedLine_of_lt (mt newline_mem_utf8Bytes h) hlt]

/-- A text as long as the limit is read without the newline. -/
theorem readLine_of_eq (h : '\n' ∉ text.toList) (heq : (utf8Bytes text).length = limit) :
    readLine limit (utf8Bytes (text ++ "\n")) = some text := by
  rw [readLine, fromUTF8?_eq_some_iff, utf8Bytes_line,
    cappedLine_of_ge (mt newline_mem_utf8Bytes h) heq.ge, List.take_of_length_le heq.le]

/-- Of a longer text only a beginning is read, if anything. -/
theorem readLine_of_gt (h : '\n' ∉ text.toList) (hgt : limit < (utf8Bytes text).length)
    {s : String} (hs : readLine limit (utf8Bytes (text ++ "\n")) = some s) :
    utf8Bytes s <+: utf8Bytes text ∧ s ≠ text := by
  rw [readLine, fromUTF8?_eq_some_iff, utf8Bytes_line,
    cappedLine_of_ge (mt newline_mem_utf8Bytes h) hgt.le] at hs
  refine ⟨hs ▸ List.take_prefix _ _, ?_⟩
  rintro rfl
  -- the whole text would be longer than what was read
  have hlen := congrArg List.length hs
  rw [List.length_take] at hlen
  omega

/-! ### The server -/

variable {β : Type}

/-- One connection of `run_server`: the bytes that come in, and the bytes written before it is
closed. -/
def serveConnection (serde : SerdeJson) (vapi : Option (Vapi β))
    (outcome : Except PullError FlowStatsSnapshot) (input : List UInt8) (state : ControlState) (b : β) :
    List UInt8 × ControlState × β :=
  match readLine maxLine input with
  | none => ([], state, b)
  | some line =>
    if line = "" then ([], state, b)
    else if (utf8Bytes line).length ≥ maxLine ∧ line.toList.getLast? ≠ some '\n' then
      let text := (serde.responseText (.err (-1) "request too large")).toOption.getD ""
      (utf8Bytes (text ++ "\n"), state, b)
    else
      let out :=
        match serde.requestOf line with
        | .ok req => state.handleRequest vapi outcome req b
        | .error e => (.err (-1) ("invalid request: " ++ e), state, b)
      match serde.responseText out.1 with
      | .ok text => (utf8Bytes (text ++ "\n"), out.2)
      | .error _ => ([], out.2)

/-! ### The client -/

/-- The ways in which `rpc` fails on a connection that does not break: `CtlError::Io` and
`CtlError::Protocol`. -/
inductive RpcError where
  | io
  | protocol (message : String)
  deriving DecidableEq, Repr

/-- The second half of `rpc`: reading the reply. -/
def readResponse (serde : SerdeJson) (reply : List UInt8) : Except RpcError Response :=
  match readLine maxResponse reply with
  | none => .error .io
  | some line =>
    match serde.responseOf line with
    | .ok response => .ok response
    | .error e => .error (.protocol ("deserialize response: " ++ e))

/-- `rpc`, with what the other side replies to the bytes it gets. -/
def rpc (serde : SerdeJson) (server : List UInt8 → List UInt8) (request : Request) :
    Except RpcError Response :=
  match serde.requestText request with
  | .error e => .error (.protocol ("serialize request: " ++ e))
  | .ok line => readResponse serde (server (utf8Bytes (line ++ "\n")))

/-! ### What the client reads -/

variable {serde : SerdeJson} {response : Response}

/-- A reply within the limit is read, and no other. -/
theorem readResponse_eq_iff (h : ReadsBack serde.responseOf text response) :
    readResponse serde (utf8Bytes (text ++ "\n")) = .ok response ↔
      (utf8Bytes text).length ≤ maxResponse := by
  rw [readResponse]
  rcases Nat.lt_trichotomy (utf8Bytes text).length maxResponse with hlt | heq | hgt
  · rw [readLine_of_lt h.one_line hlt]
    dsimp only
    rw [h.line]
    exact iff_of_true rfl hlt.le
  · rw [readLine_of_eq h.one_line heq]
    dsimp only
    rw [h.whole]
    exact iff_of_true rfl heq.le
  · refine iff_of_false ?_ (Nat.not_le.mpr hgt)
    cases hline : readLine maxResponse (utf8Bytes (text ++ "\n")) with
    | none => exact fun h => by cases h
    | some line =>
      -- a beginning of the reply is no JSON value
      obtain ⟨hlead, hne⟩ := readLine_of_gt h.one_line hgt hline
      obtain ⟨e, he⟩ := h.part line hlead hne
      dsimp only
      rw [he]
      exact fun h => by cases h

/-- The text of a request that the server reads: its line is within the limit. -/
structure ValidRequest (serde : SerdeJson) (request : Request) (text : String) : Prop where
  written : serde.requestText request = .ok text
  reads : ReadsBack serde.requestOf text request
  fits : (utf8Bytes text).length < maxLine

/-- The server's reply to a valid request is the text of what `handle_request` returns. -/
theorem serveConnection_valid {request : Request} (h : ValidRequest serde request text)
    (vapi : Option (Vapi β)) (outcome : Except PullError FlowStatsSnapshot) (state : ControlState)
    (b : β) {reply : String}
    (hreply : serde.responseText (state.handleRequest vapi outcome request b).1 = .ok reply) :
    serveConnection serde vapi outcome (utf8Bytes (text ++ "\n")) state b =
      (utf8Bytes (reply ++ "\n"), (state.handleRequest vapi outcome request b).2) := by
  have hne : text ++ "\n" ≠ "" := by
    rw [Ne, String.append_eq_empty_iff]
    exact fun hempty => absurd hempty.2 (by decide)
  have hend : (text ++ "\n").toList.getLast? = some '\n' := by
    rw [String.toList_append]
    exact List.getLast?_concat
  -- neither of the early exits is taken: the line is not empty, and it is complete
  rw [serveConnection, readLine_of_lt h.reads.one_line h.fits]
  dsimp only
  rw [if_neg hne, if_neg fun hlarge => hlarge.2 hend, h.reads.line]
  dsimp only
  rw [hreply]

/-- For a valid request `rpc` reads the text of what `handle_request` returns. -/
theorem rpc_valid {request : Request} {requestText replyText : String}
    (hrequest : ValidRequest serde request requestText) (vapi : Option (Vapi β))
    (outcome : Except PullError FlowStatsSnapshot) (state : ControlState) (b : β)
    (hreply : serde.responseText (state.handleRequest vapi outcome request b).1 = .ok replyText) :
    rpc serde (fun input => (serveConnection serde vapi outcome input state b).1) request =
      readResponse serde (utf8Bytes (replyText ++ "\n")) := by
  rw [rpc, hrequest.written]
  dsimp only
  rw [serveConnection_valid hrequest vapi outcome state b hreply]

/-- The client gets what `handle_request` has returned for a valid request exactly when its text is
within the limit of the client. -/
theorem rpc_eq_iff {request : Request} {requestText replyText : String}
    (hrequest : ValidRequest serde request requestText) (vapi : Option (Vapi β))
    (outcome : Except PullError FlowStatsSnapshot) (state : ControlState) (b : β)
    (hreply : serde.responseText (state.handleRequest vapi outcome request b).1 = .ok replyText)
    (hreads : ReadsBack serde.responseOf replyText (state.handleRequest vapi outcome request b).1) :
    rpc serde (fun input => (serveConnection serde vapi outcome input state b).1) request =
        .ok (state.handleRequest vapi outcome request b).1 ↔
      (utf8Bytes replyText).length ≤ maxResponse := by
  rw [rpc_valid hrequest vapi outcome state b hreply, readResponse_eq_iff hreads]

/-! ### The text of a reply to `list` -/

/-- A text in quotes, which is its JSON when there is nothing to escape. -/
def quoted (s : String) : String := "\"" ++ s ++ "\""

/-- The JSON of a field. -/
def fieldText : Field → String
  | .srcIp => quoted "src_ip"
  | .dstIp => quoted "dst_ip"
  | .ipProto => quoted "ip_proto"
  | .dscp => quoted "dscp"
  | .mirrorSrcIp => quoted "mirror_src_ip"
  | .srcPort => quoted "src_port"
  | .dstPort => quoted "dst_port"

/-- The JSON of a rule. -/
def ruleText (r : FlowRuleData) : String :=
  String.join
    ["\x7b\"name\":", quoted r.name, ",\"fields\":[", ",".intercalate (r.fields.map fieldText),
      "],\"max_keys\":", toString r.maxKeys.toNat, ",\"eviction_policy\":\"lru_drop\"\x7d"]

/-- The JSON of a reply to `list`. -/
def listText (rules : List FlowRuleData) : String :=
  String.join
    ["\x7b\"ok\":true,\"data\":\x7b\"type\":\"FlowRuleList\",\"rules\":[",
      ",".intercalate (rules.map ruleText), "]\x7d\x7d"]

/-- The JSON of a `list` request. -/
def listRequestText : String := "\x7b\"method\":\"flow_rule_list\"\x7d"

/-- Texts behind one another with commas are at least as long as all of them. -/
theorem length_intercalate_ge (texts : List String) :
    (texts.map String.length).sum ≤ (",".intercalate texts).length := by
  induction texts with
  | nil => exact Nat.zero_le _
  | cons text texts ih =>
    cases texts with
    | nil => simp
    | cons text' texts =>
      rw [String.intercalate_cons_cons, String.length_append, String.length_append, List.map_cons,
        List.sum_cons]
      omega

/-- The JSON of a rule is at least as long as the name of the rule. -/
theorem length_ruleText_ge (r : FlowRuleData) : r.name.length ≤ (ruleText r).length := by
  have hquoted : r.name.length ≤ (quoted r.name).length := by
    rw [quoted, String.length_append, String.length_append]
    omega
  refine hquoted.trans ?_
  rw [ruleText, String.length_join]
  exact List.single_le_sum (fun _ _ => Nat.zero_le _) _ (List.mem_map_of_mem (by simp))

/-- The reply grows with the number of rules and the length of their names. -/
theorem length_listText_ge (rules : List FlowRuleData) :
    (rules.map fun r => r.name.length).sum ≤ (utf8Bytes (listText rules)).length := by
  have hnames : (rules.map fun r => r.name.length).sum ≤
      ((rules.map ruleText).map String.length).sum := by
    rw [List.map_map]
    exact List.sum_le_sum fun r _ => length_ruleText_ge r
  -- the list of the rules is one of the texts that the reply is joined from
  have hjoined := length_intercalate_ge (rules.map ruleText)
  refine (hnames.trans hjoined).trans (Nat.le_trans ?_ (length_le_utf8Bytes _))
  rw [listText, String.length_join]
  exact List.single_le_sum (fun _ _ => Nat.zero_le _) _ (List.mem_map_of_mem (by simp))

/-! ### Texts on one line -/

/-- No newline stands in the text. -/
def OneLine (s : String) : Prop := '\n' ∉ s.toList

instance (s : String) : Decidable (OneLine s) := inferInstanceAs (Decidable ('\n' ∉ s.toList))

/-- Two texts on one line are on one line. -/
theorem OneLine.append {s t : String} (hs : OneLine s) (ht : OneLine t) : OneLine (s ++ t) := by
  rw [OneLine, String.toList_append, List.mem_append]
  exact not_or.mpr ⟨hs, ht⟩

/-- Quotes add no newline. -/
theorem OneLine.quoted {s : String} (hs : OneLine s) : OneLine (quoted s) :=
  (OneLine.append (by decide +kernel) hs).append (by decide +kernel)

/-- A number is on one line. -/
theorem oneLine_toString (n : ℕ) : OneLine (toString n) := by
  intro h
  rw [Nat.toString_eq_repr, Nat.toList_repr] at h
  exact absurd (Nat.isDigit_of_mem_toDigits (by decide) (by decide) h) (by decide)

/-- Joined texts are on one line when each of them is. -/
theorem oneLine_join {texts : List String} (h : ∀ text ∈ texts, OneLine text) :
    OneLine (String.join texts) := by
  rw [OneLine, String.toList_join, List.mem_flatMap]
  rintro ⟨text, htext, hc⟩
  exact h text htext hc

/-- Texts with commas in between are on one line when each of them is. -/
theorem oneLine_intercalate {texts : List String} (h : ∀ text ∈ texts, OneLine text) :
    OneLine (",".intercalate texts) := by
  induction texts with
  | nil => decide +kernel
  | cons text texts ih =>
    have htext := h text List.mem_cons_self
    have hrest := ih fun t ht => h t (List.mem_cons_of_mem _ ht)
    cases texts with
    | nil => rwa [String.intercalate_singleton]
    | cons text' texts =>
      rw [String.intercalate_cons_cons]
      exact (htext.append (by decide +kernel)).append hrest

/-- The JSON of a field is on one line. -/
theorem oneLine_fieldText (field : Field) : OneLine (fieldText field) := by
  cases field <;> decide +kernel

/-- The JSON of a rule is on one line when its name is. -/
theorem oneLine_ruleText {r : FlowRuleData} (hname : OneLine r.name) : OneLine (ruleText r) := by
  have hfields : OneLine (",".intercalate (r.fields.map fieldText)) :=
    oneLine_intercalate fun text ht => by
      obtain ⟨field, -, rfl⟩ := List.mem_map.mp ht
      exact oneLine_fieldText field
  refine oneLine_join ?_
  simp only [List.forall_mem_cons]
  exact ⟨by decide +kernel, hname.quoted, by decide +kernel, hfields, by decide +kernel,
    oneLine_toString _, by decide +kernel, List.forall_mem_nil _⟩

/-- A reply to `list` is on one line when the names are. -/
theorem oneLine_listText {rules : List FlowRuleData} (h : ∀ r ∈ rules, OneLine r.name) :
    OneLine (listText rules) := by
  have hrules : OneLine (",".intercalate (rules.map ruleText)) :=
    oneLine_intercalate fun text ht => by
      obtain ⟨r, hr, rfl⟩ := List.mem_map.mp ht
      exact oneLine_ruleText (h r hr)
  refine oneLine_join ?_
  simp only [List.forall_mem_cons]
  exact ⟨by decide +kernel, hrules, by decide +kernel, List.forall_mem_nil _⟩

/-! ### A server with long names -/

/-- A reader of one text only. -/
def onlyText {α : Type} (text : String) (a : α) (s : String) : Except String α :=
  if s = text ∨ s = text ++ "\n" then .ok a else .error "EOF while parsing an object"

/-- The reader of one text reads it back. -/
theorem readsBack_onlyText {α : Type} (h : OneLine text) (a : α) :
    ReadsBack (onlyText text a) text a where
  one_line := h
  whole := if_pos (Or.inl rfl)
  line := if_pos (Or.inr rfl)
  part s hlead hne := by
    refine ⟨_, if_neg (not_or.mpr ⟨hne, fun heq => ?_⟩)⟩
    have hle := hlead.length_le
    rw [heq, utf8Bytes_line, List.length_append, List.length_singleton] at hle
    omega

/-- JSON for the `list` request and its reply. -/
def listSerde (rules : List FlowRuleData) : SerdeJson where
  requestText
    | .flowRuleList => .ok listRequestText
    | _ => .error "not a list request"
  requestOf := onlyText listRequestText .flowRuleList
  responseText
    | ⟨true, some (.flowRuleList rules), none⟩ => .ok (listText rules)
    | _ => .error "not a reply to list"
  responseOf := onlyText (listText rules) (.okData (.flowRuleList rules))

/-- A rule over the source address, as it is shown. -/
def sourceRule (name : String) : FlowRuleData where
  name := name
  fields := [.srcIp]
  maxKeys := 1024
  evictionPolicy := .lruDrop

/-- The state after a request that adds this rule. -/
def ControlState.addSource (state : ControlState) (name : String) : ControlState :=
  (state.handleRequest none (.error .notConnected)
    (.flowRuleAdd ⟨name, [.srcIp], 1024, .lruDrop⟩) ()).2.1

/-- A name of `n` equal letters. -/
def letters (c : Char) (n : ℕ) : String := String.ofList (List.replicate n c)

/-- A name of `n` letters has length `n`. -/
@[simp]
theorem length_letters (c : Char) (n : ℕ) : (letters c n).length = n := by
  rw [letters, String.length_ofList, List.length_replicate]

/-- Letters are on one line. -/
theorem oneLine_letters {c : Char} (hc : c ≠ '\n') (n : ℕ) : OneLine (letters c n) := by
  rw [OneLine, letters, String.toList_ofList]
  intro hmem
  exact hc (List.eq_of_mem_replicate hmem).symm

/-- Different letters make different names. -/
theorem letters_ne {c d : Char} (h : c ≠ d) {n : ℕ} (hn : 0 < n) : letters c n ≠ letters d n := by
  intro heq
  have hlist := congrArg String.toList heq
  rw [letters, letters, String.toList_ofList, String.toList_ofList] at hlist
  have hmem : c ∈ List.replicate n d := hlist ▸ List.mem_replicate.mpr ⟨hn.ne', rfl⟩
  exact h (List.eq_of_mem_replicate hmem)

/-- A server to which two rules have been added, with names of `n` letters. -/
def namesState (n : ℕ) : ControlState :=
  ((ControlState.new []).addSource (letters 'a' n)).addSource (letters 'b' n)

/-- What the server lists. -/
def namesListed (n : ℕ) : List FlowRuleData := [letters 'a' n, letters 'b' n].map sourceRule

/-- Both rules are kept, as their names differ. -/
theorem handleRequest_names {n : ℕ} (hn : 0 < n) (outcome : Except PullError FlowStatsSnapshot) :
    ((namesState n).handleRequest none outcome .flowRuleList ()).1 =
      .okData (.flowRuleList (namesListed n)) := by
  have hne : (letters 'a' n == letters 'b' n) = false :=
    beq_false_of_ne (letters_ne (by decide) hn)
  simp [namesState, ControlState.addSource, ControlState.handleRequest,
    ControlState.handleFlowRuleAdd, ControlState.handleFlowRuleList, ControlState.new, namesListed,
    sourceRule, hne]

/-- The reply with both names is on one line. -/
theorem oneLine_names (n : ℕ) : OneLine (listText (namesListed n)) := by
  refine oneLine_listText fun r hr => ?_
  obtain ⟨name, hname, rfl⟩ := List.mem_map.mp hr
  rcases List.mem_pair.mp hname with rfl | rfl
  · exact oneLine_letters (by decide) n
  · exact oneLine_letters (by decide) n

/-- The request for the list is valid. -/
theorem validRequest_names (n : ℕ) :
    ValidRequest (listSerde (namesListed n)) .flowRuleList listRequestText where
  written := rfl
  reads := readsBack_onlyText (by decide +kernel) _
  fits := by decide +kernel

/-- With short names the client gets what the server lists. -/
theorem rpc_short_names :
    rpc (listSerde (namesListed 3)) (fun input => (serveConnection (listSerde (namesListed 3)) none
      (.error .notConnected) input (namesState 3) ()).1) .flowRuleList =
      .ok (.okData (.flowRuleList (namesListed 3))) := by
  have hsize : (listText (namesListed 3)).utf8ByteSize ≤ maxResponse := by decide +kernel
  have hreply := handleRequest_names (n := 3) (by decide) (.error .notConnected)
  rw [← hreply]
  exact (rpc_eq_iff (validRequest_names 3) none (.error .notConnected) (namesState 3) ()
    (by rw [hreply]; rfl) (by rw [hreply]; exact readsBack_onlyText (oneLine_names 3) _)).mpr
      ((length_utf8Bytes _).trans_le hsize)

/-- Above some length of the names the client does not get what the server lists. -/
theorem rpc_names_ne {n : ℕ} (h : maxResponse < 2 * n)
    (outcome : Except PullError FlowStatsSnapshot) :
    rpc (listSerde (namesListed n)) (fun input => (serveConnection (listSerde (namesListed n)) none
      outcome input (namesState n) ()).1) .flowRuleList ≠
      .ok ((namesState n).handleRequest none outcome .flowRuleList ()).1 := by
  have hn : 0 < n := by omega
  have hreply := handleRequest_names hn outcome
  have hge := length_listText_ge (namesListed n)
  simp only [namesListed, List.map_cons, List.map_nil, sourceRule, length_letters, List.sum_cons,
    List.sum_nil] at hge
  rw [rpc_valid (validRequest_names n) none outcome (namesState n) () (by rw [hreply]; rfl), hreply,
    Ne, readResponse_eq_iff (readsBack_onlyText (oneLine_names n) _)]
  refine Nat.not_le.mpr (Nat.lt_of_lt_of_le h (Nat.le_trans ?_ hge))
  omega

/-- With two names of 40000 letters, each of which fits in a request, the client gets an error. -/
theorem rpc_long_names :
    rpc (listSerde (namesListed 40000)) (fun input => (serveConnection
      (listSerde (namesListed 40000)) none (.error .notConnected) input (namesState 40000) ()).1)
        .flowRuleList ≠
      .ok ((namesState 40000).handleRequest none (.error .notConnected) .flowRuleList ()).1 :=
  rpc_names_ne (by decide) (.error .notConnected)

end InFMon.Frontend
