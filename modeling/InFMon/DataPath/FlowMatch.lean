import InFMon.CounterTable.Heap
import InFMon.FlowRule.Key

/-! # Flow matching

The portable part of the last two graph nodes, `graph_node.c`: every rule encodes the key of a packet
and leaves an entry in the scratch vector, and the entries are counted in the tables later. -/

namespace InFMon

/-! ### Scratch -/

/-- `INFMON_MAX_ACTIVE_FLOW_RULES`. -/
def maxActiveFlowRules : ℕ := 64

/-- `INFMON_FRAME_SIZE`. -/
def frameSize : ℕ := 256

/-- `INFMON_KEY_BUF_MAX`. -/
def keyBufMax : ℕ := 64

/-- `infmon_scratch_entry_t`; the key is the copy in the entry, `key_len` bytes of it. -/
structure ScratchEntry where
  flowRuleIndex : ℕ
  keyHash : UInt64
  pktBytes : UInt64
  keyData : Key
  deriving DecidableEq

/-- The entries that a scratch vector has room for. -/
def scratchMax : ℕ := frameSize * maxActiveFlowRules

/-- `infmon_scratch_t`: the valid entries. -/
structure Scratch where
  entries : List ScratchEntry
  fits : entries.length ≤ scratchMax

namespace Scratch

/-- `infmon_scratch_reset`. -/
def reset : Scratch := ⟨[], Nat.zero_le _⟩

/-- Append an entry, if there is room: whether there was. -/
def append (scratch : Scratch) (e : ScratchEntry) : Bool × Scratch :=
  if h : scratch.entries.length < scratchMax then
    (true, ⟨scratch.entries ++ [e], by rw [List.length_append]; exact h⟩)
  else (false, scratch)

end Scratch

/-! ### Matching -/

/-- `fnv1a_64`. -/
def fnv1a64 (data : List UInt8) : UInt64 :=
  data.foldl (fun h b => (h ^^^ b.toUInt64) * 0x100000001b3) 0xcbf29ce484222325

/-- What the loop over the rules works on. -/
structure FlowMatchPass where
  matched : ℕ
  scratch : Scratch
  keyBuf : ByteMemory

/-- The width of a rule's key, computed anew if the rule does not have it. -/
def matchWidth (rule : FlowRule) : ℕ :=
  if rule.keyWidth = 0 then flowRuleKeyWidth rule.fields else rule.keyWidth

/-- One iteration of the loop in `infmon_flow_match`, for the rule at index `i`. -/
def flowMatchRule (rule : FlowRule) (fields : FlowFields) (pktBytes : UInt64) (i : ℕ)
    (p : FlowMatchPass) : FlowMatchPass :=
  let keyBuf := encodeKey rule fields p.keyBuf
  -- the key is encoded, but the rule makes no entry
  if h : matchWidth rule = 0 ∨ matchWidth rule > keyBufMax then { p with keyBuf := keyBuf }
  else
    let key : Key := ⟨keyBuf.read 0 (matchWidth rule), by
      rw [ByteMemory.length_read]
      simp only [keyBufMax] at h
      omega⟩
    let appended := p.scratch.append
      { flowRuleIndex := i, keyHash := fnv1a64 key.bytes, pktBytes := pktBytes, keyData := key }
    { matched := if appended.1 then p.matched + 1 else p.matched
      scratch := appended.2
      keyBuf := keyBuf }

/-- `infmon_flow_match`: the number of matches, and the scratch vector and the key buffer behind
them. -/
def flowMatch (rules : ℕ → FlowRule) (ruleCount : ℕ) (fields : FlowFields) (scratch : Scratch)
    (keyBuf : ByteMemory) (pktBytes : UInt64) : FlowMatchPass :=
  (List.range (min ruleCount maxActiveFlowRules)).foldl
    (fun p i => flowMatchRule (rules i) fields pktBytes i p)
    { matched := 0, scratch := scratch, keyBuf := keyBuf }

/-! ### Counting -/

/-- One iteration of the loop in `infmon_counter_update`, with `row` for the table pointers. -/
def counterUpdateEntry (row : ℕ → Option ℕ) (tick : UInt64) (heap : Heap) (e : ScratchEntry) : Heap :=
  if e.flowRuleIndex ≥ maxActiveFlowRules then heap
  else
    match row e.flowRuleIndex with
    -- the worker has no table for the rule
    | none => heap
    | some table =>
      if e.keyData.len = 0 then heap
      else heap.modify table fun t => (t.update e.keyHash e.keyData e.pktBytes tick).2

/-- `infmon_counter_update`. -/
def counterUpdate (scratch : Scratch) (row : ℕ → Option ℕ) (tick : UInt64) (heap : Heap) : Heap :=
  scratch.entries.foldl (counterUpdateEntry row tick) heap

end InFMon
