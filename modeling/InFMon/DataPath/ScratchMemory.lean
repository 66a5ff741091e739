import InFMon.DataPath.Dispatch

/-! # The scratch vector in memory

The scratch vector as `graph_node.c` lays it out: every entry has room for a key of its own and a pointer
to it. Matching and counting on this memory do what they do on a list of entries. -/

namespace InFMon

/-! ### Entries -/

/-- `infmon_scratch_entry_t`, without its `key_data`; `key_ptr` is an offset into the key data of all
entries. -/
structure EntryMemory where
  flowRuleIndex : ℕ
  keyLen : UInt16
  keyHash : UInt64
  pktBytes : UInt64
  keyPtr : ℕ

/-- `infmon_scratch_t`. The `key_data` of its entries lie in one memory, one behind the other. -/
structure ScratchMemory where
  entries : ℕ → EntryMemory
  keyData : ByteMemory
  count : ℕ

/-- Where the `key_data` of an entry is. -/
def keyDataOf (i : ℕ) : ℕ := i * keyBufMax

namespace ScratchMemory

/-- `infmon_scratch_reset`. -/
def reset (m : ScratchMemory) : ScratchMemory := { m with count := 0 }

/-- Append an entry with a copy of the first `kw` bytes of the key buffer, if there is room. -/
def append (m : ScratchMemory) (flowRuleIndex kw : ℕ) (hash : UInt64) (keyBuf : ByteMemory)
    (pktBytes : UInt64) : Bool × ScratchMemory :=
  if m.count < scratchMax then
    let keyPtr := keyDataOf m.count
    (true,
      { entries := Function.update m.entries m.count
          { flowRuleIndex := flowRuleIndex
            keyLen := UInt16.ofNat kw
            keyHash := hash
            pktBytes := pktBytes
            keyPtr := keyPtr }
        keyData := m.keyData.write keyPtr (keyBuf.read 0 kw)
        count := m.count + 1 })
  else (false, m)

/-- The entry at an index, with the key that its pointer leads to. -/
def entry (m : ScratchMemory) (i : ℕ) : ScratchEntry :=
  let e := m.entries i
  { flowRuleIndex := e.flowRuleIndex
    keyHash := e.keyHash
    pktBytes := e.pktBytes
    keyData := ⟨m.keyData.read e.keyPtr e.keyLen.toNat, by
      rw [ByteMemory.length_read]
      exact e.keyLen.toNat_lt⟩ }

end ScratchMemory

/-! ### Matching and counting -/

/-- What the loop over the rules works on. -/
structure MemoryPass where
  matched : ℕ
  scratch : ScratchMemory
  keyBuf : ByteMemory

/-- One iteration of the loop in `infmon_flow_match`, for the rule at index `i`. -/
def flowMatchRuleMem (rule : FlowRule) (fields : FlowFields) (pktBytes : UInt64) (i : ℕ)
    (p : MemoryPass) : MemoryPass :=
  let keyBuf := encodeKey rule fields p.keyBuf
  let kw := matchWidth rule
  if kw = 0 ∨ kw > keyBufMax then { p with keyBuf := keyBuf }
  else
    let hash := fnv1a64 (keyBuf.read 0 kw)
    let appended := p.scratch.append i kw hash keyBuf pktBytes
    { matched := if appended.1 then p.matched + 1 else p.matched
      scratch := appended.2
      keyBuf := keyBuf }

/-- `infmon_flow_match`. -/
def flowMatchMem (rules : ℕ → FlowRule) (ruleCount : ℕ) (fields : FlowFields)
    (scratch : ScratchMemory) (keyBuf : ByteMemory) (pktBytes : UInt64) : MemoryPass :=
  (List.range (min ruleCount maxActiveFlowRules)).foldl
    (fun p i => flowMatchRuleMem (rules i) fields pktBytes i p)
    { matched := 0, scratch := scratch, keyBuf := keyBuf }

/-- `infmon-flow-match` on one buffer. -/
def matchBufferMem (rules : ℕ → FlowRule) (ruleCount : ℕ) (b : Buffer) (scratch : ScratchMemory)
    (keyBuf : ByteMemory) : MemoryPass :=
  match flowFields b with
  | .error _ => { matched := 0, scratch := scratch, keyBuf := keyBuf }
  | .ok fields =>
    if ruleCount > 0 then
      flowMatchMem rules ruleCount fields scratch keyBuf b.currentLength.toUInt64
    else { matched := 0, scratch := scratch, keyBuf := keyBuf }

/-- `infmon_counter_update`. -/
def counterUpdateMem (scratch : ScratchMemory) (row : ℕ → Option ℕ) (tick : UInt64) (heap : Heap) :
    Heap :=
  (List.range scratch.count).foldl
    (fun heap i => counterUpdateEntry row tick heap (scratch.entry i)) heap

/-! ### The list behind the memory -/

/-- The memory has these entries, each with its key in its own room. -/
structure ScratchMemory.Represents (m : ScratchMemory) (s : Scratch) : Prop where
  count : m.count = s.entries.length
  entries : ∀ i (hi : i < s.entries.length), m.entry i = s.entries[i]
  keyPtr : ∀ i < m.count, (m.entries i).keyPtr = keyDataOf i
  keyLen : ∀ i < m.count, (m.entries i).keyLen.toNat ≤ keyBufMax

/-- A scratch that is reset represents an empty one. -/
theorem ScratchMemory.represents_reset (m : ScratchMemory) : m.reset.Represents .reset where
  count := rfl
  entries _ hi := absurd hi (Nat.not_lt_zero _)
  keyPtr _ hi := absurd hi (Nat.not_lt_zero _)
  keyLen _ hi := absurd hi (Nat.not_lt_zero _)

namespace ScratchMemory.Represents

variable {m : ScratchMemory} {s : Scratch}

/-- The entries as a list. -/
theorem map_entry (h : m.Represents s) : (List.range m.count).map m.entry = s.entries := by
  apply List.ext_getElem
  · rw [List.length_map, List.length_range, h.count]
  · intro i hi hi'
    rw [List.getElem_map, List.getElem_range, h.entries i hi']

/-- Appending writes behind the keys of the other entries. -/
theorem append (h : m.Represents s) (i : ℕ) {kw : ℕ} {keyBuf : ByteMemory} (hash pktBytes : UInt64)
    {key : Key} (hkw : kw ≤ keyBufMax) (hkey : key.bytes = keyBuf.read 0 kw) :
    (m.append i kw hash keyBuf pktBytes).1 = (s.append ⟨i, hash, pktBytes, key⟩).1 ∧
      (m.append i kw hash keyBuf pktBytes).2.Represents (s.append ⟨i, hash, pktBytes, key⟩).2 := by
  have hlen : (UInt16.ofNat kw).toNat = kw := by
    rw [UInt16.toNat_ofNat']
    exact Nat.mod_eq_of_lt (hkw.trans_lt (by decide))
  unfold ScratchMemory.append Scratch.append
  by_cases hroom : s.entries.length < scratchMax
  case neg =>
    -- the vector is full, and the entry is left out on both sides
    rw [if_neg (h.count ▸ hroom), dif_neg hroom]
    exact ⟨rfl, h⟩
  rw [if_pos (h.count ▸ hroom), dif_pos hroom]
  have hold : ∀ j < m.count, j ≠ m.count := fun j hj => Nat.ne_of_lt hj
  refine ⟨rfl, ?_, fun j hj => ?_, fun j hj => ?_, fun j hj => ?_⟩
  · change m.count + 1 = _
    rw [h.count, List.length_append, List.length_singleton]
  · rw [List.length_append, List.length_singleton, ← h.count] at hj
    rcases Nat.lt_succ_iff_lt_or_eq.mp hj with hlt | rfl
    · -- an entry from before: the new key lies behind its room
      rw [List.getElem_append_left (h.count ▸ hlt), ← h.entries j (h.count ▸ hlt)]
      have hbehind : (m.entries j).keyPtr + (m.entries j).keyLen.toNat ≤ keyDataOf m.count := by
        have hlen := h.keyLen j hlt
        have hnext := Nat.mul_le_mul_right keyBufMax (Nat.succ_le_of_lt hlt)
        rw [Nat.succ_mul] at hnext
        rw [h.keyPtr j hlt, keyDataOf, keyDataOf]
        omega
      have hread : (m.keyData.write (keyDataOf m.count) (keyBuf.read 0 kw)).read
          (m.entries j).keyPtr (m.entries j).keyLen.toNat =
            m.keyData.read (m.entries j).keyPtr (m.entries j).keyLen.toNat :=
        ByteMemory.read_write_of_le hbehind
      simp only [entry, Function.update_of_ne (hold j hlt), hread]
    · -- the new entry
      have hread := ByteMemory.read_write_self m.keyData (keyDataOf m.count) (keyBuf.read 0 kw)
      rw [ByteMemory.length_read] at hread
      rw [List.getElem_append_right (by rw [h.count])]
      simp only [h.count, Nat.sub_self, List.getElem_cons_zero]
      simp only [entry, ← h.count, Function.update_self, hlen, hread, ScratchEntry.mk.injEq, true_and]
      exact Key.ext hkey.symm
  · rcases Nat.lt_succ_iff_lt_or_eq.mp hj with hlt | rfl
    · simp only [Function.update_of_ne (hold j hlt)]
      exact h.keyPtr j hlt
    · simp only [Function.update_self]
  · rcases Nat.lt_succ_iff_lt_or_eq.mp hj with hlt | rfl
    · simp only [Function.update_of_ne (hold j hlt)]
      exact h.keyLen j hlt
    · simp only [Function.update_self, hlen]
      exact hkw

/-- Counting walks the entries. -/
theorem counterUpdateMem_eq (h : m.Represents s) (row : ℕ → Option ℕ) (tick : UInt64) (heap : Heap) :
    counterUpdateMem m row tick heap = counterUpdate s row tick heap := by
  rw [counterUpdate, ← h.map_entry, List.foldl_map]
  rfl

end ScratchMemory.Represents

/-- A pass over the memory does the same as one over the list. -/
structure MemoryPass.Refines (p : MemoryPass) (q : FlowMatchPass) : Prop where
  matched : p.matched = q.matched
  scratch : p.scratch.Represents q.scratch
  keyBuf : p.keyBuf = q.keyBuf

/-- Matching one rule in memory refines the matching of the model. -/
theorem MemoryPass.Refines.flowMatchRule {p : MemoryPass} {q : FlowMatchPass} (h : p.Refines q)
    (rule : FlowRule) (fields : FlowFields) (pktBytes : UInt64) (i : ℕ) :
    (flowMatchRuleMem rule fields pktBytes i p).Refines
      (InFMon.flowMatchRule rule fields pktBytes i q) := by
  have hbuf := h.keyBuf
  unfold flowMatchRuleMem InFMon.flowMatchRule
  by_cases hwidth : matchWidth rule = 0 ∨ matchWidth rule > keyBufMax
  · simp only [if_pos hwidth, dif_pos hwidth]
    exact ⟨h.matched, h.scratch, by rw [hbuf]⟩
  · simp only [if_neg hwidth, dif_neg hwidth, hbuf]
    push Not at hwidth
    have hlength : ((encodeKey rule fields q.keyBuf).read 0 (matchWidth rule)).length < 2 ^ 16 := by
      rw [ByteMemory.length_read]
      exact hwidth.2.trans_lt (by decide)
    obtain ⟨hok, hscratch⟩ := h.scratch.append i
      (fnv1a64 ((encodeKey rule fields q.keyBuf).read 0 (matchWidth rule))) pktBytes hwidth.2
      (show (Key.mk _ hlength).bytes = (encodeKey rule fields q.keyBuf).read 0 (matchWidth rule) from rfl)
    exact ⟨by rw [hok, h.matched], hscratch, rfl⟩

/-- So does matching all rules. -/
theorem MemoryPass.Refines.flowMatch {p : MemoryPass} {q : FlowMatchPass} (h : p.Refines q)
    (rules : ℕ → FlowRule) (fields : FlowFields) (pktBytes : UInt64) (indices : List ℕ) :
    (indices.foldl (fun p i => flowMatchRuleMem (rules i) fields pktBytes i p) p).Refines
      (indices.foldl (fun q i => InFMon.flowMatchRule (rules i) fields pktBytes i q) q) := by
  induction indices generalizing p q with
  | nil => exact h
  | cons i indices ih => exact ih (h.flowMatchRule (rules i) fields pktBytes i)

/-- One buffer. -/
theorem matchBufferMem_refines {m : ScratchMemory} {s : Scratch} (h : m.Represents s)
    (rules : ℕ → FlowRule) (ruleCount : ℕ) (b : Buffer) (keyBuf : ByteMemory) :
    (matchBufferMem rules ruleCount b m keyBuf).Refines (matchBuffer rules ruleCount b s keyBuf) := by
  have hstart : MemoryPass.Refines ⟨0, m, keyBuf⟩ ⟨0, s, keyBuf⟩ := ⟨rfl, h, rfl⟩
  unfold matchBufferMem matchBuffer
  cases flowFields b with
  | error _ => exact hstart
  | ok fields =>
    dsimp only
    split
    · exact hstart.flowMatch rules fields _ _
    · exact hstart

end InFMon
