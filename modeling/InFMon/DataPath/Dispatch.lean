import InFMon.DataPath.Nodes
import InFMon.Foundations.Runs
import InFMon.Snapshot.Manager

/-! # Dispatching frames on one worker

The pending frames of one worker, dispatched in the order in which they were enqueued. A frame of the
flow-match node leaves its entries in the worker's scratch vector and a frame for the counter node in
the queue; the counter node counts what it finds in the scratch vector when its turn comes. -/

namespace InFMon

/-! ### The worker -/

/-- A pending frame: one of the flow-match node with its buffers, or one of the counter node. -/
inductive PendingFrame where
  | flowMatch (buffers : List Buffer)
  | counter

/-- A call of `infmon_counter_table_update`: the table, the entry and the tick. -/
structure TableUpdate where
  table : ℕ
  entry : ScratchEntry
  tick : UInt64

/-- The heap behind the call. -/
def TableUpdate.apply (heap : Heap) (u : TableUpdate) : Heap :=
  heap.modify u.table fun t =>
    (t.update u.entry.keyHash u.entry.keyData u.entry.pktBytes u.tick).2

/-- A worker: its thread index, its pending frames, its scratch vector and key buffer, and the tables it
counts in. The last two fields keep a record of the entries appended by `infmon_flow_match` and of the
updates made by `infmon_counter_update`. -/
structure Worker where
  threadIndex : ℕ
  pending : List PendingFrame
  scratch : Scratch
  keyBuf : ByteMemory
  heap : Heap
  appended : List ScratchEntry
  updates : List TableUpdate

/-- A worker before its first frame. -/
def Worker.start (threadIndex : ℕ) (heap : Heap) : Worker where
  threadIndex := threadIndex
  pending := []
  scratch := .reset
  keyBuf := fun _ => 0
  heap := heap
  appended := []
  updates := []

/-- What the flow-match node works on: the number of buffers enqueued to the counter node, the scratch
vector and the key buffer. -/
structure MatchPass where
  toCounter : ℕ
  scratch : Scratch
  keyBuf : ByteMemory

/-- One iteration of the loop in `infmon_flow_match_node_fn`. -/
def matchStep (rules : ℕ → FlowRule) (ruleCount : ℕ) (p : MatchPass) (b : Buffer) : MatchPass :=
  let out := matchBuffer rules ruleCount b p.scratch p.keyBuf
  { toCounter := if out.matched > 0 then p.toCounter + 1 else p.toCounter
    scratch := out.scratch
    keyBuf := out.keyBuf }

/-- `infmon_flow_match_node_fn`: the scratch vector is reset, then every buffer is matched. -/
def flowMatchNode (rules : ℕ → FlowRule) (ruleCount : ℕ) (buffers : List Buffer)
    (keyBuf : ByteMemory) : MatchPass :=
  buffers.foldl (matchStep rules ruleCount)
    { toCounter := 0, scratch := .reset, keyBuf := keyBuf }

/-- One iteration of the loop in `infmon_counter_update`, with a record of the update that it makes. -/
def Worker.countEntry (row : ℕ → Option ℕ) (tick : UInt64) (w : Worker) (e : ScratchEntry) : Worker :=
  if e.flowRuleIndex ≥ maxActiveFlowRules then w
  else
    match row e.flowRuleIndex with
    | none => w
    | some table =>
      if e.keyData.len = 0 then w
      else
        let u : TableUpdate := ⟨table, e, tick⟩
        { w with heap := u.apply w.heap, updates := w.updates ++ [u] }

/-- `infmon_counter_node_fn`, without its buffers. On a thread without a row of tables it leaves the scratch
vector as it is. -/
def Worker.counterNode (row : ℕ → Option ℕ) (tick : UInt64) (w : Worker) : Worker :=
  if w.threadIndex ≥ maxWorkers then w
  else { w.scratch.entries.foldl (countEntry row tick) w with scratch := .reset }

/-- What happens on a worker: a frame for the flow-match node arrives, or the first pending frame is
dispatched. The dispatched node finds these rules and tables; buffers for the counter node join a
frame that is already pending for it, if `joins` says so, else they make a new one. -/
inductive WorkerEvent where
  | arrive (buffers : List Buffer)
  | dispatch (rules : ℕ → FlowRule) (ruleCount : ℕ) (row : ℕ → Option ℕ) (tick : UInt64)
      (joins : Bool)

/-- A frame of the counter node is pending. -/
def PendingFrame.isCounter : PendingFrame → Bool
  | .flowMatch _ => false
  | .counter => true

/-- The queue after `toCounter` buffers were put to the counter node. -/
def putToCounter (joins : Bool) (toCounter : ℕ) (pending : List PendingFrame) : List PendingFrame :=
  if toCounter = 0 then pending
  -- VPP fills a pending frame before it takes a new one
  else if joins ∧ pending.any PendingFrame.isCounter then pending
  else pending ++ [.counter]

/-- One event. -/
def Worker.step (w : Worker) : WorkerEvent → Worker
  | .arrive buffers => { w with pending := w.pending ++ [.flowMatch buffers] }
  | .dispatch rules ruleCount row tick joins =>
    match w.pending with
    | [] => w
    | .flowMatch buffers :: pending =>
      -- the reset in there loses what the counter node has not walked yet
      let p := flowMatchNode rules ruleCount buffers w.keyBuf
      { w with
        pending := putToCounter joins p.toCounter pending
        scratch := p.scratch
        keyBuf := p.keyBuf
        appended := w.appended ++ p.scratch.entries }
    | .counter :: pending => { w with pending := pending }.counterNode row tick

/-! ### What the flow-match node writes -/

/-- An entry as `infmon_flow_match` writes it: of a rule in the array, with a key of 1 to 64 bytes and the
hash of it. -/
structure ScratchEntry.Written (e : ScratchEntry) : Prop where
  index : e.flowRuleIndex < maxActiveFlowRules
  pos : 0 < e.keyData.len
  len_le : e.keyData.len ≤ keyBufMax
  hash : e.keyHash = fnv1a64 e.keyData.bytes

/-- Appending an entry keeps a property that the entry has. -/
theorem Scratch.forall_append {P : ScratchEntry → Prop} {scratch : Scratch} {e : ScratchEntry}
    (h : ∀ e' ∈ scratch.entries, P e') (he : P e) : ∀ e' ∈ (scratch.append e).2.entries, P e' := by
  unfold Scratch.append
  split
  · intro e' he'
    rcases List.mem_append.mp he' with he' | he'
    · exact h e' he'
    · rw [List.mem_singleton.mp he']
      exact he
  · exact h

/-- Matching a packet against a rule of the array writes such an entry or none. -/
theorem written_flowMatchRule (rule : FlowRule) (fields : FlowFields) (pktBytes : UInt64) {i : ℕ}
    (hi : i < maxActiveFlowRules) {p : FlowMatchPass} (h : ∀ e ∈ p.scratch.entries, e.Written) :
    ∀ e ∈ (flowMatchRule rule fields pktBytes i p).scratch.entries, e.Written := by
  rw [flowMatchRule]
  dsimp only
  split
  · exact h
  · rename_i hwidth
    rw [not_or] at hwidth
    have hlen : (ByteMemory.read (encodeKey rule fields p.keyBuf) 0 (matchWidth rule)).length =
        matchWidth rule := ByteMemory.length_read ..
    refine Scratch.forall_append h
      { index := hi, pos := ?_, len_le := ?_, hash := rfl }
    · show 0 < (ByteMemory.read _ 0 (matchWidth rule)).length
      rw [hlen]
      exact Nat.pos_of_ne_zero hwidth.1
    · show (ByteMemory.read _ 0 (matchWidth rule)).length ≤ keyBufMax
      rw [hlen]
      exact Nat.le_of_not_gt hwidth.2

/-- Matching a packet against all rules writes such entries only. -/
theorem written_matchBuffer (rules : ℕ → FlowRule) (ruleCount : ℕ) (b : Buffer) {scratch : Scratch}
    (keyBuf : ByteMemory) (h : ∀ e ∈ scratch.entries, e.Written) :
    ∀ e ∈ (matchBuffer rules ruleCount b scratch keyBuf).scratch.entries, e.Written := by
  unfold matchBuffer
  split
  · exact h
  · rename_i fields _
    split
    · unfold flowMatch
      have hplaces : ∀ i ∈ List.range (min ruleCount maxActiveFlowRules), i < maxActiveFlowRules :=
        fun i hi => (List.mem_range.mp hi).trans_le (Nat.min_le_right _ _)
      generalize List.range (min ruleCount maxActiveFlowRules) = places at hplaces
      generalize hp : FlowMatchPass.mk 0 scratch keyBuf = p
      have hstart : ∀ e ∈ p.scratch.entries, e.Written := hp ▸ h
      clear hp
      induction places generalizing p with
      | nil => exact hstart
      | cons i places ih =>
        exact ih (fun j hj => hplaces j (List.mem_cons_of_mem _ hj)) _
          (written_flowMatchRule (rules i) fields _ (hplaces i List.mem_cons_self) hstart)
    · exact h

/-- A frame leaves such entries only. -/
theorem written_flowMatchNode (rules : ℕ → FlowRule) (ruleCount : ℕ) (buffers : List Buffer)
    (keyBuf : ByteMemory) :
    ∀ e ∈ (flowMatchNode rules ruleCount buffers keyBuf).scratch.entries, e.Written := by
  unfold flowMatchNode
  generalize hp : MatchPass.mk 0 .reset keyBuf = p
  have hstart : ∀ e ∈ p.scratch.entries, e.Written := by
    rw [← hp]
    exact fun e he => absurd he List.not_mem_nil
  clear hp
  induction buffers generalizing p with
  | nil => exact hstart
  | cons b buffers ih => exact ih _ (written_matchBuffer rules ruleCount b p.keyBuf hstart)

/-! ### The hand-off -/

/-- The entries that were counted in a table, in the order in which they were. -/
def Worker.applied (w : Worker) : List ScratchEntry := w.updates.map TableUpdate.entry

/-- A frame of the flow-match node is dispatched only on an empty scratch vector, and a frame of the
counter node finds a table for every entry. -/
def HandsOver (w : Worker) : WorkerEvent → Prop
  | .arrive _ => True
  | .dispatch _ _ row _ _ =>
    match w.pending with
    | [] => True
    | .flowMatch _ :: _ => w.scratch.entries = []
    | .counter :: _ => w.scratch.entries ≠ [] →
      w.threadIndex < maxWorkers ∧ ∀ e ∈ w.scratch.entries, (row e.flowRuleIndex).isSome

instance (w : Worker) (e : WorkerEvent) : Decidable (HandsOver w e) :=
  match e with
  | .arrive _ => .isTrue trivial
  | .dispatch _ _ row _ _ =>
    match h : w.pending with
    | [] => .isTrue (by simp only [HandsOver, h])
    | .flowMatch _ :: _ => decidable_of_iff (w.scratch.entries = []) (by simp only [HandsOver, h])
    | .counter :: _ =>
      decidable_of_iff (w.scratch.entries ≠ [] →
        w.threadIndex < maxWorkers ∧ ∀ e ∈ w.scratch.entries, (row e.flowRuleIndex).isSome)
        (by simp only [HandsOver, h])

/-- What the tables say is what the record of the updates says. -/
def Worker.Replays (heap : Heap) (w : Worker) : Prop :=
  w.heap = w.updates.foldl TableUpdate.apply heap

/-- The entries of a frame, once the counter node has them, are a list without loss and repetition:
everything appended was applied or is still in the scratch vector, whose entries have a pending
frame. -/
structure Worker.Handing (w : Worker) : Prop where
  appended : w.appended = w.applied ++ w.scratch.entries
  pending : w.scratch.entries ≠ [] → .counter ∈ w.pending

/-- How many entries can still be applied without another frame of the flow-match node. -/
def Worker.waiting (w : Worker) : ℕ :=
  if w.threadIndex < maxWorkers then w.scratch.entries.length else 0

/-- Some entries are gone: fewer were applied, or can still be, than were appended. -/
def Worker.Lost (w : Worker) : Prop := w.applied.length + w.waiting < w.appended.length

/-- No entry is applied twice, and the scratch vector has only entries that can be counted. -/
structure Worker.Counted (w : Worker) : Prop where
  le : w.applied.length + w.scratch.entries.length ≤ w.appended.length
  written : ∀ e ∈ w.scratch.entries, e.Written

/-! ### Matching leaves a frame for the counter node -/

/-- A scratch without room stays as it is. -/
theorem append_eq_self (scratch : Scratch) (e : ScratchEntry)
    (h : (scratch.append e).1 = false) : (scratch.append e).2 = scratch := by
  unfold Scratch.append at h ⊢
  split
  · rename_i hlt
    rw [dif_pos hlt] at h
    cases h
  · rfl

/-- Without a match the scratch vector stays as it is. -/
theorem flowMatchRule_matched (rule : FlowRule) (fields : FlowFields) (pktBytes : UInt64) (i : ℕ)
    (p : FlowMatchPass) : p.matched ≤ (flowMatchRule rule fields pktBytes i p).matched ∧
      ((flowMatchRule rule fields pktBytes i p).matched = p.matched →
        (flowMatchRule rule fields pktBytes i p).scratch = p.scratch) := by
  unfold flowMatchRule
  by_cases hwidth : matchWidth rule = 0 ∨ matchWidth rule > keyBufMax
  · simp only [dif_pos hwidth]
    exact ⟨Nat.le_refl _, fun _ => trivial⟩
  · simp only [dif_neg hwidth]
    split
    · exact ⟨Nat.le_succ _, fun h => absurd h (Nat.succ_ne_self _)⟩
    · rename_i hfalse
      exact ⟨Nat.le_refl _, fun _ => append_eq_self _ _ (by simpa using hfalse)⟩

/-- The matches of a packet are counted, and its entries come behind the others. -/
theorem flowMatch_matched (rules : ℕ → FlowRule) (fields : FlowFields) (pktBytes : UInt64)
    (indices : List ℕ) (p : FlowMatchPass) :
    p.matched ≤ (indices.foldl (fun p i => flowMatchRule (rules i) fields pktBytes i p) p).matched ∧
      ((indices.foldl (fun p i => flowMatchRule (rules i) fields pktBytes i p) p).matched = p.matched →
        (indices.foldl (fun p i => flowMatchRule (rules i) fields pktBytes i p) p).scratch =
          p.scratch) := by
  induction indices generalizing p with
  | nil => exact ⟨Nat.le_refl _, fun _ => rfl⟩
  | cons i indices ih =>
    rw [List.foldl_cons]
    obtain ⟨hle, hsame⟩ := flowMatchRule_matched (rules i) fields pktBytes i p
    obtain ⟨hle', hsame'⟩ := ih (flowMatchRule (rules i) fields pktBytes i p)
    refine ⟨Nat.le_trans hle hle', fun heq => ?_⟩
    rw [hsame' (by omega), hsame (by omega)]

/-- A buffer without a match leaves no entry. -/
theorem matchBuffer_matched (rules : ℕ → FlowRule) (ruleCount : ℕ) (b : Buffer) (scratch : Scratch)
    (keyBuf : ByteMemory) (h : (matchBuffer rules ruleCount b scratch keyBuf).matched = 0) :
    (matchBuffer rules ruleCount b scratch keyBuf).scratch = scratch := by
  unfold matchBuffer at h ⊢
  cases hfields : flowFields b with
  | error _ => rfl
  | ok fields =>
    rw [hfields] at h
    dsimp only at h ⊢
    split
    · rename_i hcount
      rw [if_pos hcount] at h
      exact (flowMatch_matched rules fields _ _ _).2 h
    · rfl

/-- A frame that leaves an entry has a buffer for the counter node. -/
theorem flowMatchNode_toCounter (rules : ℕ → FlowRule) (ruleCount : ℕ) (buffers : List Buffer)
    (keyBuf : ByteMemory) (h : (flowMatchNode rules ruleCount buffers keyBuf).toCounter = 0) :
    (flowMatchNode rules ruleCount buffers keyBuf).scratch.entries = [] := by
  have hfold : ∀ p : MatchPass, p.toCounter ≤ (buffers.foldl (matchStep rules ruleCount) p).toCounter ∧
      ((buffers.foldl (matchStep rules ruleCount) p).toCounter = p.toCounter →
        (buffers.foldl (matchStep rules ruleCount) p).scratch = p.scratch) := by
    clear h
    induction buffers with
    | nil => exact fun p => ⟨Nat.le_refl _, fun _ => rfl⟩
    | cons b buffers ih =>
      intro p
      rw [List.foldl_cons]
      obtain ⟨hle, hsame⟩ := ih (matchStep rules ruleCount p b)
      have hstep : p.toCounter ≤ (matchStep rules ruleCount p b).toCounter ∧
          ((matchStep rules ruleCount p b).toCounter = p.toCounter →
            (matchStep rules ruleCount p b).scratch = p.scratch) := by
        unfold matchStep
        dsimp only
        split
        · exact ⟨Nat.le_succ _, fun h => absurd h (Nat.succ_ne_self _)⟩
        · rename_i hzero
          exact ⟨Nat.le_refl _, fun _ => matchBuffer_matched _ _ _ _ _ (by omega)⟩
      refine ⟨Nat.le_trans hstep.1 hle, fun heq => ?_⟩
      rw [hsame (by omega), hstep.2 (by omega)]
  unfold flowMatchNode at h ⊢
  rw [(hfold _).2 h]
  rfl

/-- The counter node has a pending frame after a frame that leaves an entry. -/
theorem counter_mem_putToCounter {joins : Bool} {toCounter : ℕ} {pending : List PendingFrame}
    (h : toCounter ≠ 0) : .counter ∈ putToCounter joins toCounter pending := by
  unfold putToCounter
  rw [if_neg h]
  split
  · rename_i hjoin
    obtain ⟨frame, hmem, hcounter⟩ := List.any_eq_true.mp hjoin.2
    cases frame with
    | flowMatch _ => cases hcounter
    | counter => exact hmem
  · exact List.mem_append_right _ List.mem_cons_self

/-! ### Counting -/

variable {w : Worker} {row : ℕ → Option ℕ} {tick : UInt64} {heap : Heap}

/-- An entry is counted as `infmon_counter_update` counts it without a record. -/
theorem Worker.heap_countEntry (row : ℕ → Option ℕ) (tick : UInt64) (w : Worker) (e : ScratchEntry) :
    (w.countEntry row tick e).heap = counterUpdateEntry row tick w.heap e := by
  unfold Worker.countEntry counterUpdateEntry
  split
  · rfl
  cases row e.flowRuleIndex with
  | none => rfl
  | some table =>
    dsimp only
    split
    · rfl
    · rfl

/-- The counter node leaves the tables that `infmon_counter_update` leaves. -/
theorem Worker.heap_counterNode (h : w.threadIndex < maxWorkers) (row : ℕ → Option ℕ) (tick : UInt64) :
    (w.counterNode row tick).heap = counterUpdate w.scratch row tick w.heap := by
  have hfold : ∀ (entries : List ScratchEntry) (w : Worker),
      (entries.foldl (countEntry row tick) w).heap =
        entries.foldl (counterUpdateEntry row tick) w.heap := by
    intro entries
    induction entries with
    | nil => exact fun _ => rfl
    | cons e entries ih =>
      intro w
      rw [List.foldl_cons, ih, heap_countEntry, List.foldl_cons]
  rw [counterNode, if_neg (Nat.not_le.mpr h)]
  exact hfold _ w

/-- What counting some entries does to a worker: those with a table are applied, and the tables stay what
the record says. -/
structure Worker.Counts (heap : Heap) (row : ℕ → Option ℕ) (entries : List ScratchEntry)
    (w w' : Worker) : Prop where
  appended : w'.appended = w.appended
  applied : w'.applied = w.applied ++ entries.filter fun e => (row e.flowRuleIndex).isSome
  replays : w.Replays heap → w'.Replays heap

/-- One entry. -/
theorem Worker.counts_countEntry {e : ScratchEntry} (he : e.Written) (tick : UInt64) :
    w.Counts heap row [e] (w.countEntry row tick e) := by
  rw [countEntry, if_neg (Nat.not_le.mpr he.index)]
  cases hrow : row e.flowRuleIndex with
  | none =>
    exact { appended := rfl, applied := by simp [hrow], replays := fun h => h }
  | some table =>
    dsimp only
    rw [if_neg he.pos.ne']
    refine { appended := rfl, applied := by simp [hrow, applied], replays := fun h => ?_ }
    rw [Replays, List.foldl_concat, ← show w.heap = _ from h]

/-- All entries of a scratch vector. -/
theorem Worker.counts_foldl {entries : List ScratchEntry} (hwritten : ∀ e ∈ entries, e.Written)
    (tick : UInt64) : w.Counts heap row entries (entries.foldl (countEntry row tick) w) := by
  induction entries generalizing w with
  | nil =>
    exact { appended := rfl, applied := (List.append_nil _).symm, replays := fun h => h }
  | cons e entries ih =>
    have hfirst : w.Counts heap row [e] (w.countEntry row tick e) :=
      counts_countEntry (hwritten e List.mem_cons_self) tick
    have hrest := ih (w := w.countEntry row tick e) fun e' he' =>
      hwritten e' (List.mem_cons_of_mem _ he')
    exact
      { appended := hrest.appended.trans hfirst.appended
        applied := by
          rw [List.foldl_cons, hrest.applied, hfirst.applied, List.append_assoc, ← List.filter_append,
            List.singleton_append]
        replays := fun h => hrest.replays (hfirst.replays h) }

/-! ### What one event does -/

/-- Nothing has changed but the queue. -/
structure Worker.Same (w w' : Worker) : Prop where
  threadIndex : w'.threadIndex = w.threadIndex
  scratch : w'.scratch = w.scratch
  heap : w'.heap = w.heap
  appended : w'.appended = w.appended
  updates : w'.updates = w.updates

/-- What an event does, with `hands` for whether it hands over what it finds: nothing but to the queue; or
a frame of the flow-match node leaves new entries for those in the scratch vector; or a frame of the
counter node counts them, or it leaves them on a thread without tables. -/
inductive Worker.Stepped (heap : Heap) (w w' : Worker) (hands : Prop) : Prop
  | waited (same : w.Same w') (pending : .counter ∈ w.pending → .counter ∈ w'.pending)
      (handsOver : hands)
  | matched (kept : w'.heap = w.heap) (updates : w'.updates = w.updates)
      (appended : w'.appended = w.appended ++ w'.scratch.entries)
      (written : ∀ e ∈ w'.scratch.entries, e.Written)
      (pending : w'.scratch.entries ≠ [] → .counter ∈ w'.pending)
      (handsOver : hands ↔ w.scratch.entries = [])
  | counted (row : ℕ → Option ℕ) (thread : w.threadIndex < maxWorkers)
      (counts : w.Counts heap row w.scratch.entries w') (scratch : w'.scratch.entries = [])
      (handsOver : hands ↔ ∀ e ∈ w.scratch.entries, (row e.flowRuleIndex).isSome)
  | skipped (thread : maxWorkers ≤ w.threadIndex) (same : w.Same w')
      (handsOver : hands ↔ w.scratch.entries = [])

/-- Every event does one of these. -/
theorem Worker.stepped (h : w.Counted) (heap : Heap) (e : WorkerEvent) :
    w.Stepped heap (w.step e) (HandsOver w e) := by
  unfold HandsOver step
  cases e with
  | arrive buffers =>
    exact .waited ⟨rfl, rfl, rfl, rfl, rfl⟩ (fun hin => List.mem_append_left _ hin) trivial
  | dispatch rules ruleCount row tick joins =>
    dsimp only
    split
    · exact .waited ⟨rfl, rfl, rfl, rfl, rfl⟩ (fun hin => hin) (by simp)
    · rename_i buffers pending hpending
      -- what is appended has a frame of the counter node
      refine .matched rfl rfl rfl (written_flowMatchNode _ _ _ _) (fun hne => ?_) (by simp)
      exact counter_mem_putToCounter fun hzero => hne (flowMatchNode_toCounter _ _ _ _ hzero)
    · rename_i pending hpending
      by_cases hthread : w.threadIndex < maxWorkers
      · have hcounts : Counts heap row w.scratch.entries { w with pending := pending } _ :=
          counts_foldl h.written tick
        unfold counterNode
        rw [if_neg (Nat.not_le.mpr hthread)]
        refine .counted row hthread ⟨hcounts.appended, hcounts.applied, hcounts.replays⟩ rfl
          ⟨fun hands e he => (hands (List.ne_nil_of_mem he)).2 e he, ?_⟩
        exact fun hsome _ => ⟨hthread, hsome⟩
      · unfold counterNode
        rw [if_pos (Nat.le_of_not_lt hthread)]
        refine .skipped (Nat.le_of_not_lt hthread) ⟨rfl, rfl, rfl, rfl, rfl⟩ ⟨fun hands => ?_, ?_⟩
        · by_contra hne
          exact hthread (hands hne).1
        · exact fun hempty hne => absurd hempty hne

/-! ### What one event preserves -/

section Stepped

variable {w' : Worker} {hands : Prop}

/-- The entries applied are those of the record. -/
theorem Worker.applied_eq (h : w'.updates = w.updates) : w'.applied = w.applied := by
  rw [applied, h, applied]

/-- What the record says of the tables stays so. -/
theorem Worker.Replays.stepped (h : w.Replays heap) (hstep : w.Stepped heap w' hands) :
    w'.Replays heap := by
  cases hstep with
  | waited same => rwa [Replays, same.heap, same.updates]
  | matched kept updates => rwa [Replays, kept, updates]
  | counted row _ counts => exact counts.replays h
  | skipped _ same => rwa [Replays, same.heap, same.updates]

/-- No event applies an entry twice. -/
theorem Worker.Counted.stepped (h : w.Counted) (hstep : w.Stepped heap w' hands) : w'.Counted := by
  have hle := h.le
  cases hstep with
  | waited same =>
    exact ⟨by rwa [applied_eq same.updates, same.scratch, same.appended], same.scratch ▸ h.written⟩
  | matched _ updates appended written =>
    refine ⟨?_, written⟩
    rw [applied_eq updates, appended, List.length_append]
    omega
  | counted row _ counts scratch =>
    have hfilter := List.length_filter_le (fun e => (row e.flowRuleIndex).isSome) w.scratch.entries
    refine ⟨?_, fun e he => absurd (scratch ▸ he) List.not_mem_nil⟩
    rw [counts.applied, counts.appended, scratch, List.length_append, List.length_nil]
    omega
  | skipped _ same =>
    exact ⟨by rwa [applied_eq same.updates, same.scratch, same.appended], same.scratch ▸ h.written⟩

/-- What can still be applied is in the scratch vector. -/
theorem Worker.waiting_le (w : Worker) : w.waiting ≤ w.scratch.entries.length := by
  unfold waiting
  split
  · exact Nat.le_refl _
  · exact Nat.zero_le _

/-- A step on which nothing but the queue changes. -/
theorem Worker.Lost.same (h : w.Lost) (same : w.Same w') : w'.Lost := by
  rw [Lost, waiting] at h ⊢
  rwa [applied_eq same.updates, same.threadIndex, same.scratch, same.appended]

/-- What is gone stays gone. -/
theorem Worker.Lost.stepped (h : w.Lost) (hstep : w.Stepped heap w' hands) : w'.Lost := by
  cases hstep with
  | waited same => exact h.same same
  | matched _ updates appended =>
    have hwaiting := w'.waiting_le
    rw [Lost] at h ⊢
    rw [applied_eq updates, appended, List.length_append]
    omega
  | counted row thread counts scratch =>
    have hfilter := List.length_filter_le (fun e => (row e.flowRuleIndex).isSome) w.scratch.entries
    have hwaiting := w'.waiting_le
    rw [scratch, List.length_nil] at hwaiting
    rw [Lost, waiting, if_pos thread] at h
    rw [Lost, counts.applied, counts.appended, List.length_append]
    omega
  | skipped _ same => exact h.same same

/-- A frame of the flow-match node on a scratch vector with entries loses them, and a frame of the counter
node those that it finds no table for. -/
theorem Worker.Counted.lost (h : w.Counted) (hstep : w.Stepped heap w' hands) (hnot : ¬ hands) :
    w'.Lost := by
  have hle := h.le
  cases hstep with
  | waited _ _ handsOver => exact absurd handsOver hnot
  | matched _ updates appended _ _ handsOver =>
    have hpos := List.length_pos_iff.mpr (handsOver.not.mp hnot)
    have hwaiting := w'.waiting_le
    rw [Lost, applied_eq updates, appended, List.length_append]
    omega
  | counted row _ counts scratch handsOver =>
    -- an entry without a table is passed over
    rw [handsOver] at hnot
    push Not at hnot
    obtain ⟨e, he, hnone⟩ := hnot
    have hfilter : (w.scratch.entries.filter fun e => (row e.flowRuleIndex).isSome).length <
        w.scratch.entries.length :=
      List.length_filter_lt_length_iff_exists.mpr ⟨e, he, hnone⟩
    have hwaiting := w'.waiting_le
    rw [scratch, List.length_nil] at hwaiting
    rw [Lost, counts.applied, counts.appended, List.length_append]
    omega
  | skipped thread same handsOver =>
    -- the entries stay where no frame will count them
    have hpos := List.length_pos_iff.mpr (handsOver.not.mp hnot)
    rw [Lost, waiting, if_neg (Nat.not_lt.mpr (same.threadIndex ▸ thread)), applied_eq same.updates,
      same.appended]
    omega

/-- An event that hands over what it finds. -/
theorem Worker.Handing.stepped (h : w.Handing) (hstep : w.Stepped heap w' hands) (hands' : hands) :
    w'.Handing := by
  have happended := h.appended
  cases hstep with
  | waited same pending =>
    exact ⟨by rw [same.appended, applied_eq same.updates, same.scratch, happended],
      fun hne => pending (h.pending (same.scratch ▸ hne))⟩
  | matched _ updates appended _ pending handsOver =>
    rw [handsOver.mp hands', List.append_nil] at happended
    exact ⟨by rw [appended, applied_eq updates, happended], pending⟩
  | counted row _ counts scratch handsOver =>
    refine ⟨?_, fun hne => absurd scratch hne⟩
    rw [counts.appended, counts.applied, scratch, List.append_nil,
      List.filter_eq_self.mpr (handsOver.mp hands'), happended]
  | skipped _ same handsOver =>
    refine ⟨by rw [same.appended, applied_eq same.updates, same.scratch, happended], fun hne => ?_⟩
    exact absurd (handsOver.mp hands') (same.scratch ▸ hne)

end Stepped

/-! ### Whole runs -/

/-- At the start nothing is counted. -/
theorem Worker.start_counted (threadIndex : ℕ) (heap : Heap) :
    (Worker.start threadIndex heap).Counted :=
  ⟨Nat.le_refl _, fun _ h => absurd h List.not_mem_nil⟩

/-- At the start nothing is handed over. -/
theorem Worker.start_handing (threadIndex : ℕ) (heap : Heap) :
    (Worker.start threadIndex heap).Handing :=
  ⟨rfl, fun h => absurd rfl h⟩

/-- Behind a run the tables are what the record says, and either some entries are gone, or every frame
has handed over what it found. -/
theorem Worker.lost_or_handing (threadIndex : ℕ) (heap : Heap) (events : List WorkerEvent) :
    let w := Runs.run Worker.step (.start threadIndex heap) events
    w.Counted ∧ w.Replays heap ∧
      (w.Lost ∧ ¬ Runs.Meets Worker.step HandsOver (.start threadIndex heap) events ∨
        w.Handing ∧ Runs.Meets Worker.step HandsOver (.start threadIndex heap) events) := by
  induction events using List.reverseRecOn with
  | nil => exact ⟨start_counted _ _, rfl, Or.inr ⟨start_handing _ _, Runs.meets_nil⟩⟩
  | append_singleton events e ih =>
    obtain ⟨hcounted, hreplays, hcases⟩ := ih
    dsimp only at hcounted hreplays hcases ⊢
    rw [Runs.run_concat, Runs.meets_concat]
    have hstep := stepped hcounted heap e
    refine ⟨hcounted.stepped hstep, hreplays.stepped hstep, ?_⟩
    rcases hcases with ⟨hlost, hnot⟩ | ⟨hhanding, hmeets⟩
    · exact Or.inl ⟨hlost.stepped hstep, fun h => hnot h.1⟩
    · by_cases he : HandsOver (Runs.run Worker.step (.start threadIndex heap) events) e
      · exact Or.inr ⟨hhanding.stepped hstep he, hmeets, he⟩
      · exact Or.inl ⟨hcounted.lost hstep he, fun h => he h.2⟩

/-- A rule that lists the protocol. -/
def protoRule : FlowRule := ⟨[0x61, 0x62], [2], 8, 0, 1⟩

/-- A buffer with a bare frame: Ethernet and an IPv4 header with the given protocol. -/
def frameBuffer (proto : UInt8) : Buffer where
  data := fun i =>
    ([0, 0, 0, 0, 0, 0, 0, 0, 0, 0, 0, 0, 0x08, 0x00] ++
      [0x45, 0, 0, 20, 0, 0, 0, 0, 64, proto, 0, 0, 10, 0, 0, 1, 10, 0, 0, 2]).getD i 0
  currentData := 0
  currentLength := 34
  mirrorSrcIp := ⟨.v4, [192, 0, 2, 1]⟩

/-- A table for the keys of the rule. -/
def protoHeap : Heap := (Heap.empty.create 8 1 ⟨true, fun _ => 0⟩).2

/-- Dispatch the next frame, with the one rule and its table. -/
def dispatchOne : WorkerEvent :=
  .dispatch (fun _ => protoRule) 1 (fun i => if i = 0 then some 0 else none) 1 false

/-- Two frames of the flow-match node are pending at once, then everything is dispatched. -/
def twoFrames : List WorkerEvent :=
  [.arrive [frameBuffer 6], .arrive [frameBuffer 17], dispatchOne, dispatchOne, dispatchOne,
    dispatchOne]

/-- One frame of each node at a time, twice. -/
def alternating : List WorkerEvent :=
  [.arrive [frameBuffer 6], dispatchOne, dispatchOne, .arrive [frameBuffer 17], dispatchOne,
    dispatchOne]

end InFMon
