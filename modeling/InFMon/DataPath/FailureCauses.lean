import InFMon.CounterTable.FailedUpdates
import InFMon.DataPath.FlowMatch

/-! # The causes of failed updates

The two error counters of the last graph node. Which of them a failed update raises is inferred from the
number of occupied slots that the update left behind. -/

namespace InFMon

/-! ### The counters -/

/-- The tables and the two counters that `infmon_counter_update` works on. -/
structure CounterPass where
  heap : Heap
  insertRetryExhausted : UInt64
  tableFullCount : UInt64

/-- One entry of a call of `infmon_counter_update`. -/
structure EntryUpdate where
  row : ℕ → Option ℕ
  tick : UInt64
  entry : ScratchEntry

namespace CounterPass

/-- Count an update by its result and the table behind it: full table or exhausted compare-and-swap. -/
def diagnose (p : CounterPass) (out : Bool × CounterTable) : CounterPass :=
  if out.1 then p
  else if out.2.occupiedCount ≥ out.2.numSlots then
    { p with tableFullCount := p.tableFullCount + 1 }
  else { p with insertRetryExhausted := p.insertRetryExhausted + 1 }

/-- One iteration of the loop in `infmon_counter_update`. -/
def step (p : CounterPass) (u : EntryUpdate) : CounterPass :=
  if u.entry.flowRuleIndex ≥ maxActiveFlowRules then p
  else
    match u.row u.entry.flowRuleIndex with
    | none => p
    | some table =>
      if u.entry.keyData.len = 0 then p
      else
        let out := (p.heap.table table).update u.entry.keyHash u.entry.keyData u.entry.pktBytes u.tick
        diagnose { p with heap := p.heap.modify table fun _ => out.2 } out

/-- A success has no cause of failure. -/
theorem diagnose_ok {p : CounterPass} {out : Bool × CounterTable} (h : out.1 = true) :
    p.diagnose out = p :=
  if_pos h

/-- A failure on a full table is put down to this. -/
theorem diagnose_full {p : CounterPass} {out : Bool × CounterTable} (h : out.1 = false)
    (hfull : out.2.numSlots ≤ out.2.occupiedCount) :
    p.diagnose out = { p with tableFullCount := p.tableFullCount + 1 } := by
  rw [diagnose, h, if_neg Bool.false_ne_true]
  exact if_pos hfull

/-- Any other failure is put down to the retries. -/
theorem diagnose_retry {p : CounterPass} {out : Bool × CounterTable} (h : out.1 = false)
    (hfull : ¬out.2.numSlots ≤ out.2.occupiedCount) :
    p.diagnose out = { p with insertRetryExhausted := p.insertRetryExhausted + 1 } := by
  rw [diagnose, h, if_neg Bool.false_ne_true]
  exact if_neg hfull

/-- The diagnosis changes no table. -/
theorem heap_diagnose (p : CounterPass) (out : Bool × CounterTable) : (p.diagnose out).heap = p.heap := by
  unfold diagnose
  split
  · rfl
  split <;> rfl

/-- The tables are counted as if the two counters were not asked for. -/
theorem heap_step (p : CounterPass) (u : EntryUpdate) :
    (p.step u).heap = counterUpdateEntry u.row u.tick p.heap u.entry := by
  unfold step counterUpdateEntry
  split
  · rfl
  cases u.row u.entry.flowRuleIndex with
  | none => rfl
  | some table =>
    dsimp only
    split
    · rfl
    · rw [heap_diagnose]
      rfl

end CounterPass

/-- A call of `infmon_counter_update`. -/
structure CounterCall where
  scratch : Scratch
  row : ℕ → Option ℕ
  tick : UInt64

/-- The entries of a call, in order. -/
def CounterCall.updates (call : CounterCall) : List EntryUpdate :=
  call.scratch.entries.map (EntryUpdate.mk call.row call.tick)

/-- `infmon_counter_update`, with its two counters. -/
def CounterPass.call (p : CounterPass) (call : CounterCall) : CounterPass :=
  call.scratch.entries.foldl (fun p e => p.step ⟨call.row, call.tick, e⟩) p

/-- A sequence of calls takes their entries one after another. -/
theorem run_call (p : CounterPass) (calls : List CounterCall) :
    Runs.run CounterPass.call p calls =
      Runs.run CounterPass.step p (calls.flatMap CounterCall.updates) := by
  induction calls generalizing p with
  | nil => rfl
  | cons call calls ih =>
    have hcall : p.call call = Runs.run CounterPass.step p call.updates := by
      rw [CounterCall.updates, Runs.run, List.foldl_map]
      rfl
    rw [List.flatMap_cons, Runs.run_append, ← hcall, ← ih]
    rfl

/-! ### Attribution -/

/-- The call of `infmon_counter_table_update` that an entry leads to, with its table. -/
def EntryUpdate.tableCall (u : EntryUpdate) : Option (ℕ × UpdateCall) :=
  if u.entry.flowRuleIndex ≥ maxActiveFlowRules then none
  else if u.entry.keyData.len = 0 then none
  else (u.row u.entry.flowRuleIndex).map fun table =>
    (table, ⟨u.entry.keyHash, u.entry.keyData, u.entry.pktBytes, u.tick⟩)

namespace CounterPass

variable {p : CounterPass} {u : EntryUpdate}

/-- The entry's update of its table fails. -/
def Fails (p : CounterPass) (u : EntryUpdate) : Prop :=
  ∃ id c, u.tableCall = some (id, c) ∧ ((p.heap.table id).call c).1 = false

/-- A failed update adds one to `table_full_count`, and nothing else adds to either counter. -/
structure Attributed (p : CounterPass) (u : EntryUpdate) : Prop where
  failed : p.Fails u → (p.step u).tableFullCount = p.tableFullCount + 1
  other : ¬p.Fails u → (p.step u).tableFullCount = p.tableFullCount
  retry : (p.step u).insertRetryExhausted = p.insertRetryExhausted

/-- The entry's update can have a slot for its key, but the arena of the table has no room. -/
def Starved (p : CounterPass) (u : EntryUpdate) : Prop :=
  ∃ id c, u.tableCall = some (id, c) ∧ (p.heap.table id).Starved c

/-- An entry without a call changes nothing. -/
theorem step_of_none (h : u.tableCall = none) : p.step u = p := by
  unfold EntryUpdate.tableCall at h
  unfold step
  split
  · rfl
  rename_i hindex
  rw [if_neg hindex] at h
  cases hrow : u.row u.entry.flowRuleIndex with
  | none => rfl
  | some table =>
    rw [hrow] at h
    by_cases hlen : u.entry.keyData.len = 0
    · exact if_pos hlen
    · rw [if_neg hlen] at h
      cases h

/-- An entry with a call makes it and counts it by its result. -/
theorem step_of_some {id : ℕ} {c : UpdateCall} (h : u.tableCall = some (id, c)) :
    p.step u = diagnose { p with heap := p.heap.modify id fun _ => ((p.heap.table id).call c).2 }
      ((p.heap.table id).call c) := by
  unfold EntryUpdate.tableCall at h
  split at h
  · cases h
  rename_i hindex
  split at h
  · cases h
  rename_i hlen
  obtain ⟨table, hrow, heq⟩ := Option.map_eq_some_iff.mp h
  obtain ⟨rfl, rfl⟩ := Prod.mk.inj heq
  rw [step, if_neg hindex, hrow]
  exact if_neg hlen

/-! ### The runs in which failures are attributed -/

/-- On a tidy table an entry is attributed to the right cause unless its update is starved. -/
theorem attributed_iff (htidy : ∀ id c, u.tableCall = some (id, c) → (p.heap.table id).Tidy) :
    p.Attributed u ↔ ¬p.Starved u := by
  cases hcall : u.tableCall with
  | none =>
    have hno : ∀ P : ℕ → UpdateCall → Prop, ¬∃ id c, u.tableCall = some (id, c) ∧ P id c := by
      rintro P ⟨id, c, h, -⟩
      cases hcall.symm.trans h
    rw [Starved]
    refine iff_of_true ⟨fun h => absurd h (hno _), fun _ => ?_, ?_⟩ (hno _)
    · rw [step_of_none hcall]
    · rw [step_of_none hcall]
  | some call =>
    obtain ⟨id, c⟩ := call
    have hfails : p.Fails u ↔ ((p.heap.table id).call c).1 = false := by
      simp [Fails, hcall]
    have hstarved : p.Starved u ↔ (p.heap.table id).Starved c := by
      simp [Starved, hcall]
    obtain ⟨-, hfailed, hcause⟩ := (htidy id c hcall).call_cause c
    -- a counter that is raised has changed, so the counters tell the causes apart
    have hone : ∀ n : UInt64, n ≠ n + 1 := by
      intro n
      simp
    have hstep := step_of_some (p := p) hcall
    cases hok : ((p.heap.table id).call c).1 with
    | true =>
      rw [diagnose_ok hok] at hstep
      have hnot : ¬p.Fails u := by simp [hfails, hok]
      refine iff_of_true ⟨fun h => absurd h hnot, fun _ => by rw [hstep], by rw [hstep]⟩ ?_
      rw [hstarved]
      exact fun h => by cases hok.symm.trans (hfailed h)
    | false =>
      have hfail : p.Fails u := hfails.mpr hok
      rw [hstarved, ← hcause hok]
      constructor
      · intro h
        by_contra hfull
        have hretry := h.retry
        rw [hstep, diagnose_retry hok hfull] at hretry
        exact hone _ hretry.symm
      · intro hfull
        rw [diagnose_full hok hfull] at hstep
        exact ⟨fun _ => by rw [hstep], fun h => absurd hfail h, by rw [hstep]⟩

/-- The tables of an entry stay tidy. -/
theorem step_tidy {ids : Set ℕ} (htidy : ∀ id ∈ ids, (p.heap.table id).Tidy) :
    ∀ id ∈ ids, ((p.step u).heap.table id).Tidy := by
  intro id hid
  cases hcall : u.tableCall with
  | none =>
    rw [step_of_none hcall]
    exact htidy id hid
  | some call =>
    obtain ⟨id', c⟩ := call
    rw [step_of_some hcall, heap_diagnose]
    by_cases heq : id = id'
    · subst heq
      simp only [Heap.modify, Function.update_self]
      exact ((htidy id hid).call_cause c).1
    · simp only [Heap.modify, Function.update_of_ne heq]
      exact htidy id hid

/-- **Which failures are attributed to the right cause.** Along every sequence of calls by one writer, on
tables in any state that updates lead to, each failed update adds exactly one to `table_full_count` and
nothing else adds to either counter, if and only if no update is starved. -/
theorem attributed_iff_not_starved {p : CounterPass} {calls : List CounterCall}
    (htables : ∀ call ∈ calls, ∀ i id, call.row i = some id →
      ∃ maxKeys width alloc table cs, counterTableCreate maxKeys width alloc = some table ∧
        p.heap.table id = table.calls cs) :
    Runs.Meets CounterPass.step Attributed p (calls.flatMap CounterCall.updates) ↔
      Runs.Meets CounterPass.step (fun p u => ¬p.Starved u) p
        (calls.flatMap CounterCall.updates) := by
  let ids : Set ℕ := {id | ∃ call ∈ calls, ∃ i, call.row i = some id}
  refine Runs.meets_congr (I := fun p => ∀ id ∈ ids, (p.heap.table id).Tidy)
    (E := fun u => ∀ id c, u.tableCall = some (id, c) → id ∈ ids) ?_ ?_ ?_ ?_
  · rintro id ⟨call, hcall, i, hrow⟩
    obtain ⟨maxKeys, width, alloc, table, cs, hcreate, heq⟩ := htables call hcall i id hrow
    rw [heq]
    exact (CounterTable.tidy_of_create hcreate).calls cs
  · exact fun p u htidy _ _ => step_tidy htidy
  · exact fun p u htidy hu => attributed_iff fun id c hcall => htidy id (hu id c hcall)
  · intro u hu id c htable
    obtain ⟨call, hcall, hu⟩ := List.mem_flatMap.mp hu
    obtain ⟨e, -, rfl⟩ := List.mem_map.mp hu
    unfold EntryUpdate.tableCall at htable
    split at htable
    · cases htable
    split at htable
    · cases htable
    obtain ⟨table, hrow, heq⟩ := Option.map_eq_some_iff.mp htable
    exact ⟨call, hcall, _, (Prod.mk.inj heq).1 ▸ hrow⟩

/-- A table for one key of one byte, and nothing counted yet. -/
def oneTable : CounterPass where
  heap :=
    { next := 1
      table := fun _ =>
        { slots := fun _ => Slot.zero
          numSlots := 1
          slotMask := 0
          keyArena := fun _ => 0
          keyArenaCapacity := 1
          keyArenaUsed := 0
          seqlocks := fun _ => 0
          numGroups := 1
          generation := 0
          epochNs := 0
          insertFailed := 0
          tableFull := 0
          occupiedCount := 0 }
      destroyed := [] }
  insertRetryExhausted := 0
  tableFullCount := 0

/-- Two packets with different keys. -/
def twoPackets : CounterCall where
  scratch := ⟨[⟨0, 0, 60, .one 1⟩, ⟨0, 0, 60, .one 2⟩], by decide⟩
  row := fun _ => some 0
  tick := 1

/-- The packets on the table for one key. -/
theorem attributed_iff_not_starved_two :
    Runs.Meets CounterPass.step Attributed oneTable ([twoPackets].flatMap CounterCall.updates) ↔
      Runs.Meets CounterPass.step (fun p u => ¬p.Starved u) oneTable
        ([twoPackets].flatMap CounterCall.updates) := by
  refine attributed_iff_not_starved fun call _ i id _ => ?_
  exact ⟨1, 1, ⟨true, fun _ => 0⟩, _, [], rfl, rfl⟩

/-- The second key evicts the first one and then finds no room in the arena. The failure is counted as
an exhausted compare-and-swap, though nobody else was at work. -/
theorem second_key_misattributed :
    counterTableCreate 1 1 ⟨true, fun _ => 0⟩ = some (oneTable.heap.table 0) ∧
      (oneTable.call twoPackets).insertRetryExhausted = 1 ∧
      (oneTable.call twoPackets).tableFullCount = 0 ∧
      ¬Runs.Meets CounterPass.step Attributed oneTable twoPackets.updates := by
  refine ⟨rfl, by decide +kernel, by decide +kernel, fun h => ?_⟩
  have hsecond := h [⟨twoPackets.row, 1, ⟨0, 0, 60, .one 1⟩⟩] _ [] rfl
  exact absurd hsecond.retry (by decide +kernel)

end CounterPass

end InFMon
