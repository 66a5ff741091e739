import InFMon.Plugin.Frames

/-! # Interleaved requests and frames

The main thread serves one request after the other: the API operation first, then, store by store, the
publication, and for a dump one message for each occupied slot. The workers do not wait for it. A
counter frame loads the published table pointers and counts through the pointers it has loaded. -/

namespace InFMon

open CountedLoop

/-! ### Steps of the main thread -/

/-- What the main thread still has to do for a request behind the API operation: the three stores of
the reference, the store of a table pointer, or the message for a slot of a retired table. -/
inductive MainStep where
  | refRules
  | refCount
  | refPointer
  | cell (w i : ℕ)
  | sendSlot (desc : StatsDescriptor) (table slot : ℕ)

namespace Plugin

/-- The stores of `infmon_vpp_publish_rules`, in order. -/
def publishSteps (nw : ℕ) : List MainStep :=
  [.refRules, .refCount, .refPointer] ++
    (List.range nw).flatMap fun w => (List.range maxActiveFlowRules).map fun i => .cell w i

/-- The number of rules to publish. -/
def ruleCount (p : Plugin) : ℕ := if p.ready then p.api.ruleSet.count else 0

/-- One step of the main thread. -/
def store (p : Plugin) : MainStep → Plugin
  | .refRules => { p with apiRef := { p.apiRef with rules := decide (p.ruleCount > 0) } }
  | .refCount => { p with apiRef := { p.apiRef with count := p.ruleCount } }
  | .refPointer => { p with main := { p.main with flowRuleSet := some .api } }
  | .cell w i =>
    { p with main := { p.main with
        tables := publishCell p.api.ctx.tables w i p.main.tables } }
  | .sendSlot .. => p

/-- The slots that a dump walks, in order. -/
def walkSteps (heap : Heap) (reply : ApiSnapReply) : List MainStep :=
  match reply.descriptor with
  | none => []
  | some desc =>
    if reply.result ≠ .ok ∨ reply.numRetired = 0 then []
    else
      (List.range reply.numRetired).flatMap fun w =>
        match reply.retiredTables w with
        | none => []
        | some table =>
          (List.range (heap.table table).numSlots).map fun slot => .sendSlot desc table slot

/-- The API operation of a request: the state behind it, and the steps that follow. -/
def operate (p : Plugin) : Request → Plugin × List MainStep
  | .flowRuleAdd env mp =>
    let p := p.apiCtxEnsure env.memory
    let id := newRuleId env p.idSeq
    let out :=
      if p.ready then p.api.flowRuleAdd (messageRule mp) (some id) env.allocs
      else (.errInternal, p.api)
    ({ p with idSeq := p.idSeq + 1, api := out.2 },
      if out.1 = .ok then publishSteps out.2.nw else [])
  | .flowRuleDel env id =>
    let p := p.apiCtxEnsure env.memory
    match if id.isZero then none else p.nameOfId id with
    | none => (p, [])
    | some name =>
      let out := p.api.flowRuleDel name
      ({ p with api := out.2 }, if out.1 = .ok then publishSteps out.2.nw else [])
  | .snapshotAndClear env id =>
    let p := p.apiCtxEnsure env.memory
    let out := p.api.snapshotAndClear id env.allocs env.now
    ({ p with api := out.2 }, if out.1.result = .ok then publishSteps out.2.nw else [])
  | .snapshotInlineDump env id =>
    let p := p.apiCtxEnsure env.memory
    let out := p.api.snapshotAndClear id env.allocs env.now
    ({ p with api := out.2 },
      (if out.1.result = .ok then publishSteps out.2.nw else []) ++ walkSteps out.2.heap out.1)

/-! ### The steps make up the handlers -/

/-- A store of the main thread leaves the API's state. -/
@[simp] theorem store_api (p : Plugin) (step : MainStep) : (p.store step).api = p.api := by
  cases step <;> rfl

/-- A store of the main thread leaves whether the context is there. -/
@[simp] theorem store_ready (p : Plugin) (step : MainStep) : (p.store step).ready = p.ready := by
  cases step <;> rfl

/-- A store of the main thread leaves the number of workers. -/
@[simp] theorem store_vlibNumWorkers (p : Plugin) (step : MainStep) :
    (p.store step).vlibNumWorkers = p.vlibNumWorkers := by
  cases step <;> rfl

/-- The stores to the cells of one worker. -/
theorem foldl_store_row (p : Plugin) (w n : ℕ) :
    ((List.range n).map fun i => MainStep.cell w i).foldl store p =
      { p with main := { p.main with
          tables := forUpTo n (publishCell p.api.ctx.tables w) p.main.tables } } := by
  induction n with
  | zero => rfl
  | succ n ih =>
    rw [List.range_succ, List.map_append, List.foldl_append, ih]
    rfl

/-- The stores to the cells of all workers. -/
theorem foldl_store_cells (p : Plugin) (n : ℕ) :
    ((List.range n).flatMap fun w =>
      (List.range maxActiveFlowRules).map fun i => MainStep.cell w i).foldl store p =
      { p with main := { p.main with
          tables := forUpTo n
            (fun w tables => forUpTo maxActiveFlowRules (publishCell p.api.ctx.tables w) tables)
            p.main.tables } } := by
  induction n with
  | zero => rfl
  | succ n ih =>
    rw [List.range_succ, List.flatMap_append, List.foldl_append, ih, List.flatMap_singleton,
      foldl_store_row]
    rfl

/-- The stores of a publication, one after the other, are the publication. -/
theorem foldl_publishSteps (p : Plugin) :
    (publishSteps p.api.nw).foldl store p = p.publishRules := by
  rw [publishSteps, List.foldl_append]
  exact foldl_store_cells p.publishRef p.api.nw

/-- A walk only sends. -/
theorem mem_walkSteps {heap : Heap} {reply : ApiSnapReply} {step : MainStep}
    (h : step ∈ walkSteps heap reply) : ∃ desc table slot, step = .sendSlot desc table slot := by
  unfold walkSteps at h
  split at h
  · cases h
  · rename_i desc _
    split at h
    · cases h
    · obtain ⟨w, -, hw⟩ := List.mem_flatMap.mp h
      split at hw
      · cases hw
      · obtain ⟨slot, -, rfl⟩ := List.mem_map.mp hw
        exact ⟨_, _, _, rfl⟩

/-- The steps of a walk store nothing. -/
theorem foldl_walkSteps (p : Plugin) (heap : Heap) (reply : ApiSnapReply) :
    (walkSteps heap reply).foldl store p = p := by
  have hsend : ∀ steps : List MainStep, (∀ step ∈ steps, ∃ desc table slot,
      step = .sendSlot desc table slot) → steps.foldl store p = p := by
    intro steps
    induction steps with
    | nil => exact fun _ => rfl
    | cons step steps ih =>
      intro hall
      obtain ⟨desc, table, slot, rfl⟩ := hall step List.mem_cons_self
      exact ih fun step' hstep' => hall step' (List.mem_cons_of_mem _ hstep')
  exact hsend _ fun step hstep => mem_walkSteps hstep

/-- The stores of a request together are what it publishes. -/
theorem foldl_publishIf (p : Plugin) (result : ApiResult) :
    (if result = .ok then publishSteps p.api.nw else []).foldl store p = p.publishIf result := by
  unfold publishIf
  split
  · exact p.foldl_publishSteps
  · rfl

/-- The operation of a request and the steps behind it are its handler. -/
theorem foldl_operate (p : Plugin) (request : Request) :
    (p.operate request).2.foldl store (p.operate request).1 = p.serve request := by
  cases request with
  | flowRuleAdd env mp => exact foldl_publishIf _ _
  | flowRuleDel env id =>
    rw [serve, operate, flowRuleDelHandler]
    dsimp only
    by_cases hzero : id.isZero = true
    · rw [if_pos hzero, if_pos hzero]
      rfl
    · rw [if_neg hzero, if_neg hzero]
      cases (p.apiCtxEnsure env.memory).nameOfId id with
      | none => rfl
      | some name => exact foldl_publishIf _ _
  | snapshotAndClear env id => exact foldl_publishIf _ _
  | snapshotInlineDump env id =>
    rw [serve, snapshotInlineDumpHandler_snd, operate]
    dsimp only
    rw [List.foldl_append, foldl_walkSteps]
    exact foldl_publishIf _ _

end Plugin

/-! ### The system -/

/-- The plugin with the steps that the main thread has yet to make for its request, the table pointers
that the frame of each worker has loaded, and the messages sent. -/
structure Interleaved where
  plugin : Plugin
  pending : List MainStep
  held : ℕ → ℕ → Option ℕ
  sent : List InlineDetails

/-- What can happen next: the main thread takes up a request, or makes its next step; a frame of a
worker loads a pointer, counts through one it has loaded, or ends. -/
inductive InterleavedEvent where
  | request (request : Plugin.Request)
  | main
  | load (w i : ℕ)
  | update (w i : ℕ) (keyHash : UInt64) (key : Key) (pktBytes tick : UInt64)
  | endFrame (w : ℕ)

namespace Interleaved

/-- The system as the plugin is loaded. -/
def start (vlibNumWorkers : ℕ) : Interleaved where
  plugin := .start vlibNumWorkers
  pending := []
  held := fun _ _ => none
  sent := []

/-- The message of a step of the main thread. -/
def message (heap : Heap) : MainStep → Option InlineDetails
  | .sendSlot desc table slot => Plugin.slotDetails desc (heap.table table) slot
  | _ => none

/-- Count a packet through a pointer. -/
def countThrough (ptr : Option ℕ) (keyHash : UInt64) (key : Key) (pktBytes tick : UInt64)
    (p : Plugin) : Plugin :=
  match ptr with
  | none => p
  | some table =>
    { p with api := { p.api with
        heap := p.api.heap.modify table fun t => (t.update keyHash key pktBytes tick).2 } }

/-- One event. A request waits until the one before is done. -/
def step (s : Interleaved) : InterleavedEvent → Interleaved
  | .request request =>
    match s.pending with
    | [] =>
      { s with
        plugin := (s.plugin.operate request).1
        pending := (s.plugin.operate request).2 }
    | _ :: _ => s
  | .main =>
    match s.pending with
    | [] => s
    | next :: pending =>
      { s with
        plugin := s.plugin.store next
        pending := pending
        sent := s.sent ++ (message s.plugin.heap next).toList }
  | .load w i =>
    if w ≥ maxWorkers then s
    else
      { s with
        held := Function.update s.held w
          (Function.update (s.held w) i (s.plugin.main.tables w i)) }
  | .update w i keyHash key pktBytes tick =>
    { s with plugin := countThrough (s.held w i) keyHash key pktBytes tick s.plugin }
  | .endFrame w => { s with held := Function.update s.held w fun _ => none }

end Interleaved

end InFMon
