import InFMon.Plugin.Outcome
import Mathlib.Data.Finset.Image

/-! # What the plugin is to count

The purpose of the plugin without its tables: for every rule that was added, the packets that each
worker has matched since the last snapshot of the rule, with their keys and their bytes. A snapshot takes
what there is; nothing else makes a packet go away before its rule is deleted. -/

namespace InFMon

/-! ### Hits -/

/-- What one packet adds to a rule: a key and a number of bytes. -/
abbrev Hit := List UInt8 × UInt64

/-- What a mirrored packet adds to the rule, if it has flow fields. -/
def FlowRule.hit (rule : FlowRule) (inner : Buffer) : Option Hit :=
  match flowFields inner with
  | .error _ => none
  | .ok fields => some (keyBytes fields rule.fields, inner.currentLength.toUInt64)

/-- The packets with a key. -/
def packetsOf (key : List UInt8) (hits : List Hit) : ℕ := (hits.filter fun hit => hit.1 = key).length

/-- The bytes of the packets with a key. -/
def bytesOf (key : List UInt8) (hits : List Hit) : ℕ :=
  ((hits.filter fun hit => hit.1 = key).map fun hit => hit.2.toNat).sum

/-- The keys of the packets. -/
def hitKeys (hits : List Hit) : Finset (List UInt8) := (hits.map Prod.fst).toFinset

/-- The mirrored packets of a frame. -/
def mirrored (buffers : List Buffer) : List Buffer :=
  buffers.filterMap fun b => (decapBuffer b).toOption

/-! ### The meter -/

/-- A rule with its id and what each worker has matched for it since its last snapshot. -/
structure MeteredRule where
  rule : FlowRule
  id : FlowRuleId
  hits : ℕ → List Hit

namespace MeteredRule

/-- A worker gets mirrored packets. -/
def count (w : ℕ) (inner : List Buffer) (m : MeteredRule) : MeteredRule :=
  { m with hits := Function.update m.hits w (m.hits w ++ inner.filterMap m.rule.hit) }

/-- The rule behind a snapshot. -/
def clear (m : MeteredRule) : MeteredRule := { m with hits := fun _ => [] }

/-- What the first `n` workers have matched. -/
def total (m : MeteredRule) (n : ℕ) : List Hit := (List.range n).flatMap m.hits

/-- No worker has seen more keys than its table has slots, and no counter has come to its end. -/
structure Fits (m : MeteredRule) (n : ℕ) : Prop where
  keys : ∀ w < n, (hitKeys (m.hits w)).card ≤ nextPow2 m.rule.maxKeys
  packets : (m.total n).length < 2 ^ 64
  bytes : ((m.total n).map fun hit => hit.2.toNat).sum < 2 ^ 64

instance (m : MeteredRule) (n : ℕ) : Decidable (m.Fits n) :=
  decidable_of_iff ((∀ w < n, (hitKeys (m.hits w)).card ≤ nextPow2 m.rule.maxKeys) ∧
      (m.total n).length < 2 ^ 64 ∧ ((m.total n).map fun hit => hit.2.toNat).sum < 2 ^ 64)
    ⟨fun h => ⟨h.1, h.2.1, h.2.2⟩, fun h => ⟨h.keys, h.packets, h.bytes⟩⟩

end MeteredRule

/-- The rules in the order in which they were added. -/
abbrev Meter := List MeteredRule

namespace Meter

/-- The place of the first rule with an id. -/
def place (id : FlowRuleId) (m : Meter) : ℕ := m.findIdx fun r => r.id = id

/-- A worker takes a frame. -/
def frame (w : ℕ) (buffers : List Buffer) (m : Meter) : Meter :=
  m.map (MeteredRule.count w (mirrored buffers))

/-- A request that the plugin has granted. -/
def grant (newId : FlowRuleId) : Plugin.Request → Meter → Meter
  | .flowRuleAdd _ mp, m => m ++ [⟨(Plugin.messageRule mp).register, newId, fun _ => []⟩]
  | .flowRuleDel _ id, m => m.eraseIdx (m.place id)
  | .snapshotAndClear _ id, m | .snapshotInlineDump _ id, m =>
    m.modify (m.place id) MeteredRule.clear

/-- One event. A request changes the meter if the plugin grants it. -/
def step (p : Plugin) (m : Meter) : PluginEvent → Meter
  | .request request =>
    let q := p.apiCtxEnsure request.env.memory
    if (q.outcome request).1 = .ok then m.grant (Plugin.newRuleId request.env q.idSeq) request
    else m
  | .frame w buffers => m.frame w buffers

/-- The meter is within what `n` workers can count. -/
def Fits (n : ℕ) (m : Meter) : Prop := ∀ r ∈ m, r.Fits n

end Meter

/-- A frame has at most as many buffers as VPP puts into one. -/
def PluginEvent.FitsFrame : PluginEvent → Prop
  | .request _ => True
  | .frame _ buffers => buffers.length ≤ frameSize

instance (e : PluginEvent) : Decidable e.FitsFrame :=
  match e with
  | .request _ => .isTrue trivial
  | .frame _ buffers => inferInstanceAs (Decidable (buffers.length ≤ frameSize))

/-- The plugin beside its meter. -/
structure MeteredSystem where
  system : PluginSystem
  meter : Meter

namespace MeteredSystem

/-- The system as the plugin is loaded. -/
def start (vlibNumWorkers : ℕ) : MeteredSystem := ⟨.start vlibNumWorkers, []⟩

/-- One event. -/
def step (s : MeteredSystem) (e : PluginEvent) : MeteredSystem :=
  ⟨s.system.step e, s.meter.step s.system.plugin e⟩

/-- A frame is no larger than VPP makes it, and what is metered behind the event fits. -/
def InBounds (s : MeteredSystem) (e : PluginEvent) : Prop :=
  e.FitsFrame ∧ (s.step e).meter.Fits (s.system.plugin.vlibNumWorkers + 1)

instance (s : MeteredSystem) (e : PluginEvent) : Decidable (s.InBounds e) :=
  inferInstanceAs (Decidable (_ ∧ ∀ r ∈ (s.step e).meter, _))

/-- The meter only looks on. -/
theorem run_system (s : MeteredSystem) (events : List PluginEvent) :
    (Runs.run step s events).system = Runs.run PluginSystem.step s.system events := by
  induction events generalizing s with
  | nil => rfl
  | cons e events ih => exact ih (s.step e)

end MeteredSystem

/-! ### Hits along lists -/

variable {key : List UInt8}

/-- The packets of both parts. -/
theorem packetsOf_append (a b : List Hit) :
    packetsOf key (a ++ b) = packetsOf key a + packetsOf key b := by
  rw [packetsOf, List.filter_append, List.length_append]
  rfl

/-- The bytes of both parts. -/
theorem bytesOf_append (a b : List Hit) :
    bytesOf key (a ++ b) = bytesOf key a + bytesOf key b := by
  rw [bytesOf, List.filter_append, List.map_append, List.sum_append]
  rfl

/-- A key has no more packets than there are hits. -/
theorem packetsOf_le (key : List UInt8) (hits : List Hit) : packetsOf key hits ≤ hits.length :=
  List.length_filter_le ..

/-- A key has no more bytes than there are. -/
theorem bytesOf_le (key : List UInt8) (hits : List Hit) :
    bytesOf key hits ≤ (hits.map fun hit => hit.2.toNat).sum := by
  induction hits with
  | nil => exact Nat.le_refl _
  | cons hit hits ih =>
    rw [bytesOf] at ih ⊢
    rw [List.filter_cons, List.map_cons, List.sum_cons]
    split
    · rw [List.map_cons, List.sum_cons]
      exact Nat.add_le_add_left ih _
    · exact ih.trans (Nat.le_add_left ..)

end InFMon
