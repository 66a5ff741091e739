import InFMon.Plugin.Credits
import InFMon.Plugin.TableLifetime

/-! # A ledger of counted packets

Rules are added and dumped while frames of the workers count packets. Beside the system a ledger is
kept: the updates that each slot is credited with, those that succeeded, those whose key was evicted,
and for every message of a dump the updates whose packets it carries. -/

namespace InFMon

open CounterTable

/-! ### The ledger -/

/-- A key that a frame counts, as long as flow-match encodes keys at most. -/
def FrameKey : Type := { key : Key // key.len ≤ keyBufMax }

/-- The updates in order of their numbers, and what became of them. `slots` has the credits of each slot
of each table. -/
structure Ledger where
  next : ℕ
  slots : ℕ → ℕ → List CountedUpdate
  accepted : List CountedUpdate
  evicted : List CountedUpdate
  dumped : List (InlineDetails × List CountedUpdate)

namespace Ledger

/-- A ledger without entries. -/
def empty : Ledger where
  next := 0
  slots := fun _ _ => []
  accepted := []
  evicted := []
  dumped := []

/-- Enter an update of table `id`, which is `t` before the update. -/
def enterUpdate (l : Ledger) (id : ℕ) (t : CounterTable) (u : CountedUpdate) (tick : UInt64) :
    Ledger :=
  { l with
    next := l.next + 1
    slots := Function.update l.slots id (t.credit u (l.slots id))
    accepted :=
      l.accepted ++ if (t.update u.keyHash u.key u.pktBytes tick).1 = true then [u] else []
    evicted := l.evicted ++ t.forfeited u (l.slots id) }

/-- Enter the message of a step of the main thread, if there is one. -/
def enterMessage (l : Ledger) (heap : Heap) : MainStep → Ledger
  | .sendSlot desc id r =>
    match Plugin.slotDetails desc (heap.table id) r with
    | none => l
    | some m => { l with dumped := l.dumped ++ [(m, l.slots id r)] }
  | _ => l

/-- How often a message has carried the packet of an update. -/
def timesDumped (l : Ledger) (u : CountedUpdate) : ℕ := (l.dumped.flatMap Prod.snd).count u

end Ledger

/-! ### The system -/

/-- What can happen next: the main thread takes up a request to add a rule or to dump one, or makes its
next step; a frame of a worker loads a pointer, counts through one it has loaded, or ends. -/
inductive DumpEvent where
  | add (env : ApiEnv) (mp : FlowRuleAddMsg)
  | dump (env : ApiEnv) (id : FlowRuleId)
  | main
  | load (w i : ℕ)
  | update (w i : ℕ) (keyHash : UInt64) (key : FrameKey) (pktBytes tick : UInt64)
  | endFrame (w : ℕ)

/-- The event of the interleaved system. -/
def DumpEvent.event : DumpEvent → InterleavedEvent
  | .add env mp => .request (.flowRuleAdd env mp)
  | .dump env id => .request (.snapshotInlineDump env id)
  | .main => .main
  | .load w i => .load w i
  | .update w i keyHash key pktBytes tick => .update w i keyHash key.val pktBytes tick
  | .endFrame w => .endFrame w

/-- The system beside its ledger. -/
structure Audited where
  system : Interleaved
  ledger : Ledger

namespace Audited

/-- The system as the plugin is loaded. -/
def start (vlibNumWorkers : ℕ) : Audited := ⟨.start vlibNumWorkers, .empty⟩

/-- The entry for an update through index `i`, which counts for the rule at that index. -/
def entry (s : Audited) (i : ℕ) (keyHash : UInt64) (key : FrameKey) (pktBytes : UInt64) :
    CountedUpdate :=
  ⟨s.ledger.next, s.system.plugin.api.ctx.flowRuleIds i, keyHash, key.val, pktBytes⟩

/-- What an event enters in the ledger. -/
def enter (s : Audited) : DumpEvent → Ledger
  | .main =>
    match s.system.pending with
    | [] => s.ledger
    | next :: _ => s.ledger.enterMessage s.system.plugin.heap next
  | .update w i keyHash key pktBytes tick =>
    match s.system.held w i with
    | none => s.ledger
    | some t =>
      s.ledger.enterUpdate t (s.system.plugin.heap.table t) (s.entry i keyHash key pktBytes) tick
  | _ => s.ledger

/-- One event. -/
def step (s : Audited) (e : DumpEvent) : Audited := ⟨s.system.step e.event, s.enter e⟩

end Audited

/-! ### The properties and the condition -/

/-- The table belongs to a rule of the API context. -/
def Plugin.Serves (p : Plugin) (t : ℕ) : Prop := ∃ w i, p.api.ctx.tables w i = some t

/-- The dump has yet to get to the slot. -/
def MainStep.Awaits (steps : List MainStep) (t r : ℕ) : Prop :=
  ∃ desc, MainStep.sendSlot desc t r ∈ steps

namespace Audited

/-- What is counted in the slot is reported: its table is live, or the dump that retired the table has
yet to get to the slot. -/
def Reported (s : Audited) (t r : ℕ) : Prop :=
  s.system.plugin.Serves t ∨ MainStep.Awaits s.system.pending t r

/-- The packet of an update is in a slot that will be reported. -/
def ToCome (s : Audited) (u : CountedUpdate) : Prop :=
  ∃ t r, u ∈ s.ledger.slots t r ∧ s.Reported t r

/-- Every update that returned true and whose key was not evicted has been dumped exactly once or is
in a slot that will be reported, and not both. -/
def ExactlyOnce (s : Audited) : Prop :=
  ∀ u ∈ s.ledger.accepted, u ∉ s.ledger.evicted →
    (s.ledger.timesDumped u = 1 ∧ ¬ s.ToCome u) ∨ (s.ledger.timesDumped u = 0 ∧ s.ToCome u)

/-- The ledger tells what the plugin does: its messages are those sent, each has the rule and the key of
the updates it carries and the counters that they amount to, and so have the slots of live tables. -/
structure Faithful (s : Audited) : Prop where
  sent : s.ledger.dumped.map Prod.fst = s.system.sent
  messages : ∀ d ∈ s.ledger.dumped, AmountsTo d.2 d.1.packets d.1.bytes ∧
    ∀ u ∈ d.2, d.1.flowRuleId = u.rule ∧ d.1.keyHash = u.keyHash ∧ d.1.keyData = u.key.bytes
  tables : ∀ t, s.system.plugin.Serves t →
    Tallies (s.ledger.slots t) (s.system.plugin.heap.table t)
  rules : ∀ w i t, s.system.plugin.api.ctx.tables w i = some t → ∀ r, ∀ u ∈ s.ledger.slots t r,
    s.system.plugin.api.ctx.flowRuleIds i = u.rule
  /-- No two updates that returned true are the same. -/
  distinct : s.ledger.accepted.Nodup
  /-- No update is credited twice. -/
  nodup : ∀ t r, (s.ledger.slots t r).Nodup
  apart : ∀ t r t' r', ∀ u ∈ s.ledger.slots t r, u ∈ s.ledger.slots t' r' → t = t' ∧ r = r'

/-- A frame does not count in a slot that the dump of its table has passed. -/
def InReach (s : Audited) : DumpEvent → Prop
  | .update w i keyHash key _ _ => ∀ t, s.system.held w i = some t → ∀ r,
    (s.system.plugin.heap.table t).countsIn keyHash key.val = some r → s.Reported t r
  | _ => True

end Audited

/-! ### A ledger in order -/

namespace Ledger

/-- The updates in the ledger have numbers below the next one, every credit stands in one place, and an
update that returned true is credited until its key is evicted. -/
structure Orderly (l : Ledger) : Prop where
  slots : ∀ t r, ∀ u ∈ l.slots t r, u.number < l.next
  accepted : ∀ u ∈ l.accepted, u.number < l.next
  evicted : ∀ u ∈ l.evicted, u.number < l.next
  dumped : ∀ d ∈ l.dumped, ∀ u ∈ d.2, u.number < l.next
  distinct : l.accepted.Nodup
  nodup : ∀ t r, (l.slots t r).Nodup
  apart : ∀ t r t' r', ∀ u ∈ l.slots t r, u ∈ l.slots t' r' → t = t' ∧ r = r'
  kept : ∀ u ∈ l.accepted, u ∈ l.evicted ∨ ∃ t r, u ∈ l.slots t r

/-- The empty ledger is orderly. -/
theorem orderly_empty : empty.Orderly where
  slots _ _ _ hu := absurd hu List.not_mem_nil
  accepted _ hu := absurd hu List.not_mem_nil
  evicted _ hu := absurd hu List.not_mem_nil
  dumped _ hd := absurd hd List.not_mem_nil
  distinct := List.nodup_nil
  nodup _ _ := List.nodup_nil
  apart _ _ _ _ _ hu := absurd hu List.not_mem_nil
  kept _ hu := absurd hu List.not_mem_nil

variable {l : Ledger} {id : ℕ} {t : CounterTable} {u v : CountedUpdate} {tick : UInt64}

/-- The credits behind an update: those of before that no eviction took, and the update itself. -/
theorem mem_enterUpdate {t' r : ℕ} : v ∈ (l.enterUpdate id t u tick).slots t' r ↔
    (v ∈ l.slots t' r ∧ (t' = id → t.evicted u.keyHash u.key ≠ some r)) ∨
      (v = u ∧ t' = id ∧ t.countsIn u.keyHash u.key = some r) := by
  show v ∈ Function.update l.slots id _ t' r ↔ _
  by_cases heq : t' = id
  · subst heq
    rw [Function.update_self, mem_credit]
    simp
  · rw [Function.update_of_ne heq]
    simp [heq]

/-- An update that is counted is entered as accepted. -/
theorem mem_enterUpdate_accepted : v ∈ (l.enterUpdate id t u tick).accepted ↔
    v ∈ l.accepted ∨ (v = u ∧ (t.update u.keyHash u.key u.pktBytes tick).1 = true) := by
  rw [enterUpdate, List.mem_append]
  refine or_congr_right ?_
  split
  · rename_i hok
    simp [hok]
  · rename_i hok
    simp [hok]

/-- The credits of a slot that is evicted are entered as such. -/
theorem mem_enterUpdate_evicted : v ∈ (l.enterUpdate id t u tick).evicted ↔
    v ∈ l.evicted ∨ ∃ r, t.evicted u.keyHash u.key = some r ∧ v ∈ l.slots id r := by
  rw [enterUpdate, List.mem_append, mem_forfeited]

namespace Orderly

/-- The next update is new. -/
theorem fresh (h : l.Orderly) (hu : u.number = l.next) :
    (∀ t r, u ∉ l.slots t r) ∧ u ∉ l.accepted ∧ u ∉ l.evicted ∧ l.timesDumped u = 0 := by
  refine ⟨fun t r hin => ?_, fun hin => ?_, fun hin => ?_, ?_⟩
  · exact (h.slots t r u hin).ne hu
  · exact (h.accepted u hin).ne hu
  · exact (h.evicted u hin).ne hu
  · refine List.count_eq_zero.mpr fun hin => ?_
    obtain ⟨d, hd, hin⟩ := List.mem_flatMap.mp hin
    exact (h.dumped d hd u hin).ne hu

/-- An update that counts somewhere if it succeeds leaves the ledger in order. -/
theorem enterUpdate (h : l.Orderly) (hu : u.number = l.next)
    (hok : (t.update u.keyHash u.key u.pktBytes tick).1 = (t.countsIn u.keyHash u.key).isSome) :
    (l.enterUpdate id t u tick).Orderly := by
  obtain ⟨hnew, hunaccepted, -, -⟩ := h.fresh hu
  have hlt : u.number < l.next + 1 := hu ▸ Nat.lt_succ_self _
  refine { slots := ?_, accepted := ?_, evicted := ?_, dumped := ?_, distinct := ?_, nodup := ?_,
           apart := ?_, kept := ?_ }
  -- the next number has grown by one, and only the update has the old one
  · intro t' r v hv
    rcases mem_enterUpdate.mp hv with ⟨hv, -⟩ | ⟨rfl, -⟩
    · exact (h.slots t' r v hv).trans (Nat.lt_succ_self _)
    · exact hlt
  · intro v hv
    rcases mem_enterUpdate_accepted.mp hv with hv | ⟨rfl, -⟩
    · exact (h.accepted v hv).trans (Nat.lt_succ_self _)
    · exact hlt
  · intro v hv
    rcases mem_enterUpdate_evicted.mp hv with hv | ⟨r, -, hv⟩
    · exact (h.evicted v hv).trans (Nat.lt_succ_self _)
    · exact (h.slots id r v hv).trans (Nat.lt_succ_self _)
  · exact fun d hd v hv => (h.dumped d hd v hv).trans (Nat.lt_succ_self _)
  · show (l.accepted ++ if _ then [u] else []).Nodup
    split
    · rw [← List.concat_eq_append]
      exact h.distinct.concat hunaccepted
    · rw [List.append_nil]
      exact h.distinct
  · intro t' r
    show (Function.update l.slots id _ t' r).Nodup
    by_cases heq : t' = id
    · subst heq
      rw [Function.update_self]
      exact nodup_credit (h.nodup t' r) (hnew t' r)
    · rw [Function.update_of_ne heq]
      exact h.nodup t' r
  · -- the update stands in the slot in which it counts, and in no other
    intro t₁ r₁ t₂ r₂ v hv hv'
    rcases mem_enterUpdate.mp hv with ⟨hold, -⟩ | ⟨rfl, rfl, hin⟩
    · rcases mem_enterUpdate.mp hv' with ⟨hold', -⟩ | ⟨rfl, -⟩
      · exact h.apart t₁ r₁ t₂ r₂ v hold hold'
      · exact absurd hold (hnew t₁ r₁)
    · rcases mem_enterUpdate.mp hv' with ⟨hold', -⟩ | ⟨-, rfl, hin'⟩
      · exact absurd hold' (hnew t₂ r₂)
      · exact ⟨rfl, Option.some.inj (hin.symm.trans hin')⟩
  · intro v hv
    rcases mem_enterUpdate_accepted.mp hv with hold | ⟨rfl, htrue⟩
    · rcases h.kept v hold with hgone | ⟨t', r, hcredit⟩
      · exact Or.inl (mem_enterUpdate_evicted.mpr (Or.inl hgone))
      · -- the credits of an evicted key are noted as such
        by_cases hevicted : t' = id ∧ t.evicted u.keyHash u.key = some r
        · obtain ⟨rfl, hevicted⟩ := hevicted
          exact Or.inl (mem_enterUpdate_evicted.mpr (Or.inr ⟨r, hevicted, hcredit⟩))
        · exact Or.inr ⟨t', r, mem_enterUpdate.mpr
            (Or.inl ⟨hcredit, fun heq hevicted' => hevicted ⟨heq, hevicted'⟩⟩)⟩
    · rw [hok, Option.isSome_iff_exists] at htrue
      obtain ⟨r, hr⟩ := htrue
      exact Or.inr ⟨id, r, mem_enterUpdate.mpr (Or.inr ⟨rfl, rfl, hr⟩)⟩

/-- A message leaves the ledger in order. -/
theorem enterMessage (h : l.Orderly) (heap : Heap) (next : MainStep) :
    (l.enterMessage heap next).Orderly := by
  cases next with
  | sendSlot desc id r =>
    rw [Ledger.enterMessage]
    split
    · exact h
    · rename_i m hm
      refine { h with dumped := fun d hd => ?_ }
      rcases List.mem_append.mp hd with hd | hd
      · exact h.dumped d hd
      · rw [List.mem_singleton.mp hd]
        exact h.slots id r
  | _ => exact h

end Orderly

end Ledger

end InFMon
