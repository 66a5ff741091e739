import InFMon.Frontend.MeteredDumps

/-! # Every packet is reported once

Along a run the dumps of a rule report each matched packet in one descriptor: what they have reported and
what is still to be dumped add up to what the frames have brought. -/

namespace InFMon

open Frontend

/-! ### What a run brings and reports -/

/-- The hits that an event brings to a rule on the first `n` workers. -/
def PluginEvent.hits (rule : FlowRule) (n : ℕ) : PluginEvent → List Hit
  | .request _ => []
  | .frame w buffers => if w < n then (mirrored buffers).filterMap rule.hit else []

/-- The descriptors that an event leads to for a rule. -/
def PluginEvent.reports (id : FlowRuleId) (p : Plugin) : PluginEvent → List RawDescriptor
  | .request (.snapshotInlineDump env id') => if id' = id then (dumpReply env id p).toList else []
  | _ => []

/-- The descriptors that the dumps of a rule lead to in a run. -/
def reported (id : FlowRuleId) : PluginSystem → List PluginEvent → List RawDescriptor
  | _, [] => []
  | s, e :: events => e.reports id s.plugin ++ reported id (s.step e) events

/-- The event deletes the rule, or takes its counts without a report. -/
def PluginEvent.Forgets (id : FlowRuleId) : PluginEvent → Prop
  | .request (.flowRuleDel _ id') | .request (.snapshotAndClear _ id') => id' = id
  | _ => False

/-- The packets that a descriptor has for a key. -/
def packetsIn (key : List UInt8) (desc : RawDescriptor) : ℕ :=
  ((slotsWith desc key).map fun slot => slot.packets.toNat).sum

/-- The bytes that a descriptor has for a key. -/
def bytesIn (key : List UInt8) (desc : RawDescriptor) : ℕ :=
  ((slotsWith desc key).map fun slot => slot.bytes.toNat).sum

/-! ### Measures -/

/-- A measure of hits, and of descriptors, that agree where a descriptor reports hits. -/
structure Measure (μ : List Hit → ℕ) (ν : RawDescriptor → ℕ) : Prop where
  nil : μ [] = 0
  append : ∀ a b, μ (a ++ b) = μ a + μ b
  report : ∀ desc hits, ReportsHits desc hits → desc.keyArena.length ≤ 2 ^ 32 → ν desc = μ hits
  keyless : ∀ desc, (∀ slot ∈ desc.slots, slot.keyLen = 0) → ν desc = 0

/-- Of slots with different keys, one at most has a given key. -/
theorem sum_slots_of_key {arena : List UInt8} {slots : List RawSlot} {keys : List (List UInt8)}
    {f : RawSlot → ℕ} {g : List UInt8 → ℕ}
    (hall : List.Forall₂ (fun slot key => f slot = g key) slots keys) (hnodup : keys.Nodup)
    (hkeys : slots.map (slotKey arena) = keys.map some) (key : List UInt8) :
    ((slots.filter fun slot => slotKey arena slot = some key).map f).sum =
      if key ∈ keys then g key else 0 := by
  induction hall with
  | nil => rfl
  | @cons slot k slots keys hslot hrest ih =>
    obtain ⟨hnot, hnodup⟩ := List.nodup_cons.mp hnodup
    rw [List.map_cons, List.map_cons, List.cons.injEq] at hkeys
    obtain ⟨hk, hkeys⟩ := hkeys
    have ih := ih hnodup hkeys
    by_cases heq : k = key
    · subst heq
      rw [if_neg hnot] at ih
      rw [List.filter_cons_of_pos (by simpa using hk), List.map_cons, List.sum_cons, ih,
        if_pos List.mem_cons_self, hslot, Nat.add_zero]
    · rw [List.filter_cons_of_neg (by simpa [hk] using heq), ih]
      exact if_congr (by rw [List.mem_cons, or_iff_right (Ne.symm heq)]) rfl rfl

/-- What a descriptor that reports hits has for a key. -/
theorem ReportsHits.sum_slotsWith {desc : RawDescriptor} {hits : List Hit} (h : ReportsHits desc hits)
    (harena : desc.keyArena.length ≤ 2 ^ 32) (key : List UInt8) :
    packetsIn key desc = packetsOf key hits ∧ bytesIn key desc = bytesOf key hits := by
  obtain ⟨-, keys, hnodup, hkeys, -, hslots, hslotKeys⟩ := h
  have hmem : key ∉ keys → hits.filter (fun hit => hit.1 = key) = [] := by
    intro hnot
    refine List.filter_eq_nil_iff.mpr fun hit hhit heq => hnot ?_
    rw [← List.mem_toFinset, hkeys, ← of_decide_eq_true heq]
    exact List.mem_toFinset.mpr (List.mem_map_of_mem hhit)
  have hpackets := sum_slots_of_key (hslots.imp fun _ _ h => h.packets) hnodup (hslotKeys harena) key
  have hbytes := sum_slots_of_key (hslots.imp fun _ _ h => h.bytes) hnodup (hslotKeys harena) key
  rw [packetsIn, bytesIn, slotsWith, hpackets, hbytes]
  by_cases hin : key ∈ keys
  · rw [if_pos hin, if_pos hin]
    exact ⟨rfl, rfl⟩
  · rw [if_neg hin, if_neg hin, packetsOf, bytesOf, hmem hin]
    exact ⟨rfl, rfl⟩

/-- Slots without a key belong to no key. -/
theorem slotsWith_keyless {desc : RawDescriptor} (h : ∀ slot ∈ desc.slots, slot.keyLen = 0)
    (key : List UInt8) : slotsWith desc key = [] := by
  refine List.filter_eq_nil_iff.mpr fun slot hslot heq => ?_
  rw [slotKey, if_pos (h slot hslot)] at heq
  cases of_decide_eq_true heq

/-- Packets add up. -/
theorem measure_packets (key : List UInt8) : Measure (packetsOf key) (packetsIn key) where
  nil := rfl
  append := packetsOf_append
  report _ _ h harena := (h.sum_slotsWith harena key).1
  keyless desc h := by
    rw [packetsIn, slotsWith_keyless h]
    rfl

/-- Bytes add up. -/
theorem measure_bytes (key : List UInt8) : Measure (bytesOf key) (bytesIn key) where
  nil := rfl
  append := bytesOf_append
  report _ _ h harena := (h.sum_slotsWith harena key).2
  keyless desc h := by
    rw [bytesIn, slotsWith_keyless h]
    rfl

/-! ### The rule along the run -/

namespace Meter

variable {id id' : FlowRuleId} {m : Meter}

/-- A rule that goes leaves those with another id. -/
theorem find?_eraseIdx_place (h : id' ≠ id) (m : Meter) :
    (m.eraseIdx (m.place id')).find? (fun r => r.id = id) = m.find? fun r => r.id = id := by
  induction m with
  | nil => rfl
  | cons r m ih =>
    rw [place, List.findIdx_cons]
    by_cases hr : r.id = id'
    · have hne : r.id ≠ id := fun heq => h (hr.symm.trans heq)
      simp [hr, h]
    · simp only [hr, decide_false, cond_false, List.eraseIdx_cons_succ]
      rw [List.find?_cons, List.find?_cons]
      split
      · rfl
      · exact ih

/-- A rule that is snapshot leaves those with another id. -/
theorem find?_modify_place (h : id' ≠ id) (m : Meter) :
    (m.modify (m.place id') MeteredRule.clear).find? (fun r => r.id = id) =
      m.find? fun r => r.id = id := by
  induction m with
  | nil => rfl
  | cons r m ih =>
    rw [place, List.findIdx_cons]
    by_cases hr : r.id = id'
    · simp [hr, h, MeteredRule.clear]
    · simp only [hr, decide_false, cond_false, List.modify_succ_cons]
      rw [List.find?_cons, List.find?_cons]
      split
      · rfl
      · exact ih

/-- A snapshot clears the first rule with the id. -/
theorem find?_modify_place_self (id : FlowRuleId) (m : Meter) :
    (m.modify (m.place id) MeteredRule.clear).find? (fun r => r.id = id) =
      (m.find? fun r => r.id = id).map MeteredRule.clear := by
  induction m with
  | nil => rfl
  | cons r m ih =>
    rw [place, List.findIdx_cons]
    by_cases hr : r.id = id
    · simp [hr, MeteredRule.clear]
    · simp only [hr, decide_false, cond_false, List.modify_succ_cons]
      rw [List.find?_cons, List.find?_cons]
      simp only [hr, decide_false]
      exact ih

end Meter

/-! ### What one event adds -/

section

variable {μ : List Hit → ℕ} {ν : RawDescriptor → ℕ}

/-- A worker's packets are added to what all workers have matched. -/
theorem Measure.total_count (hμ : Measure μ ν) (w : ℕ) (inner : List Buffer) (r : MeteredRule)
    (n : ℕ) : μ ((r.count w inner).total n) =
      μ (r.total n) + μ (if w < n then inner.filterMap r.rule.hit else []) := by
  induction n with
  | zero =>
    show μ [] = μ [] + μ []
    rw [hμ.nil]
  | succ n ih =>
    have hsucc : ∀ r : MeteredRule, r.total (n + 1) = r.total n ++ r.hits n := by
      intro r
      rw [MeteredRule.total, List.range_succ, List.flatMap_append, List.flatMap_singleton]
      rfl
    rw [hsucc, hsucc, hμ.append, hμ.append, ih]
    show _ + μ (Function.update r.hits w _ n) = _
    by_cases hw : w = n
    · subst hw
      rw [Function.update_self, hμ.append, if_neg (Nat.lt_irrefl w), if_pos (Nat.lt_succ_self w), hμ.nil]
      omega
    · rw [Function.update_of_ne (Ne.symm hw)]
      by_cases hlt : w < n
      · rw [if_pos hlt, if_pos (Nat.lt_succ_of_lt hlt)]
        omega
      · rw [if_neg hlt, if_neg (by omega)]
        omega

/-- A dump that is refused reports nothing. -/
theorem Measure.dumpReply_refused (hμ : Measure μ ν) {p : Plugin} {env : ApiEnv} {id : FlowRuleId}
    (hne : (p.snapshotRequest env id).1.result ≠ .ok) :
    ((dumpReply env id p).toList.map ν).sum = 0 := by
  have hmessages : (p.snapshotInlineDumpHandler env id).1 = [.empty id] := by
    rw [Plugin.snapshotInlineDumpHandler]
    split
    · rfl
    · rw [if_pos (Or.inl hne)]
  have hreply : dumpReply env id p = rawDescriptor id [entryCb (.empty id)] := by
    rw [← List.map_singleton, ← hmessages]
    rfl
  rw [hreply]
  refine (Nat.add_zero _).trans (hμ.keyless _ fun slot hslot => ?_)
  -- the empty message has no key, and so has its slot
  obtain rfl := List.mem_singleton.mp hslot
  rfl

namespace MeteredSystem

variable {s : MeteredSystem} {es : List RuleEntry} {id : FlowRuleId} {r : MeteredRule}

/-- A request that is granted and forgets nothing of a rule: either it reports what there is of the rule
or it leaves it. -/
theorem Follows.grant_conserves (h : s.Follows es) (hμ : Measure μ ν)
    (hfits : s.meter.Fits (s.system.plugin.vlibNumWorkers + 1))
    (hrule : s.meter.find? (fun r => r.id = id) = some r) {request : Plugin.Request}
    (hok : ((s.system.plugin.apiCtxEnsure request.env.memory).outcome request).1 = .ok)
    (hkeeps : ¬ PluginEvent.Forgets id (.request request))
    (harena : ∀ desc ∈ PluginEvent.reports id s.system.plugin (.request request),
      desc.keyArena.length ≤ 2 ^ 32) (newId : FlowRuleId) :
    ∃ r', (s.meter.grant newId request).find? (fun r => r.id = id) = some r' ∧ r'.rule = r.rule ∧
      ((PluginEvent.reports id s.system.plugin (.request request)).map ν).sum +
          μ (r'.total (s.system.plugin.vlibNumWorkers + 1)) =
        μ (r.total (s.system.plugin.vlibNumWorkers + 1)) := by
  cases request with
  | flowRuleAdd env mp =>
    refine ⟨r, ?_, rfl, Nat.zero_add _⟩
    show (s.meter ++ _).find? _ = some r
    rw [List.find?_append, hrule]
    rfl
  | flowRuleDel env id' =>
    exact ⟨r, (Meter.find?_eraseIdx_place hkeeps s.meter).trans hrule, rfl, Nat.zero_add _⟩
  | snapshotAndClear env id' =>
    exact ⟨r, (Meter.find?_modify_place hkeeps s.meter).trans hrule, rfl, Nat.zero_add _⟩
  | snapshotInlineDump env id' =>
    by_cases hid : id' = id
    · subst hid
      have hadmits := (Plugin.snapshotRequest_ok_iff_admits h.publishes.sound).mp hok
      -- a dump of the rule itself: what it reports leaves the meter
      obtain ⟨r', hfind, hnone, hsome⟩ := h.dump_reports hadmits hfits
      obtain rfl : r' = r := Option.some.inj (hfind.symm.trans hrule)
      refine ⟨r'.clear, ?_, rfl, ?_⟩
      · exact (Meter.find?_modify_place_self id' s.meter).trans (congrArg _ hrule)
      · have hclear : r'.clear.total (s.system.plugin.vlibNumWorkers + 1) = [] := by
          rw [MeteredRule.total, List.flatMap_eq_nil_iff]
          exact fun _ _ => rfl
        rw [PluginEvent.reports, if_pos rfl] at harena ⊢
        rw [hclear, hμ.nil, Nat.add_zero]
        cases hreply : dumpReply env id' s.system.plugin with
        | none =>
          rw [hnone.mp hreply, hμ.nil]
          rfl
        | some desc =>
          have hdesc : desc ∈ (dumpReply env id' s.system.plugin).toList := by simp [hreply]
          exact (Nat.add_zero _).trans
            (hμ.report desc _ (hsome desc hreply).2 (harena desc hdesc))
    · rw [PluginEvent.reports, if_neg hid]
      exact ⟨r, (Meter.find?_modify_place hid s.meter).trans hrule, rfl, Nat.zero_add _⟩

/-- What an event reports of a rule and what is left to report add up to what there was and what the
event has brought. -/
theorem Follows.step_conserves (h : s.Follows es) (hμ : Measure μ ν)
    (hfits : s.meter.Fits (s.system.plugin.vlibNumWorkers + 1))
    (hrule : s.meter.find? (fun r => r.id = id) = some r) {e : PluginEvent} (hkeeps : ¬ e.Forgets id)
    (harena : ∀ desc ∈ e.reports id s.system.plugin, desc.keyArena.length ≤ 2 ^ 32) :
    ∃ r', (s.step e).meter.find? (fun r => r.id = id) = some r' ∧ r'.rule = r.rule ∧
      ((e.reports id s.system.plugin).map ν).sum +
          μ (r'.total (s.system.plugin.vlibNumWorkers + 1)) =
        μ (r.total (s.system.plugin.vlibNumWorkers + 1)) +
          μ (e.hits r.rule (s.system.plugin.vlibNumWorkers + 1)) := by
  cases e with
  | frame w buffers =>
    refine ⟨r.count w (mirrored buffers), ?_, rfl, ?_⟩
    · show (List.map _ s.meter).find? _ = _
      rw [List.find?_map]
      exact congrArg (Option.map _) hrule
    · exact (Nat.zero_add _).trans (hμ.total_count w (mirrored buffers) r _)
  | request request =>
    have hnone : ∀ n, μ (PluginEvent.hits r.rule n (.request request)) = 0 := fun _ => hμ.nil
    simp only [hnone, Nat.add_zero, MeteredSystem.step, Meter.step]
    by_cases hok : ((s.system.plugin.apiCtxEnsure request.env.memory).outcome request).1 = .ok
    · rw [if_pos hok]
      exact h.grant_conserves hμ hfits hrule hok hkeeps harena _
    · rw [if_neg hok]
      refine ⟨r, hrule, rfl, ?_⟩
      -- a refused request reports nothing
      suffices hzero : ((PluginEvent.reports id s.system.plugin (.request request)).map ν).sum = 0 by
        rw [hzero, Nat.zero_add]
      cases request with
      | snapshotInlineDump env id' =>
        rw [PluginEvent.reports]
        split
        · rename_i hid
          subst hid
          exact hμ.dumpReply_refused hok
        · rfl
      | _ => rfl

/-! ### Runs -/

/-- Along a run that keeps a rule, what its dumps report and what is left to report add up to what there was
and what the frames have brought. -/
theorem Follows.run_conserves (h : s.Follows es) (hμ : Measure μ ν)
    (hfits : s.meter.Fits (s.system.plugin.vlibNumWorkers + 1))
    (hworkers : s.system.plugin.vlibNumWorkers < maxWorkers)
    (hrule : s.meter.find? (fun r => r.id = id) = some r) {during : List PluginEvent}
    (hrun : Runs.Meets MeteredSystem.step InBounds s during)
    (hkeeps : ∀ e ∈ during, ¬ e.Forgets id)
    (harena : ∀ desc ∈ reported id s.system during, desc.keyArena.length ≤ 2 ^ 32) :
    ∃ r', (Runs.run MeteredSystem.step s during).meter.find? (fun r => r.id = id) = some r' ∧
      r'.rule = r.rule ∧
      ((reported id s.system during).map ν).sum +
          μ (r'.total (s.system.plugin.vlibNumWorkers + 1)) =
        μ (r.total (s.system.plugin.vlibNumWorkers + 1)) +
          μ (during.flatMap (PluginEvent.hits r.rule (s.system.plugin.vlibNumWorkers + 1))) := by
  induction during generalizing s es r with
  | nil =>
    refine ⟨r, hrule, rfl, ?_⟩
    show 0 + _ = _ + μ []
    rw [hμ.nil, Nat.zero_add]
    rfl
  | cons e during ih =>
    obtain ⟨he, hrest⟩ := Runs.meets_cons.mp hrun
    obtain ⟨hkeep, hkeeps⟩ := List.forall_mem_cons.mp hkeeps
    rw [reported] at harena ⊢
    -- what the first event conserves, then what the rest of the run does
    obtain ⟨r₁, hr₁, hrule₁, hone⟩ := h.step_conserves hμ hfits hrule hkeep
      fun desc hdesc => harena desc (List.mem_append_left _ hdesc)
    obtain ⟨es₁, h₁⟩ := h.step he hworkers
    have hv := s.vlibNumWorkers_step e
    obtain ⟨r₂, hr₂, hrule₂, hmore⟩ := ih h₁ (hv.symm ▸ he.2) (hv.symm ▸ hworkers) hr₁ hrest hkeeps
      fun desc hdesc => harena desc (List.mem_append_right _ hdesc)
    refine ⟨r₂, hr₂, hrule₂.trans hrule₁, ?_⟩
    rw [hv, hrule₁] at hmore
    rw [List.map_append, List.sum_append, List.flatMap_cons, hμ.append]
    change _ + ((reported id (s.step e).system during).map ν).sum + _ = _
    omega

end MeteredSystem

end

/-- In every run with at most 31 workers beside the main thread in which the tables have room and no
descriptor has more than 2 ^ 32 bytes of keys, while a rule stays and is snapshot by dumps only: for every
key, the packets in the descriptors of the dumps and those still in the tables are those that were in the
tables before and those that the frames have brought, and so are the bytes. So no packet is reported twice
and none is missed. -/
theorem dumps_report_every_packet_once {vlibNumWorkers : ℕ} (hworkers : vlibNumWorkers < maxWorkers)
    {before during : List PluginEvent}
    (h : Runs.Meets MeteredSystem.step MeteredSystem.InBounds (.start vlibNumWorkers)
      (before ++ during)) {id : FlowRuleId} {r₀ : MeteredRule}
    (hrule : (Runs.run MeteredSystem.step (.start vlibNumWorkers) before).meter.find?
      (fun r => r.id = id) = some r₀)
    (hkeeps : ∀ e ∈ during, ¬ e.Forgets id)
    (harena : ∀ desc ∈ reported id (Runs.run PluginSystem.step (.start vlibNumWorkers) before) during,
      desc.keyArena.length ≤ 2 ^ 32) (key : List UInt8) :
    let descs := reported id (Runs.run PluginSystem.step (.start vlibNumWorkers) before) during
    let brought := during.flatMap (PluginEvent.hits r₀.rule (vlibNumWorkers + 1))
    ∃ r, (Runs.run MeteredSystem.step (.start vlibNumWorkers) (before ++ during)).meter.find?
        (fun r => r.id = id) = some r ∧
      (descs.map (packetsIn key)).sum + packetsOf key (r.total (vlibNumWorkers + 1)) =
        packetsOf key (r₀.total (vlibNumWorkers + 1)) + packetsOf key brought ∧
      (descs.map (bytesIn key)).sum + bytesOf key (r.total (vlibNumWorkers + 1)) =
        bytesOf key (r₀.total (vlibNumWorkers + 1)) + bytesOf key brought := by
  intro descs brought
  obtain ⟨hbefore, hduring⟩ := Runs.meets_append.mp h
  obtain ⟨es, hfollows, hfits, hv⟩ := MeteredSystem.follows_run hworkers hbefore
  have hsystem := MeteredSystem.run_system (.start vlibNumWorkers) before
  rw [Runs.run_append]
  generalize Runs.run MeteredSystem.step (MeteredSystem.start vlibNumWorkers) before = s at *
  change s.system = Runs.run PluginSystem.step (.start vlibNumWorkers) before at hsystem
  subst hv
  rw [← hsystem] at harena
  -- the conservation law, once for packets and once for bytes
  obtain ⟨r, hr, -, hpackets⟩ := hfollows.run_conserves (measure_packets key) hfits hworkers hrule
    hduring hkeeps harena
  obtain ⟨r', hr', -, hbytes⟩ := hfollows.run_conserves (measure_bytes key) hfits hworkers hrule
    hduring hkeeps harena
  obtain rfl : r' = r := Option.some.inj (hr'.symm.trans hr)
  have hdescs : descs = reported id s.system during := by rw [hsystem]
  rw [hdescs]
  exact ⟨r', hr', hpackets, hbytes⟩

/-- A rule on the protocol. -/
def ruleAdded : List PluginEvent := [.request (.flowRuleAdd (envAt 0) protoRuleMsg)]

/-- Two dumps, with a packet between them. -/
def twoDumps : List PluginEvent :=
  [.frame 0 [protocolPacket 17], .frame 1 [protocolPacket 6, protocolPacket 17],
    .request (.snapshotInlineDump (envAt 1) protoRuleId), .frame 0 [protocolPacket 17],
    .request (.snapshotInlineDump (envAt 2) protoRuleId)]

/-- The three packets of one protocol are in the descriptors of the two dumps, or still to be dumped. -/
theorem dumps_report_every_packet_once_two :
    let descs := reported protoRuleId (Runs.run PluginSystem.step (.start 1) ruleAdded) twoDumps
    ∃ r, (Runs.run MeteredSystem.step (.start 1) (ruleAdded ++ twoDumps)).meter.find?
        (fun r => r.id = protoRuleId) = some r ∧
      (descs.map (packetsIn [17])).sum + packetsOf [17] (r.total 2) = 3 := by
  have hfacts : ((Runs.run MeteredSystem.step (.start 1) ruleAdded).meter.find?
      fun r => r.id = protoRuleId).map (fun r => (packetsOf [17] (r.total 2),
        packetsOf [17] (twoDumps.flatMap (PluginEvent.hits r.rule 2)))) = some (0, 3) := by
    decide +kernel
  obtain ⟨r₀, hr₀, hcounts⟩ := Option.map_eq_some_iff.mp hfacts
  obtain ⟨hbefore, hbrought⟩ := Prod.mk.inj hcounts
  have hmeets : Runs.Meets MeteredSystem.step MeteredSystem.InBounds (.start 1)
      (ruleAdded ++ twoDumps) := by
    decide +kernel
  obtain ⟨r, hr, hpackets, -⟩ := dumps_report_every_packet_once (by decide) hmeets hr₀
    (by simp [twoDumps, PluginEvent.Forgets]) (by decide +kernel) [17]
  rw [hbefore, hbrought] at hpackets
  exact ⟨r, hr, hpackets⟩

end InFMon
