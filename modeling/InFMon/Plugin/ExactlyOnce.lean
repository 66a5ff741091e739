import InFMon.Plugin.Handover

/-! # Exactly once

Every update that is credited to a slot is reported later, or has been dumped once. A frame breaks this
when it counts in a slot of a retired table that the dump has passed, and in no other way. -/

namespace InFMon

open CounterTable

namespace Audited

/-! ### The invariants -/

/-- Every table belongs to a rule: those of the context, those published or loaded, those of which the
dump sends slots and those with credits. -/
structure Named (s : Audited) (ruleOf : ℕ → FlowRuleId) : Prop where
  ctx : ∀ w i t, s.system.plugin.api.ctx.tables w i = some t →
    i < s.system.plugin.api.ruleSet.count ∧ s.system.plugin.api.ctx.flowRuleIds i = ruleOf t
  main : ∀ w i t, s.system.plugin.main.tables w i = some t →
    i < s.system.plugin.api.ruleSet.count ∧ s.system.plugin.api.ctx.flowRuleIds i = ruleOf t
  held : ∀ w i t, s.system.held w i = some t →
    i < s.system.plugin.api.ruleSet.count ∧ s.system.plugin.api.ctx.flowRuleIds i = ruleOf t
  slots : ∀ t r, ∀ u ∈ s.ledger.slots t r, u.rule = ruleOf t
  pending : ∀ desc t r, MainStep.sendSlot desc t r ∈ s.system.pending → desc.flowRuleId = ruleOf t

/-- The ledger is in order and tells what the plugin does, for every table on the heap. -/
structure Kept (s : Audited) : Prop where
  intact : s.system.Intact
  named : ∃ ruleOf, s.Named ruleOf
  orderly : s.ledger.Orderly
  sized : ∀ t, s.system.plugin.heap.Live t → (s.system.plugin.heap.table t).Sized
  tallies : ∀ t, s.system.plugin.heap.Live t →
    Tallies (s.ledger.slots t) (s.system.plugin.heap.table t)
  credited : ∀ t r, s.ledger.slots t r ≠ [] → s.system.plugin.heap.Live t
  awaited : ∀ desc t r, MainStep.sendSlot desc t r ∈ s.system.pending →
    s.system.plugin.heap.Live t ∧ ¬ s.system.plugin.Serves t ∧
      r < (s.system.plugin.heap.table t).numSlots
  once : (s.system.pending.filterMap MainStep.place?).Nodup
  sent : s.ledger.dumped.map Prod.fst = s.system.sent
  messages : ∀ d ∈ s.ledger.dumped, AmountsTo d.2 d.1.packets d.1.bytes ∧
    ∀ u ∈ d.2, d.1.flowRuleId = u.rule ∧ d.1.keyHash = u.keyHash ∧ d.1.keyData = u.key.bytes

/-- What is credited to a slot has been dumped once, unless it is reported later. -/
def Counted (s : Audited) : Prop :=
  ∀ t r, ∀ u ∈ s.ledger.slots t r, (s.Reported t r → s.ledger.timesDumped u = 0) ∧
    (¬ s.Reported t r → s.ledger.timesDumped u = 1)

/-- The account holds at the start. -/
theorem kept_start (vlibNumWorkers : ℕ) : (start vlibNumWorkers).Kept where
  intact := Interleaved.intact_start vlibNumWorkers
  named := ⟨fun _ => .zero,
    { ctx := fun _ _ _ ht => by cases ht
      main := fun _ _ _ ht => by cases ht
      held := fun _ _ _ ht => by cases ht
      slots := fun _ _ _ hu => absurd hu List.not_mem_nil
      pending := fun _ _ _ hin => absurd hin List.not_mem_nil }⟩
  orderly := Ledger.orderly_empty
  sized t ht := absurd ht.1 (Nat.not_lt_zero t)
  tallies t ht := absurd ht.1 (Nat.not_lt_zero t)
  credited _ _ hne := absurd rfl hne
  awaited _ _ _ hin := absurd hin List.not_mem_nil
  once := List.nodup_nil
  sent := rfl
  messages _ hd := absurd hd List.not_mem_nil

variable {s : Audited}

/-! ### What the invariants say -/

/-- The tables of the context are live. -/
theorem Kept.live_of_serves (h : s.Kept) {t : ℕ} (ht : s.system.plugin.Serves t) :
    s.system.plugin.heap.Live t := by
  obtain ⟨es, hs⟩ := h.intact.sound
  obtain ⟨w, i, ht⟩ := ht
  exact hs.aligned.owning.owned.sound (.cell w i) t ht

/-- The account is faithful to the heap. -/
theorem Kept.faithful (h : s.Kept) : s.Faithful where
  sent := h.sent
  messages := h.messages
  tables t ht := h.tallies t (h.live_of_serves ht)
  rules w i t ht r u hu := by
    obtain ⟨ruleOf, hnamed⟩ := h.named
    rw [hnamed.slots t r u hu]
    exact (hnamed.ctx w i t ht).2
  distinct := h.orderly.distinct
  nodup := h.orderly.nodup
  apart := h.orderly.apart

/-- An update that is credited to a slot comes with the slot, and from nowhere else. -/
theorem Kept.toCome_iff (h : s.Kept) {u : CountedUpdate} {t r : ℕ} (hu : u ∈ s.ledger.slots t r) :
    s.ToCome u ↔ s.Reported t r := by
  constructor
  · rintro ⟨t', r', hu', hreported⟩
    obtain ⟨rfl, rfl⟩ := h.orderly.apart t r t' r' u hu hu'
    exact hreported
  · exact fun hreported => ⟨t, r, hu, hreported⟩

/-- If what is credited has been dumped once, or is still to be reported, so is every update. -/
theorem Kept.exactlyOnce (h : s.Kept) (hcounted : s.Counted) : s.ExactlyOnce := by
  intro u haccepted hkept
  obtain ⟨t, r, hu⟩ := (h.orderly.kept u haccepted).resolve_left hkept
  rw [h.toCome_iff hu]
  by_cases hreported : s.Reported t r
  · exact Or.inr ⟨(hcounted t r u hu).1 hreported, hreported⟩
  · exact Or.inl ⟨(hcounted t r u hu).2 hreported, hreported⟩

/-! ### The main thread takes up a request -/

section Request

variable {q : Plugin} {steps : List MainStep}

/-- The system behind the operation of a request. -/
def takeUp (s : Audited) (q : Plugin) (steps : List MainStep) : Audited :=
  ⟨{ s.system with plugin := q, pending := steps }, s.ledger⟩

/-- New tables belong to the rule of the request. -/
theorem Named.takeUp {ruleOf : ℕ → FlowRuleId} (h : s.Named ruleOf) (hkept : s.Kept)
    (hhanded : Plugin.Handed s.system.plugin q steps) (hsound : ∃ es, q.Sound es)
    (hmain : q.main.tables = s.system.plugin.main.tables) :
    ∃ ruleOf', (s.takeUp q steps).Named ruleOf' := by
  obtain ⟨id, hserved⟩ := hhanded.served
  obtain ⟨es, hs⟩ := hsound
  have hold : ∀ {i t : ℕ}, s.system.plugin.heap.Live t →
      i < s.system.plugin.api.ruleSet.count ∧ s.system.plugin.api.ctx.flowRuleIds i = ruleOf t →
      i < q.api.ruleSet.count ∧ q.api.ctx.flowRuleIds i =
        if t < s.system.plugin.heap.next then ruleOf t else id := by
    rintro i t hlive ⟨hi, hid⟩
    rw [if_pos hlive.1, hhanded.ids i hi]
    exact ⟨Nat.lt_of_lt_of_le hi hhanded.count, hid⟩
  -- a table that was there keeps its rule, the new ones are all of the rule with `id`
  refine ⟨fun t => if t < s.system.plugin.heap.next then ruleOf t else id, ?_⟩
  refine { ctx := ?_, main := ?_, held := ?_, slots := ?_, pending := ?_ }
  · intro w i t ht
    rcases hserved w i t ht with hbefore | ⟨hnew, hid⟩
    · exact hold (hkept.live_of_serves ⟨w, i, hbefore⟩) (h.ctx w i t hbefore)
    · -- a new table is in a cell of a rule, for there are no others
      refine ⟨?_, by rw [if_neg (Nat.not_lt.mpr hnew)]; exact hid⟩
      show i < q.api.ruleSet.count
      rw [hs.aligned.count_eq]
      by_contra hge
      change q.api.ctx.tables w i = some t at ht
      rw [hs.aligned.table_of_ge (Nat.le_of_not_lt hge) w] at ht
      cases ht
  · intro w i t ht
    change q.main.tables w i = some t at ht
    rw [hmain] at ht
    exact hold (hkept.intact.published w i t ht) (h.main w i t ht)
  · exact fun w i t ht => hold (hkept.intact.held w i t ht) (h.held w i t ht)
  · intro t r u hu
    have hlive := hkept.credited t r (List.ne_nil_of_mem hu)
    rw [if_pos hlive.1]
    exact h.slots t r u hu
  · intro desc t r hin
    obtain ⟨-, -, w, i, ht, hid⟩ := hhanded.awaited desc t r hin
    rw [if_pos (hkept.live_of_serves ⟨w, i, ht⟩).1, ← hid]
    exact (h.ctx w i t ht).2

/-- Taking up a request keeps the account. -/
theorem Kept.takeUp (h : s.Kept) (hhanded : Plugin.Handed s.system.plugin q steps)
    (hmain : q.main.tables = s.system.plugin.main.tables)
    (hintact : (s.takeUp q steps).system.Intact) : (s.takeUp q steps).Kept where
  intact := hintact
  named := by
    obtain ⟨ruleOf, hnamed⟩ := h.named
    exact hnamed.takeUp h hhanded hintact.sound hmain
  orderly := h.orderly
  sized t ht := by
    by_cases hlive : s.system.plugin.heap.Live t
    · show (q.heap.table t).Sized
      rw [(hhanded.live t hlive).2]
      exact h.sized t hlive
    · exact (hhanded.fresh t ht hlive).2
  tallies t ht := by
    by_cases hlive : s.system.plugin.heap.Live t
    · show Tallies (s.ledger.slots t) (q.heap.table t)
      rw [(hhanded.live t hlive).2]
      exact h.tallies t hlive
    · -- a new table is empty, and nothing was credited to it
      refine (hhanded.fresh t ht hlive).1.tallies fun r => ?_
      by_contra hne
      exact hlive (h.credited t r hne)
  credited t r hne := (hhanded.live t (h.credited t r hne)).1
  awaited desc t r hin := by
    obtain ⟨hno, hr, w, i, ht, -⟩ := hhanded.awaited desc t r hin
    obtain ⟨hlive, htable⟩ := hhanded.live t (h.live_of_serves ⟨w, i, ht⟩)
    refine ⟨hlive, hno, ?_⟩
    show r < (q.heap.table t).numSlots
    rwa [htable]
  once := hhanded.once
  sent := h.sent
  messages := h.messages

/-- A table with credits that leaves the context is walked. -/
theorem Counted.takeUp (h : s.Counted) (hkept : s.Kept) (hidle : s.system.pending = [])
    (hhanded : Plugin.Handed s.system.plugin q steps) : (s.takeUp q steps).Counted := by
  intro t r u hu
  have hlive := hkept.credited t r (List.ne_nil_of_mem hu)
  have hiff : (s.takeUp q steps).Reported t r ↔ s.Reported t r := by
    constructor
    · rintro (⟨w, i, ht⟩ | ⟨desc, hin⟩)
      · obtain ⟨id, hserved⟩ := hhanded.served
        rcases hserved w i t ht with hbefore | ⟨hnew, -⟩
        · exact Or.inl ⟨w, i, hbefore⟩
        · exact absurd hlive.1 (Nat.not_lt.mpr hnew)
      · -- the dump walks what the context had
        obtain ⟨-, -, w, i, ht, -⟩ := hhanded.awaited desc t r hin
        exact Or.inl ⟨w, i, ht⟩
    · rintro (hserves | ⟨desc, hin⟩)
      · exact hhanded.kept t hserves r
          ((hkept.tallies t hlive).occupied r (List.ne_nil_of_mem hu)).1
      · rw [hidle] at hin
        exact absurd hin List.not_mem_nil
  rw [hiff]
  exact h t r u hu

end Request

/-! ### The main thread makes a step -/

section Main

variable {next : MainStep} {pending : List MainStep}

/-- The system behind the next step of the main thread. -/
def advance (s : Audited) (next : MainStep) (pending : List MainStep) : Audited :=
  ⟨{ s.system with
      plugin := s.system.plugin.store next
      pending := pending
      sent := s.system.sent ++ (Interleaved.message s.system.plugin.heap next).toList },
    s.ledger.enterMessage s.system.plugin.heap next⟩

/-- A pointer is published that the context has. -/
theorem store_tables {p : Plugin} {w i t : ℕ} (h : (p.store next).main.tables w i = some t) :
    p.main.tables w i = some t ∨ p.api.ctx.tables w i = some t := by
  cases next with
  | cell v j =>
    change Plugin.publishCell p.api.ctx.tables v j p.main.tables w i = some t at h
    rw [Plugin.publishCell, setTable_apply] at h
    split at h
    · rename_i hcell
      obtain ⟨rfl, rfl⟩ := hcell
      exact Or.inr (Option.ite_none_right_eq_some.mp h).2
    · exact Or.inl h
  | _ => exact Or.inl h

/-- A message leaves the credits of the slots. -/
@[simp] theorem slots_enterMessage (l : Ledger) (heap : Heap) (next : MainStep) :
    (l.enterMessage heap next).slots = l.slots := by
  cases next with
  | sendSlot desc t r =>
    rw [Ledger.enterMessage]
    split
    · rfl
    · rfl
  | _ => rfl

/-- A message carries the packets of the credits of its slot. -/
theorem timesDumped_enterMessage {l : Ledger} {heap : Heap} {desc : StatsDescriptor} {t r : ℕ}
    {m : InlineDetails} (hm : Plugin.slotDetails desc (heap.table t) r = some m)
    (u : CountedUpdate) : (l.enterMessage heap (.sendSlot desc t r)).timesDumped u =
      l.timesDumped u + (l.slots t r).count u := by
  rw [Ledger.enterMessage, hm]
  show ((l.dumped ++ [(m, l.slots t r)]).flatMap Prod.snd).count u = _
  rw [List.flatMap_append, List.count_append, List.flatMap_singleton]
  rfl

/-- A message that is sent is recorded behind the others. -/
theorem dumped_enterMessage (l : Ledger) (heap : Heap) (next : MainStep) :
    (l.enterMessage heap next).dumped.map Prod.fst =
      l.dumped.map Prod.fst ++ (Interleaved.message heap next).toList := by
  cases next with
  | sendSlot desc t r =>
    rw [Ledger.enterMessage, Interleaved.message]
    cases Plugin.slotDetails desc (heap.table t) r with
    | none => exact (List.append_nil _).symm
    | some m => exact List.map_append
  | _ => exact (List.append_nil _).symm

/-- A message of the ledger was there before, or is sent now. -/
theorem mem_dumped_enterMessage {l : Ledger} {heap : Heap} {d : InlineDetails × List CountedUpdate}
    (hd : d ∈ (l.enterMessage heap next).dumped) : d ∈ l.dumped ∨ ∃ desc t r,
      next = .sendSlot desc t r ∧ Plugin.slotDetails desc (heap.table t) r = some d.1 ∧
        d.2 = l.slots t r := by
  cases next with
  | sendSlot desc t r =>
    rw [Ledger.enterMessage] at hd
    cases hm : Plugin.slotDetails desc (heap.table t) r with
    | none =>
      rw [hm] at hd
      exact Or.inl hd
    | some m =>
      rw [hm] at hd
      rcases List.mem_append.mp hd with hd | hd
      · exact Or.inl hd
      · obtain rfl := List.mem_singleton.mp hd
        exact Or.inr ⟨desc, t, r, rfl, hm, rfl⟩
  | _ => exact Or.inl hd

/-- A step of the main thread keeps the account. -/
theorem Kept.advance (h : s.Kept) (hpending : s.system.pending = next :: pending) :
    (s.advance next pending).Kept := by
  have hsub : ∀ step ∈ pending, step ∈ s.system.pending := fun step hin =>
    hpending ▸ List.mem_cons_of_mem _ hin
  have hapi : (s.advance next pending).system.plugin.api = s.system.plugin.api :=
    s.system.plugin.store_api next
  have hheap : (s.advance next pending).system.plugin.heap = s.system.plugin.heap :=
    congrArg ApiState.heap hapi
  -- a store or a message changes no table, and no credit
  have hslots : (s.advance next pending).ledger.slots = s.ledger.slots := slots_enterMessage _ _ _
  refine { intact := h.intact.main hpending rfl rfl rfl, named := ?_,
           orderly := h.orderly.enterMessage _ _, sized := ?_, tallies := ?_, credited := ?_,
           awaited := ?_, once := ?_, sent := ?_, messages := ?_ }
  · obtain ⟨ruleOf, hnamed⟩ := h.named
    refine ⟨ruleOf, { ctx := ?_, main := ?_, held := ?_, slots := ?_, pending := ?_ }⟩
    · rw [hapi]
      exact hnamed.ctx
    · intro w i t ht
      rw [hapi]
      rcases store_tables ht with hmain | hctx
      · exact hnamed.main w i t hmain
      · exact hnamed.ctx w i t hctx
    · rw [hapi]
      exact hnamed.held
    · rw [hslots]
      exact hnamed.slots
    · exact fun desc t r hin => hnamed.pending desc t r (hsub _ hin)
  · rw [hheap]
    exact h.sized
  · rw [hheap, hslots]
    exact h.tallies
  · rw [hheap, hslots]
    exact h.credited
  · intro desc t r hin
    rw [Plugin.Serves, hapi, hheap]
    exact h.awaited desc t r (hsub _ hin)
  · have honce := h.once
    rw [hpending] at honce
    exact honce.sublist ((List.sublist_cons_self next pending).filterMap _)
  · exact (dumped_enterMessage _ _ _).trans (congrArg (· ++ _) h.sent)
  · intro d hd
    rcases mem_dumped_enterMessage hd with hd | ⟨desc, t, r, rfl, hm, hcredits⟩
    · exact h.messages d hd
    · -- the message that is sent now
      have hin : MainStep.sendSlot desc t r ∈ s.system.pending := hpending ▸ List.mem_cons_self
      obtain ⟨hlive, -, hr⟩ := h.awaited desc t r hin
      obtain ⟨ruleOf, hnamed⟩ := h.named
      obtain ⟨hid, hamounts, hkeys⟩ :=
        (h.tallies t hlive).slotDetails (h.sized t hlive).toSettled hr hm
      rw [hcredits]
      refine ⟨hamounts, fun u hu => ⟨?_, hkeys u hu⟩⟩
      rw [hid, hnamed.slots t r u hu]
      exact hnamed.pending desc t r hin

/-- The slot that is sent has not been dumped before and is not reported again. -/
theorem Counted.advance (h : s.Counted) (hkept : s.Kept)
    (hpending : s.system.pending = next :: pending) : (s.advance next pending).Counted := by
  have hapi : (s.advance next pending).system.plugin.api = s.system.plugin.api :=
    s.system.plugin.store_api next
  have hserves : ∀ t, (s.advance next pending).system.plugin.Serves t ↔ s.system.plugin.Serves t := by
    intro t
    rw [Plugin.Serves, hapi]
    rfl
  have hreported : ∀ t r, (∀ desc, next ≠ .sendSlot desc t r) →
      ((s.advance next pending).Reported t r ↔ s.Reported t r) := by
    intro t r hne
    rw [Reported, Reported, hserves, hpending]
    refine or_congr_right (exists_congr fun desc => ?_)
    show MainStep.sendSlot desc t r ∈ pending ↔ _
    rw [List.mem_cons, or_iff_right (Ne.symm (hne desc))]
  intro t r u hu
  rw [show (s.advance next pending).ledger.slots = s.ledger.slots from
    slots_enterMessage _ _ _] at hu
  cases next with
  | sendSlot desc t₀ r₀ =>
    obtain ⟨hlive, hno, hr₀⟩ := hkept.awaited desc t₀ r₀ (hpending ▸ List.mem_cons_self)
    have hdumped : ∀ m, Plugin.slotDetails desc (s.system.plugin.heap.table t₀) r₀ = some m →
        (s.advance (.sendSlot desc t₀ r₀) pending).ledger.timesDumped u =
          s.ledger.timesDumped u + (s.ledger.slots t₀ r₀).count u :=
      fun m hm => timesDumped_enterMessage hm u
    by_cases hplace : t = t₀ ∧ r = r₀
    · -- the slot that is sent: its credits are dumped for the first time, and it is not sent again
      obtain ⟨rfl, rfl⟩ := hplace
      have hbefore : s.ledger.timesDumped u = 0 :=
        (h t r u hu).1 (Or.inr ⟨desc, hpending ▸ List.mem_cons_self⟩)
      have hocc := ((hkept.tallies t hlive).occupied r (List.ne_nil_of_mem hu)).2
      obtain ⟨m, hm⟩ : ∃ m, Plugin.slotDetails desc (s.system.plugin.heap.table t) r = some m := by
        rw [Plugin.slotDetails, if_neg (not_not.mpr hocc)]
        exact ⟨_, rfl⟩
      have honce := hkept.once
      rw [hpending] at honce
      have hgone : ¬ (s.advance (.sendSlot desc t r) pending).Reported t r := by
        rintro (hserve | hawaits)
        · exact hno ((hserves t).mp hserve)
        · exact (List.nodup_cons.mp honce).1 (MainStep.awaits_iff.mp hawaits)
      refine ⟨fun hreport => absurd hreport hgone, fun _ => ?_⟩
      rw [hdumped m hm, hbefore, List.count_eq_one_of_mem (hkept.orderly.nodup t r) hu]
    · -- another slot has other credits
      have hsame : (s.advance (.sendSlot desc t₀ r₀) pending).ledger.timesDumped u =
          s.ledger.timesDumped u := by
        cases hm : Plugin.slotDetails desc (s.system.plugin.heap.table t₀) r₀ with
        | none =>
          show (s.ledger.enterMessage s.system.plugin.heap (.sendSlot desc t₀ r₀)).timesDumped u = _
          rw [Ledger.enterMessage, hm]
        | some m =>
          rw [hdumped m hm, List.count_eq_zero.mpr, Nat.add_zero]
          exact fun hin => hplace (hkept.orderly.apart t r t₀ r₀ u hu hin)
      rw [hreported t r fun desc' heq => hplace (by cases heq; exact ⟨rfl, rfl⟩), hsame]
      exact h t r u hu
  | _ =>
    -- a publication sends nothing
    rw [hreported t r fun desc heq => by cases heq]
    exact h t r u hu

end Main

/-! ### A worker makes a step -/

section Worker

/-- The system with other pointers held by frames. -/
def hold (s : Audited) (held : ℕ → ℕ → Option ℕ) : Audited :=
  ⟨{ s.system with held := held }, s.ledger⟩

/-- A frame loads what is published, or ends. -/
theorem Kept.hold (h : s.Kept) {held : ℕ → ℕ → Option ℕ} (hintact : (s.hold held).system.Intact)
    (hheld : ∀ w i t, held w i = some t →
      s.system.held w i = some t ∨ s.system.plugin.main.tables w i = some t) : (s.hold held).Kept where
  intact := hintact
  named := by
    obtain ⟨ruleOf, hnamed⟩ := h.named
    refine ⟨ruleOf, hnamed.ctx, hnamed.main, fun w i t ht => ?_, hnamed.slots, hnamed.pending⟩
    rcases hheld w i t ht with hbefore | hmain
    · exact hnamed.held w i t hbefore
    · exact hnamed.main w i t hmain
  orderly := h.orderly
  sized := h.sized
  tallies := h.tallies
  credited := h.credited
  awaited := h.awaited
  once := h.once
  sent := h.sent
  messages := h.messages

variable {t : ℕ} {u : CountedUpdate} {tick : UInt64}

/-- The system behind an update of table `t`. -/
def count (s : Audited) (t : ℕ) (u : CountedUpdate) (tick : UInt64) : Audited :=
  ⟨{ s.system with
      plugin := Interleaved.countThrough (some t) u.keyHash u.key u.pktBytes tick s.system.plugin },
    s.ledger.enterUpdate t (s.system.plugin.heap.table t) u tick⟩

/-- The tables behind an update. -/
theorem table_count (t' : ℕ) : (s.count t u tick).system.plugin.heap.table t' =
    if t' = t then ((s.system.plugin.heap.table t).update u.keyHash u.key u.pktBytes tick).2
    else s.system.plugin.heap.table t' :=
  Function.update_apply ..

/-- An update of a live table succeeds exactly when it counts in a slot. -/
theorem Kept.update_ok (h : s.Kept) (hlive : s.system.plugin.heap.Live t) (hlen : u.key.len ≤ 64)
    (tick : UInt64) :
    ((s.system.plugin.heap.table t).update u.keyHash u.key u.pktBytes tick).1 =
      ((s.system.plugin.heap.table t).countsIn u.keyHash u.key).isSome := by
  obtain ⟨hused, hroom⟩ := (h.sized t hlive).room hlen
  exact ((h.sized t hlive).toSettled.countsIn_spec hused hroom u.keyHash u.pktBytes tick).1

/-- An update for the rule of its table. -/
theorem Kept.count (h : s.Kept) (hlive : s.system.plugin.heap.Live t) (hlen : u.key.len ≤ 64)
    (hnumber : u.number = s.ledger.next) (hrule : ∀ ruleOf, s.Named ruleOf → u.rule = ruleOf t)
    (hintact : (s.count t u tick).system.Intact) : (s.count t u tick).Kept := by
  have hsized := h.sized t hlive
  -- the arena is small enough that the sums of the call do not wrap
  obtain ⟨hused, hroom⟩ := hsized.room hlen
  refine { intact := hintact, named := ?_,
           orderly := h.orderly.enterUpdate hnumber (h.update_ok hlive hlen tick),
           sized := ?_, tallies := ?_, credited := ?_, awaited := ?_, once := h.once, sent := h.sent,
           messages := h.messages }
  · obtain ⟨ruleOf, hnamed⟩ := h.named
    refine ⟨ruleOf, hnamed.ctx, hnamed.main, hnamed.held, fun t' r v hv => ?_, hnamed.pending⟩
    rcases Ledger.mem_enterUpdate.mp hv with ⟨hv, -⟩ | ⟨rfl, rfl, -⟩
    · exact hnamed.slots t' r v hv
    · exact hrule ruleOf hnamed
  · intro t' ht'
    rw [table_count]
    split
    · exact hsized.call (c := ⟨u.keyHash, u.key, u.pktBytes, tick⟩) hlen
    · exact h.sized t' ht'
  · intro t' ht'
    rw [table_count]
    show Tallies (Function.update s.ledger.slots t _ t') _
    by_cases heq : t' = t
    · subst heq
      rw [Function.update_self, if_pos rfl]
      exact (h.tallies t' hlive).step hsized.toSettled u hused hroom tick
    · rw [Function.update_of_ne heq, if_neg heq]
      exact h.tallies t' ht'
  · intro t' r hne
    obtain ⟨v, hv⟩ := List.exists_mem_of_ne_nil _ hne
    rcases Ledger.mem_enterUpdate.mp hv with ⟨hv, -⟩ | ⟨-, rfl, -⟩
    · exact h.credited t' r (List.ne_nil_of_mem hv)
    · exact hlive
  · intro desc t' r hin
    obtain ⟨hlive', hno, hr⟩ := h.awaited desc t' r hin
    refine ⟨hlive', hno, ?_⟩
    rw [table_count]
    split
    · rename_i heq
      have hn : ((s.system.plugin.heap.table t).update u.keyHash u.key u.pktBytes tick).2.numSlots =
          (s.system.plugin.heap.table t).numSlots := congrArg Prod.fst (shape_update ..)
      rw [hn]
      exact heq ▸ hr
    · exact hr

/-- An update in a slot that is reported. -/
theorem Counted.count (h : s.Counted) (hkept : s.Kept) (hnumber : u.number = s.ledger.next)
    (hreach : ∀ r, (s.system.plugin.heap.table t).countsIn u.keyHash u.key = some r →
      s.Reported t r) : (s.count t u tick).Counted := by
  intro t' r v hv
  rcases Ledger.mem_enterUpdate.mp hv with ⟨hv, -⟩ | ⟨rfl, rfl, hin⟩
  · exact h t' r v hv
  · exact ⟨fun _ => (hkept.orderly.fresh hnumber).2.2.2, fun hno => absurd (hreach r hin) hno⟩

/-- An update in a slot that is not reported any more is in no dump. -/
theorem Kept.not_exactlyOnce (h : s.Kept) (hlive : s.system.plugin.heap.Live t)
    (hlen : u.key.len ≤ 64) (hnumber : u.number = s.ledger.next) {r : ℕ}
    (hin : (s.system.plugin.heap.table t).countsIn u.keyHash u.key = some r)
    (hno : ¬ s.Reported t r) : ¬ (s.count t u tick).ExactlyOnce := by
  obtain ⟨hslots, -, hevicted, hdumped⟩ := h.orderly.fresh hnumber
  have hok := h.update_ok hlive hlen tick
  rw [hin] at hok
  intro honce
  have hgone : ¬ (s.count t u tick).ToCome u := by
    rintro ⟨t', r', hu, hreported⟩
    rcases Ledger.mem_enterUpdate.mp hu with ⟨hu, -⟩ | ⟨-, rfl, hin'⟩
    · exact hslots t' r' hu
    · obtain rfl : r = r' := Option.some.inj (hin.symm.trans hin')
      exact hno hreported
  have hkept : u ∉ (s.count t u tick).ledger.evicted := fun hu => by
    rcases Ledger.mem_enterUpdate_evicted.mp hu with hu | ⟨r', -, hu⟩
    · exact hevicted hu
    · exact hslots t r' hu
  -- the update returned true and its key stays, but it is neither dumped nor to come
  rcases honce u (Ledger.mem_enterUpdate_accepted.mpr (Or.inr ⟨rfl, hok⟩)) hkept with
    ⟨htimes, -⟩ | ⟨-, hcome⟩
  · change s.ledger.timesDumped u = 1 at htimes
    rw [hdumped] at htimes
    cases htimes
  · exact hgone hcome

end Worker

/-! ### Runs -/

/-- The event of a dump system deletes no rule. -/
theorem deletesNothing (s : Interleaved) (e : DumpEvent) : s.DeletesNothing e.event := by
  intro env id heq
  cases e <;> cases heq

/-- A request is taken up when the one before is done, and waits otherwise. -/
theorem step_request {e : DumpEvent} {request : Plugin.Request} (he : e.event = .request request)
    (henter : s.enter e = s.ledger) : s.step e = s ∨ s.system.pending = [] ∧
      s.step e = s.takeUp (s.system.plugin.operate request).1 (s.system.plugin.operate request).2 := by
  rw [step, he, henter, Interleaved.step]
  cases s.system.pending with
  | nil => exact Or.inr ⟨rfl, rfl⟩
  | cons next pending => exact Or.inl rfl

/-- What an event does: nothing; the operation of a request; the next step of the main thread; other
pointers in a frame; or an update through a pointer. -/
inductive Stepped (s : Audited) : DumpEvent → Audited → Prop
  | idle (e : DumpEvent) : Stepped s e s
  | request (e : DumpEvent) (q : Plugin) (steps : List MainStep) (hidle : s.system.pending = [])
      (hhanded : Plugin.Handed s.system.plugin q steps)
      (hmain : q.main.tables = s.system.plugin.main.tables) : Stepped s e (s.takeUp q steps)
  | main (next : MainStep) (pending : List MainStep)
      (hpending : s.system.pending = next :: pending) : Stepped s .main (s.advance next pending)
  | frame (e : DumpEvent) (held : ℕ → ℕ → Option ℕ) (hheld : ∀ w i t, held w i = some t →
      s.system.held w i = some t ∨ s.system.plugin.main.tables w i = some t) :
      Stepped s e (s.hold held)
  | update (w i : ℕ) (keyHash : UInt64) (key : FrameKey) (pktBytes tick : UInt64) (t : ℕ)
      (hheld : s.system.held w i = some t) : Stepped s (.update w i keyHash key pktBytes tick)
        (s.count t (s.entry i keyHash key pktBytes) tick)

/-- An operation leaves the published tables. -/
theorem operate_tables {es : List RuleEntry} {p : Plugin} (h : p.Sound es)
    {request : Plugin.Request} (hdel : ∀ env id, request ≠ .flowRuleDel env id) :
    (p.operate request).1.main.tables = p.main.tables :=
  (Interleaved.keeping_operate h request fun env id heq => absurd heq (hdel env id)).tables

/-- Every event is one of the known steps. -/
theorem stepped (h : s.system.Intact) (e : DumpEvent) : Stepped s e (s.step e) := by
  obtain ⟨es, hs⟩ := h.sound
  cases e with
  | add env mp =>
    rcases step_request (s := s) (e := .add env mp) rfl rfl with heq | ⟨hidle, heq⟩
    · rw [heq]
      exact .idle _
    · rw [heq]
      exact .request _ _ _ hidle (Plugin.handed_add hs env mp)
        (operate_tables hs fun _ _ heq => by cases heq)
  | dump env id =>
    rcases step_request (s := s) (e := .dump env id) rfl rfl with heq | ⟨hidle, heq⟩
    · rw [heq]
      exact .idle _
    · rw [heq]
      exact .request _ _ _ hidle (Plugin.handed_dump hs env id)
        (operate_tables hs fun _ _ heq => by cases heq)
  | main =>
    rw [step, enter, DumpEvent.event, Interleaved.step]
    cases hpending : s.system.pending with
    | nil => exact .idle _
    | cons next pending => exact .main next pending hpending
  | load w i =>
    show Stepped s _ ⟨s.system.step (.load w i), s.ledger⟩
    rw [Interleaved.step]
    split
    · exact .idle _
    · -- the frame has the published pointer at `i`, and what it had at other indices
      refine .frame _ _ fun v j t ht => ?_
      by_cases hv : v = w
      · subst hv
        rw [Function.update_self] at ht
        by_cases hj : j = i
        · subst hj
          rw [Function.update_self] at ht
          exact Or.inr ht
        · rw [Function.update_of_ne hj] at ht
          exact Or.inl ht
      · rw [Function.update_of_ne hv] at ht
        exact Or.inl ht
  | update w i keyHash key pktBytes tick =>
    rw [step, enter, DumpEvent.event, Interleaved.step]
    cases hheld : s.system.held w i with
    | none => exact .idle _
    | some t => exact .update w i keyHash key pktBytes tick t hheld
  | endFrame w =>
    refine .frame _ _ fun v j t ht => ?_
    by_cases hv : v = w
    · subst hv
      rw [Function.update_self] at ht
      cases ht
    · rw [Function.update_of_ne hv] at ht
      exact Or.inl ht

/-- Every event keeps the account. -/
theorem Kept.step (h : s.Kept) (e : DumpEvent) : (s.step e).Kept := by
  have hintact : (s.step e).system.Intact := h.intact.step (deletesNothing s.system e)
  have hstepped := stepped h.intact e
  generalize s.step e = s' at hintact hstepped
  cases hstepped with
  | idle e => exact h
  | request e q steps hidle hhanded hmain => exact h.takeUp hhanded hmain hintact
  | main next pending hpending => exact h.advance hpending
  | frame e held hheld => exact h.hold hintact hheld
  | update w i keyHash key pktBytes tick t hheld =>
    exact h.count (h.intact.held w i t hheld) key.2 rfl
      (fun _ hnamed => (hnamed.held w i t hheld).2) hintact

/-- An event in reach. -/
theorem Counted.step (h : s.Counted) (hkept : s.Kept) {e : DumpEvent} (hreach : s.InReach e) :
    (s.step e).Counted := by
  have hstepped := stepped hkept.intact e
  generalize s.step e = s' at hstepped
  cases hstepped with
  | idle e => exact h
  | request e q steps hidle hhanded hmain => exact h.takeUp hkept hidle hhanded
  | main next pending hpending => exact h.advance hkept hpending
  | frame e held hheld => exact h
  | update w i keyHash key pktBytes tick t hheld => exact h.count hkept rfl (hreach t hheld)

/-- An event out of reach is an update that no dump reports. -/
theorem Kept.break (h : s.Kept) {e : DumpEvent} (hreach : ¬ s.InReach e) :
    ¬ (s.step e).ExactlyOnce := by
  cases e with
  | update w i keyHash key pktBytes tick =>
    unfold InReach at hreach
    push Not at hreach
    obtain ⟨t, hheld, r, hin, hno⟩ := hreach
    rw [Audited.step, enter, DumpEvent.event, Interleaved.step, hheld]
    exact h.not_exactlyOnce (u := s.entry i keyHash key pktBytes) (h.intact.held w i t hheld) key.2
      rfl hin hno
  | _ => exact absurd trivial hreach

/-- In every interleaving of requests that add and dump rules with the frames of workers, the ledger
tells what the plugin does; and every update that returned true and whose key is not evicted is in one
dump, or in a slot that is reported later, exactly when no frame counts in a slot of a retired table
that the dump has passed. -/
theorem exactlyOnce_iff (vlibNumWorkers : ℕ) (events : List DumpEvent) :
    Runs.Throughout step Faithful (start vlibNumWorkers) events ∧
      (Runs.Throughout step ExactlyOnce (start vlibNumWorkers) events ↔
        Runs.Meets step InReach (start vlibNumWorkers) events) := by
  constructor
  · intro pre post _
    have hkept := Runs.always (kept_start vlibNumWorkers) (fun _ e h => h.step e) pre
    exact hkept.faithful
  · refine Runs.throughout_iff_meets (I := fun s => s.Kept ∧ s.Counted) ?_ ?_ ?_ ?_
    · exact ⟨kept_start vlibNumWorkers, fun _ _ _ hu => absurd hu List.not_mem_nil⟩
    · exact fun _ e h hreach => ⟨h.1.step e, h.2.step h.1 hreach⟩
    · exact fun _ h => h.1.exactlyOnce h.2
    · exact fun _ _ h hreach => h.1.break hreach

/-- A rule is added and a frame of a worker thread loads its table; the rule is dumped, up to the last slot
of that worker. -/
def loadedAndDumped : List DumpEvent :=
  .add (envAt 0) protoRuleMsg :: List.replicate 131 .main ++
    [.load 1 0, .dump (envAt 1) protoRuleId] ++ List.replicate 135 .main

/-- The frame counts a packet of 64 bytes. -/
def lateUpdate : DumpEvent := .update 1 0 7 ⟨.one 6, by decide⟩ 64 1

/-- The packet is in no dump, and no dump will report it. -/
theorem late_update_lost :
    ¬ Runs.Throughout step ExactlyOnce (start 1) (loadedAndDumped ++ [lateUpdate]) := by
  intro h
  have hlast := h (loadedAndDumped ++ [lateUpdate]) [] (List.append_nil _).symm
  rw [Runs.run_concat] at hlast
  have hkept := Runs.always (kept_start 1) (fun _ e h => h.step e) loadedAndDumped
  have hheld : (Runs.run step (start 1) loadedAndDumped).system.held 1 0 = some 1 := by
    decide +kernel
  have hin : ((Runs.run step (start 1) loadedAndDumped).system.plugin.heap.table 1).countsIn 7
      ⟨[6], by decide⟩ = some 1 := by decide +kernel
  have hpending : (Runs.run step (start 1) loadedAndDumped).system.pending = [] := by
    decide +kernel
  -- the update goes to a table that neither the context nor a dump reaches any more
  refine hkept.break (e := lateUpdate) (fun hreach => ?_) hlast
  rcases hreach 1 hheld 1 hin with ⟨w, i, ht⟩ | ⟨desc, hawaits⟩
  · -- the context has other tables for the rule
    obtain ⟨es, hs⟩ := hkept.intact.sound
    have hcells : ∀ w < 2, (Runs.run step (start 1) loadedAndDumped).system.plugin.api.ctx.tables w
        0 ≠ some 1 := by decide +kernel
    have hw : w < 2 := by
      by_contra hge
      have hnw : (Runs.run step (start 1) loadedAndDumped).system.plugin.api.nw = 2 := by
        decide +kernel
      rw [hs.aligned.row_of_ge (hnw.trans_le (Nat.le_of_not_lt hge)) i] at ht
      cases ht
    have hi : i < 1 := by
      by_contra hge
      have hcount : (Runs.run step (start 1) loadedAndDumped).system.plugin.api.ruleSet.count = 1 := by
        decide +kernel
      rw [hs.aligned.table_of_ge ((hs.aligned.count_eq.symm.trans hcount).trans_le
        (Nat.le_of_not_lt hge)) w] at ht
      cases ht
    obtain rfl : i = 0 := Nat.lt_one_iff.mp hi
    exact hcells w hw ht
  · rw [hpending] at hawaits
    exact List.not_mem_nil hawaits

end Audited

end InFMon
