import InFMon.Foundations.Runs
import InFMon.Frontend.StatsPaths

/-! # The latest snapshot

Two threads store the latest snapshot, and a pulled one can overtake an older one that is still in the
channel. The stored snapshot never gets older exactly when this does not happen. -/

namespace InFMon.Frontend

namespace StatsPaths

/-! ### The order of the snapshots -/

/-- A snapshot is followed by one that is not older. -/
def NotOlder (before after : Option FlowStatsSnapshot) : Prop :=
  ∀ x, before = some x → ∃ y, after = some y ∧ x.tickId ≤ y.tickId

/-- From no state of the run to a later one does the stored snapshot get older. -/
def NeverBack (s : StatsPaths) (events : List StatsEvent) : Prop :=
  ∀ pre mid post, events = pre ++ mid ++ post →
    NotOlder (Runs.run step s pre).latest (Runs.run step s (pre ++ mid)).latest

/-- No reply is based on an older snapshot than a reply before it. -/
def RepliesInOrder (s : StatsPaths) : Prop :=
  s.replies.Pairwise fun earlier later => NotOlder earlier.base later.base

/-- When the control thread stores a snapshot, no newer one is stored yet, and no older one is on its
way through the channel. -/
def InOrder (s : StatsPaths) : StatsEvent → Prop
  | .pullStore => ∀ snap, s.pull = .received snap →
    (∀ x, s.latest = some x → x.tickId ≤ snap.tickId) ∧
    ∀ x, s.forwarded = some x ∨ s.stats = some x → snap.tickId ≤ x.tickId
  | _ => True

/-- The poller does not run out of ticks. -/
def TicksLeft (s : StatsPaths) : StatsEvent → Prop
  | .tick _ _ | .pullSnapshot _ => s.poller.tickId.toNat + 1 < 2 ^ 64
  | _ => True

/-- `snapshot-to-control` stores what is on its way. -/
def deliver : List StatsEvent := [.forwardStore, .forwardRecv, .forwardStore]

/-- A snapshot is not older than itself. -/
theorem notOlder_refl (a : Option FlowStatsSnapshot) : NotOlder a a :=
  fun x hx => ⟨x, hx, UInt64.le_refl _⟩

/-- Not being older carries over. -/
theorem NotOlder.trans {a b c : Option FlowStatsSnapshot} (hab : NotOlder a b)
    (hbc : NotOlder b c) : NotOlder a c := by
  intro x hx
  obtain ⟨y, hy, hxy⟩ := hab x hx
  obtain ⟨z, hz, hyz⟩ := hbc y hy
  exact ⟨z, hz, UInt64.le_trans hxy hyz⟩

/-- A snapshot is not older than another one by their ticks. -/
theorem notOlder_some {a : Option FlowStatsSnapshot} {y : FlowStatsSnapshot} :
    NotOlder a (some y) ↔ ∀ x, a = some x → x.tickId ≤ y.tickId := by
  constructor
  · intro h x hx
    obtain ⟨z, hz, hle⟩ := h x hx
    rwa [Option.some.inj hz]
  · exact fun h x hx => ⟨y, rfl, h x hx⟩

/-- A snapshot of an earlier tick is older. -/
theorem not_notOlder {a b : Option FlowStatsSnapshot} {m n : UInt64}
    (ha : a.map FlowStatsSnapshot.tickId = some m) (hb : b.map FlowStatsSnapshot.tickId = some n)
    (hlt : n < m) : ¬ NotOlder a b := by
  intro h
  obtain ⟨x, hx, rfl⟩ := Option.map_eq_some_iff.mp ha
  obtain ⟨y, hy, hle⟩ := h x hx
  rw [hy, Option.map_some, Option.some.injEq] at hb
  rw [hb] at hle
  exact absurd hlt (UInt64.not_lt.mpr hle)

/-- A run never goes back when none of its steps does. -/
theorem neverBack_iff {s : StatsPaths} {events : List StatsEvent} : NeverBack s events ↔
    Runs.Meets step (fun s e => NotOlder s.latest (s.step e).latest) s events := by
  constructor
  · intro h pre e post hsplit
    have hstep := h pre [e] post (by rw [hsplit, List.append_assoc, List.singleton_append])
    rwa [Runs.run_concat] at hstep
  · intro h pre mid post hsplit
    induction mid using List.reverseRecOn generalizing post with
    | nil => rw [List.append_nil]; exact notOlder_refl _
    | append_singleton mid e ih =>
      refine (ih (e :: post) ?_).trans ?_
      · rw [hsplit, ← List.append_assoc, List.append_assoc _ [e] post, List.singleton_append]
      · rw [← List.append_assoc, Runs.run_concat]
        refine h (pre ++ mid) e post ?_
        rw [hsplit, ← List.append_assoc, List.append_assoc _ [e] post, List.singleton_append]

/-! ### What is on its way -/

variable {s : StatsPaths}

/-- No snapshot is newer than the poller's tick, and on the way to the state of the control server they
are in order. -/
structure Ordered (s : StatsPaths) : Prop where
  taken : ∀ x, s.poller.place.snap? = some x → x.tickId = s.poller.tickId
  pull_le : ∀ x, s.pull.snap? = some x → x.tickId ≤ s.poller.tickId
  stats_le : ∀ x, s.stats = some x → x.tickId ≤ s.poller.tickId
  forwarded_le : ∀ x, s.forwarded = some x → x.tickId ≤ s.poller.tickId
  latest_le : ∀ x, s.latest = some x → x.tickId ≤ s.poller.tickId
  forwarded_stats : ∀ f x, s.forwarded = some f → s.stats = some x → f.tickId ≤ x.tickId
  latest_coming : ∀ c x, s.latest = some c → s.forwarded = some x ∨ s.stats = some x →
    c.tickId ≤ x.tickId
  stored : ∀ x, s.pull = .stored x → NotOlder (some x) s.latest ∧
    ∀ r ∈ s.replies, NotOlder r.base (some x)
  replies : ∀ r ∈ s.replies, NotOlder r.base s.latest
  inOrder : s.RepliesInOrder

/-- At the start there is nothing to be in order. -/
theorem ordered_start (initialRules : List FlowRule) : (start initialRules).Ordered where
  taken _ hx := by cases hx
  pull_le _ hx := by cases hx
  stats_le _ hx := by cases hx
  forwarded_le _ hx := by cases hx
  latest_le _ hx := by cases hx
  forwarded_stats _ _ hf := by cases hf
  latest_coming _ _ hc := by cases hc
  stored _ hx := by cases hx
  replies _ hr := absurd hr List.not_mem_nil
  inOrder := List.Pairwise.nil

/-! ### One step -/

/-- The step takes no snapshot, and passes none on to the control server's state. -/
def Quiet : StatsEvent → Prop
  | .tick _ _ | .pullSnapshot _ | .send | .forwardRecv | .forwardStore | .pullStore => False
  | _ => True

/-- A quiet step leaves the tick, the stored snapshot and what is on its way. -/
theorem quiet_step {e : StatsEvent} (h : Quiet e) : (s.step e).latest = s.latest ∧
    (s.step e).forwarded = s.forwarded ∧ (s.step e).stats = s.stats ∧
    (s.step e).poller.tickId = s.poller.tickId := by
  have hsame : ∀ {t : StatsPaths}, t = s → t.latest = s.latest ∧ t.forwarded = s.forwarded ∧
      t.stats = s.stats ∧ t.poller.tickId = s.poller.tickId := fun heq => heq ▸ ⟨rfl, rfl, rfl, rfl⟩
  -- what is not a tick, a send or a store touches neither the snapshots nor the tick
  cases e with
  | tick | pullSnapshot | send | forwardRecv | forwardStore | pullStore => exact absurd h id
  | tryRecv =>
    rw [step, tryRecv]
    split
    · split
      · exact ⟨rfl, rfl, rfl, rfl⟩
      · exact ⟨rfl, rfl, rfl, rfl⟩
    · exact hsame rfl
  | reply =>
    rw [step, reply]
    split
    · exact ⟨rfl, rfl, rfl, rfl⟩
    · exact ⟨rfl, rfl, rfl, rfl⟩
    · exact hsame rfl
  | pullRequest =>
    rw [step, pullRequest]
    split
    · split
      · exact ⟨rfl, rfl, rfl, rfl⟩
      · exact hsame rfl
    · exact hsame rfl
  | pullRecv =>
    rw [step, pullRecv]
    split
    · exact ⟨rfl, rfl, rfl, rfl⟩
    · exact hsame rfl
  | pullTimeout =>
    rw [step, pullTimeout]
    split
    · exact ⟨rfl, rfl, rfl, rfl⟩
    · exact hsame rfl
  | pullAnswer =>
    rw [step, pullAnswer]
    split
    · exact ⟨rfl, rfl, rfl, rfl⟩
    · exact hsame rfl
  | flowRuleShow | statsShow =>
    rw [step, showing]
    split
    · exact ⟨rfl, rfl, rfl, rfl⟩
    · exact hsame rfl
  | rules control =>
    rw [step, changeRules]
    split
    · exact ⟨rfl, rfl, rfl, rfl⟩
    · exact hsame rfl

/-- Sending leaves the latest snapshot. -/
theorem latest_send : s.send.latest = s.latest := by
  unfold send
  split <;> rfl

/-- Receiving leaves the latest snapshot. -/
theorem latest_forwardRecv : s.forwardRecv.latest = s.latest := by
  unfold forwardRecv
  split <;> rfl

/-- While ticks are left, the next one is newer. -/
theorem le_next {tickId : UInt64} (h : tickId.toNat + 1 < 2 ^ 64) : tickId ≤ tickId + 1 := by
  rw [UInt64.le_iff_toNat_le, UInt64.toNat_add, UInt64.toNat_one, Nat.mod_eq_of_lt h]
  exact Nat.le_succ _

namespace Ordered

/-- The poller goes on, and its tick with it. -/
theorem advance (h : s.Ordered) {poller : PollerState} (hle : s.poller.tickId ≤ poller.tickId)
    (htaken : ∀ x, poller.place.snap? = some x → x.tickId = poller.tickId) :
    ({ s with poller := poller } : StatsPaths).Ordered :=
  { h with
    taken := htaken
    pull_le := fun x hx => UInt64.le_trans (h.pull_le x hx) hle
    stats_le := fun x hx => UInt64.le_trans (h.stats_le x hx) hle
    forwarded_le := fun x hx => UInt64.le_trans (h.forwarded_le x hx) hle
    latest_le := fun x hx => UInt64.le_trans (h.latest_le x hx) hle }

/-- The poller goes on without a snapshot. -/
theorem moves (h : s.Ordered) {place : PollerPlace}
    (hplace : ∀ x, place.snap? = some x → s.poller.place.snap? = some x) :
    ({ s with poller := { s.poller with place := place } } : StatsPaths).Ordered :=
  h.advance (UInt64.le_refl _) fun x hx => h.taken x (hplace x hx)

/-- A tick keeps the order. -/
theorem tick (h : s.Ordered) (connects : Bool) (polled : Option Poll)
    (hticks : s.poller.tickId.toNat + 1 < 2 ^ 64) :
    ({ s with poller := StatsPaths.tick connects polled s.poller } : StatsPaths).Ordered := by
  unfold StatsPaths.tick
  split
  · rename_i hplace
    split
    · exact h
    · dsimp only
      cases polled with
      | none =>
        refine h.advance (UInt64.le_refl _) fun x hx => ?_
        rw [hplace] at hx
        cases hx
      | some poll =>
        refine h.advance (le_next hticks) fun x hx => ?_
        obtain rfl := Option.some.inj hx
        rfl
  · exact h

/-- A pull by the poller keeps the order. -/
theorem pullSnapshot (h : s.Ordered) (polled : Option Poll)
    (hticks : s.poller.tickId.toNat + 1 < 2 ^ 64) :
    ({ s with poller := StatsPaths.pullSnapshot polled s.poller } : StatsPaths).Ordered := by
  unfold StatsPaths.pullSnapshot
  split
  · cases polled with
    | none => exact h.moves fun x hx => by cases hx
    | some poll =>
      refine h.advance (le_next hticks) fun x hx => ?_
      obtain rfl := Option.some.inj hx
      rfl
  · exact h

/-- The control thread goes on, and has stored nothing yet. -/
theorem takes (h : s.Ordered) {pull : PullPlace}
    (hle : ∀ x, pull.snap? = some x → x.tickId ≤ s.poller.tickId)
    (hstored : ∀ x, pull ≠ .stored x) : ({ s with pull := pull } : StatsPaths).Ordered :=
  { h with
    pull_le := hle
    stored := fun x hx => absurd hx (hstored x) }

/-- What the channel takes is not older than what is in front of it. -/
theorem trySend (h : s.Ordered) {snap : FlowStatsSnapshot}
    (hsnap : s.poller.place.snap? = some snap) :
    ({ s with stats := StatsPaths.trySend snap s.stats } : StatsPaths).Ordered := by
  cases hstats : s.stats with
  | some queued =>
    have hsame : StatsPaths.trySend snap (some queued) = s.stats := by
      rw [hstats]
      rfl
    rw [hsame]
    exact h
  | none =>
    have htick := h.taken snap hsnap
    refine { h with
      stats_le := fun x hx => ?_
      forwarded_stats := fun f x hf hx => ?_
      latest_coming := fun c x hc hx => ?_ }
    · obtain rfl := Option.some.inj hx
      exact UInt64.le_of_eq htick
    · obtain rfl := Option.some.inj hx
      rw [htick]
      exact h.forwarded_le f hf
    · rcases hx with hx | hx
      · exact h.latest_coming c x hc (Or.inl hx)
      · obtain rfl := Option.some.inj hx
        rw [htick]
        exact h.latest_le c hc

/-- Sending a snapshot keeps the order. -/
theorem send (h : s.Ordered) : s.send.Ordered := by
  unfold StatsPaths.send
  split
  · rename_i snap hplace
    exact (h.trySend (by rw [hplace]; rfl)).moves fun x hx => by cases hx
  · rename_i snap waiters hplace
    refine (h.trySend (by rw [hplace]; rfl)).moves fun x hx => ?_
    show s.poller.place.snap? = some x
    rw [hplace]
    exact hx
  · exact h

/-- Taking up a pull request keeps the order. -/
theorem tryRecv (h : s.Ordered) : s.tryRecv.Ordered := by
  unfold StatsPaths.tryRecv
  split
  · rename_i waiters _
    split
    · rename_i id pulls _
      have hplace : ∀ x, (PollerPlace.drain (waiters ++ [id])).snap? = some x →
          s.poller.place.snap? = some x := fun x hx => by cases hx
      exact { h.moves hplace with }
    · refine h.moves fun x hx => ?_
      split at hx
      · cases hx
      · cases hx
  · exact h

/-- Replying keeps the order. -/
theorem reply (h : s.Ordered) : s.reply.Ordered := by
  unfold StatsPaths.reply
  split
  · exact h.moves fun x hx => by cases hx
  · rename_i snap w waiters hplace
    have hsnap : s.poller.place.snap? = some snap := by
      rw [hplace]
      rfl
    have hplace : ∀ x, (PollerPlace.reply snap waiters).snap? = some x →
        s.poller.place.snap? = some x := fun x hx => hsnap.trans hx
    have hmoved := h.moves hplace
    dsimp only
    split
    · rename_i id hpull
      split
      · -- the control thread still waits on this channel
        refine hmoved.takes (fun x hx => ?_) fun x => PullPlace.noConfusion
        obtain rfl := Option.some.inj hx
        exact UInt64.le_of_eq (h.taken _ hsnap)
      · exact hmoved
    · exact hmoved
  · exact h

/-- Receiving in the forwarder keeps the order. -/
theorem forwardRecv (h : s.Ordered) : s.forwardRecv.Ordered := by
  unfold StatsPaths.forwardRecv
  split
  · exact
      { h with
        stats_le := fun x hx => by cases hx
        forwarded_le := h.stats_le
        forwarded_stats := fun f x _ hx => by cases hx
        latest_coming := fun c x hc hx =>
          h.latest_coming c x hc (Or.inr (hx.resolve_right fun hnone => by cases hnone)) }
  · exact h

/-- What the forwarder stores is not older than what was there. -/
theorem forwardStore (h : s.Ordered) :
    s.forwardStore.Ordered ∧ NotOlder s.latest s.forwardStore.latest := by
  unfold StatsPaths.forwardStore
  split
  · rename_i snap hsnap
    have hlater : NotOlder s.latest (some snap) :=
      notOlder_some.mpr fun c hc => h.latest_coming c snap hc (Or.inl hsnap)
    refine ⟨{ h with
      forwarded_le := fun x hx => by cases hx
      latest_le := fun x hx => ?_
      forwarded_stats := fun f x hf => by cases hf
      latest_coming := fun c x hc hx => ?_
      stored := fun x hx => ⟨(h.stored x hx).1.trans hlater, (h.stored x hx).2⟩
      replies := fun r hr => (h.replies r hr).trans hlater }, hlater⟩
    · obtain rfl := Option.some.inj hx
      exact h.forwarded_le _ hsnap
    · obtain rfl := Option.some.inj hc
      exact h.forwarded_stats _ x hsnap (hx.resolve_left fun hnone => by cases hnone)
  · exact ⟨h, notOlder_refl _⟩

/-- A new pull request keeps the order. -/
theorem pullRequest (h : s.Ordered) : s.pullRequest.Ordered := by
  unfold StatsPaths.pullRequest
  split
  · split
    · have hwaits : ∀ x, (PullPlace.waiting s.pullCount none).snap? = some x →
          x.tickId ≤ s.poller.tickId := fun x hx => by cases hx
      exact { h.takes hwaits fun x => PullPlace.noConfusion with }
    · exact h
  · exact h

/-- Receiving a reply keeps the order. -/
theorem pullRecv (h : s.Ordered) : s.pullRecv.Ordered := by
  unfold StatsPaths.pullRecv
  split
  · rename_i id snap hpull
    refine h.takes (fun x hx => h.pull_le x ?_) fun x => PullPlace.noConfusion
    rw [hpull]
    exact hx
  · exact h

/-- A pull that gives up keeps the order. -/
theorem pullTimeout (h : s.Ordered) : s.pullTimeout.Ordered := by
  unfold StatsPaths.pullTimeout
  split
  · exact h.takes (fun x hx => by cases hx) fun x => PullPlace.noConfusion
  · exact h

/-- What a pull stores in order is not older than what was there. -/
theorem pullStore (h : s.Ordered) (horder : s.InOrder .pullStore) :
    s.pullStore.Ordered ∧ NotOlder s.latest s.pullStore.latest := by
  unfold StatsPaths.pullStore
  split
  · rename_i snap hpull
    obtain ⟨hbefore, hcoming⟩ := horder snap hpull
    have hlater : NotOlder s.latest (some snap) := notOlder_some.mpr hbefore
    have hle : snap.tickId ≤ s.poller.tickId := h.pull_le snap (by rw [hpull]; rfl)
    refine ⟨{ h with
      pull_le := fun x hx => ?_
      latest_le := fun x hx => ?_
      latest_coming := fun c x hc hx => ?_
      stored := fun x hx => ?_
      replies := fun r hr => (h.replies r hr).trans hlater }, hlater⟩
    · obtain rfl := Option.some.inj hx
      exact hle
    · obtain rfl := Option.some.inj hx
      exact hle
    · obtain rfl := Option.some.inj hc
      exact hcoming x hx
    · obtain rfl := PullPlace.stored.inj hx
      exact ⟨notOlder_refl _, fun r hr => (h.replies r hr).trans hlater⟩
  · exact ⟨h, notOlder_refl _⟩

/-- A reply that is based on a snapshot between those of the replies before and the stored one. -/
theorem answers (h : s.Ordered) {reply : StatsReply} (hbase : NotOlder reply.base s.latest)
    (hbefore : ∀ r ∈ s.replies, NotOlder r.base reply.base) :
    ({ s with pull := .idle, replies := s.replies ++ [reply] } : StatsPaths).Ordered := by
  refine { h with
    pull_le := fun x hx => by cases hx
    stored := fun x hx => by cases hx
    replies := fun r hr => ?_
    inOrder := ?_ }
  · rcases List.mem_append.mp hr with hr | hr
    · exact h.replies r hr
    · rw [List.mem_singleton.mp hr]
      exact hbase
  · refine List.pairwise_append.mpr ⟨h.inOrder, List.pairwise_singleton _ _, fun r hr r' hr' => ?_⟩
    rw [List.mem_singleton.mp hr']
    exact hbefore r hr

/-- Answering keeps the order. -/
theorem pullAnswer (h : s.Ordered) : s.pullAnswer.Ordered := by
  unfold StatsPaths.pullAnswer
  split
  · rename_i snap hpull
    exact h.answers (h.stored snap hpull).1 (h.stored snap hpull).2
  · exact h

/-- A request that only shows keeps the order. -/
theorem showing (h : s.Ordered) (response : ControlState → Response) :
    (s.showing response).Ordered := by
  unfold StatsPaths.showing
  split
  · rename_i hpull
    have hbase : NotOlder (StatsReply.mk s.latest (response s.control)).base s.latest :=
      notOlder_refl _
    have hanswered := h.answers hbase h.replies
    rwa [← hpull] at hanswered
  · exact h

/-- A change of the rules keeps the order. -/
theorem changeRules (h : s.Ordered) (control : ControlState) : (s.changeRules control).Ordered := by
  unfold StatsPaths.changeRules
  split
  · exact { h with }
  · exact h

/-- A step keeps the order, and the stored snapshot does not get older. -/
theorem step (h : s.Ordered) {e : StatsEvent} (hticks : s.TicksLeft e) (horder : s.InOrder e) :
    (s.step e).Ordered ∧ NotOlder s.latest (s.step e).latest := by
  have hsame : ∀ {t : StatsPaths}, t.latest = s.latest → NotOlder s.latest t.latest :=
    fun heq => heq ▸ notOlder_refl _
  have hquiet : Quiet e → NotOlder s.latest (s.step e).latest := fun hq => hsame (quiet_step hq).1
  cases e with
  | forwardStore => exact h.forwardStore
  | pullStore => exact h.pullStore horder
  | send => exact ⟨h.send, hsame latest_send⟩
  | forwardRecv => exact ⟨h.forwardRecv, hsame latest_forwardRecv⟩
  | tick connects polled => exact ⟨h.tick connects polled hticks, hsame rfl⟩
  | pullSnapshot polled => exact ⟨h.pullSnapshot polled hticks, hsame rfl⟩
  | tryRecv => exact ⟨h.tryRecv, hquiet trivial⟩
  | reply => exact ⟨h.reply, hquiet trivial⟩
  | pullRequest => exact ⟨h.pullRequest, hquiet trivial⟩
  | pullRecv => exact ⟨h.pullRecv, hquiet trivial⟩
  | pullTimeout => exact ⟨h.pullTimeout, hquiet trivial⟩
  | pullAnswer => exact ⟨h.pullAnswer, hquiet trivial⟩
  | flowRuleShow name => exact ⟨h.showing _, hquiet trivial⟩
  | statsShow name => exact ⟨h.showing _, hquiet trivial⟩
  | rules control => exact ⟨h.changeRules control, hquiet trivial⟩

end Ordered

/-! ### What is on its way arrives -/

/-- A snapshot on its way is stored by the step, or still on its way. -/
theorem coming_step {x : FlowStatsSnapshot} (h : s.forwarded = some x ∨ s.stats = some x)
    (e : StatsEvent) : (s.step e).latest = some x ∨ (s.step e).forwarded = some x ∨
      (s.step e).stats = some x := by
  have hquiet := @quiet_step s e
  cases e with
  | tick | pullSnapshot => exact Or.inr h
  | send =>
    refine Or.inr (h.imp (fun hf => ?_) fun hx => ?_)
    · rw [step, send]
      split <;> exact hf
    · -- the channel keeps what it has
      have hfull : ∀ snap, trySend snap s.stats = some x := fun snap => by rw [hx]; rfl
      rw [step, send]
      split
      · exact hfull _
      · exact hfull _
      · exact hx
  | forwardRecv =>
    rw [step, forwardRecv]
    split
    · rename_i hnone
      exact Or.inr (Or.inl (h.resolve_left (by rw [hnone]; exact nofun)))
    · exact Or.inr h
  | forwardStore =>
    rw [step, forwardStore]
    split
    · rename_i f hf
      rcases h with hx | hx
      · exact Or.inl (hf.symm.trans hx)
      · exact Or.inr (Or.inr hx)
    · exact Or.inr h
  | pullStore =>
    rw [step, pullStore]
    split <;> exact Or.inr h
  | _ =>
    obtain ⟨-, hforwarded, hstats, -⟩ := hquiet trivial
    exact Or.inr (h.imp hforwarded.trans hstats.trans)

/-- The control server has stored what was forwarded, and what is in the channel comes next. -/
theorem forwardStore_forwarded : s.forwardStore.forwarded = none ∧
    s.forwardStore.stats = s.stats := by
  unfold forwardStore
  split
  · exact ⟨rfl, rfl⟩
  · rename_i hnone
    exact ⟨hnone, rfl⟩

/-- The forwarder stores what it has received. -/
theorem forwardStore_latest {x : FlowStatsSnapshot} (h : s.forwarded = some x) :
    s.forwardStore.latest = some x := by
  rw [forwardStore, h]
  rfl

/-- A snapshot on its way is stored at some time, at the latest when everything is delivered. -/
theorem coming_stored {x : FlowStatsSnapshot} (h : s.forwarded = some x ∨ s.stats = some x)
    (events : List StatsEvent) :
    ∃ pre post, events ++ deliver = pre ++ post ∧ (Runs.run step s pre).latest = some x := by
  induction events generalizing s with
  | nil =>
    rcases h with hx | hx
    · exact ⟨[.forwardStore], _, rfl, forwardStore_latest hx⟩
    · refine ⟨deliver, [], rfl, ?_⟩
      obtain ⟨hforwarded, hstats⟩ := forwardStore_forwarded (s := s)
      show s.forwardStore.forwardRecv.forwardStore.latest = _
      refine forwardStore_latest ?_
      rw [forwardRecv, hforwarded]
      exact hstats.trans hx
  | cons e events ih =>
    rcases coming_step h e with hstored | hcoming
    · exact ⟨[e], events ++ deliver, rfl, hstored⟩
    · obtain ⟨pre, post, hsplit, hlatest⟩ := ih hcoming
      exact ⟨e :: pre, post, by rw [List.cons_append, hsplit, List.cons_append], hlatest⟩

/-! ### Runs -/

/-- Every state behind steps in order has its snapshots in order. -/
theorem ordered_run {initialRules : List FlowRule} {events : List StatsEvent}
    (hticks : Runs.Meets step TicksLeft (start initialRules) events)
    (horder : Runs.Meets step InOrder (start initialRules) events) :
    (Runs.run step (start initialRules) events).Ordered ∧
      NeverBack (start initialRules) events := by
  have hboth : Runs.Meets step (fun s e => s.TicksLeft e ∧ s.InOrder e) (start initialRules)
      events := fun pre e post hsplit => ⟨hticks pre e post hsplit, horder pre e post hsplit⟩
  have hstep : ∀ (s : StatsPaths) e, s.Ordered → s.TicksLeft e ∧ s.InOrder e →
      (s.step e).Ordered := fun s e h hcond => (h.step hcond.1 hcond.2).1
  refine ⟨Runs.invariant (ordered_start initialRules) hstep hboth, neverBack_iff.mpr ?_⟩
  intro pre e post hsplit
  have hpre := Runs.meets_append.mp (hsplit ▸ hboth)
  exact ((Runs.invariant (ordered_start initialRules) hstep hpre.1).step
    (hticks pre e post hsplit) (horder pre e post hsplit)).2

/-- In a run that never goes back, not even when everything is delivered, the pulled snapshots are
stored in order. -/
theorem inOrder_of_neverBack {events : List StatsEvent} (h : NeverBack s (events ++ deliver)) :
    Runs.Meets step InOrder s events := by
  intro pre e post hsplit
  cases e with
  | pullStore =>
    intro snap hpull
    -- the pulled snapshot is stored, and nothing that is stored later may be older
    have hstored : (Runs.run step s (pre ++ [.pullStore])).latest = some snap := by
      rw [Runs.run_concat]
      show (Runs.run step s pre).pullStore.latest = _
      rw [pullStore, hpull]
      rfl
    constructor
    · have hlast := h pre [.pullStore] (post ++ deliver) (by
        rw [hsplit, List.append_assoc, List.append_assoc]
        rfl)
      rw [hstored] at hlast
      exact notOlder_some.mp hlast
    · -- what is on its way is stored later
      intro x hx
      have hcoming : (Runs.run step s (pre ++ [.pullStore])).forwarded = some x ∨
          (Runs.run step s (pre ++ [.pullStore])).stats = some x := by
        rw [Runs.run_concat]
        show (Runs.run step s pre).pullStore.forwarded = _ ∨ (Runs.run step s pre).pullStore.stats = _
        rw [pullStore, hpull]
        exact hx
      obtain ⟨mid, rest, hmid, hlatest⟩ := coming_stored hcoming post
      have hlater := h (pre ++ [.pullStore]) mid rest (by
        rw [hsplit, List.append_assoc, List.cons_append, hmid, List.append_assoc,
          List.append_assoc]
        rfl)
      rw [hstored, Runs.run_append, hlatest] at hlater
      exact notOlder_some.mp hlater snap rfl
  | _ => trivial

/-- In every interleaving in which the poller has ticks left, the stored snapshot never gets older, also
when what is on its way arrives, exactly when the control thread stores its snapshots in order. Then the
replies are in order too. -/
theorem neverBack_iff_inOrder (initialRules : List FlowRule) (events : List StatsEvent)
    (hticks : Runs.Meets step TicksLeft (start initialRules) events) :
    (Runs.Meets step InOrder (start initialRules) events ↔
      NeverBack (start initialRules) (events ++ deliver)) ∧
    (Runs.Meets step InOrder (start initialRules) events →
      (Runs.run step (start initialRules) events).RepliesInOrder) := by
  have hdeliver : ∀ s : StatsPaths, Runs.Meets step TicksLeft s deliver ∧
      Runs.Meets step InOrder s deliver := by
    intro s
    have hcases : ∀ e ∈ deliver, e = .forwardStore ∨ e = .forwardRecv := by simp [deliver]
    constructor
    · refine Runs.meets_of_forall fun e he s => ?_
      rcases hcases e he with rfl | rfl
      · exact trivial
      · exact trivial
    · refine Runs.meets_of_forall fun e he s => ?_
      rcases hcases e he with rfl | rfl
      · exact trivial
      · exact trivial
  refine ⟨⟨fun horder => ?_, inOrder_of_neverBack⟩, fun horder => (ordered_run hticks horder).1.inOrder⟩
  exact (ordered_run (Runs.meets_append.mpr ⟨hticks, (hdeliver _).1⟩)
    (Runs.meets_append.mpr ⟨horder, (hdeliver _).2⟩)).2

/-! ### Ticks -/

/-- A step takes at most one tick. -/
theorem tickId_step (e : StatsEvent) :
    (s.step e).poller.tickId.toNat ≤ s.poller.tickId.toNat + 1 := by
  -- the id may wrap, but then it falls
  have hnext : (s.poller.tickId + 1).toNat ≤ s.poller.tickId.toNat + 1 := by
    rw [UInt64.toNat_add, UInt64.toNat_one]
    exact Nat.mod_le _ _
  have hsame : ∀ {t : StatsPaths}, t.poller.tickId = s.poller.tickId →
      t.poller.tickId.toNat ≤ s.poller.tickId.toNat + 1 := fun heq => by
    rw [heq]
    exact Nat.le_succ _
  have hquiet := @quiet_step s e
  cases e with
  | tick connects polled =>
    rw [step, StatsPaths.tick]
    split
    · split
      · exact Nat.le_succ _
      · cases polled with
        | none => exact Nat.le_succ _
        | some poll => exact hnext
    · exact Nat.le_succ _
  | pullSnapshot polled =>
    rw [step, StatsPaths.pullSnapshot]
    split
    · cases polled with
      | none => exact Nat.le_succ _
      | some poll => exact hnext
    · exact Nat.le_succ _
  | send =>
    rw [step, send]
    split <;> exact Nat.le_succ _
  | forwardRecv =>
    rw [step, forwardRecv]
    split <;> exact Nat.le_succ _
  | forwardStore =>
    rw [step, forwardStore]
    split <;> exact Nat.le_succ _
  | pullStore =>
    rw [step, pullStore]
    split <;> exact Nat.le_succ _
  | _ => exact hsame (hquiet trivial).2.2.2

/-- A run of fewer than `2 ^ 64` steps does not run out of ticks. -/
theorem ticksLeft_of_length {initialRules : List FlowRule} {events : List StatsEvent}
    (hlen : events.length < 2 ^ 64) :
    Runs.Meets step TicksLeft (start initialRules) events := by
  have hrun : ∀ pre : List StatsEvent,
      (Runs.run step (start initialRules) pre).poller.tickId.toNat ≤ pre.length := by
    intro pre
    induction pre using List.reverseRecOn with
    | nil => exact Nat.le_refl _
    | append_singleton pre e ih =>
      rw [Runs.run_concat, List.length_append]
      exact (tickId_step e).trans (Nat.add_le_add_right ih 1)
  intro pre e post hsplit
  have hticks := hrun pre
  have hpre : pre.length < events.length := by
    rw [hsplit, List.length_append, List.length_cons]
    omega
  cases e with
  | tick | pullSnapshot => exact Nat.lt_of_le_of_lt (Nat.succ_le_succ hticks) (by omega)
  | _ => trivial

/-! ### A tick that is overtaken -/

/-- A snapshot without rules. -/
def emptyPoll : Poll where
  hash := ⟨id, List.Perm.refl⟩
  raw := ⟨[]⟩
  wall := 0
  mono := 0

/-- The poller takes a snapshot and sends it. -/
def ticked : List StatsEvent := [.tick true (some emptyPoll), .send]

/-- The control thread pulls a snapshot, and the poller hands it out. -/
def pulled : List StatsEvent :=
  [.pullRequest, .tryRecv, .tryRecv, .pullSnapshot (some emptyPoll), .send, .reply, .pullRecv]

/-- The control thread stores the pulled snapshot and answers. -/
def answered : List StatsEvent := [.pullStore, .pullAnswer]

/-- The snapshot of the tick is still in the channel when the pulled one is stored. -/
def overtaken : List StatsEvent :=
  ticked ++ pulled ++ answered ++ [.forwardRecv, .forwardStore, .statsShow none]

/-- After the pull has answered with tick 2, the statistics of tick 1 are stored and shown. -/
theorem overtaken_goes_back :
    ¬ NeverBack (start []) overtaken ∧
      (Runs.run step (start []) overtaken).replies.map
        (fun r => r.base.map FlowStatsSnapshot.tickId) = [some 2, some 1] ∧
      ¬ (Runs.run step (start []) overtaken).RepliesInOrder := by
  have hreplies : (Runs.run step (start []) overtaken).replies.map
      (fun r => r.base.map FlowStatsSnapshot.tickId) = [some 2, some 1] := by decide +kernel
  refine ⟨fun h => ?_, hreplies, fun h => ?_⟩
  · have hback := h (ticked ++ pulled ++ answered) [.forwardRecv, .forwardStore] [.statsShow none] rfl
    exact not_notOlder (m := 2) (n := 1) (by decide +kernel) (by decide +kernel) (by decide) hback
  · obtain ⟨r, rest, hrest, hr, htail⟩ := List.map_eq_cons_iff.mp hreplies
    obtain ⟨r', rest', hrest', hr', -⟩ := List.map_eq_cons_iff.mp htail
    rw [RepliesInOrder, hrest, hrest'] at h
    exact not_notOlder hr hr' (by decide) (List.rel_of_pairwise_cons h List.mem_cons_self)

/-- The snapshot of the tick is stored before the pull. -/
def inTurn : List StatsEvent :=
  ticked ++ [.forwardRecv, .forwardStore] ++ pulled ++ .pullStore :: [.pullAnswer, .statsShow none]

/-- The stored snapshot then never gets older, and the replies are in order. -/
theorem inTurn_neverBack : NeverBack (start []) (inTurn ++ deliver) ∧
    (Runs.run step (start []) inTurn).RepliesInOrder := by
  have hinOrder : Runs.Meets step InOrder (start []) inTurn := by
    rw [inTurn, Runs.meets_append, Runs.meets_cons]
    refine ⟨Runs.meets_of_forall (by simp [ticked, pulled, InOrder]), fun snap hpull => ?_,
      Runs.meets_of_forall (by simp [InOrder])⟩
    generalize hs : Runs.run step (start []) (ticked ++ [.forwardRecv, .forwardStore] ++ pulled) = s
      at hpull ⊢
    have hticks : (s.pull.snap?.map FlowStatsSnapshot.tickId,
        s.latest.map FlowStatsSnapshot.tickId, s.forwarded.map FlowStatsSnapshot.tickId,
        s.stats.map FlowStatsSnapshot.tickId) = (some 2, some 1, none, some 2) := by
      rw [← hs]
      decide +kernel
    obtain ⟨hsnap, hlatest, hforwarded, hstats⟩ : snap.tickId = 2 ∧
        s.latest.map FlowStatsSnapshot.tickId = some 1 ∧ s.forwarded = none ∧
        s.stats.map FlowStatsSnapshot.tickId = some 2 := by
      simpa [hpull, PullPlace.snap?] using hticks
    rw [hsnap]
    constructor
    · intro x hx
      rw [hx, Option.map_some, Option.some.injEq] at hlatest
      rw [hlatest]
      decide
    · intro x hx
      have hcoming := hx.resolve_left (by rw [hforwarded]; exact nofun)
      rw [hcoming, Option.map_some, Option.some.injEq] at hstats
      exact UInt64.le_of_eq hstats.symm
  obtain ⟨hback, hreplies⟩ := neverBack_iff_inOrder [] inTurn (ticksLeft_of_length (by decide))
  exact ⟨hback.mp hinOrder, hreplies hinOrder⟩

end StatsPaths

end InFMon.Frontend
