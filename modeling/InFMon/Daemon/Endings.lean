import InFMon.Daemon.Accounting
import InFMon.Daemon.Pulls
import InFMon.Foundations.FairRuns

/-! # How the threads end

Under every fair schedule the poller ends when its flag is set, the thread behind it when the poller has
ended, an exporter when its senders are gone, and the control thread when it is woken with its flag set.
Each of them has a rank that its own steps lower and that the others do not raise. -/

namespace InFMon.Daemon

open BoundedChannel Frontend Otlp FairRuns

/-- The pull requests are being taken out of their channel. -/
def PollerAt.isDraining : PollerAt → Bool
  | .draining _ => true
  | _ => false

namespace Process

variable {n : ℕ} {setup : Setup n} {s s' : Process n}

/-! ### The poller -/

/-- What the control thread may still add to a drain: a request, unless it waits for a reply. -/
def credit (s : Process n) : ℕ :=
  match s.control with
  | .waiting _ none true => 0
  | _ => 3

/-- How far the poller is from its end, once its flag is set. -/
def pollerRank (setup : Setup n) (s : Process n) : ℕ :=
  match s.poller.place with
  | .gone => 0
  | .head => 1
  | .sleeping _ _ => 2
  | .resting _ => 3
  | .replying _ waiters => 4 + waiters.length
  | .sending _ next (some waiters) => 5 + waiters.length + (setup.senders - next)
  | .pulling waiters => 6 + waiters.length + setup.senders
  | .draining waiters => 7 + setup.senders + waiters.length + 2 * s.pulls.length + s.credit
  | .sending _ next none => 19 + setup.senders + (setup.senders - next)
  | .polling => 20 + 2 * setup.senders
  | .connecting => 21 + 2 * setup.senders

/-- There are three credits at most. -/
theorem credit_le (s : Process n) : s.credit ≤ 3 := by
  unfold credit
  split <;> omega

/-- With the flag set, every step of the poller brings it nearer to its end. -/
theorem pollerRank_poller (h : s.PullsSound) (hstop : s.pollerStop = true)
    (hgone : s.pollerIsGone = false) (input : PollerInput) :
    (s.pollerStep setup input).pollerRank setup < s.pollerRank setup := by
  have hmove := s.pollerStep_move setup input
  -- every case compares the ranks of the place before and the place after
  have hrank : ∀ {place : PollerAt}, s.poller.place = place → s.pollerRank setup =
      pollerRank setup { s with poller := { s.poller with place := place } } := by
    rintro place rfl
    rfl
  generalize s.pollerStep setup input = s' at hmove ⊢
  cases hmove with
  | ends hat => rw [hrank hat]; exact Nat.zero_lt_one
  | begins hat hnot => rw [hstop] at hnot; cases hnot
  | connects hat =>
    rw [hrank hat]
    show 20 + 2 * setup.senders < 21 + 2 * setup.senders
    omega
  | connectFails hat =>
    rw [hrank hat]
    show 2 < 21 + 2 * setup.senders
    omega
  | pollFails hat =>
    rw [hrank hat]
    show 1 < 20 + 2 * setup.senders
    omega
  | polls hat =>
    rw [hrank hat]
    show 19 + setup.senders + (setup.senders - 0) < 20 + 2 * setup.senders
    omega
  | @sends snap next pulled hat hlt =>
    rw [hrank hat]
    cases pulled with
    | none =>
      show 19 + setup.senders + (setup.senders - (next + 1)) <
        19 + setup.senders + (setup.senders - next)
      omega
    | some waiters =>
      show 5 + waiters.length + (setup.senders - (next + 1)) <
        5 + waiters.length + (setup.senders - next)
      omega
  | @sent snap next hat hge =>
    rw [hrank hat]
    have hpulls : s.pulls.length ≤ 4 := h.pulls_le
    have hcredit := s.credit_le
    show 7 + setup.senders + 0 + 2 * s.pulls.length + s.credit <
      19 + setup.senders + (setup.senders - next)
    omega
  | @sentPulled snap next waiters hat hge =>
    rw [hrank hat]
    show 4 + waiters.length < 5 + waiters.length + (setup.senders - next)
    omega
  | @drains waiters pulls id hat hpulls =>
    rw [hrank hat]
    show 7 + setup.senders + (waiters ++ [id]).length + 2 * pulls.length + s.credit <
      7 + setup.senders + waiters.length + 2 * s.pulls.length + s.credit
    rw [hpulls, List.length_append, List.length_cons, List.length_cons, List.length_nil]
    omega
  | @drained waiters hat hpulls =>
    rw [hrank hat]
    by_cases hnil : waiters = []
    · rw [if_pos hnil]
      show 3 < 7 + setup.senders + waiters.length + 2 * s.pulls.length + s.credit
      omega
    · rw [if_neg hnil]
      show 6 + waiters.length + setup.senders <
        7 + setup.senders + waiters.length + 2 * s.pulls.length + s.credit
      omega
  | @pullFails waiters hat =>
    rw [hrank hat]
    show 3 < 6 + waiters.length + setup.senders
    omega
  | @pulls waiters hat =>
    rw [hrank hat]
    show 5 + waiters.length + (setup.senders - 0) < 6 + waiters.length + setup.senders
    omega
  | replied hat => rw [hrank hat]; exact Nat.lt_succ_self 3
  | replyWaits hat hblocks =>
    rw [h.replyBlocks hat] at hblocks
    cases hblocks
  | @replies snap waiter waiters hat =>
    rw [hrank hat]
    show 4 + waiters.length < 4 + (waiters.length + 1)
    omega
  | rests hat => rw [hrank hat]; exact Nat.lt_succ_self 2
  | wakes hat => rw [hrank hat]; exact Nat.lt_succ_self 1
  | sleeps hat hnot => rw [hstop] at hnot; cases hnot
  | gone hat =>
    rw [pollerIsGone, hat] at hgone
    cases hgone

/-- The control thread adds no more to the channel than it has credit for, unless it gives up
waiting. -/
theorem credit_control (input : ControlInput) (htime : input.timesOut = false) :
    2 * (s.controlStep input).pulls.length + (s.controlStep input).credit ≤
      2 * s.pulls.length + s.credit := by
  have hother : ∀ {control : ControlAt}, s.control = control →
      (∀ id, control ≠ .waiting id none true) → s.credit = 3 := by
    rintro control rfl hne
    unfold credit
    split
    · rename_i id hcontrol
      exact absurd hcontrol (hne id)
    · rfl
  unfold controlStep
  split
  · rename_i hcontrol
    have hcredit := hother hcontrol (by intro id h; cases h)
    split
    · exact le_rfl
    · split <;> rw [hcredit] <;> exact le_rfl
  · rename_i hcontrol
    have hcredit := hother hcontrol (by intro id h; cases h)
    rw [hcredit]
    split
    · split
      · exact le_rfl
      · split
        -- the credit pays for the request that is sent
        · show 2 * (s.pulls ++ [s.pullCount]).length + 0 ≤ 2 * s.pulls.length + 3
          rw [List.length_append, List.length_singleton]
          omega
        · exact le_rfl
    · exact le_rfl
  · rename_i id reply answerable hcontrol
    split
    · rename_i snap
      rw [hother hcontrol (by intro id h; cases h)]
      exact le_rfl
    · split
      · rename_i hends
        rw [htime] at hends
        rcases hends with hfalse | hfalse
        · rw [hother hcontrol (by intro id h; rw [hfalse] at h; cases h)]
          exact le_rfl
        · cases hfalse
      · exact le_rfl
  · rename_i snap hcontrol
    rw [hother hcontrol (by intro id h; cases h)]
    exact le_rfl
  · exact le_rfl

/-- What leaves the poller, the pull requests and the control thread alone leaves the rank. -/
theorem pollerRank_congr (hpoller : s'.poller = s.poller) (hpulls : s'.pulls = s.pulls)
    (hcontrol : s'.control = s.control) : s'.pollerRank setup = s.pollerRank setup := by
  rw [pollerRank, pollerRank, credit, credit, hpoller, hpulls, hcontrol]

/-- No other thread takes the poller back, if no pull gives up during a drain. -/
theorem pollerRank_step (event : Event n) (hnot : event.owner ≠ some .poller)
    (htime : ∀ input, event = .control input → input.timesOut = true →
      s.poller.place.isDraining = false) :
    (s.step setup event).pollerRank setup ≤ s.pollerRank setup := by
  cases event with
  | main =>
    obtain ⟨hpoller, -, -, -, hcontrol, hpulls, -⟩ := s.mainStep_frame setup
    exact (pollerRank_congr hpoller hpulls hcontrol).le
  | poller => exact absurd rfl hnot
  | control input =>
    have hpoller := (s.controlStep_frame input).2.2.2.2.1
    rw [Process.step, pollerRank, pollerRank, hpoller]
    cases hplace : s.poller.place with
    | draining waiters =>
      -- a request that arrives while the poller drains is paid for by the credit
      have hcredit := credit_control (s := s) input (by
        by_contra htrue
        have hdraining := htime input rfl (Bool.not_eq_false _ ▸ htrue)
        rw [hplace] at hdraining
        cases hdraining)
      dsimp only
      omega
    | sending snap next pulled => cases pulled <;> exact le_rfl
    | _ => exact le_rfl
  | forwarder =>
    rw [Process.step, forwarderStep_frame]
    exact le_rfl
  | abandon =>
    rw [Process.step]
    split <;> exact le_rfl
  | exporter | signal | connect | unlink => exact le_rfl

/-! ### The thread behind the poller -/

/-- The poller holds the only sender of the channel behind it. -/
def StatsWired (s : Process n) : Prop := s.stats.senders = (!s.pollerIsGone).toNat

/-- The wiring depends on the senders and on the poller only. -/
theorem StatsWired.congr (h : s.StatsWired) (hstats : s'.stats.senders = s.stats.senders)
    (hgone : s'.pollerIsGone = s.pollerIsGone) : s'.StatsWired := by
  rw [StatsWired, hstats, hgone]
  exact h

/-- The forwarder leaves the senders. -/
theorem senders_forwarder (s : Process n) : s.forwarderStep.stats.senders = s.stats.senders := by
  unfold forwarderStep
  split
  · split
    · exact Channel.senders_take _
    · rfl
    · rfl
  · rfl
  · rfl

/-- Every event keeps the wiring. -/
theorem StatsWired.step (h : s.StatsWired) (event : Event n) : (s.step setup event).StatsWired := by
  cases event with
  | main =>
    obtain ⟨hpoller, -, hstats, -⟩ := s.mainStep_frame setup
    exact h.congr (congrArg Channel.senders hstats)
      (congrArg (fun poller => poller.place.isGone) hpoller)
  | poller input =>
    have hmove := s.pollerStep_move setup input
    rw [Process.step]
    -- the poller keeps its sender until it is gone
    have hlocal : ∀ {place : PollerAt}, s.poller.place = place → place.isGone = false →
        (s.pollerStep setup input).poller.place.isGone = false →
        (s.pollerStep setup input).stats.senders = s.stats.senders →
        (s.pollerStep setup input).StatsWired := by
      rintro place rfl hbefore hafter hstats
      exact h.congr hstats (hafter.trans hbefore.symm)
    generalize s.pollerStep setup input = s' at hmove hlocal ⊢
    cases hmove with
    | ends hat =>
      rw [StatsWired, pollerIsGone, hat] at h
      show s.stats.senders - 1 = 0
      rw [h]
      rfl
    | begins hat =>
      refine hlocal hat rfl ?_ rfl
      show PollerAt.isGone (if _ then _ else _) = false
      split <;> rfl
    | sends hat =>
      refine hlocal hat rfl rfl ?_
      show Channel.senders (if _ then s.stats else s.stats.trySend _) = s.stats.senders
      split <;> rfl
    | drained hat =>
      refine hlocal hat rfl ?_ rfl
      show PollerAt.isGone (if _ then _ else _) = false
      split <;> rfl
    | connects hat | connectFails hat | pollFails hat | polls hat | sent hat | sentPulled hat
    | drains hat | pullFails hat | pulls hat | replied hat | replies hat | rests hat | wakes hat
    | sleeps hat => exact hlocal hat rfl rfl rfl
    | replyWaits | gone => exact h
  | forwarder =>
    refine h.congr s.senders_forwarder ?_
    rw [Process.step, forwarderStep_frame]
    rfl
  | control input =>
    obtain ⟨-, -, -, -, hpoller, -, -, hstats, -⟩ := s.controlStep_frame input
    exact h.congr (congrArg Channel.senders hstats)
      (congrArg (fun poller => poller.place.isGone) hpoller)
  | abandon =>
    rw [Process.step]
    split <;> exact h.congr rfl rfl
  | exporter | signal | connect | unlink => exact h.congr rfl rfl

/-- How far the thread is from its end, once the poller has ended. -/
def forwarderRank (s : Process n) : ℕ :=
  match s.forwarder with
  | .gone => 0
  | .receiving => 2 * s.stats.queue.length + 1
  | .storing _ => 2 * s.stats.queue.length + 2

/-- Once the poller is gone, each step brings the forwarder nearer to its end. -/
theorem forwarderRank_forwarder (h : s.StatsWired) (hpoller : s.pollerIsGone = true)
    (hgone : s.forwarder.isGone = false) : s.forwarderStep.forwarderRank < s.forwarderRank := by
  rw [StatsWired, hpoller] at h
  unfold forwarderStep forwarderRank
  cases hplace : s.forwarder with
  | gone =>
    rw [hplace] at hgone
    cases hgone
  | storing snap =>
    show 2 * s.stats.queue.length + 1 < 2 * s.stats.queue.length + 2
    omega
  | receiving =>
    cases hreceipt : s.stats.receipt with
    | value snap =>
      show 2 * s.stats.take.queue.length + 2 < 2 * s.stats.queue.length + 1
      rw [(Channel.take_of_value hreceipt).1, List.length_cons]
      omega
    | closed => exact Nat.succ_pos _
    -- there is no sender to wait for
    | waits => exact absurd h (Channel.senders_ne_zero_of_waits hreceipt)

/-- Other threads do not take it back. -/
theorem forwarderRank_step (hpoller : s.pollerIsGone = true) (event : Event n)
    (hnot : event.owner ≠ some .forwarder) :
    (s.step setup event).forwarderRank = s.forwarderRank := by
  cases event with
  | main =>
    obtain ⟨-, -, hstats, hforwarder, -⟩ := s.mainStep_frame setup
    rw [forwarderRank, forwarderRank, Process.step, hstats, hforwarder]
  | poller input => rw [Process.step, pollerMove_of_gone (s.pollerStep_move setup input) hpoller]
  | forwarder => exact absurd rfl hnot
  | control input =>
    obtain ⟨-, -, -, -, -, -, -, hstats, hforwarder⟩ := s.controlStep_frame input
    rw [forwarderRank, forwarderRank, Process.step, hstats, hforwarder]
  | abandon =>
    rw [Process.step]
    split <;> rfl
  | exporter | signal | connect | unlink => rfl

/-! ### The exporters -/

/-- How far an exporter thread is from its end, once no sender is left. -/
def laneRank (lane : Lane) : ℕ :=
  match lane.place with
  | .gone => 0
  | .closing => 1
  | .receiving => 4 * lane.channel.queue.length + 2
  | .backingOff => 4 * lane.channel.queue.length + 3
  | .exporting _ => 4 * lane.channel.queue.length + 4
  | .starting => 4 * lane.channel.queue.length + 5

/-- Once no sender is left, each step brings the exporter nearer to its end. -/
theorem laneRank_step {e : OtlpExporter} {lane : Lane} (hsenders : lane.channel.senders = 0)
    (hgone : lane.place.isGone = false) (input : ExporterInput) :
    laneRank (lane.step e input) < laneRank lane := by
  unfold Lane.step
  cases hplace : lane.place with
  | gone =>
    rw [hplace] at hgone
    cases hgone
  | starting =>
    rw [laneRank, laneRank, hplace]
    cases input.runtime with
    | true =>
      show 4 * lane.channel.queue.length + 2 < 4 * lane.channel.queue.length + 5
      omega
    | false => exact Nat.succ_pos _
  | receiving =>
    rw [laneRank, laneRank, hplace]
    -- no sender is left, so the channel answers at once
    cases hreceipt : lane.channel.receipt with
    | value snap =>
      show 4 * lane.channel.take.queue.length + 4 < 4 * lane.channel.queue.length + 2
      rw [(Channel.take_of_value hreceipt).1, List.length_cons]
      omega
    | closed =>
      show 1 < 4 * lane.channel.queue.length + 2
      omega
    | waits => exact absurd hsenders (Channel.senders_ne_zero_of_waits hreceipt)
  | exporting snap =>
    have hcases := Lane.afterExport_cases (e.export input.env snap lane.thread.exporter).1
    rw [laneRank, laneRank, hplace]
    dsimp only
    rcases hcases with h | h | h <;> rw [h] <;> dsimp only <;> omega
  | backingOff =>
    rw [laneRank, laneRank, hplace]
    show 4 * lane.channel.queue.length + 2 < 4 * lane.channel.queue.length + 3
    omega
  | closing =>
    rw [laneRank, laneRank, hplace]
    exact Nat.zero_lt_one

/-- Other threads do not take it back. -/
theorem laneRank_other (hpoller : s.pollerIsGone = true) {i : Fin n} (event : Event n)
    (hnot : event.owner ≠ some (.exporter i)) :
    laneRank ((s.step setup event).lanes i) = laneRank (s.lanes i) := by
  cases event with
  | main =>
    rw [Process.step]
    rcases s.mainStep_cases setup with h | ⟨-, -, h⟩ | ⟨task, rest, -, -, h⟩
    · rw [h]
    · rw [h]
    · rw [h]
      cases task <;> rfl
  | poller input => rw [Process.step, pollerMove_of_gone (s.pollerStep_move setup input) hpoller]
  | exporter j input =>
    show laneRank (Function.update s.lanes j _ i) = _
    rw [Function.update_of_ne fun heq => hnot (by rw [heq]; rfl)]
  | forwarder => rw [Process.step, forwarderStep_frame]
  | control input => rw [Process.step, (s.controlStep_frame input).2.2.2.2.2.2.1]
  | abandon =>
    rw [Process.step]
    split <;> rfl
  | signal | connect | unlink => rfl

/-! ### The control thread -/

/-- The control thread was told to stop, and something is there that wakes it. -/
def Woken (s : Process n) : Prop :=
  s.controlStop = true ∧ (0 < s.pending ∨ s.control.isGone = true)

/-- How far the control thread is from its end, once it is woken and the poller has ended. -/
def controlRank (s : Process n) : ℕ :=
  match s.control with
  | .gone => 0
  | .accepting => 1
  | .storing _ => 2
  | .waiting _ _ _ => 3
  | .serving => 4

/-- Once it is woken, each step brings the control server nearer to its end. -/
theorem controlRank_control (h : s.PullsSound) (hpoller : s.pollerIsGone = true) (hwoken : s.Woken)
    (hgone : s.control.isGone = false) (input : ControlInput) :
    (s.controlStep input).controlRank < s.controlRank := by
  obtain ⟨hstop, hpending⟩ := hwoken
  have hpending := hpending.resolve_right (by rw [hgone]; exact Bool.false_ne_true)
  have hagrees := h.control
  unfold controlStep controlRank
  cases hplace : s.control with
  | gone =>
    rw [hplace] at hgone
    cases hgone
  | accepting =>
    dsimp only
    rw [if_neg (Nat.ne_of_gt hpending), if_pos hstop]
    exact Nat.zero_lt_one
  | serving =>
    dsimp only
    by_cases hpulls : input.pulls = true
    · rw [if_pos hpulls, if_pos hpoller]
      show 1 < 4
      omega
    · rw [if_neg hpulls]
      show 1 < 4
      omega
  | waiting id reply answerable =>
    rw [hplace, outstanding, h.gone hpoller] at hagrees
    have hwaiters : s.poller.place.waiters = [] := by
      rw [pollerIsGone] at hpoller
      cases hat : s.poller.place with
      | gone => rfl
      | _ => rw [hat] at hpoller; cases hpoller
    rw [hwaiters] at hagrees
    cases reply with
    | some snap =>
      show 2 < 3
      omega
    | none =>
      -- nobody is left who could answer
      have hfalse : answerable = false := by
        cases answerable with
        | false => rfl
        | true => exact absurd (hagrees.2 rfl) List.not_mem_nil
      dsimp only
      rw [if_pos (Or.inl hfalse)]
      show 1 < 3
      omega
  | storing snap =>
    show 1 < 2
    omega

/-- Other threads do not take it back. -/
theorem controlRank_step (hpoller : s.pollerIsGone = true) (event : Event n)
    (hnot : event.owner ≠ some .control) : (s.step setup event).controlRank = s.controlRank := by
  cases event with
  | main => rw [controlRank, controlRank, Process.step, (s.mainStep_frame setup).2.2.2.2.1]
  | poller input => rw [Process.step, pollerMove_of_gone (s.pollerStep_move setup input) hpoller]
  | forwarder =>
    rw [Process.step, forwarderStep_frame]
    rfl
  | control => exact absurd rfl hnot
  | abandon =>
    rw [Process.step]
    split <;> rfl
  | exporter | signal | connect | unlink => rfl

end Process

end InFMon.Daemon
