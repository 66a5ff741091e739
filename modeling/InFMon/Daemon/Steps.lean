import InFMon.Daemon.Threads
import InFMon.Foundations.Runs

/-! # What a step of the threads can do

The steps of the poller by where it is, and what the other threads leave as it was. A thread that has ended
stays ended. -/

namespace InFMon.Daemon

open BoundedChannel Frontend Otlp

namespace Process

variable {n : ℕ} (setup : Setup n) (s : Process n)

/-! ### The poller -/

/-- What the next step of the poller does. -/
inductive PollerMove : Process n → Prop
  | ends (hat : s.poller.place = .head) (hstop : s.pollerStop = true) : PollerMove s.pollerEnds
  | begins (hat : s.poller.place = .head) (hstop : s.pollerStop = false) :
    PollerMove (s.pollerTo (if s.poller.connected then .polling else .connecting))
  | connects (hat : s.poller.place = .connecting) :
    PollerMove { s with
      poller :=
        { s.poller with connected := true, backoff := minBackoff, prevMono := 0, place := .polling } }
  | connectFails (hat : s.poller.place = .connecting) :
    PollerMove { s with
      poller :=
        { s.poller with
          backoff := min (s.poller.backoff * 2) maxBackoff
          place := .sleeping s.poller.backoff [] } }
  | pollFails (hat : s.poller.place = .polling) :
    PollerMove { s with poller := { s.poller with connected := false, place := .head } }
  | polls (hat : s.poller.place = .polling) (poll : Poll) : PollerMove (s.take poll none)
  | sends {snap : FlowStatsSnapshot} {next : ℕ} {pulled : Option (List ℕ)}
    (hat : s.poller.place = .sending snap next pulled) (hlt : next < setup.senders) :
    PollerMove ((s.send snap next).pollerTo (.sending snap (next + 1) pulled))
  | sent {snap : FlowStatsSnapshot} {next : ℕ} (hat : s.poller.place = .sending snap next none)
    (hge : setup.senders ≤ next) : PollerMove (s.pollerTo (.draining []))
  | sentPulled {snap : FlowStatsSnapshot} {next : ℕ} {waiters : List ℕ}
    (hat : s.poller.place = .sending snap next (some waiters)) (hge : setup.senders ≤ next) :
    PollerMove (s.pollerTo (.replying snap waiters))
  | drains {waiters pulls : List ℕ} {id : ℕ} (hat : s.poller.place = .draining waiters)
    (hpulls : s.pulls = id :: pulls) :
    PollerMove ({ s with pulls := pulls }.pollerTo (.draining (waiters ++ [id])))
  | drained {waiters : List ℕ} (hat : s.poller.place = .draining waiters) (hpulls : s.pulls = []) :
    PollerMove (s.pollerTo (if waiters = [] then .resting [] else .pulling waiters))
  | pullFails {waiters : List ℕ} (hat : s.poller.place = .pulling waiters) :
    PollerMove (s.pollerTo (.resting waiters))
  | pulls {waiters : List ℕ} (hat : s.poller.place = .pulling waiters) (poll : Poll) :
    PollerMove (s.take poll (some waiters))
  | replied {snap : FlowStatsSnapshot} (hat : s.poller.place = .replying snap []) :
    PollerMove (s.pollerTo (.resting []))
  | replyWaits {snap : FlowStatsSnapshot} {waiter : ℕ} {waiters : List ℕ}
    (hat : s.poller.place = .replying snap (waiter :: waiters))
    (hblocks : s.control.replyBlocks waiter = true) : PollerMove s
  | replies {snap : FlowStatsSnapshot} {waiter : ℕ} {waiters : List ℕ}
    (hat : s.poller.place = .replying snap (waiter :: waiters))
    (hblocks : s.control.replyBlocks waiter = false) :
    PollerMove ((s.reply snap waiter).pollerTo (.replying snap waiters))
  | rests {waiters : List ℕ} (hat : s.poller.place = .resting waiters) (remaining : ℕ) :
    PollerMove (s.pollerTo (.sleeping remaining waiters))
  | wakes {remaining : ℕ} {waiters : List ℕ} (hat : s.poller.place = .sleeping remaining waiters) :
    PollerMove ((s.forget waiters).pollerTo .head)
  | sleeps {remaining : ℕ} {waiters : List ℕ} (hat : s.poller.place = .sleeping remaining waiters)
    (hstop : s.pollerStop = false) (rest : ℕ) : PollerMove (s.pollerTo (.sleeping rest waiters))
  | gone (hat : s.poller.place = .gone) : PollerMove s

/-- Every step of the poller is one of these. -/
theorem pollerStep_move (input : PollerInput) : PollerMove setup s (s.pollerStep setup input) := by
  -- one branch for each place, in the order of the definition
  unfold pollerStep
  split
  · rename_i hat
    split
    · rename_i hstop
      exact .ends hat hstop
    · rename_i hstop
      exact .begins hat (Bool.eq_false_iff.mpr hstop)
  · rename_i hat
    split
    · exact .connects hat
    · exact .connectFails hat
  · rename_i hat
    split
    · exact .pollFails hat
    · exact .polls hat _
  · rename_i snap next pulled hat
    split
    · rename_i hlt
      exact .sends hat hlt
    · rename_i hge
      cases pulled with
      | none => exact .sent hat (Nat.le_of_not_lt hge)
      | some waiters => exact .sentPulled hat (Nat.le_of_not_lt hge)
  · rename_i waiters hat
    split
    · rename_i id pulls hpulls
      exact .drains hat hpulls
    · rename_i hpulls
      exact .drained hat hpulls
  · rename_i waiters hat
    split
    · exact .pullFails hat
    · exact .pulls hat _
  · rename_i snap waiters hat
    cases waiters with
    | nil => exact .replied hat
    | cons waiter waiters =>
      dsimp only
      split
      · rename_i hblocks
        exact .replyWaits hat hblocks
      · rename_i hblocks
        exact .replies hat (Bool.eq_false_iff.mpr hblocks)
  · rename_i waiters hat
    exact .rests hat _
  · rename_i remaining waiters hat
    split
    · exact .wakes hat
    · rename_i h
      exact .sleeps hat (Bool.eq_false_iff.mpr fun hstop => h (Or.inr hstop)) _
  · rename_i hat
    exact .gone hat

variable {setup s} {s' : Process n}

/-- The poller leaves the main thread, the thread behind it and the flags alone. -/
theorem PollerMove.frame (h : PollerMove setup s s') :
    s'.main = s.main ∧ s'.sendersHeld = s.sendersHeld ∧ s'.pollerStop = s.pollerStop ∧
      s'.controlStop = s.controlStop ∧ s'.forwarder = s.forwarder ∧ s'.pending = s.pending ∧
      s'.socket = s.socket ∧ s'.pullCount = s.pullCount := by
  cases h <;> exact ⟨rfl, rfl, rfl, rfl, rfl, rfl, rfl, rfl⟩

/-- Forgetting waiters neither ends nor starts the control server. -/
theorem isGone_forget (waiters : List ℕ) (place : ControlAt) :
    (place.forget waiters).isGone = place.isGone := by
  cases place <;> rfl

/-- A reply neither ends nor starts the control server. -/
theorem isGone_reply (snap : FlowStatsSnapshot) (waiter : ℕ) (place : ControlAt) :
    (place.reply snap waiter).isGone = place.isGone := by
  rcases place with _ | _ | ⟨id, _ | _, answerable⟩ | _ | _ <;> rfl

/-- The poller does not end the control thread. -/
theorem PollerMove.control_isGone (h : PollerMove setup s s') :
    s'.control.isGone = s.control.isGone := by
  cases h with
  | ends | wakes => exact isGone_forget _ _
  | replies => exact isGone_reply _ _ _
  | _ => rfl

/-! ### The main thread -/

variable (setup s) in
/-- The main thread stays where it is, begins to stop the others, or does a task. -/
theorem mainStep_cases : s.mainStep setup = s ∨
    (s.main = .running ∧ s.shutdown = true ∧
      s.mainStep setup = { s with main := .tasks (stopTasks setup) }) ∨
    ∃ task rest, s.main = .tasks (task :: rest) ∧ s.blocks task = false ∧
      s.mainStep setup = { s.perform task with main := .tasks rest } := by
  unfold mainStep
  split
  · rename_i hmain
    split
    · rename_i hshutdown
      exact Or.inr (Or.inl ⟨hmain, hshutdown, rfl⟩)
    · exact Or.inl rfl
  · exact Or.inl rfl
  · rename_i task rest hmain
    split
    · exact Or.inl rfl
    · rename_i hblocks
      exact Or.inr (Or.inr ⟨task, rest, hmain, Bool.eq_false_iff.mpr hblocks, rfl⟩)

section Perform

variable (s) (task : Task n)

/-- What the main thread does leaves the poller. -/
@[simp] theorem poller_perform : (s.perform task).poller = s.poller := by cases task <;> rfl

/-- What the main thread does produces no snapshot. -/
@[simp] theorem produced_perform : (s.perform task).produced = s.produced := by cases task <;> rfl

/-- What the main thread does leaves the stats channel. -/
@[simp] theorem stats_perform : (s.perform task).stats = s.stats := by cases task <;> rfl

/-- What the main thread does leaves the forwarder. -/
@[simp] theorem forwarder_perform : (s.perform task).forwarder = s.forwarder := by
  cases task <;> rfl

/-- What the main thread does leaves the control server. -/
@[simp] theorem control_perform : (s.perform task).control = s.control := by cases task <;> rfl

/-- What the main thread does leaves the pull requests. -/
@[simp] theorem pulls_perform : (s.perform task).pulls = s.pulls := by cases task <;> rfl

/-- What the main thread does leaves the number of pull requests. -/
@[simp] theorem pullCount_perform : (s.perform task).pullCount = s.pullCount := by
  cases task <;> rfl

/-- What the main thread does leaves the socket. -/
@[simp] theorem socket_perform : (s.perform task).socket = s.socket := by cases task <;> rfl

end Perform

variable (setup s) in
/-- The main thread leaves the others where they are. -/
theorem mainStep_frame :
    (s.mainStep setup).poller = s.poller ∧ (s.mainStep setup).produced = s.produced ∧
      (s.mainStep setup).stats = s.stats ∧ (s.mainStep setup).forwarder = s.forwarder ∧
      (s.mainStep setup).control = s.control ∧ (s.mainStep setup).pulls = s.pulls ∧
      (s.mainStep setup).pullCount = s.pullCount ∧ (s.mainStep setup).socket = s.socket := by
  rcases s.mainStep_cases setup with h | ⟨-, -, h⟩ | ⟨task, rest, -, -, h⟩
  · rw [h]
    exact ⟨rfl, rfl, rfl, rfl, rfl, rfl, rfl, rfl⟩
  · rw [h]
    exact ⟨rfl, rfl, rfl, rfl, rfl, rfl, rfl, rfl⟩
  · rw [h]
    exact ⟨s.poller_perform task, s.produced_perform task, s.stats_perform task,
      s.forwarder_perform task, s.control_perform task, s.pulls_perform task,
      s.pullCount_perform task, s.socket_perform task⟩

/-! ### The control thread and the thread behind the poller -/

variable (s) in
/-- The control thread leaves the other threads and their channels alone. -/
theorem controlStep_frame (input : ControlInput) :
    (s.controlStep input).main = s.main ∧ (s.controlStep input).sendersHeld = s.sendersHeld ∧
      (s.controlStep input).pollerStop = s.pollerStop ∧
      (s.controlStep input).controlStop = s.controlStop ∧
      (s.controlStep input).poller = s.poller ∧ (s.controlStep input).produced = s.produced ∧
      (s.controlStep input).lanes = s.lanes ∧ (s.controlStep input).stats = s.stats ∧
      (s.controlStep input).forwarder = s.forwarder := by
  unfold controlStep
  split
  · split
    · exact ⟨rfl, rfl, rfl, rfl, rfl, rfl, rfl, rfl, rfl⟩
    · split <;> exact ⟨rfl, rfl, rfl, rfl, rfl, rfl, rfl, rfl, rfl⟩
  · split
    · split
      · exact ⟨rfl, rfl, rfl, rfl, rfl, rfl, rfl, rfl, rfl⟩
      · split <;> exact ⟨rfl, rfl, rfl, rfl, rfl, rfl, rfl, rfl, rfl⟩
    · exact ⟨rfl, rfl, rfl, rfl, rfl, rfl, rfl, rfl, rfl⟩
  · split
    · exact ⟨rfl, rfl, rfl, rfl, rfl, rfl, rfl, rfl, rfl⟩
    · split <;> exact ⟨rfl, rfl, rfl, rfl, rfl, rfl, rfl, rfl, rfl⟩
  · exact ⟨rfl, rfl, rfl, rfl, rfl, rfl, rfl, rfl, rfl⟩
  · exact ⟨rfl, rfl, rfl, rfl, rfl, rfl, rfl, rfl, rfl⟩

variable (s) in
/-- The thread behind the poller only has its channel and the stored snapshot. -/
theorem forwarderStep_frame :
    s.forwarderStep =
      { s with
        forwarder := s.forwarderStep.forwarder
        stats := s.forwarderStep.stats
        latest := s.forwarderStep.latest } := by
  unfold forwarderStep
  split
  · split <;> rfl
  · rfl
  · rfl

/-! ### The exporters -/

/-- What can happen to an exporter. -/
inductive LaneMove (e : OtlpExporter) (lane : Lane) : Lane → Prop
  | stays : LaneMove e lane lane
  | drops : LaneMove e lane { lane with channel := lane.channel.dropSender }
  | offers (snap : FlowStatsSnapshot) :
    LaneMove e lane { lane with channel := lane.channel.trySend snap }
  | steps (input : ExporterInput) : LaneMove e lane (lane.step e input)

/-- A task of the main thread moves a lane in one of the known ways. -/
theorem laneMove_perform (e : OtlpExporter) (task : Task n) (i : Fin n) :
    LaneMove e (s.lanes i) ((s.perform task).lanes i) := by
  cases task with
  | dropSenders => exact .drops
  | _ => exact .stays

/-- A step of the main thread moves a lane in one of the known ways. -/
theorem laneMove_main (e : OtlpExporter) (i : Fin n) :
    LaneMove e (s.lanes i) ((s.mainStep setup).lanes i) := by
  rcases s.mainStep_cases setup with h | ⟨-, -, h⟩ | ⟨task, rest, -, -, h⟩
  · rw [h]
    exact .stays
  · rw [h]
    exact .stays
  · rw [h]
    exact laneMove_perform e task i

/-- A step of the poller moves a lane in one of the known ways. -/
theorem PollerMove.lane (h : PollerMove setup s s') (e : OtlpExporter) (i : Fin n) :
    LaneMove e (s.lanes i) (s'.lanes i) := by
  cases h with
  | ends => exact .drops
  | sends =>
    show LaneMove e (s.lanes i) (s.offerTo _ _ i)
    rw [offerTo]
    split
    · exact .offers _
    · exact .stays
  | _ => exact .stays

/-- What a step does to an exporter. -/
theorem laneMove_step (event : Event n) (i : Fin n) :
    LaneMove (setup.exporter i) (s.lanes i) ((s.step setup event).lanes i) := by
  cases event with
  | main => exact laneMove_main _ i
  | poller input => exact (s.pollerStep_move setup input).lane _ i
  | exporter j input =>
    show LaneMove _ _ (Function.update s.lanes j _ i)
    by_cases hij : i = j
    · subst hij
      rw [Function.update_self]
      exact .steps input
    · rw [Function.update_of_ne hij]
      exact .stays
  | forwarder =>
    rw [step, forwarderStep_frame]
    exact .stays
  | control input =>
    rw [step, (s.controlStep_frame input).2.2.2.2.2.2.1]
    exact .stays
  | abandon =>
    rw [step]
    split <;> exact .stays
  | signal | connect | unlink => exact .stays

/-- An exporter that has ended does not come back. -/
theorem LaneMove.isGone {e : OtlpExporter} {lane lane' : Lane} (h : LaneMove e lane lane')
    (hgone : lane.place.isGone = true) : lane'.place.isGone = true := by
  cases h with
  | stays | drops | offers => exact hgone
  | steps input =>
    cases hplace : lane.place with
    | gone => rwa [Lane.step, hplace]
    | _ =>
      rw [hplace] at hgone
      cases hgone

/-- Behind its loop only the main thread itself goes on. -/
theorem main_step {event : Event n} (hne : event ≠ .main) {rest : List (Task n)}
    (hmain : s.main = .tasks rest) : (s.step setup event).main = .tasks rest := by
  cases event with
  | main => exact absurd rfl hne
  | poller input => exact (s.pollerStep_move setup input).frame.1.trans hmain
  | forwarder =>
    rw [step, forwarderStep_frame]
    exact hmain
  | control input => exact (s.controlStep_frame input).1.trans hmain
  | abandon =>
    rw [step]
    split
    · rename_i hrunning
      rw [hrunning] at hmain
      cases hmain
    · exact hmain
  | exporter | signal | connect | unlink => exact hmain

/-! ### What has ended -/

/-- A poller that has ended does nothing. -/
theorem pollerMove_of_gone (h : PollerMove setup s s') (hgone : s.pollerIsGone = true) : s' = s := by
  rw [pollerIsGone] at hgone
  cases h with
  | replyWaits | gone => rfl
  | ends hat | begins hat | connects hat | connectFails hat | pollFails hat | polls hat | sends hat
  | sent hat | sentPulled hat | drains hat | drained hat | pullFails hat | pulls hat | replied hat
  | replies hat | rests hat | wakes hat | sleeps hat =>
    rw [hat] at hgone
    cases hgone

/-- The poller ends once. -/
theorem pollerIsGone_step (event : Event n) (hgone : s.pollerIsGone = true) :
    (s.step setup event).pollerIsGone = true := by
  cases event with
  | main => rw [step, pollerIsGone, (s.mainStep_frame setup).1]; exact hgone
  | poller input => rw [step, pollerMove_of_gone (s.pollerStep_move setup input) hgone]; exact hgone
  | forwarder => rw [step, forwarderStep_frame]; exact hgone
  | control input =>
    rw [step, pollerIsGone, (s.controlStep_frame input).2.2.2.2.1]
    exact hgone
  | abandon =>
    rw [step]
    split <;> exact hgone
  | exporter | signal | connect | unlink => exact hgone

/-- A forwarder that has ended does not come back. -/
theorem forwarder_isGone_step (event : Event n) (hgone : s.forwarder.isGone = true) :
    (s.step setup event).forwarder.isGone = true := by
  cases event with
  | main => rw [step, (s.mainStep_frame setup).2.2.2.1]; exact hgone
  | poller input => rw [step, (s.pollerStep_move setup input).frame.2.2.2.2.1]; exact hgone
  | forwarder =>
    cases hplace : s.forwarder with
    | gone => rw [step, forwarderStep, hplace]; exact hgone
    | _ =>
      rw [hplace] at hgone
      cases hgone
  | control input => rw [step, (s.controlStep_frame input).2.2.2.2.2.2.2.2]; exact hgone
  | abandon =>
    rw [step]
    split <;> exact hgone
  | exporter | signal | connect | unlink => exact hgone

/-- A control server that has ended does not come back. -/
theorem control_isGone_step (event : Event n) (hgone : s.control.isGone = true) :
    (s.step setup event).control.isGone = true := by
  cases event with
  | main => rw [step, (s.mainStep_frame setup).2.2.2.2.1]; exact hgone
  | poller input => rw [step, (s.pollerStep_move setup input).control_isGone]; exact hgone
  | forwarder => rw [step, forwarderStep_frame]; exact hgone
  | control input =>
    cases hplace : s.control with
    | gone => rw [step, controlStep, hplace]; exact hgone
    | _ =>
      rw [hplace] at hgone
      cases hgone
  | abandon =>
    rw [step]
    split <;> exact hgone
  | exporter | signal | connect | unlink => exact hgone

/-- A thread that can be joined can be joined from then on. -/
theorem blocks_step (event : Event n) {task : Task n} (h : s.blocks task = false) :
    (s.step setup event).blocks task = false := by
  cases task with
  | joinPoller =>
    rw [blocks, Bool.not_eq_false'] at h ⊢
    exact pollerIsGone_step event h
  | joinForwarder =>
    rw [blocks, Bool.not_eq_false'] at h ⊢
    exact forwarder_isGone_step event h
  | joinExporter i =>
    rw [blocks, Bool.not_eq_false'] at h ⊢
    exact (laneMove_step event i).isGone h
  | joinControl =>
    rw [blocks, Bool.not_eq_false'] at h ⊢
    exact control_isGone_step event h
  | _ => rfl

end Process

end InFMon.Daemon
