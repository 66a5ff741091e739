import InFMon.Daemon.Endings

/-! # Stopping the front end

The main thread joins the others one after the other. A list of tasks in which every join comes behind what
makes its thread end is completed under every fair schedule; the tasks of `Frontend::stop` are such a list,
so that the front end stops after a signal. The fields of a `Frontend` that goes out of scope are dropped
in another order, in which the exporters are waited for while their senders are still there. -/

namespace InFMon.Daemon

open BoundedChannel Frontend Otlp FairRuns

variable {n : ℕ}

/-! ### Tasks -/

namespace Task

/-- What a task has brought about. -/
def Done (s : Process n) : Task n → Prop
  | .setShutdown => True
  | .stopPoller => s.pollerStop = true
  | .dropSenders => s.sendersHeld = false
  | .stopControl => s.controlStop = true
  | .wakeControl => s.Woken
  | .joinPoller => s.blocks .joinPoller = false
  | .joinForwarder => s.blocks .joinForwarder = false
  | .joinExporter i => s.blocks (.joinExporter i) = false
  | .joinControl => s.blocks .joinControl = false

/-- The tasks that have to be done before. -/
def needs : Task n → List (Task n)
  | .joinPoller => [.stopPoller]
  | .joinForwarder => [.joinPoller]
  | .joinExporter _ => [.joinPoller, .dropSenders]
  | .wakeControl => [.stopControl]
  | .joinControl => [.joinPoller, .wakeControl]
  | _ => []

end Task

/-- Every task comes behind what it needs. -/
def Orderly (done : List (Task n)) : List (Task n) → Prop
  | [] => True
  | task :: rest => (∀ t ∈ task.needs, t ∈ done) ∧ Orderly (done ++ [task]) rest

/-- The exporters can be joined behind the poller and the senders. -/
theorem orderly_joinExporter {rest : List (Task n)} (is : List (Fin n)) {done : List (Task n)}
    (hpoller : .joinPoller ∈ done) (hsenders : .dropSenders ∈ done)
    (hrest : Orderly (done ++ is.map .joinExporter) rest) :
    Orderly done (is.map .joinExporter ++ rest) := by
  induction is generalizing done with
  | nil => rwa [List.map_nil, List.append_nil] at hrest
  | cons i is ih =>
    refine ⟨fun t ht => ?_, ih (List.mem_append_left _ hpoller) (List.mem_append_left _ hsenders) ?_⟩
    · rcases List.mem_cons.mp ht with rfl | ht
      · exact hpoller
      · rw [List.mem_singleton.mp ht]
        exact hsenders
    · rwa [List.append_assoc]

/-- `stop` does its tasks in an order in which each can end. -/
theorem orderly_stopTasks (setup : Setup n) : Orderly [] (Process.stopTasks setup) := by
  have hcontrol : ∀ done : List (Task n), .joinPoller ∈ done →
      Orderly done (if setup.control then [.stopControl, .wakeControl, .joinControl] else []) := by
    intro done hdone
    split
    · simp [Orderly, Task.needs, hdone]
    · exact trivial
  have hexporters : ∀ done : List (Task n), .joinPoller ∈ done → Orderly done
      (.dropSenders :: ((List.finRange n).map .joinExporter ++
        if setup.control then [.stopControl, .wakeControl, .joinControl] else [])) := by
    intro done hdone
    refine ⟨fun t ht => absurd ht List.not_mem_nil, orderly_joinExporter _ (List.mem_append_left _ hdone)
      (List.mem_append_right _ List.mem_cons_self) (hcontrol _ ?_)⟩
    exact List.mem_append_left _ (List.mem_append_left _ hdone)
  refine ⟨fun t ht => absurd ht List.not_mem_nil, fun t ht => absurd ht List.not_mem_nil,
    (by simp [Task.needs]), ?_⟩
  cases setup.forwarding with
  | true => exact ⟨(by simp [Task.needs]), hexporters _ (by simp)⟩
  | false => exact hexporters _ (by simp)

namespace Process

variable {setup : Setup n} {s : Process n}

/-! ### What is done stays done -/

/-- Flags that are set stay set, and the senders stay dropped. -/
theorem flags_step (event : Event n) :
    (s.pollerStop = true → (s.step setup event).pollerStop = true) ∧
      (s.controlStop = true → (s.step setup event).controlStop = true) ∧
      (s.sendersHeld = false → (s.step setup event).sendersHeld = false) := by
  cases event with
  | main =>
    rw [step]
    rcases s.mainStep_cases setup with h | ⟨-, -, h⟩ | ⟨task, rest, -, -, h⟩
    · rw [h]
      exact ⟨id, id, id⟩
    · rw [h]
      exact ⟨id, id, id⟩
    · rw [h]
      cases task <;> exact ⟨fun h => by first | exact h | rfl, fun h => by first | exact h | rfl,
        fun h => by first | exact h | rfl⟩
  | poller input =>
    obtain ⟨-, hheld, hstop, hcontrol, -⟩ := (s.pollerStep_move setup input).frame
    exact ⟨fun h => hstop.trans h, fun h => hcontrol.trans h, fun h => hheld.trans h⟩
  | forwarder =>
    rw [step, forwarderStep_frame]
    exact ⟨id, id, id⟩
  | control input =>
    obtain ⟨-, hheld, hstop, hcontrol, -⟩ := s.controlStep_frame input
    exact ⟨fun h => hstop.trans h, fun h => hcontrol.trans h, fun h => hheld.trans h⟩
  | abandon =>
    rw [step]
    split <;> exact ⟨id, id, id⟩
  | exporter | signal | connect | unlink => exact ⟨id, id, id⟩

/-- A connection that waits is only accepted by a thread that then ends. -/
theorem Woken.step (h : s.Woken) (event : Event n) : (s.step setup event).Woken := by
  obtain ⟨hstop, hpending⟩ := h
  refine ⟨(flags_step event).2.1 hstop, ?_⟩
  -- only the control thread takes a pending connection, and then it sees the flag
  rcases hpending with hpending | hgone
  swap
  · exact Or.inr (control_isGone_step event hgone)
  cases event with
  | main =>
    refine Or.inl ?_
    rw [Process.step]
    rcases s.mainStep_cases setup with h | ⟨-, -, h⟩ | ⟨task, rest, -, -, h⟩
    · rwa [h]
    · rwa [h]
    · rw [h]
      cases task with
      | wakeControl =>
        show 0 < if s.socket then s.pending + 1 else s.pending
        split <;> omega
      | _ => exact hpending
  | poller input =>
    refine Or.inl ?_
    rw [Process.step, (s.pollerStep_move setup input).frame.2.2.2.2.2.1]
    exact hpending
  | forwarder =>
    rw [Process.step, forwarderStep_frame]
    exact Or.inl hpending
  | control input =>
    rw [Process.step, controlStep]
    split
    · rw [if_neg (Nat.ne_of_gt hpending), if_pos hstop]
      exact Or.inr rfl
    · refine Or.inl ?_
      split
      · split
        · exact hpending
        · split <;> exact hpending
      · exact hpending
    · refine Or.inl ?_
      split
      · exact hpending
      · split <;> exact hpending
    · exact Or.inl hpending
    · exact Or.inl hpending
  | connect =>
    refine Or.inl ?_
    show 0 < if s.socket then s.pending + 1 else s.pending
    split <;> omega
  | abandon =>
    rw [Process.step]
    split <;> exact Or.inl hpending
  | exporter | signal | unlink => exact Or.inl hpending

/-- What a task has done stays done. -/
theorem done_step (event : Event n) {task : Task n} (h : task.Done s) :
    task.Done (s.step setup event) := by
  cases task with
  | setShutdown => exact trivial
  | stopPoller => exact (flags_step event).1 h
  | dropSenders => exact (flags_step event).2.2 h
  | stopControl => exact (flags_step event).2.1 h
  | wakeControl => exact Woken.step h event
  | joinPoller | joinForwarder | joinExporter | joinControl => exact blocks_step event h

/-- A task that does not block is done by its step. -/
theorem done_perform {task : Task n} {rest : List (Task n)} (hblocks : s.blocks task = false)
    (hneeds : ∀ t ∈ task.needs, t.Done s)
    (hsocket : s.socket = true ∨ s.control.isGone = true) :
    task.Done { s.perform task with main := .tasks rest } := by
  cases task with
  | setShutdown => exact trivial
  | stopPoller | dropSenders | stopControl => exact rfl
  | wakeControl =>
    refine ⟨hneeds .stopControl List.mem_cons_self, ?_⟩
    rcases hsocket with hsocket | hgone
    · refine Or.inl ?_
      show 0 < if s.socket then s.pending + 1 else s.pending
      rw [if_pos hsocket]
      exact Nat.succ_pos _
    · exact Or.inr hgone
  | joinPoller | joinForwarder | joinExporter | joinControl => exact hblocks

/-- A shutdown is not taken back. -/
theorem shutdown_step (event : Event n) (h : s.shutdown = true) :
    (s.step setup event).shutdown = true := by
  cases event with
  | main =>
    rw [step]
    rcases s.mainStep_cases setup with hnext | ⟨-, -, hnext⟩ | ⟨task, rest, -, -, hnext⟩
    · rwa [hnext]
    · rwa [hnext]
    · rw [hnext]
      cases task <;> first | exact h | rfl
  | poller input =>
    have hmove := s.pollerStep_move setup input
    rw [step]
    generalize s.pollerStep setup input = s' at hmove ⊢
    cases hmove <;> exact h
  | forwarder =>
    rw [step, forwarderStep_frame]
    exact h
  | control input =>
    rw [step, controlStep]
    split
    · split
      · exact h
      · split <;> exact h
    · split
      · split
        · exact h
        · split <;> exact h
      · exact h
    · split
      · exact h
      · split <;> exact h
    · exact h
    · exact h
  | abandon =>
    rw [step]
    split <;> exact h
  | signal => rfl
  | exporter | connect | unlink => exact h

/-- As long as the socket file is there, the control thread can be woken. -/
theorem socket_step {event : Event n} (hlink : event ≠ .unlink)
    (h : s.socket = true ∨ s.control.isGone = true) :
    (s.step setup event).socket = true ∨ (s.step setup event).control.isGone = true := by
  rcases h with hsocket | hgone
  swap
  · exact Or.inr (control_isGone_step event hgone)
  cases event with
  | main => exact Or.inl ((s.mainStep_frame setup).2.2.2.2.2.2.2.trans hsocket)
  | poller input =>
    exact Or.inl ((s.pollerStep_move setup input).frame.2.2.2.2.2.2.1.trans hsocket)
  | forwarder =>
    rw [step, forwarderStep_frame]
    exact Or.inl hsocket
  | control input =>
    rw [step, controlStep]
    split
    · split
      · exact Or.inl hsocket
      · split
        · exact Or.inr rfl
        · exact Or.inl hsocket
    · refine Or.inl ?_
      split
      · split
        · exact hsocket
        · split <;> exact hsocket
      · exact hsocket
    · refine Or.inl ?_
      split
      · exact hsocket
      · split <;> exact hsocket
    · exact Or.inl hsocket
    · exact Or.inl hsocket
  | abandon =>
    rw [step]
    split <;> exact Or.inl hsocket
  | unlink => exact absurd rfl hlink
  | exporter | signal | connect => exact Or.inl hsocket

end Process

/-! ### Fair schedules -/

open Process

/-- The state of the front end at a time. -/
def stateAt (setup : Setup n) (schedule : ℕ → Event n) (k : ℕ) : Process n :=
  trace (Process.step setup) (Process.start setup) schedule k

/-- Every thread goes on, the socket file stays where it is, and no pull times out while the poller drains
its pull requests. -/
structure Timely (setup : Setup n) (schedule : ℕ → Event n) : Prop where
  fair : Fair Event.owner schedule
  socket : ∀ k, schedule k ≠ .unlink
  pulls : ∀ k input, schedule k = .control input → input.timesOut = true →
    (stateAt setup schedule k).poller.place.isDraining = false

section Schedule

variable {setup : Setup n} {schedule : ℕ → Event n}

/-- The pull requests are sound at every time. -/
theorem pullsSound_stateAt (k : ℕ) : (stateAt setup schedule k).PullsSound :=
  trace_always pullsSound_start (fun _ event h => h.step event) k

/-- The stats channel is wired at every time. -/
theorem statsWired_stateAt (k : ℕ) : (stateAt setup schedule k).StatsWired :=
  trace_always (show StatsWired (start setup) from rfl) (fun _ event h => h.step event) k

/-- Everything is accounted for at every time. -/
theorem accounted_stateAt (k : ℕ) : (stateAt setup schedule k).Accounted setup :=
  trace_always accounted_start (fun _ event h => h.step event) k

/-- The socket is there until the control server has ended. -/
theorem Timely.socket_stateAt (h : Timely setup schedule) (k : ℕ) :
    (stateAt setup schedule k).socket = true ∨ (stateAt setup schedule k).control.isGone = true := by
  refine trace_induct (I := fun s : Process n => s.socket = true ∨ s.control.isGone = true) ?_
    (fun s k hs => socket_step (h.socket k) hs) k
  show setup.control = true ∨ ControlAt.isGone (if setup.control then _ else _) = true
  cases setup.control with
  | true => exact Or.inl rfl
  | false => exact Or.inr rfl

/-- A thread that comes nearer to its end by every step of its own can be joined at some time. -/
theorem Timely.ends (h : Timely setup schedule) (thread : Thread n) {task : Task n}
    {P : Process n → Prop} (rank : Process n → ℕ)
    (hkeep : ∀ s event, P s → P (s.step setup event))
    (hown : ∀ k, P (stateAt setup schedule k) → (stateAt setup schedule k).blocks task = true →
      (schedule k).owner = some thread →
        rank (stateAt setup schedule (k + 1)) < rank (stateAt setup schedule k))
    (hother : ∀ k, P (stateAt setup schedule k) → (schedule k).owner ≠ some thread →
      rank (stateAt setup schedule (k + 1)) ≤ rank (stateAt setup schedule k)) :
    LeadsTo (stateAt setup schedule) P fun s => s.blocks task = false := by
  refine leadsTo_of_helper rank thread h.fair (fun k hP => ?_) fun k hP howner => ?_
  · cases hblocks : (stateAt setup schedule k).blocks task with
    | false => exact Or.inl (blocks_step (schedule k) hblocks)
    | true =>
      refine Or.inr ⟨hkeep _ _ hP, ?_⟩
      by_cases howner : (schedule k).owner = some thread
      · exact (hown k hP hblocks howner).le
      · exact hother k hP howner
  · cases hblocks : (stateAt setup schedule k).blocks task with
    | false => exact Or.inl (blocks_step (schedule k) hblocks)
    | true => exact Or.inr (hown k hP hblocks howner)

/-- A poller that is to stop can be joined some time later. -/
theorem Timely.poller_ends (h : Timely setup schedule) :
    LeadsTo (stateAt setup schedule) (fun s => s.pollerStop = true)
      fun s => s.blocks .joinPoller = false := by
  refine h.ends .poller (pollerRank setup) (fun s event hs => (flags_step event).1 hs)
    (fun k hstop hblocks howner => ?_) fun k _ howner => ?_
  · rw [stateAt, trace]
    cases hevent : schedule k with
    | poller input =>
      exact pollerRank_poller (pullsSound_stateAt k) hstop (by simpa [blocks] using hblocks) input
    | _ => rw [hevent] at howner; cases howner
  · exact pollerRank_step (schedule k) howner (h.pulls k)

/-- Once the poller is gone, the forwarder can be joined some time later. -/
theorem Timely.forwarder_ends (h : Timely setup schedule) :
    LeadsTo (stateAt setup schedule) (fun s => s.pollerIsGone = true)
      fun s => s.blocks .joinForwarder = false := by
  refine h.ends .forwarder forwarderRank (fun s event hs => pollerIsGone_step event hs)
    (fun k hpoller hblocks howner => ?_) fun k hpoller howner => ?_
  · have hgone : (stateAt setup schedule k).forwarder.isGone = false := by
      simpa [blocks] using hblocks
    rw [stateAt, trace]
    cases hevent : schedule k with
    | forwarder => exact forwarderRank_forwarder (statsWired_stateAt k) hpoller hgone
    | _ => rw [hevent] at howner; cases howner
  · exact (forwarderRank_step hpoller (schedule k) howner).le

/-- Once no sender is left, an exporter can be joined some time later. -/
theorem Timely.exporter_ends (h : Timely setup schedule) (i : Fin n) :
    LeadsTo (stateAt setup schedule) (fun s => s.pollerIsGone = true ∧ s.sendersHeld = false)
      fun s => s.blocks (.joinExporter i) = false := by
  refine h.ends (.exporter i) (fun s => laneRank (s.lanes i))
    (fun s event hs => ⟨pollerIsGone_step event hs.1, (flags_step event).2.2 hs.2⟩)
    (fun k hP hblocks howner => ?_) fun k hP howner => ?_
  · have haccounted : (stateAt setup schedule k).Accounted setup := accounted_stateAt k
    have hsenders := haccounted.senders i
    rw [hP.1, hP.2] at hsenders
    rw [stateAt, trace]
    cases hevent : schedule k with
    | exporter j input =>
      rw [hevent] at howner
      obtain rfl : j = i := by simpa [Event.owner] using howner
      show laneRank (Function.update (stateAt setup schedule k).lanes j _ j) < _
      rw [Function.update_self]
      exact laneRank_step hsenders (by simpa [blocks] using hblocks) input
    | _ => rw [hevent] at howner; cases howner
  · exact (laneRank_other hP.1 (schedule k) howner).le

/-- Once it is woken, the control server can be joined some time later. -/
theorem Timely.control_ends (h : Timely setup schedule) :
    LeadsTo (stateAt setup schedule) (fun s => s.pollerIsGone = true ∧ s.Woken)
      fun s => s.blocks .joinControl = false := by
  refine h.ends .control controlRank
    (fun s event hs => ⟨pollerIsGone_step event hs.1, hs.2.step event⟩)
    (fun k hP hblocks howner => ?_) fun k hP howner => ?_
  · rw [stateAt, trace]
    cases hevent : schedule k with
    | control input =>
      exact controlRank_control (pullsSound_stateAt k) hP.1 hP.2 (by simpa [blocks] using hblocks)
        input
    | _ => rw [hevent] at howner; cases howner
  · exact (controlRank_step hP.1 (schedule k) howner).le

/-- Once what it needs is done, a task does not block for ever. -/
theorem Timely.unblocks (h : Timely setup schedule) (task : Task n) :
    LeadsTo (stateAt setup schedule) (fun s => ∀ t ∈ task.needs, t.Done s)
      fun s => s.blocks task = false := by
  have hgone : ∀ s : Process n, Task.joinPoller.Done s → s.pollerIsGone = true := by
    intro s hs
    simpa [Task.Done, blocks] using hs
  cases task with
  | joinPoller =>
    exact h.poller_ends.mono (fun s hs => hs .stopPoller List.mem_cons_self) fun _ hs => hs
  | joinForwarder =>
    exact h.forwarder_ends.mono (fun s hs => hgone s (hs .joinPoller List.mem_cons_self))
      fun _ hs => hs
  | joinExporter i =>
    exact (h.exporter_ends i).mono (fun s hs => ⟨hgone s (hs .joinPoller List.mem_cons_self),
      hs .dropSenders (List.mem_cons_of_mem _ List.mem_cons_self)⟩) fun _ hs => hs
  | joinControl =>
    exact h.control_ends.mono (fun s hs => ⟨hgone s (hs .joinPoller List.mem_cons_self),
      hs .wakeControl (List.mem_cons_of_mem _ List.mem_cons_self)⟩) fun _ hs => hs
  | setShutdown | stopPoller | dropSenders | stopControl | wakeControl =>
    exact leadsTo_of_imp fun _ _ => rfl

/-- The main thread gets from one task to the next. -/
theorem Timely.next_task (h : Timely setup schedule) {task : Task n} {rest done : List (Task n)}
    (hneeds : ∀ t ∈ task.needs, t ∈ done) :
    LeadsTo (stateAt setup schedule)
      (fun s => s.main = .tasks (task :: rest) ∧ ∀ t ∈ done, t.Done s)
      fun s => s.main = .tasks rest ∧ ∀ t ∈ done ++ [task], t.Done s := by
  -- a step does the task or leaves the main thread where it is
  have hstep : ∀ k, (stateAt setup schedule k).main = .tasks (task :: rest) ∧
      (∀ t ∈ done, t.Done (stateAt setup schedule k)) →
      ((stateAt setup schedule (k + 1)).main = .tasks rest ∧
        ∀ t ∈ done ++ [task], t.Done (stateAt setup schedule (k + 1))) ∨
      ((stateAt setup schedule (k + 1)).main = .tasks (task :: rest) ∧
        (∀ t ∈ done, t.Done (stateAt setup schedule (k + 1))) ∧
        ((stateAt setup schedule k).blocks task = false → schedule k ≠ .main)) := by
    rintro k ⟨hmain, hdone⟩
    have hkept : ∀ t ∈ done, t.Done (stateAt setup schedule (k + 1)) :=
      fun t ht => done_step (schedule k) (hdone t ht)
    by_cases hevent : schedule k = .main
    swap
    · exact Or.inr ⟨main_step hevent hmain, hkept, fun _ => hevent⟩
    have hnext : stateAt setup schedule (k + 1) = (stateAt setup schedule k).mainStep setup := by
      rw [stateAt, trace, hevent]
      rfl
    cases hblocks : (stateAt setup schedule k).blocks task with
    | true =>
      refine Or.inr ⟨?_, hkept, fun hfalse => by cases hfalse⟩
      rw [hnext, mainStep, hmain]
      dsimp only
      rw [if_pos hblocks]
      exact hmain
    | false =>
      have hperform : stateAt setup schedule (k + 1) =
          { (stateAt setup schedule k).perform task with main := .tasks rest } := by
        rw [hnext, mainStep, hmain]
        dsimp only
        rw [if_neg (by rw [hblocks]; exact Bool.false_ne_true)]
      refine Or.inl ⟨by rw [hperform], fun t ht => ?_⟩
      rcases List.mem_append.mp ht with ht | ht
      · exact hkept t ht
      · rw [List.mem_singleton.mp ht, hperform]
        exact done_perform hblocks (fun t ht => hdone t (hneeds t ht)) (h.socket_stateAt k)
  rintro k ⟨hmain, hdone⟩
  obtain ⟨m, hkm, hblocks⟩ := h.unblocks task k fun t ht => hdone t (hneeds t ht)
  rcases holds_or_reached
    (P := fun s : Process n => s.main = .tasks (task :: rest) ∧ ∀ t ∈ done, t.Done s)
    (Q := fun s : Process n => s.main = .tasks rest ∧ ∀ t ∈ done ++ [task], t.Done s)
    (fun k hk => (hstep k hk).imp_right fun hnext => ⟨hnext.1, hnext.2.1⟩) hkm ⟨hmain, hdone⟩ with
    hreached | hheld
  · exact hreached
  -- from now on the next step of the main thread does the task
  have hlast : LeadsTo (stateAt setup schedule)
      (fun s => (s.main = .tasks (task :: rest) ∧ ∀ t ∈ done, t.Done s) ∧ s.blocks task = false)
      fun s => s.main = .tasks rest ∧ ∀ t ∈ done ++ [task], t.Done s := by
    refine leadsTo_of_helper (fun _ => 0) (.main : Thread n) h.fair (fun k hk => ?_)
      fun k hk howner => ?_
    · rcases hstep k hk.1 with hreached | hnext
      · exact Or.inl hreached
      · exact Or.inr ⟨⟨⟨hnext.1, hnext.2.1⟩, blocks_step (schedule k) hk.2⟩, le_rfl⟩
    · rcases hstep k hk.1 with hreached | hnext
      · exact Or.inl hreached
      · refine absurd ?_ (hnext.2.2 hk.2)
        cases hevent : schedule k with
        | main => rfl
        | _ => rw [hevent] at howner; cases howner
  obtain ⟨j, hmj, hj⟩ := hlast m ⟨hheld, hblocks⟩
  exact ⟨j, hkm.trans hmj, hj⟩

/-- An orderly list of tasks is completed. -/
theorem Timely.completes (h : Timely setup schedule) (tasks : List (Task n)) {done : List (Task n)}
    (horderly : Orderly done tasks) :
    LeadsTo (stateAt setup schedule) (fun s => s.main = .tasks tasks ∧ ∀ t ∈ done, t.Done s)
      fun s => s.main = .tasks [] ∧ ∀ t ∈ done ++ tasks, t.Done s := by
  induction tasks generalizing done with
  | nil =>
    rw [List.append_nil]
    exact leadsTo_of_imp fun _ hs => hs
  | cons task rest ih =>
    have hrest := ih horderly.2
    rw [List.append_assoc, List.singleton_append] at hrest
    exact (h.next_task horderly.1).trans hrest

/-- The main thread leaves its loop for the tasks of `stop`. -/
theorem Timely.stop_begins (h : Timely setup schedule) (hstay : ∀ k, schedule k ≠ .abandon)
    (hsignal : ∃ k, schedule k = .signal) :
    ∃ k, (stateAt setup schedule k).main = .tasks (stopTasks setup) := by
  have hstep : ∀ k, (stateAt setup schedule k).main = .running →
      (stateAt setup schedule (k + 1)).main = .tasks (stopTasks setup) ∨
      (stateAt setup schedule (k + 1)).main = .running ∧
        ((stateAt setup schedule k).shutdown = true → schedule k ≠ .main) := by
    intro k hmain
    rw [stateAt, trace]
    cases hevent : schedule k with
    | main =>
      show (mainStep setup (stateAt setup schedule k)).main = _ ∨
        (mainStep setup (stateAt setup schedule k)).main = _ ∧ _
      rw [mainStep, hmain]
      dsimp only
      split
      · exact Or.inl rfl
      · rename_i hshutdown
        exact Or.inr ⟨hmain, fun htrue => absurd htrue hshutdown⟩
    | poller input =>
      exact Or.inr ⟨(pollerStep_move setup _ input).frame.1.trans hmain,
        fun _ heq => by cases heq⟩
    | forwarder =>
      rw [Process.step, forwarderStep_frame]
      exact Or.inr ⟨hmain, fun _ heq => by cases heq⟩
    | control input =>
      exact Or.inr ⟨(controlStep_frame _ input).1.trans hmain, fun _ heq => by cases heq⟩
    | abandon => exact absurd hevent (hstay k)
    | exporter | signal | connect | unlink => exact Or.inr ⟨hmain, fun _ heq => by cases heq⟩
  obtain ⟨k, hk⟩ := hsignal
  -- the signal comes while the loop runs, or the tasks have begun before it
  rcases holds_or_reached (P := fun s : Process n => s.main = .running)
    (Q := fun s : Process n => s.main = .tasks (stopTasks setup))
    (fun k hk => (hstep k hk).imp_right And.left) (Nat.zero_le (k + 1)) rfl with
    ⟨j, -, hj⟩ | hrunning
  · exact ⟨j, hj⟩
  have hshutdown : (stateAt setup schedule (k + 1)).shutdown = true := by
    rw [stateAt, trace, hk]
    rfl
  have hnext : LeadsTo (stateAt setup schedule)
      (fun s => s.main = .running ∧ s.shutdown = true)
      fun s => s.main = .tasks (stopTasks setup) := by
    refine leadsTo_of_helper (fun _ => 0) (.main : Thread n) h.fair (fun k hP => ?_)
      fun k hP howner => ?_
    · rcases hstep k hP.1 with hbegun | hmain
      · exact Or.inl hbegun
      · exact Or.inr ⟨⟨hmain.1, shutdown_step (schedule k) hP.2⟩, le_rfl⟩
    · rcases hstep k hP.1 with hbegun | hmain
      · exact Or.inl hbegun
      · refine absurd ?_ (hmain.2 hP.2)
        cases hevent : schedule k with
        | main => rfl
        | _ => rw [hevent] at howner; cases howner
  obtain ⟨j, -, hj⟩ := hnext (k + 1) ⟨hrunning, hshutdown⟩
  exact ⟨j, hj⟩

end Schedule

/-- After a signal `Frontend::stop` returns under every fair schedule, whatever the back end, the
collectors and the clients do, and all threads have ended then. -/
theorem stop_returns (setup : Setup n) {schedule : ℕ → Event n} (h : Timely setup schedule)
    (hstay : ∀ k, schedule k ≠ .abandon) (hsignal : ∃ k, schedule k = .signal) :
    ∃ k, (stateAt setup schedule k).main = .tasks [] ∧
      (stateAt setup schedule k).pollerIsGone = true ∧
      (stateAt setup schedule k).forwarder.isGone = true ∧
      (∀ i, ((stateAt setup schedule k).lanes i).place.isGone = true) ∧
      (stateAt setup schedule k).control.isGone = true := by
  -- `stop` begins after the signal, and each of its tasks is done in the end
  obtain ⟨k, hbegun⟩ := h.stop_begins hstay hsignal
  obtain ⟨m, -, hmain, hdone⟩ := h.completes (stopTasks setup) (orderly_stopTasks setup) k
    ⟨hbegun, fun t ht => absurd ht List.not_mem_nil⟩
  rw [List.nil_append] at hdone
  refine ⟨m, hmain, ?_, ?_, fun i => ?_, ?_⟩
  · have hpoller := hdone .joinPoller (joins_subset_stopTasks List.mem_cons_self)
    simpa [Task.Done, blocks] using hpoller
  · cases hforwarding : setup.forwarding with
    | true =>
      have hforwarder := hdone .joinForwarder (by simp [stopTasks, hforwarding])
      simpa [Task.Done, blocks] using hforwarder
    | false =>
      refine trace_always (I := fun s : Process n => s.forwarder.isGone = true) ?_
        (fun _ event hs => forwarder_isGone_step event hs) m
      rw [start, hforwarding]
      rfl
  · have hexporter := hdone (.joinExporter i) (joins_subset_stopTasks
      (List.mem_cons_of_mem _ (List.mem_map_of_mem (List.mem_finRange i))))
    simpa [Task.Done, blocks] using hexporter
  · cases hcontrol : setup.control with
    | true =>
      have hjoined := hdone .joinControl (by simp [stopTasks, hcontrol])
      simpa [Task.Done, blocks] using hjoined
    | false =>
      refine trace_always (I := fun s : Process n => s.control.isGone = true) ?_
        (fun _ event hs => control_isGone_step event hs) m
      rw [start, hcontrol]
      rfl

/-- One exporter, a control server and the thread behind the poller. -/
def allThreads : Setup 1 :=
  { oneExporter with control := true, forwarding := true, control_of_forwarding := id }

/-- A signal, and the threads one after the other, again and again. -/
def roundRobin (k : ℕ) : Event 1 :=
  if k % 6 = 0 then .main
  else if k % 6 = 1 then .poller emptyPoll
  else if k % 6 = 2 then .exporter ⟨0, Nat.zero_lt_one⟩ takesAll
  else if k % 6 = 3 then .forwarder
  else if k % 6 = 4 then .control ⟨true, false⟩
  else .signal

/-- Taking turns is fair. -/
theorem roundRobin_fair : Fair Event.owner roundRobin := by
  intro t k
  have hturn : ∀ r < 6, ∃ m, k ≤ m ∧ m % 6 = r :=
    fun r hr => ⟨k + (6 - k % 6) + r, by omega, by omega⟩
  cases t with
  | main =>
    obtain ⟨m, hkm, hm⟩ := hturn 0 (by decide)
    exact ⟨m, hkm, by simp [roundRobin, hm, Event.owner]⟩
  | poller =>
    obtain ⟨m, hkm, hm⟩ := hturn 1 (by decide)
    exact ⟨m, hkm, by simp [roundRobin, hm, Event.owner]⟩
  | exporter i =>
    obtain ⟨m, hkm, hm⟩ := hturn 2 (by decide)
    exact ⟨m, hkm, by simp [roundRobin, hm, Event.owner, Subsingleton.elim 0 i]⟩
  | forwarder =>
    obtain ⟨m, hkm, hm⟩ := hturn 3 (by decide)
    exact ⟨m, hkm, by simp [roundRobin, hm, Event.owner]⟩
  | control =>
    obtain ⟨m, hkm, hm⟩ := hturn 4 (by decide)
    exact ⟨m, hkm, by simp [roundRobin, hm, Event.owner]⟩

/-- Taking turns is timely. -/
theorem roundRobin_timely : Timely allThreads roundRobin where
  fair := roundRobin_fair
  socket k h := by
    unfold roundRobin at h
    split_ifs at h
  pulls k input h htimesOut := by
    unfold roundRobin at h
    split_ifs at h
    obtain rfl : _ = input := Event.control.inj h
    cases htimesOut

/-- When all threads take turns, `stop` returns. -/
theorem stop_returns_roundRobin :
    ∃ k, (stateAt allThreads roundRobin k).main = .tasks [] ∧
      (stateAt allThreads roundRobin k).control.isGone = true := by
  obtain ⟨k, hmain, -, -, -, hcontrol⟩ := stop_returns allThreads roundRobin_timely
    (fun k h => by unfold roundRobin at h; split_ifs at h) ⟨5, rfl⟩
  exact ⟨k, hmain, hcontrol⟩

end InFMon.Daemon
