import InFMon.Daemon.Accounting

/-! # A front end that is dropped

The fields of a `Frontend` go out of scope in the order of their declaration: the exporters are joined
while the main thread still has their senders, so that an exporter that waits for snapshots waits for
ever, and the main thread with it. -/

namespace InFMon.Daemon

open BoundedChannel Frontend Otlp

namespace Lane

/-- An exporter that was started and not disabled is in its loop. -/
def Receives (lane : Lane) : Prop :=
  lane.started = true → lane.thread.running = true → lane.place.inLoop = true

/-- The loop does not end as long as a sender is there. -/
theorem Sound.receives {e : OtlpExporter} {lane : Lane} (h : lane.Sound e)
    (hsenders : 0 < lane.channel.senders) : lane.Receives := by
  intro hstarted hrunning
  cases hloop : lane.place.inLoop with
  | true => rfl
  | false =>
    obtain ⟨-, -, hnone⟩ := h.drained hloop hstarted hrunning
    omega

end Lane

namespace Process

variable {n : ℕ} {setup : Setup n} {s s' : Process n}

/-- A thread that has ended is not changed by what happens to its channel. -/
theorem LaneMove.receives {e : OtlpExporter} {lane lane' : Lane} (h : LaneMove e lane lane')
    (hgone : lane.place.isGone = true) (hreceives : lane.Receives) : lane'.Receives := by
  cases h with
  | stays | drops | offers => exact hreceives
  | steps input =>
    cases hplace : lane.place with
    | gone => rwa [Lane.step, hplace]
    | _ =>
      rw [hplace] at hgone
      cases hgone

/-- No exporter is joined behind the senders. -/
def JoinsFirst (tasks : List (Task n)) : Prop :=
  tasks.Pairwise fun task later => task = .dropSenders → ∀ i, later ≠ .joinExporter i

/-- Dropping the `Frontend` joins the exporters first. -/
theorem joinsFirst_dropTasks (setup : Setup n) : JoinsFirst (dropTasks setup) := by
  have hcontrol : JoinsFirst (n := n)
      (.dropSenders :: if setup.control then [.stopControl, .wakeControl, .joinControl] else []) := by
    cases setup.control <;> simp [JoinsFirst]
  have hexporters : ∀ is : List (Fin n), JoinsFirst (is.map .joinExporter ++
      .dropSenders :: if setup.control then [.stopControl, .wakeControl, .joinControl] else []) := by
    intro is
    refine List.pairwise_append.mpr ⟨?_, hcontrol, ?_⟩
    · rw [List.pairwise_map]
      exact List.pairwise_of_forall fun _ _ heq => by cases heq
    · intro task htask later _ heq
      obtain ⟨i, -, rfl⟩ := List.mem_map.mp htask
      cases heq
  refine List.pairwise_cons.mpr ⟨fun _ _ heq => ?_, List.pairwise_cons.mpr ⟨fun _ _ heq => ?_, ?_⟩⟩
  · cases heq
  · cases heq
  · exact hexporters _

/-- The fields of a `Frontend` are dropped. -/
structure Dropping (s : Process n) : Prop where
  tasks : ∃ rest, s.main = .tasks rest ∧ JoinsFirst rest
  /-- The senders go when all exporters have ended. -/
  senders : s.sendersHeld = false → ∀ i, (s.lanes i).place.isGone = true
  receives : ∀ i, (s.lanes i).Receives

/-- As long as the main thread has its senders, the exporters go on. -/
theorem Dropping.of_held (h : s'.Accounted setup) (hheld : s'.sendersHeld = true)
    (htasks : ∃ rest, s'.main = .tasks rest ∧ JoinsFirst rest) : s'.Dropping where
  tasks := htasks
  senders hfalse := by rw [hheld] at hfalse; cases hfalse
  receives i := by
    refine (h.lane i).receives ?_
    rw [h.senders i, hheld]
    exact Nat.lt_of_lt_of_le Nat.zero_lt_one (Nat.le_add_right _ _)

/-- When all exporters have ended, they stay as they are. -/
theorem Dropping.of_gone (h : s.Dropping) (event : Event n)
    (hgone : ∀ i, (s.lanes i).place.isGone = true)
    (htasks : ∃ rest, (s.step setup event).main = .tasks rest ∧ JoinsFirst rest) :
    (s.step setup event).Dropping where
  tasks := htasks
  senders _ i := (laneMove_step event i).isGone (hgone i)
  receives i := (laneMove_step event i).receives (hgone i) (h.receives i)

/-- Only the main thread drops its senders. -/
theorem sendersHeld_step {event : Event n} (hne : event ≠ .main) :
    (s.step setup event).sendersHeld = s.sendersHeld := by
  cases event with
  | main => exact absurd rfl hne
  | poller input => exact (s.pollerStep_move setup input).frame.2.1
  | forwarder => rw [step, forwarderStep_frame]
  | control input => exact (s.controlStep_frame input).2.1
  | abandon =>
    rw [step]
    split <;> rfl
  | exporter | signal | connect | unlink => rfl

/-- A step of the main thread keeps the drop in order. -/
theorem Dropping.main (h : s.Dropping) (haccounted : s.Accounted setup) :
    (s.step setup .main).Dropping := by
  obtain ⟨rest, hmain, hfirst⟩ := h.tasks
  rcases s.mainStep_cases setup with hsame | ⟨hrunning, -, -⟩ | ⟨task, rest', hat, -, hnext⟩
  · rw [step, hsame]
    exact h
  · rw [hrunning] at hmain
    cases hmain
  obtain rfl : rest = task :: rest' := MainAt.tasks.inj (hmain.symm.trans hat)
  obtain ⟨hlater, hfirst⟩ := List.pairwise_cons.mp hfirst
  have htasks : ∃ rest, (s.step setup .main).main = .tasks rest ∧ JoinsFirst rest :=
    ⟨rest', by rw [step, hnext], hfirst⟩
  cases hheld : s.sendersHeld with
  | false => exact h.of_gone .main (h.senders hheld) htasks
  | true =>
    by_cases htask : task = .dropSenders
    · -- no join is left, so that the exporters were all joined before
      refine h.of_gone .main (fun i => ?_) htasks
      have hjoined := haccounted.joined _ hat (.joinExporter i)
        (List.mem_cons_of_mem _ (List.mem_map_of_mem (List.mem_finRange i)))
      rcases hjoined with hin | hends
      · rcases List.mem_cons.mp hin with heq | hin
        · rw [← heq] at htask
          cases htask
        · exact absurd rfl (hlater _ hin htask i)
      · rwa [blocks, Bool.not_eq_false'] at hends
    · refine .of_held (haccounted.step .main) ?_ htasks
      rw [step, hnext]
      cases task <;> first | exact hheld | exact absurd rfl htask

/-- Every event keeps the drop in order. -/
theorem Dropping.step (h : s.Dropping) (haccounted : s.Accounted setup) (event : Event n) :
    (s.step setup event).Dropping := by
  by_cases hne : event = .main
  · rw [hne]
    exact h.main haccounted
  obtain ⟨rest, hmain, hfirst⟩ := h.tasks
  have htasks : ∃ rest, (s.step setup event).main = .tasks rest ∧ JoinsFirst rest :=
    ⟨rest, main_step hne hmain, hfirst⟩
  cases hheld : s.sendersHeld with
  | false => exact h.of_gone event (h.senders hheld) htasks
  | true => exact .of_held (haccounted.step event) ((sendersHeld_step hne).trans hheld) htasks

end Process

open Process

/-- When a `Frontend` goes out of scope that was not stopped, the main thread waits for every exporter
that was started and not disabled by a permanent error: it stays in its loop, whatever happens, and the
senders it waits for are dropped behind its join. -/
theorem drop_waits_for_exporters {n : ℕ} (setup : Setup n) (before after : List (Event n))
    (hrunning : (Runs.run (Process.step setup) (Process.start setup) before).main = .running)
    (i : Fin n) :
    let s := Runs.run (Process.step setup) (Process.start setup) (before ++ .abandon :: after)
    let lane := s.lanes i
    lane.started = true → lane.thread.running = true →
      lane.place.inLoop = true ∧ s.sendersHeld = true ∧
        ∃ rest, s.main = .tasks rest ∧ .joinExporter i ∈ rest := by
  intro s lane hstarted hlane
  have h : s.Accounted setup ∧ s.Dropping := by
    have hrun : s = Runs.run (Process.step setup)
        ((Runs.run (Process.step setup) (Process.start setup) before).step setup .abandon) after :=
      Runs.run_append before _
    have hbefore : (Runs.run (Process.step setup) (Process.start setup) before).Accounted setup :=
      Runs.always accounted_start (fun _ event h => h.step event) before
    rw [hrun]
    generalize Runs.run (Process.step setup) (Process.start setup) before = s₀ at hrunning hbefore
    have hdrops : s₀.step setup .abandon = { s₀ with main := .tasks (dropTasks setup) } := by
      rw [Process.step, hrunning]
    refine Runs.always (I := fun s : Process n => s.Accounted setup ∧ s.Dropping)
      ⟨hbefore.step .abandon, ?_⟩ (fun _ event hs => ⟨hs.1.step event, hs.2.step hs.1 event⟩) after
    refine .of_held (hbefore.step .abandon) ?_ ⟨_, by rw [hdrops], joinsFirst_dropTasks setup⟩
    have hheld := hbefore.held
    rw [toDrop, hrunning] at hheld
    rw [hdrops]
    cases hs : s₀.sendersHeld with
    | true => rfl
    | false => rw [hs] at hheld; cases hheld
  -- the exporters are joined first, so one that receives keeps the senders from being dropped
  obtain ⟨haccounted, hdropping⟩ := h
  have hloop : lane.place.inLoop = true := hdropping.receives i hstarted hlane
  have hwaits : lane.place.isGone = false := by
    cases hplace : lane.place with
    | gone => rw [hplace] at hloop; cases hloop
    | _ => rfl
  obtain ⟨rest, hmain, -⟩ := hdropping.tasks
  refine ⟨hloop, ?_, rest, hmain, ?_⟩
  · cases hheld : s.sendersHeld with
    | true => rfl
    | false =>
      rw [hdropping.senders hheld i] at hwaits
      cases hwaits
  · refine (haccounted.joined rest hmain (.joinExporter i) (List.mem_cons_of_mem _
      (List.mem_map_of_mem (List.mem_finRange i)))).resolve_right fun hends => ?_
    rw [blocks, Bool.not_eq_false'] at hends
    rw [hends] at hwaits
    cases hwaits

/-- A run of one exporter in which the `Frontend` is dropped. -/
theorem drop_waits_for_exporters_one :
    let s := Runs.run (Process.step oneExporter) (Process.start oneExporter)
      ([.exporter 0 takesAll] ++ .abandon :: [.main, .poller emptyPoll, .main, .main])
    s.pollerIsGone = true ∧ s.main ≠ .tasks [] ∧ (s.lanes 0).place.inLoop = true := by
  have h := drop_waits_for_exporters oneExporter [.exporter 0 takesAll]
    [.main, .poller emptyPoll, .main, .main] (by decide +kernel) 0 (by decide +kernel)
    (by decide +kernel)
  obtain ⟨hloop, -, rest, hmain, hjoin⟩ := h
  refine ⟨by decide +kernel, fun hdone => ?_, hloop⟩
  rw [hdone] at hmain
  obtain rfl : [] = rest := MainAt.tasks.inj hmain
  exact List.not_mem_nil hjoin

end InFMon.Daemon
