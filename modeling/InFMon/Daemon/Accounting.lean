import InFMon.Daemon.Steps
import InFMon.Frontend.DecodedFlows

/-! # What becomes of the snapshots

Every snapshot is offered to every exporter once and in order. What an exporter's channel lets in is
exported in that order, unless the exporter could not start or was disabled by a permanent error; in
particular nothing is left behind when the front end was stopped. -/

namespace InFMon.Daemon

open BoundedChannel Frontend Otlp

/-! ### One exporter -/

/-- The snapshot that was received and not exported yet. -/
def ExporterAt.inHand : ExporterAt → List FlowStatsSnapshot
  | .exporting snap => [snap]
  | _ => []

/-- Whether the thread is before or in its loop. -/
def ExporterAt.inLoop : ExporterAt → Bool
  | .closing | .gone => false
  | _ => true

namespace Lane

/-- What is received is exported, and the loop ends when no sender is left and nothing is queued, or by a
permanent error. -/
structure Sound (e : OtlpExporter) (lane : Lane) : Prop where
  channel : lane.channel.Sound
  receiver : lane.channel.receiver = !lane.place.isGone
  received : lane.channel.received = lane.exports.map Prod.fst ++ lane.place.inHand
  thread : lane.thread = lane.exports.foldl e.receive .start
  notStarted : lane.place = .starting → lane.started = false
  running : lane.place.inLoop = true → lane.thread.running = true
  drained : lane.place.inLoop = false → lane.started = true → lane.thread.running = true →
    lane.channel.queue = [] ∧ lane.channel.abandoned = [] ∧ lane.channel.senders = 0

variable {e : OtlpExporter} {lane : Lane}

/-- A lane is sound at the start. -/
theorem sound_start (queueDepth : ℕ) : (start queueDepth).Sound e where
  channel := Channel.sound_create _ _
  receiver := rfl
  received := rfl
  thread := rfl
  notStarted _ := rfl
  running _ := rfl
  drained h := by cases h

/-- A lane stays sound without one of its senders. -/
theorem Sound.drops (h : lane.Sound e) :
    Sound e { lane with channel := lane.channel.dropSender } where
  channel := h.channel.dropSender
  receiver := h.receiver
  received := h.received
  thread := h.thread
  notStarted := h.notStarted
  running := h.running
  drained hloop hstarted hrunning := by
    obtain ⟨hqueue, habandoned, hsenders⟩ := h.drained hloop hstarted hrunning
    refine ⟨hqueue, habandoned, ?_⟩
    rw [Channel.senders_dropSender, hsenders]

/-- A snapshot is offered only as long as a sender is there. -/
theorem Sound.offers (h : lane.Sound e) (hsenders : 0 < lane.channel.senders)
    (snap : FlowStatsSnapshot) : Sound e { lane with channel := lane.channel.trySend snap } where
  channel := h.channel.trySend snap
  receiver := h.receiver
  received := h.received
  thread := h.thread
  notStarted := h.notStarted
  running := h.running
  drained hloop hstarted hrunning := by
    obtain ⟨-, -, hnone⟩ := h.drained hloop hstarted hrunning
    omega

/-- Only a permanent error disables the thread. -/
theorem running_receive (e : OtlpExporter) {t : ExporterThread} (snap : FlowStatsSnapshot)
    (env : ExportEnv) (hrunning : t.running = true) : (e.receive t (snap, env)).running =
      (afterExport (e.export env snap t.exporter).1).inLoop := by
  unfold OtlpExporter.receive
  rw [if_pos hrunning]
  dsimp only
  generalize e.export env snap t.exporter = out
  obtain ⟨(err | _) | _, fates, s⟩ := out
  · cases err with
    | permanent => rfl
    | transient | timeout => exact hrunning
  · exact hrunning
  · exact hrunning

/-- From an export the thread goes on, backs off or ends its loop. -/
theorem afterExport_cases (result : ExportEnd) : afterExport result = .receiving ∨
    afterExport result = .backingOff ∨ afterExport result = .closing := by
  rcases result with (err | _) | _
  · cases err with
    | permanent => exact Or.inr (Or.inr rfl)
    | transient | timeout => exact Or.inr (Or.inl rfl)
  · exact Or.inl rfl
  · exact Or.inr (Or.inl rfl)

/-- A step of its exporter keeps a lane sound. -/
theorem Sound.step (h : lane.Sound e) (input : ExporterInput) : (lane.step e input).Sound e := by
  have hreceiver := h.receiver
  have hreceived := h.received
  have hloop := h.running
  have hdrained := h.drained
  unfold Lane.step
  split
  · rename_i hplace
    rw [hplace] at hreceiver hreceived hloop
    split
    · exact ⟨h.channel, hreceiver, hreceived, h.thread, (fun heq => by cases heq), hloop,
        (fun hfalse => by cases hfalse)⟩
    · -- without a runtime nothing is received
      refine ⟨h.channel.dropReceiver, rfl, hreceived, h.thread, (fun heq => by cases heq),
        (fun hfalse => by cases hfalse), fun _ hstarted _ => ?_⟩
      rw [h.notStarted hplace] at hstarted
      cases hstarted
  · rename_i hplace
    rw [hplace] at hreceiver hreceived hloop
    split
    · rename_i snap hreceipt
      refine ⟨h.channel.take, ?_, ?_, h.thread, (fun heq => by cases heq), hloop,
        (fun hfalse => by cases hfalse)⟩
      · rw [Channel.receiver_take]
        exact hreceiver
      · rw [(Channel.take_of_value hreceipt).2, hreceived]
        exact congrArg (· ++ [snap]) (List.append_nil _)
    · rename_i hreceipt
      obtain ⟨hqueue, hsenders⟩ := Channel.receipt_eq_closed_iff.mp hreceipt
      exact ⟨h.channel, hreceiver, hreceived, h.thread, (fun heq => by cases heq),
        (fun hfalse => by cases hfalse),
        fun _ _ _ => ⟨hqueue, h.channel.abandoned_eq hreceiver, hsenders⟩⟩
    · exact h
  · rename_i snap hplace
    rw [hplace] at hreceiver hreceived hloop
    -- the export is logged with its answer, and a disabled exporter leaves the loop
    have hrunning := running_receive e snap input.env (hloop rfl)
    have hcases := afterExport_cases (e.export input.env snap lane.thread.exporter).1
    refine ⟨h.channel, ?_, ?_, ?_, fun heq => ?_, fun hinLoop => hrunning.trans hinLoop,
      fun hfalse _ hrun => ?_⟩
    · rcases hcases with h | h | h <;> rw [h] <;> exact hreceiver
    · rw [List.map_append, List.map_singleton, hreceived]
      rcases hcases with h | h | h <;> rw [h] <;> exact (List.append_nil _).symm
    · rw [List.foldl_concat, ← h.thread]
    · rcases hcases with h | h | h <;> rw [h] at heq <;> cases heq
    · rw [hfalse] at hrunning
      rw [hrunning] at hrun
      cases hrun
  · rename_i hplace
    rw [hplace] at hreceiver hreceived hloop
    exact ⟨h.channel, hreceiver, hreceived, h.thread, (fun heq => by cases heq), hloop,
      (fun hfalse => by cases hfalse)⟩
  · rename_i hplace
    rw [hplace] at hreceiver hreceived hdrained
    refine ⟨h.channel.dropReceiver, rfl, hreceived, h.thread, (fun heq => by cases heq),
      (fun hfalse => by cases hfalse), fun _ hstarted hrunning => ?_⟩
    obtain ⟨hqueue, habandoned, hsenders⟩ := hdrained rfl hstarted hrunning
    exact ⟨rfl, by rw [Channel.dropReceiver, hqueue, habandoned]; rfl, hsenders⟩
  · exact h

/-- A step of the thread offers nothing. -/
theorem offered_step (e : OtlpExporter) (input : ExporterInput) (lane : Lane) :
    (lane.step e input).channel.offered = lane.channel.offered := by
  unfold Lane.step
  split
  · split <;> rfl
  · split
    · exact Channel.offered_take _
    · rfl
    · rfl
  all_goals rfl

/-- An exporter leaves the senders of its channel. -/
theorem senders_step (e : OtlpExporter) (input : ExporterInput) (lane : Lane) :
    (lane.step e input).channel.senders = lane.channel.senders := by
  unfold Lane.step
  split
  · split <;> rfl
  · split
    · exact Channel.senders_take _
    · rfl
    · rfl
  all_goals rfl

/-- An exporter leaves the capacity of its channel. -/
theorem capacity_step (e : OtlpExporter) (input : ExporterInput) (lane : Lane) :
    (lane.step e input).channel.capacity = lane.channel.capacity := by
  unfold Lane.step
  split
  · split <;> rfl
  · split
    · exact Channel.capacity_take _
    · rfl
    · rfl
  all_goals rfl

end Lane

/-! ### The poller and the exporters -/

/-- The snapshot that the poller is going to offer to an exporter. -/
def PollerAt.inTransit (i : ℕ) : PollerAt → List FlowStatsSnapshot
  | .sending snap next _ => if next ≤ i then [snap] else []
  | _ => []

namespace Process

variable {n : ℕ} {setup : Setup n} {s s' : Process n}

/-- How often the senders of the main thread are still to be dropped. -/
def toDrop (s : Process n) : ℕ :=
  match s.main with
  | .running => 1
  | .tasks rest => rest.count .dropSenders

/-- The poller and the exporters were joined, or will be. -/
def Joined (s : Process n) : Prop :=
  ∀ rest, s.main = .tasks rest →
    ∀ task ∈ .joinPoller :: (List.finRange n).map Task.joinExporter,
      task ∈ rest ∨ s.blocks task = false

/-- The exporters are sound, each has been offered every snapshot so far, and their channels have a
sender for the poller and one for the main thread. -/
structure Accounted (setup : Setup n) (s : Process n) : Prop where
  lane : ∀ i, (s.lanes i).Sound (setup.exporter i)
  offered : ∀ i : Fin n,
    (s.lanes i).channel.offered ++ s.poller.place.inTransit i = s.produced
  senders : ∀ i, (s.lanes i).channel.senders = s.sendersHeld.toNat + (!s.pollerIsGone).toNat
  held : s.toDrop = s.sendersHeld.toNat
  joined : s.Joined

/-- At the start everything is accounted for. -/
theorem accounted_start : (start setup).Accounted setup where
  lane _ := Lane.sound_start _
  offered _ := rfl
  senders _ := rfl
  held := rfl
  joined _ h := by cases h

/-- Joining the exporters drops no sender. -/
theorem count_joins (tasks : List (Fin n)) :
    (tasks.map Task.joinExporter).count Task.dropSenders = 0 := by
  rw [List.count_eq_zero, List.mem_map]
  rintro ⟨i, -, h⟩
  cases h

/-- `stop` drops the senders once. -/
theorem count_stopTasks : (stopTasks setup).count .dropSenders = 1 := by
  rw [stopTasks]
  cases setup.forwarding <;> cases setup.control <;> simp [count_joins]

/-- Dropping the `Frontend` drops the senders once. -/
theorem count_dropTasks : (dropTasks setup).count .dropSenders = 1 := by
  rw [dropTasks]
  cases setup.control <;> simp [count_joins]

/-- `stop` joins the poller and every exporter. -/
theorem joins_subset_stopTasks {task : Task n}
    (h : task ∈ .joinPoller :: (List.finRange n).map Task.joinExporter) : task ∈ stopTasks setup := by
  rw [stopTasks]
  rcases List.mem_cons.mp h with rfl | h
  · simp
  · simp [h]

/-- Dropping the `Frontend` joins the poller and every exporter. -/
theorem joins_subset_dropTasks {task : Task n}
    (h : task ∈ .joinPoller :: (List.finRange n).map Task.joinExporter) : task ∈ dropTasks setup := by
  rw [dropTasks]
  rcases List.mem_cons.mp h with rfl | h
  · simp
  · simp [h]

/-- The joins that are done stay done. -/
theorem Accounted.joined_step (h : s.Accounted setup) (event : Event n)
    (hmain : (s.step setup event).main = s.main) : (s.step setup event).Joined := by
  intro rest hrest task htask
  rcases h.joined rest (hmain ▸ hrest) task htask with hin | hends
  · exact Or.inl hin
  · exact Or.inr (blocks_step event hends)

/-- A step that leaves the exporters alone, and in which the poller has nothing new to offer. -/
theorem Accounted.congr (h : s.Accounted setup) (hjoined : s'.Joined) (hmain : s'.main = s.main)
    (hheld : s'.sendersHeld = s.sendersHeld) (hlanes : s'.lanes = s.lanes)
    (hproduced : s'.produced = s.produced)
    (htransit : ∀ i : Fin n, s'.poller.place.inTransit i = s.poller.place.inTransit i)
    (hgone : s'.pollerIsGone = s.pollerIsGone) : s'.Accounted setup where
  lane i := by rw [hlanes]; exact h.lane i
  offered i := by rw [hlanes, htransit, hproduced]; exact h.offered i
  senders i := by rw [hlanes, hheld, hgone]; exact h.senders i
  held := by rw [toDrop, hmain, hheld]; exact h.held
  joined := hjoined

/-- The main thread begins its tasks. -/
theorem Accounted.begins (h : s.Accounted setup) (hmain : s.main = .running) {tasks : List (Task n)}
    (hcount : tasks.count .dropSenders = 1)
    (hsubset : ∀ task ∈ .joinPoller :: (List.finRange n).map Task.joinExporter, task ∈ tasks) :
    Accounted setup { s with main := .tasks tasks } where
  lane := h.lane
  offered := h.offered
  senders := h.senders
  held := by
    have hheld := h.held
    rw [toDrop, hmain] at hheld
    show tasks.count .dropSenders = s.sendersHeld.toNat
    rw [hcount]
    exact hheld
  joined rest hrest task htask := by
    obtain rfl : tasks = rest := MainAt.tasks.inj hrest
    exact Or.inl (hsubset task htask)

/-- A step of the main thread keeps the account. -/
theorem Accounted.main (h : s.Accounted setup) : (s.mainStep setup).Accounted setup := by
  rcases s.mainStep_cases setup with hsame | ⟨hmain, -, hnext⟩ | ⟨task, rest, hmain, hends, hnext⟩
  · rw [hsame]
    exact h
  · rw [hnext]
    exact h.begins hmain count_stopTasks fun task htask => joins_subset_stopTasks htask
  have hjoined : (s.mainStep setup).Joined := by
    intro rest' hrest' task' htask'
    rw [hnext] at hrest'
    obtain rfl : rest = rest' := MainAt.tasks.inj hrest'
    rcases h.joined _ hmain task' htask' with hin | hjoined
    · rcases List.mem_cons.mp hin with rfl | hin
      · exact Or.inr (show (s.step setup .main).blocks _ = false from blocks_step .main hends)
      · exact Or.inl hin
    · exact Or.inr (show (s.step setup .main).blocks _ = false from blocks_step .main hjoined)
  -- the senders are dropped once, by the task that stands for it in the list
  have hheld : (task :: rest).count .dropSenders = s.sendersHeld.toNat := by
    have hheld := h.held
    rw [toDrop, hmain] at hheld
    exact hheld
  rw [List.count_cons] at hheld
  rw [hnext] at hjoined ⊢
  by_cases htask : task = .dropSenders
  · subst htask
    have htrue : s.sendersHeld = true := by
      cases hs : s.sendersHeld with
      | true => rfl
      | false => rw [hs] at hheld; simp at hheld
    rw [htrue] at hheld
    refine ⟨fun i => (h.lane i).drops, h.offered, fun i => ?_, ?_, hjoined⟩
    · show (s.lanes i).channel.senders - 1 = 0 + (!s.pollerIsGone).toNat
      rw [h.senders i, htrue]
      simp only [Bool.toNat_true]
      omega
    · show rest.count .dropSenders = 0
      simpa using hheld
  · have hlanes : (s.perform task).lanes = s.lanes := by
      cases task <;> first | rfl | exact absurd rfl htask
    have hsenders : (s.perform task).sendersHeld = s.sendersHeld := by
      cases task <;> first | rfl | exact absurd rfl htask
    refine ⟨fun i => ?_, fun i => ?_, fun i => ?_, ?_, hjoined⟩
    · rw [hlanes]
      exact h.lane i
    · rw [hlanes, poller_perform, produced_perform]
      exact h.offered i
    · show ((s.perform task).lanes i).channel.senders =
        (s.perform task).sendersHeld.toNat + (!(s.perform task).poller.place.isGone).toNat
      rw [hlanes, hsenders, poller_perform]
      exact h.senders i
    · show rest.count .dropSenders = (s.perform task).sendersHeld.toNat
      rw [hsenders, ← hheld, if_neg (by simpa using htask), Nat.add_zero]

/-- A snapshot that is in transit to the next exporter is offered to it. -/
theorem Accounted.sends (h : s.Accounted setup) {snap : FlowStatsSnapshot} {next : ℕ}
    {pulled : Option (List ℕ)} (hat : s.poller.place = .sending snap next pulled) (i : Fin n) :
    (s.offerTo snap next i).Sound (setup.exporter i) ∧
      (s.offerTo snap next i).channel.senders = (s.lanes i).channel.senders ∧
      (s.offerTo snap next i).channel.offered ++
        (PollerAt.sending snap (next + 1) pulled).inTransit i = s.produced := by
  have hoffered := h.offered i
  have hsenders := h.senders i
  rw [hat] at hoffered
  rw [pollerIsGone, hat] at hsenders
  rw [offerTo]
  split
  · rename_i hnext
    refine ⟨(h.lane i).offers ?_ snap, rfl, ?_⟩
    · rw [hsenders]
      exact Nat.succ_pos _
    · rw [PollerAt.inTransit, if_pos (Nat.le_of_eq hnext.symm)] at hoffered
      rw [PollerAt.inTransit, if_neg (by omega), List.append_nil, Channel.offered_trySend]
      exact hoffered
  · rename_i hnext
    refine ⟨h.lane i, rfl, ?_⟩
    rw [← hoffered, PollerAt.inTransit, PollerAt.inTransit]
    by_cases hle : next ≤ i.val
    · rw [if_pos hle, if_pos (by omega)]
    · rw [if_neg hle, if_neg (by omega)]

/-- A new snapshot is on its way to every exporter. -/
theorem Accounted.take (h : s.Accounted setup) {poll : Poll} {pulled : Option (List ℕ)}
    (hnone : ∀ i : Fin n, s.poller.place.inTransit i = []) (hgone : s.poller.place.isGone = false)
    (hjoined : (s.take poll pulled).Joined) : (s.take poll pulled).Accounted setup where
  lane := h.lane
  offered i := by
    have hoffered := h.offered i
    rw [hnone, List.append_nil] at hoffered
    show (s.lanes i).channel.offered ++ _ = s.produced ++ _
    rw [hoffered, Process.take, PollerAt.inTransit, if_pos (Nat.zero_le _)]
  senders i := by
    have hsenders := h.senders i
    rw [pollerIsGone, hgone] at hsenders
    exact hsenders
  held := h.held
  joined := hjoined

/-- A step of the poller keeps the account. -/
theorem Accounted.poller (h : s.Accounted setup) (input : PollerInput) :
    (s.pollerStep setup input).Accounted setup := by
  have hmove := s.pollerStep_move setup input
  have hjoined := h.joined_step (.poller input) hmove.frame.1
  rw [Process.step] at hjoined
  have hlocal : ∀ {place : PollerAt}, s.poller.place = place →
      (∀ i : Fin n, (s.pollerStep setup input).poller.place.inTransit i = place.inTransit i) →
      (s.pollerStep setup input).poller.place.isGone = place.isGone →
      (s.pollerStep setup input).lanes = s.lanes →
      (s.pollerStep setup input).produced = s.produced →
      (s.pollerStep setup input).Accounted setup := by
    rintro place rfl htransit hgone hlanes hproduced
    exact h.congr hjoined hmove.frame.1 hmove.frame.2.1 hlanes hproduced htransit hgone
  generalize s.pollerStep setup input = s' at hmove hjoined hlocal ⊢
  cases hmove with
  | ends hat =>
    refine ⟨fun i => (h.lane i).drops, fun i => ?_, fun i => ?_, h.held, hjoined⟩
    · have hoffered := h.offered i
      rw [hat] at hoffered
      exact hoffered
    · have hsenders := h.senders i
      rw [pollerIsGone, hat] at hsenders
      show (s.lanes i).channel.senders - 1 = s.sendersHeld.toNat + 0
      rw [hsenders]
      rfl
  | begins hat =>
    refine hlocal hat (fun i => ?_) ?_ rfl rfl
    · cases s.poller.connected <;> rfl
    · cases s.poller.connected <;> rfl
  | polls hat poll => exact h.take (fun i => by rw [hat]; rfl) (by rw [hat]; rfl) hjoined
  | pulls hat poll => exact h.take (fun i => by rw [hat]; rfl) (by rw [hat]; rfl) hjoined
  | sends hat hlt =>
    have hsent := h.sends hat
    refine ⟨fun i => (hsent i).1, fun i => (hsent i).2.2, fun i => ?_, h.held, hjoined⟩
    have hsenders := h.senders i
    rw [pollerIsGone, hat] at hsenders
    exact (hsent i).2.1.trans hsenders
  | sent hat hge | sentPulled hat hge =>
    refine hlocal hat (fun i => ?_) rfl rfl rfl
    -- the senders of the exporters come first
    have hle : n ≤ setup.senders := by
      rw [Setup.senders]
      split <;> omega
    exact (if_neg (by omega)).symm
  | drained hat =>
    refine hlocal hat (fun i => ?_) ?_ rfl rfl
    · show (if _ then PollerAt.resting [] else _ : PollerAt).inTransit i = []
      split <;> rfl
    · show (if _ then PollerAt.resting [] else _ : PollerAt).isGone = false
      split <;> rfl
  | connects hat | connectFails hat | pollFails hat | drains hat | pullFails hat | replied hat
  | replies hat | rests hat | wakes hat | sleeps hat =>
    exact hlocal hat (fun _ => rfl) rfl rfl rfl
  | replyWaits | gone => exact h

/-- A step of an exporter keeps the account. -/
theorem Accounted.exporter (h : s.Accounted setup) (i : Fin n) (input : ExporterInput) :
    (s.exporterStep setup i input).Accounted setup := by
  have hjoined := h.joined_step (.exporter i input) rfl
  have hlane : ∀ j, ((s.exporterStep setup i input).lanes j).Sound (setup.exporter j) ∧
      ((s.exporterStep setup i input).lanes j).channel.offered = (s.lanes j).channel.offered ∧
      ((s.exporterStep setup i input).lanes j).channel.senders = (s.lanes j).channel.senders := by
    intro j
    rw [exporterStep]
    by_cases hij : j = i
    · subst hij
      dsimp only
      rw [Function.update_self]
      exact ⟨(h.lane j).step input, Lane.offered_step .., Lane.senders_step ..⟩
    · dsimp only
      rw [Function.update_of_ne hij]
      exact ⟨h.lane j, rfl, rfl⟩
  refine ⟨fun j => (hlane j).1, fun j => ?_, fun j => ?_, h.held, hjoined⟩
  · rw [(hlane j).2.1]
    exact h.offered j
  · rw [(hlane j).2.2]
    exact h.senders j

/-- Every event keeps the account. -/
theorem Accounted.step (h : s.Accounted setup) (event : Event n) :
    (s.step setup event).Accounted setup := by
  cases event with
  | main => exact h.main
  | poller input => exact h.poller input
  | exporter i input => exact h.exporter i input
  | forwarder =>
    have hframe := s.forwarderStep_frame
    have hjoined := h.joined_step .forwarder (by rw [Process.step, hframe])
    rw [Process.step] at hjoined ⊢
    refine h.congr hjoined ?_ ?_ ?_ ?_ (fun i => ?_) ?_ <;> rw [hframe]
    rfl
  | control input =>
    obtain ⟨hmain, hheld, -, -, hpoller, hproduced, hlanes, -, -⟩ := s.controlStep_frame input
    refine h.congr (h.joined_step (.control input) hmain) hmain hheld hlanes hproduced
      (fun i => ?_) ?_
    · exact congrArg (fun poller => poller.place.inTransit i) hpoller
    · exact congrArg (fun poller => poller.place.isGone) hpoller
  | abandon =>
    rw [Process.step]
    split
    · rename_i hmain
      exact h.begins hmain count_dropTasks fun task htask => joins_subset_dropTasks htask
    · exact h
  | signal | connect | unlink =>
    exact h.congr h.joined rfl rfl rfl rfl (fun _ => rfl) rfl

/-! ### The ticks -/

/-- The snapshots are numbered one after the other. -/
structure Numbered (s : Process n) : Prop where
  tickId : s.poller.tickId = UInt64.ofNat s.produced.length
  ticks : s.produced.map FlowStatsSnapshot.tickId =
    (List.range s.produced.length).map fun k => UInt64.ofNat (k + 1)

/-- The numbering depends on the ticks and on what was produced only. -/
theorem Numbered.congr (h : s.Numbered) (htick : s'.poller.tickId = s.poller.tickId)
    (hproduced : s'.produced = s.produced) : s'.Numbered := by
  refine ⟨?_, ?_⟩
  · rw [htick, hproduced]
    exact h.tickId
  · rw [hproduced]
    exact h.ticks

/-- A new snapshot has the next number. -/
theorem Numbered.take (h : s.Numbered) (poll : Poll) (pulled : Option (List ℕ)) :
    (s.take poll pulled).Numbered := by
  have hlen : (s.take poll pulled).produced.length = s.produced.length + 1 :=
    List.length_append.trans rfl
  have hnext : s.poller.tickId + 1 = UInt64.ofNat (s.produced.length + 1) := by
    rw [h.tickId, UInt64.ofNat_add]
    rfl
  refine ⟨?_, ?_⟩
  · rw [hlen]
    exact hnext
  · rw [hlen, List.range_succ, List.map_append, List.map_singleton, ← h.ticks]
    show (s.produced ++ [_]).map FlowStatsSnapshot.tickId = _
    rw [List.map_append, List.map_singleton]
    exact congrArg (fun tick => s.produced.map FlowStatsSnapshot.tickId ++ [tick]) hnext

/-- Every event keeps the numbering. -/
theorem Numbered.step (h : s.Numbered) (event : Event n) : (s.step setup event).Numbered := by
  cases event with
  | main =>
    obtain ⟨hpoller, hproduced, -⟩ := s.mainStep_frame setup
    exact h.congr (congrArg Poller.tickId hpoller) hproduced
  | poller input =>
    have hmove := s.pollerStep_move setup input
    rw [Process.step]
    generalize s.pollerStep setup input = s' at hmove ⊢
    cases hmove with
    | polls _ poll | pulls _ poll => exact h.take poll _
    | _ => exact h.congr rfl rfl
  | forwarder =>
    rw [Process.step, forwarderStep_frame]
    exact h.congr rfl rfl
  | control input =>
    obtain ⟨-, -, -, -, hpoller, hproduced, -⟩ := s.controlStep_frame input
    exact h.congr (congrArg Poller.tickId hpoller) hproduced
  | abandon =>
    rw [Process.step]
    split <;> exact h.congr rfl rfl
  | exporter | signal | connect | unlink => exact h.congr rfl rfl

/-! ### Every run -/

/-- Whatever happens to a lane, the capacity of its channel stays. -/
theorem LaneMove.capacity {e : OtlpExporter} {lane lane' : Lane} (h : LaneMove e lane lane') :
    lane'.channel.capacity = lane.channel.capacity := by
  cases h with
  | stays | drops | offers => rfl
  | steps input => exact Lane.capacity_step e input lane

end Process

open Process

/-- In every run, every exporter has been offered all snapshots so far once and in order, the one in
transit apart, and they are numbered from one on. What its channel has let in was exported, or is in
hand, queued or abandoned, in this order; no more is queued than the channel holds, and the thread is
where the exports have brought it. -/
theorem every_snapshot_accounted {n : ℕ} (setup : Setup n) (events : List (Event n)) (i : Fin n) :
    let s := Runs.run (Process.step setup) (Process.start setup) events
    let lane := s.lanes i
    lane.channel.offered ++ s.poller.place.inTransit i = s.produced ∧
      s.produced.map FlowStatsSnapshot.tickId =
        (List.range s.produced.length).map (fun k => UInt64.ofNat (k + 1)) ∧
      lane.channel.accepted = lane.exports.map Prod.fst ++ lane.place.inHand ++ lane.channel.queue ++
        lane.channel.abandoned ∧
      lane.channel.queue.length ≤ channelCapacity (setup.queueDepth i) ∧
      lane.thread = lane.exports.foldl (setup.exporter i).receive .start := by
  intro s lane
  have h : s.Accounted setup := Runs.always accounted_start (fun _ event h => h.step event) events
  have hnumbered : s.Numbered :=
    Runs.always (I := Numbered) ⟨rfl, rfl⟩ (fun _ _ h => Numbered.step h _) events
  have hcapacity : lane.channel.capacity = channelCapacity (setup.queueDepth i) :=
    Runs.always (I := fun s : Process n => (s.lanes i).channel.capacity = channelCapacity (setup.queueDepth i))
      rfl (fun _ event h => (laneMove_step event i).capacity.trans h) events
  have hlane := h.lane i
  refine ⟨h.offered i, hnumbered.ticks, ?_, hcapacity ▸ hlane.channel.queue_le, hlane.thread⟩
  rw [← hlane.received]
  exact hlane.channel.accepted_eq

/-- When the main thread has stopped the others, every exporter has been offered every snapshot, and has
exported all that its channel had let in, unless it could not start or was disabled by a permanent
error. -/
theorem stop_drains_exporters {n : ℕ} (setup : Setup n) (events : List (Event n))
    (hdone : (Runs.run (Process.step setup) (Process.start setup) events).main = .tasks [])
    (i : Fin n) :
    let s := Runs.run (Process.step setup) (Process.start setup) events
    let lane := s.lanes i
    lane.channel.offered = s.produced ∧
      lane.channel.accepted = lane.exports.map Prod.fst ++ lane.channel.abandoned ∧
      (lane.started = true → lane.thread.running = true → lane.channel.abandoned = []) := by
  intro s lane
  have h : s.Accounted setup := Runs.always accounted_start (fun _ event h => h.step event) events
  have hlane := h.lane i
  -- no task is left, so every thread has been joined and is gone
  have hpoller : s.pollerIsGone = true := by
    have hends := (h.joined [] hdone .joinPoller List.mem_cons_self).resolve_left List.not_mem_nil
    rwa [blocks, Bool.not_eq_false'] at hends
  have hexporter : lane.place.isGone = true := by
    have hends := (h.joined [] hdone (.joinExporter i)
      (List.mem_cons_of_mem _ (List.mem_map_of_mem (List.mem_finRange i)))).resolve_left
        List.not_mem_nil
    rwa [blocks, Bool.not_eq_false'] at hends
  have hgone : lane.place = .gone := by
    cases hplace : lane.place with
    | gone => rfl
    | _ => rw [hplace] at hexporter; cases hexporter
  have hreceiver := hlane.receiver
  have hreceived := hlane.received
  have hdrained := hlane.drained
  rw [hgone] at hreceiver hreceived hdrained
  refine ⟨?_, ?_, fun hstarted hrunning => (hdrained rfl hstarted hrunning).2.1⟩
  · have hoffered := h.offered i
    cases hplace : s.poller.place with
    | gone =>
      rw [hplace] at hoffered
      exact (List.append_nil _).symm.trans hoffered
    | _ =>
      rw [pollerIsGone, hplace] at hpoller
      cases hpoller
  · rw [hlane.channel.accepted_eq, hreceived, hlane.channel.queue_eq hreceiver]
    simp only [List.append_nil, ExporterAt.inHand]
    rfl

/-- One exporter, and no control server. -/
def oneExporter : Setup 1 where
  exporter := fun _ => defaultExporter
  queueDepth := fun _ => 2
  interval := 0
  control := false
  forwarding := false
  control_of_forwarding h := h

/-- A poller that connects and gets an empty snapshot. -/
def emptyPoll : PollerInput where
  connects := true
  polled := some { hash := insertionOrder _, raw := ⟨[]⟩, wall := 5, mono := 5 }
  elapsed := 0

/-- An exporter whose collector takes everything. -/
def takesAll : ExporterInput where
  runtime := true
  env :=
    { attempts := fun _ _ => ⟨true, some (.ok ())⟩
      deadline := none
      clientLeft := true
      durationBits := 0 }

/-- A snapshot is exported, and then the front end is stopped. -/
def pollAndStop : List (Event 1) :=
  List.replicate 8 (.poller emptyPoll) ++ List.replicate 3 (.exporter 0 takesAll) ++
    [.signal, .main, .main, .main, .poller emptyPoll, .main, .main, .exporter 0 takesAll,
      .exporter 0 takesAll, .main]

/-- A run of one exporter that `stop` has ended. -/
theorem stop_drains_exporters_one :
    let s := Runs.run (Process.step oneExporter) (Process.start oneExporter) pollAndStop
    s.main = .tasks [] ∧ s.produced.map FlowStatsSnapshot.tickId = [1] ∧
      (s.lanes 0).channel.offered = s.produced := by
  have hdone : (Runs.run (Process.step oneExporter) (Process.start oneExporter) pollAndStop).main =
      .tasks [] := by decide +kernel
  exact ⟨hdone, by decide +kernel, (stop_drains_exporters oneExporter pollAndStop hdone 0).1⟩

end InFMon.Daemon
