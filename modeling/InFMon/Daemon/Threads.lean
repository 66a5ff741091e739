import InFMon.Foundations.BoundedChannel
import InFMon.Frontend.StatsPaths
import InFMon.Otlp.Export
import Mathlib.Data.List.FinRange

/-! # The threads of the front end

`lifecycle.rs` with `run_loop` of `poller.rs`, the loop of `spawn_exporter_thread` and `run_server` of
`control.rs`: the poller hands every snapshot to the exporters and to the thread that stores it for the
control server, and the main thread starts them and stops them. One step is one access to a channel or a
flag, one call that waits, or one task of the main thread. -/

namespace InFMon.Daemon

open BoundedChannel Frontend Otlp

/-! ### The configuration -/

/-- What `Frontend::start` finds: the exporters and the `queue_depth` of each, the polling interval in
nanoseconds, and whether the control server and the thread `snapshot-to-control` could be started. -/
structure Setup (n : ℕ) where
  exporter : Fin n → OtlpExporter
  queueDepth : Fin n → ℕ
  interval : ℕ
  control : Bool
  forwarding : Bool
  /-- Without the server the thread is not started. -/
  control_of_forwarding : forwarding = true → control = true

/-- The capacity that `snapshot_channel` makes of a `queue_depth`. -/
def channelCapacity (queueDepth : ℕ) : ℕ := if queueDepth = 0 then 1 else queueDepth

/-- The number of senders of the poller. -/
def Setup.senders {n : ℕ} (setup : Setup n) : ℕ := if setup.forwarding then n + 1 else n

/-! ### The places of the threads -/

/-- The backoff of the poller before the first attempt, in nanoseconds. -/
def minBackoff : ℕ := 100000000

/-- The ceiling of the backoff of the poller. -/
def maxBackoff : ℕ := 5000000000

/-- `sleep_interruptible` looks at the flag this often. -/
def sleepCheck : ℕ := 50000000

/-- Where the poller is in `run_loop`. The waiters are the pull requests of the iteration. -/
inductive PollerAt where
  | head
  | connecting
  | polling
  /-- A snapshot goes to the next sender: the one of the tick, or one for the pull requests. -/
  | sending (snap : FlowStatsSnapshot) (next : ℕ) (pulled : Option (List ℕ))
  | draining (waiters : List ℕ)
  | pulling (waiters : List ℕ)
  | replying (snap : FlowStatsSnapshot) (waiters : List ℕ)
  /-- The rest of the interval is computed. -/
  | resting (waiters : List ℕ)
  | sleeping (remaining : ℕ) (waiters : List ℕ)
  | gone

/-- Whether the poller has returned from `run_loop`. -/
def PollerAt.isGone : PollerAt → Bool
  | .gone => true
  | _ => false

/-- The variables of `run_loop`. -/
structure Poller where
  connected : Bool
  tickId : UInt64
  prevMono : UInt64
  backoff : ℕ
  place : PollerAt

/-- Where an exporter thread is. -/
inductive ExporterAt where
  /-- The runtime is built. -/
  | starting
  | receiving
  | exporting (snap : FlowStatsSnapshot)
  | backingOff
  /-- The loop is over, and the exporter is shut down. -/
  | closing
  | gone

/-- Whether the thread has ended. -/
def ExporterAt.isGone : ExporterAt → Bool
  | .gone => true
  | _ => false

/-- An exporter thread and its channel. The exports are those that were made so far. -/
structure Lane where
  channel : Channel FlowStatsSnapshot
  place : ExporterAt
  started : Bool
  thread : ExporterThread
  exports : List (FlowStatsSnapshot × ExportEnv)

/-- Where `snapshot-to-control` is. -/
inductive ForwarderAt where
  | receiving
  | storing (snap : FlowStatsSnapshot)
  | gone

/-- Whether the thread has ended. -/
def ForwarderAt.isGone : ForwarderAt → Bool
  | .gone => true
  | _ => false

/-- Where the control thread is. A reply channel is known by its number and holds one snapshot, and it
is answerable as long as its sender is there. -/
inductive ControlAt where
  | accepting
  | serving
  | waiting (id : ℕ) (reply : Option FlowStatsSnapshot) (answerable : Bool)
  | storing (snap : FlowStatsSnapshot)
  | gone

namespace ControlAt

/-- Whether the thread has ended. -/
def isGone : ControlAt → Bool
  | .gone => true
  | _ => false

/-- Reply channels are dropped by the poller. -/
def forget (waiters : List ℕ) : ControlAt → ControlAt
  | .waiting id reply answerable => .waiting id reply (answerable && !waiters.contains id)
  | place => place

/-- A reply is sent. A waiter that has given up has closed its channel. -/
def reply (snap : FlowStatsSnapshot) (waiter : ℕ) : ControlAt → ControlAt
  | .waiting id none answerable =>
    .waiting id (if id = waiter then some snap else none) answerable
  | place => place

/-- The reply channel of a waiter is full. -/
def replyBlocks (waiter : ℕ) : ControlAt → Bool
  | .waiting id (some _) _ => id == waiter
  | _ => false

end ControlAt

/-- What the main thread has to do, one after the other. -/
inductive Task (n : ℕ) where
  | setShutdown
  | stopPoller
  | joinPoller
  | joinForwarder
  | dropSenders
  | joinExporter (i : Fin n)
  | stopControl
  | wakeControl
  | joinControl
  deriving DecidableEq

/-- Where the main thread is: in the loop of `main`, or with tasks left. -/
inductive MainAt (n : ℕ) where
  | running
  | tasks (rest : List (Task n))
  deriving DecidableEq

/-- The threads, the channels and the flags. -/
structure Process (n : ℕ) where
  shutdown : Bool
  main : MainAt n
  /-- Whether the main thread has its senders. -/
  sendersHeld : Bool
  pollerStop : Bool
  poller : Poller
  /-- The snapshots that the poller has made. -/
  produced : List FlowStatsSnapshot
  lanes : Fin n → Lane
  stats : Channel FlowStatsSnapshot
  forwarder : ForwarderAt
  latest : Option FlowStatsSnapshot
  /-- The channel of the pull requests. -/
  pulls : List ℕ
  pullCount : ℕ
  control : ControlAt
  controlStop : Bool
  /-- The connections that wait to be accepted. -/
  pending : ℕ
  /-- The path leads to the socket of the server. -/
  socket : Bool
  answers : List (Except PullError FlowStatsSnapshot)

/-! ### What comes from outside -/

/-- What a step of the poller meets: whether it can connect, how a snapshot ends, and the time since the
iteration began. -/
structure PollerInput where
  connects : Bool
  polled : Option Poll
  elapsed : ℕ

/-- What a step of an exporter thread meets. -/
structure ExporterInput where
  runtime : Bool
  env : ExportEnv

/-- What a step of the control thread meets: whether the request is a pull, and whether the time for its
reply is over. -/
structure ControlInput where
  pulls : Bool
  timesOut : Bool

/-- The steps of the threads, a signal, the end of a `Frontend` that was not stopped, a client that
connects, and the loss of the socket file. -/
inductive Event (n : ℕ) where
  | main
  | poller (input : PollerInput)
  | exporter (i : Fin n) (input : ExporterInput)
  | forwarder
  | control (input : ControlInput)
  | signal
  | abandon
  | connect
  | unlink

/-- The threads. -/
inductive Thread (n : ℕ) where
  | main
  | poller
  | exporter (i : Fin n)
  | forwarder
  | control
  deriving DecidableEq

/-- The thread of a step. -/
def Event.owner {n : ℕ} : Event n → Option (Thread n)
  | .main => some .main
  | .poller _ => some .poller
  | .exporter i _ => some (.exporter i)
  | .forwarder => some .forwarder
  | .control _ => some .control
  | .signal | .abandon | .connect | .unlink => none

/-! ### An exporter and its channel -/

namespace Lane

/-- The thread is started. -/
def start (queueDepth : ℕ) : Lane where
  -- one sender is kept by the main thread, the other one goes to the poller
  channel := .create FlowStatsSnapshot (channelCapacity queueDepth) 2
  place := .starting
  started := false
  thread := .start
  exports := []

/-- Where the thread goes from an export. -/
def afterExport : ExportEnd → ExporterAt
  | .done (.ok ()) => .receiving
  | .done (.error .permanent) => .closing
  | .done (.error _) | .cancelled => .backingOff

/-- A step of `spawn_exporter_thread`. -/
def step (e : OtlpExporter) (input : ExporterInput) (lane : Lane) : Lane :=
  match lane.place with
  | .starting =>
    if input.runtime then { lane with place := .receiving, started := true }
    else { lane with place := .gone, channel := lane.channel.dropReceiver }
  | .receiving =>
    match lane.channel.receipt with
    | .value snap => { lane with place := .exporting snap, channel := lane.channel.take }
    | .closed => { lane with place := .closing }
    | .waits => lane
  | .exporting snap =>
    { lane with
      place := afterExport (e.export input.env snap lane.thread.exporter).1
      thread := e.receive lane.thread (snap, input.env)
      exports := lane.exports ++ [(snap, input.env)] }
  | .backingOff => { lane with place := .receiving }
  | .closing => { lane with place := .gone, channel := lane.channel.dropReceiver }
  | .gone => lane

end Lane

/-! ### The system -/

namespace Process

variable {n : ℕ} (setup : Setup n)

/-- The threads were started. -/
def start : Process n where
  shutdown := false
  main := .running
  sendersHeld := true
  pollerStop := false
  poller := { connected := false, tickId := 0, prevMono := 0, backoff := minBackoff, place := .head }
  produced := []
  lanes := fun i => .start (setup.queueDepth i)
  stats := .create FlowStatsSnapshot 1 1
  forwarder := if setup.forwarding then .receiving else .gone
  latest := none
  pulls := []
  pullCount := 0
  control := if setup.control then .accepting else .gone
  controlStop := false
  pending := 0
  socket := setup.control
  answers := []

/-! ### The poller -/

/-- The poller goes to a place. -/
def pollerTo (place : PollerAt) (s : Process n) : Process n :=
  { s with poller := { s.poller with place := place } }

/-- Every sender of the channels of the exporters that one of two holders has goes away. -/
def dropSenders (s : Process n) : Process n :=
  { s with
    lanes := fun i => { s.lanes i with channel := (s.lanes i).channel.dropSender } }

/-- Reply channels are dropped with what is in them. -/
def forget (waiters : List ℕ) (s : Process n) : Process n :=
  { s with control := s.control.forget waiters }

/-- `run_loop` returns, and its channels are dropped with what is queued. -/
def pollerEnds (s : Process n) : Process n :=
  let s := (s.forget s.pulls).dropSenders
  { s with
    poller := { s.poller with place := .gone }
    stats := s.stats.dropSender
    pulls := [] }

/-- A snapshot was taken and decoded. -/
def take (poll : Poll) (pulled : Option (List ℕ)) (s : Process n) : Process n :=
  let tickId := s.poller.tickId + 1
  let snap := decodeSnapshot poll.hash poll.raw tickId poll.wall poll.mono s.poller.prevMono
  { s with
    poller :=
      { s.poller with
        tickId := tickId
        prevMono := poll.mono
        place := .sending snap 0 pulled }
    produced := s.produced ++ [snap] }

/-- A snapshot is offered to an exporter. -/
def offerTo (snap : FlowStatsSnapshot) (next : ℕ) (s : Process n) (i : Fin n) : Lane :=
  if i.val = next then { s.lanes i with channel := (s.lanes i).channel.trySend snap } else s.lanes i

/-- `try_send` to one of the senders: those of the exporters come first. -/
def send (snap : FlowStatsSnapshot) (next : ℕ) (s : Process n) : Process n :=
  { s with
    lanes := s.offerTo snap next
    stats := if next < n then s.stats else s.stats.trySend snap }

/-- A waiter gets the snapshot. -/
def reply (snap : FlowStatsSnapshot) (waiter : ℕ) (s : Process n) : Process n :=
  { s with control := s.control.reply snap waiter }

/-- A step of `run_loop`. -/
def pollerStep (input : PollerInput) (s : Process n) : Process n :=
  match s.poller.place with
  | .head =>
    if s.pollerStop then s.pollerEnds
    else s.pollerTo (if s.poller.connected then .polling else .connecting)
  | .connecting =>
    if input.connects then
      { s with
        poller :=
          { s.poller with
            connected := true
            backoff := minBackoff
            prevMono := 0
            place := .polling } }
    else
      { s with
        poller :=
          { s.poller with
            backoff := min (s.poller.backoff * 2) maxBackoff
            place := .sleeping s.poller.backoff [] } }
  | .polling =>
    match input.polled with
    | none => { s with poller := { s.poller with connected := false, place := .head } }
    | some poll => s.take poll none
  | .sending snap next pulled =>
    if next < setup.senders then (s.send snap next).pollerTo (.sending snap (next + 1) pulled)
    else
      s.pollerTo (match pulled with
        | none => .draining []
        | some waiters => .replying snap waiters)
  | .draining waiters =>
    match s.pulls with
    | id :: pulls => { s with pulls := pulls }.pollerTo (.draining (waiters ++ [id]))
    | [] => s.pollerTo (if waiters = [] then .resting [] else .pulling waiters)
  | .pulling waiters =>
    -- the client is there, as the snapshot of the tick was taken
    match input.polled with
    | none => s.pollerTo (.resting waiters)
    | some poll => s.take poll (some waiters)
  | .replying snap waiters =>
    match waiters with
    | [] => s.pollerTo (.resting [])
    | waiter :: waiters =>
      if s.control.replyBlocks waiter then s else (s.reply snap waiter).pollerTo (.replying snap waiters)
  | .resting waiters => s.pollerTo (.sleeping (setup.interval - input.elapsed) waiters)
  | .sleeping remaining waiters =>
    if remaining = 0 ∨ s.pollerStop then
      -- the waiters go out of scope with the iteration
      (s.forget waiters).pollerTo .head
    else s.pollerTo (.sleeping (remaining - min remaining sleepCheck) waiters)
  | .gone => s

/-! ### The other threads -/

/-- A step of an exporter thread. -/
def exporterStep (i : Fin n) (input : ExporterInput) (s : Process n) : Process n :=
  { s with lanes := Function.update s.lanes i ((s.lanes i).step (setup.exporter i) input) }

/-- A step of `snapshot-to-control`. -/
def forwarderStep (s : Process n) : Process n :=
  match s.forwarder with
  | .receiving =>
    match s.stats.receipt with
    | .value snap => { s with forwarder := .storing snap, stats := s.stats.take }
    | .closed => { s with forwarder := .gone, stats := s.stats.dropReceiver }
    | .waits => s
  | .storing snap => { s with forwarder := .receiving, latest := some snap }
  | .gone => s

/-- Whether the poller has ended. -/
def pollerIsGone (s : Process n) : Bool := s.poller.place.isGone

/-- A pull ends with an answer. -/
def answer (outcome : Except PullError FlowStatsSnapshot) (s : Process n) : Process n :=
  { s with control := .accepting, answers := s.answers ++ [outcome] }

/-- A step of `run_server`. The flag is looked at with the connection in hand. -/
def controlStep (input : ControlInput) (s : Process n) : Process n :=
  match s.control with
  | .accepting =>
    if s.pending = 0 then s
    else if s.controlStop then { s with control := .gone, pending := s.pending - 1, socket := false }
    else { s with control := .serving, pending := s.pending - 1 }
  | .serving =>
    if input.pulls then
      if s.pollerIsGone then s.answer (.error .disconnected)
      else if s.pulls.length < StatsPaths.pullCapacity then
        { s with
          pulls := s.pulls ++ [s.pullCount]
          pullCount := s.pullCount + 1
          control := .waiting s.pullCount none true }
      else s.answer (.error .full)
    else { s with control := .accepting }
  | .waiting _ reply answerable =>
    match reply with
    | some snap => { s with control := .storing snap }
    | none => if answerable = false ∨ input.timesOut then s.answer (.error .timedOut) else s
  | .storing snap => { s.answer (.ok snap) with latest := some snap }
  | .gone => s

/-! ### The main thread -/

/-- The tasks of `Frontend::stop`. -/
def stopTasks : List (Task n) :=
  .setShutdown :: .stopPoller :: .joinPoller ::
    ((if setup.forwarding then [.joinForwarder] else []) ++
      .dropSenders :: ((List.finRange n).map .joinExporter ++
        if setup.control then [.stopControl, .wakeControl, .joinControl] else []))

/-- What happens to the fields of a `Frontend` that goes out of scope, in their order. The handle of
`snapshot-to-control` is only detached. -/
def dropTasks : List (Task n) :=
  .stopPoller :: .joinPoller ::
    ((List.finRange n).map .joinExporter ++
      .dropSenders :: if setup.control then [.stopControl, .wakeControl, .joinControl] else [])

/-- Whether the main thread has to wait for the end of a thread. -/
def blocks (s : Process n) : Task n → Bool
  | .joinPoller => !s.pollerIsGone
  | .joinForwarder => !s.forwarder.isGone
  | .joinExporter i => !(s.lanes i).place.isGone
  | .joinControl => !s.control.isGone
  | _ => false

/-- A task that does not block is done. -/
def perform (s : Process n) : Task n → Process n
  | .setShutdown => { s with shutdown := true }
  | .stopPoller => { s with pollerStop := true }
  | .dropSenders => { s.dropSenders with sendersHeld := false }
  | .stopControl => { s with controlStop := true }
  | .wakeControl => { s with pending := if s.socket then s.pending + 1 else s.pending }
  | .joinPoller | .joinForwarder | .joinExporter _ | .joinControl => s

/-- A step of the main thread. A reload changes nothing. -/
def mainStep (s : Process n) : Process n :=
  match s.main with
  | .running => if s.shutdown then { s with main := .tasks (stopTasks setup) } else s
  | .tasks [] => s
  | .tasks (task :: rest) =>
    if s.blocks task then s else { s.perform task with main := .tasks rest }

/-- One event. -/
def step (s : Process n) : Event n → Process n
  | .main => s.mainStep setup
  | .poller input => s.pollerStep setup input
  | .exporter i input => s.exporterStep setup i input
  | .forwarder => s.forwarderStep
  | .control input => s.controlStep input
  | .signal => { s with shutdown := true }
  | .abandon =>
    match s.main with
    | .running => { s with main := .tasks (dropTasks setup) }
    | .tasks _ => s
  | .connect => { s with pending := if s.socket then s.pending + 1 else s.pending }
  | .unlink => { s with socket := false }

end Process

end InFMon.Daemon
