import InFMon.Frontend.Control
import InFMon.Frontend.Poller

/-! # The paths of the snapshots

The poller of `poller.rs` hands every snapshot to a channel that holds one, from which the thread
`snapshot-to-control` of `lifecycle.rs` stores it as the latest snapshot, and a pulled one also to the
control thread, which stores it itself. Here the three threads take their steps in any order. -/

namespace InFMon.Frontend

/-! ### The threads -/

/-- What a successful `snapshot_and_clear` of the poller has: the raw snapshot, the clocks behind it, and
the order in which the map is read. -/
structure Poll where
  hash : HashOrder (List UInt8 × MergedSlot)
  raw : RawSnapshot
  wall : UInt64
  mono : UInt64

/-- Where the poller is in an iteration of `run_loop`. -/
inductive PollerPlace where
  | top
  /-- The snapshot of the tick is to be sent. -/
  | tickTaken (snap : FlowStatsSnapshot)
  /-- The pull requests are drained. -/
  | drain (waiters : List ℕ)
  | pull (waiters : List ℕ)
  /-- The pulled snapshot is to be sent. -/
  | pullTaken (snap : FlowStatsSnapshot) (waiters : List ℕ)
  | reply (snap : FlowStatsSnapshot) (waiters : List ℕ)

/-- The snapshot that the poller hands out. -/
def PollerPlace.snap? : PollerPlace → Option FlowStatsSnapshot
  | .tickTaken snap | .pullTaken snap _ | .reply snap _ => some snap
  | .top | .drain _ | .pull _ => none

/-- The variables of `run_loop`. -/
structure PollerState where
  connected : Bool
  tickId : UInt64
  prevMono : UInt64
  place : PollerPlace

/-- Where the control thread is in `handle_stats_pull`. A reply channel holds one snapshot. -/
inductive PullPlace where
  | idle
  | waiting (id : ℕ) (reply : Option FlowStatsSnapshot)
  | received (snap : FlowStatsSnapshot)
  | stored (snap : FlowStatsSnapshot)

/-- The snapshot that the control thread has got or is to get. -/
def PullPlace.snap? : PullPlace → Option FlowStatsSnapshot
  | .waiting _ reply => reply
  | .received snap | .stored snap => some snap
  | .idle => none

/-- A reply of the control server, and the snapshot that it is based on. -/
structure StatsReply where
  base : Option FlowStatsSnapshot
  response : Response

/-- The threads, the channels between them and the state of the control server. A reply channel is
known by its number. -/
structure StatsPaths where
  poller : PollerState
  /-- The channel from the poller to `snapshot-to-control`. -/
  stats : Option FlowStatsSnapshot
  /-- The channel of the pull requests. -/
  pulls : List ℕ
  /-- What `snapshot-to-control` has received and not stored yet. -/
  forwarded : Option FlowStatsSnapshot
  pull : PullPlace
  pullCount : ℕ
  control : ControlState
  replies : List StatsReply

/-- The steps of the threads, with what comes from outside. -/
inductive StatsEvent where
  | tick (connects : Bool) (polled : Option Poll)
  | send
  | tryRecv
  | pullSnapshot (polled : Option Poll)
  | reply
  | forwardRecv
  | forwardStore
  | pullRequest
  | pullRecv
  | pullTimeout
  | pullStore
  | pullAnswer
  | flowRuleShow (name : String)
  | statsShow (name : Option String)
  /-- A request that changes the rules. -/
  | rules (control : ControlState)

namespace StatsPaths

/-- The capacity of the channel of the pull requests. -/
def pullCapacity : ℕ := 4

/-- Everything is idle. -/
def start (initialRules : List FlowRule) : StatsPaths where
  poller := { connected := false, tickId := 0, prevMono := 0, place := .top }
  stats := none
  pulls := []
  forwarded := none
  pull := .idle
  pullCount := 0
  control := .new initialRules
  replies := []

/-- The stored snapshot. -/
def latest (s : StatsPaths) : Option FlowStatsSnapshot := s.control.latestSnapshot

/-! ### The poller -/

/-- The next tick, and its snapshot. -/
def decode (poller : PollerState) (poll : Poll) : FlowStatsSnapshot :=
  decodeSnapshot poll.hash poll.raw (poller.tickId + 1) poll.wall poll.mono poller.prevMono

/-- A snapshot is taken, and the poller goes on to a place with it. -/
def take (poll : Poll) (place : FlowStatsSnapshot → PollerPlace) (poller : PollerState) :
    PollerState :=
  { poller with
    tickId := poller.tickId + 1
    prevMono := poll.mono
    place := place (decode poller poll) }

/-- The first part of an iteration: the connection and the snapshot of the tick. -/
def tick (connects : Bool) (polled : Option Poll) (poller : PollerState) : PollerState :=
  match poller.place with
  | .top =>
    if poller.connected = false ∧ connects = false then poller
    else
      -- a new connection forgets the last snapshot's clock
      let prevMono := if poller.connected then poller.prevMono else 0
      match polled with
      | none => { poller with connected := false, prevMono := prevMono }
      | some poll => take poll .tickTaken { poller with connected := true, prevMono := prevMono }
  | _ => poller

/-- The snapshot for the pull requests that were drained. -/
def pullSnapshot (polled : Option Poll) (poller : PollerState) : PollerState :=
  match poller.place with
  | .pull waiters =>
    match polled with
    | none => { poller with place := .top }
    | some poll => take poll (fun snap => .pullTaken snap waiters) poller
  | _ => poller

/-- `try_send` to the channel: a snapshot that finds it full is dropped. -/
def trySend (snap : FlowStatsSnapshot) (stats : Option FlowStatsSnapshot) :
    Option FlowStatsSnapshot :=
  match stats with
  | none => some snap
  | some queued => some queued

/-- The snapshot goes to the channel. -/
def send (s : StatsPaths) : StatsPaths :=
  match s.poller.place with
  | .tickTaken snap =>
    { s with poller := { s.poller with place := .drain [] }, stats := trySend snap s.stats }
  | .pullTaken snap waiters =>
    { s with poller := { s.poller with place := .reply snap waiters }, stats := trySend snap s.stats }
  | _ => s

/-- One pull request is received, or there are no more. -/
def tryRecv (s : StatsPaths) : StatsPaths :=
  match s.poller.place with
  | .drain waiters =>
    match s.pulls with
    | id :: pulls =>
      { s with poller := { s.poller with place := .drain (waiters ++ [id]) }, pulls := pulls }
    | [] =>
      let place := if waiters = [] then PollerPlace.top else .pull waiters
      { s with poller := { s.poller with place := place } }
  | _ => s

/-- One waiter gets the snapshot, unless it does not wait any more. -/
def reply (s : StatsPaths) : StatsPaths :=
  match s.poller.place with
  | .reply _ [] => { s with poller := { s.poller with place := .top } }
  -- a waiter that gave up has closed its channel
  | .reply snap (w :: waiters) =>
    let pull :=
      match s.pull with
      | .waiting id none => if id = w then PullPlace.waiting id (some snap) else s.pull
      | pull => pull
    { s with poller := { s.poller with place := .reply snap waiters }, pull := pull }
  | _ => s

/-! ### The control server -/

/-- `snapshot-to-control` receives a snapshot. -/
def forwardRecv (s : StatsPaths) : StatsPaths :=
  match s.forwarded with
  | none => { s with forwarded := s.stats, stats := none }
  | some _ => s

/-- `snapshot-to-control` stores what it has received. -/
def forwardStore (s : StatsPaths) : StatsPaths :=
  match s.forwarded with
  | some snap => { s with control := s.control.updateSnapshot snap, forwarded := none }
  | none => s

/-- `handle_stats_pull` sends the request, or fails as the channel is full. -/
def pullRequest (s : StatsPaths) : StatsPaths :=
  match s.pull with
  | .idle =>
    if s.pulls.length < pullCapacity then
      { s with
        pulls := s.pulls ++ [s.pullCount]
        pull := .waiting s.pullCount none
        pullCount := s.pullCount + 1 }
    else s
  | _ => s

/-- `handle_stats_pull` takes the reply. -/
def pullRecv (s : StatsPaths) : StatsPaths :=
  match s.pull with
  | .waiting _ (some snap) => { s with pull := .received snap }
  | _ => s

/-- `handle_stats_pull` gives up. -/
def pullTimeout (s : StatsPaths) : StatsPaths :=
  match s.pull with
  | .waiting _ none => { s with pull := .idle }
  | _ => s

/-- `handle_stats_pull` stores the snapshot. -/
def pullStore (s : StatsPaths) : StatsPaths :=
  match s.pull with
  | .received snap =>
    { s with control := (s.control.handleStatsPull (.ok snap)).2, pull := .stored snap }
  | _ => s

/-- `handle_stats_pull` answers. -/
def pullAnswer (s : StatsPaths) : StatsPaths :=
  match s.pull with
  | .stored snap =>
    { s with
      pull := .idle
      replies := s.replies ++ [⟨some snap, (s.control.handleStatsPull (.ok snap)).1⟩] }
  | _ => s

/-- The control thread, when it does not wait for a pull, answers from the stored snapshot. -/
def showing (response : ControlState → Response) (s : StatsPaths) : StatsPaths :=
  match s.pull with
  | .idle => { s with replies := s.replies ++ [⟨s.latest, response s.control⟩] }
  | _ => s

/-- The control thread serves a request that leaves the stored snapshot. -/
def changeRules (control : ControlState) (s : StatsPaths) : StatsPaths :=
  match s.pull with
  | .idle => { s with control := { control with latestSnapshot := s.latest } }
  | _ => s

/-- One step. A thread whose turn it is not stays where it is. -/
def step (s : StatsPaths) : StatsEvent → StatsPaths
  | .tick connects polled => { s with poller := tick connects polled s.poller }
  | .send => s.send
  | .tryRecv => s.tryRecv
  | .pullSnapshot polled => { s with poller := pullSnapshot polled s.poller }
  | .reply => s.reply
  | .forwardRecv => s.forwardRecv
  | .forwardStore => s.forwardStore
  | .pullRequest => s.pullRequest
  | .pullRecv => s.pullRecv
  | .pullTimeout => s.pullTimeout
  | .pullStore => s.pullStore
  | .pullAnswer => s.pullAnswer
  | .flowRuleShow name => s.showing (ControlState.handleFlowRuleShow name)
  | .statsShow name => s.showing (ControlState.handleStatsShow name)
  | .rules control => s.changeRules control

end StatsPaths

end InFMon.Frontend
