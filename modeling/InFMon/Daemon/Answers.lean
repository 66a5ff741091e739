import InFMon.Daemon.Accounting
import InFMon.Daemon.Pulls

/-! # The answers to the pull requests

A pull request is answered with a snapshot that was taken behind it, never with one that was on its way
when it came. -/

namespace InFMon.Daemon

open BoundedChannel Frontend Otlp

/-- The snapshot that the poller is going to reply to a request with. -/
def PollerAt.replyFor (id : ℕ) : PollerAt → Option FlowStatsSnapshot
  | .sending snap _ (some waiters) | .replying snap waiters => if id ∈ waiters then some snap else none
  | _ => none

namespace Process

variable {n : ℕ} {setup : Setup n} {s s' : Process n} {id a p : ℕ}

/-- A request is waited for, its answer is stored, or it was answered, and it has got no snapshot but one
of the recent ones. The answers before it are as many as the number says. -/
def Answering (id a : ℕ) (recent : List FlowStatsSnapshot) (s : Process n) : Prop :=
  (∃ reply answerable, s.control = .waiting id reply answerable ∧ s.answers.length = a ∧
    ∀ snap, reply = some snap → snap ∈ recent) ∨
  (∃ snap, s.control = .storing snap ∧ s.answers.length = a ∧ snap ∈ recent) ∨
  a < s.answers.length ∧ ∀ snap, s.answers[a]? = some (.ok snap) → snap ∈ recent

/-- The snapshots for a request are among those that were made behind the first ones. -/
structure Recent (id a p : ℕ) (s : Process n) : Prop where
  produced : p ≤ s.produced.length
  inTransit : ∀ snap, s.poller.place.replyFor id = some snap → snap ∈ s.produced.drop p
  answering : s.Answering id a (s.produced.drop p)

/-- More snapshots may be recent. -/
theorem Answering.mono {recent more : List FlowStatsSnapshot} (h : s.Answering id a recent)
    (hsubset : recent ⊆ more) (hcontrol : s'.control = s.control) (hanswers : s'.answers = s.answers) :
    s'.Answering id a more := by
  rw [Answering, hcontrol, hanswers]
  refine h.imp ?_ (Or.imp ?_ ?_)
  · rintro ⟨reply, answerable, hat, hlen, hreply⟩
    exact ⟨reply, answerable, hat, hlen, fun snap hsnap => hsubset (hreply snap hsnap)⟩
  · rintro ⟨snap, hat, hlen, hsnap⟩
    exact ⟨snap, hat, hlen, hsubset hsnap⟩
  · rintro ⟨hlt, hanswer⟩
    exact ⟨hlt, fun snap hsnap => hsubset (hanswer snap hsnap)⟩

/-- A step that makes no snapshot and leaves the answers alone. -/
theorem Recent.congr (h : s.Recent id a p) (hproduced : s'.produced = s.produced)
    (htransit : ∀ snap, s'.poller.place.replyFor id = some snap →
      s.poller.place.replyFor id = some snap)
    (hanswering : s'.Answering id a (s.produced.drop p)) : s'.Recent id a p where
  produced := by rw [hproduced]; exact h.produced
  inTransit snap hsnap := by rw [hproduced]; exact h.inTransit snap (htransit snap hsnap)
  answering := by rw [hproduced]; exact hanswering

/-- Whoever waits for a reply that is dropped still waits. -/
theorem Answering.forget {recent : List FlowStatsSnapshot} (h : s.Answering id a recent)
    {waiters : List ℕ} (hcontrol : s'.control = s.control.forget waiters)
    (hanswers : s'.answers = s.answers) : s'.Answering id a recent := by
  rw [Answering, hcontrol, hanswers]
  rcases h with ⟨reply, answerable, hat, hrest⟩ | ⟨snap, hat, hrest⟩ | hdone
  · exact Or.inl ⟨reply, answerable && !waiters.contains id, by rw [hat]; rfl, hrest⟩
  · exact Or.inr (Or.inl ⟨snap, by rw [hat]; rfl, hrest⟩)
  · exact Or.inr (Or.inr hdone)

/-- A reply is a recent snapshot if the request is among the waiters. -/
theorem Answering.reply {recent : List FlowStatsSnapshot} (h : s.Answering id a recent)
    {snap : FlowStatsSnapshot} {waiter : ℕ} (hsnap : id = waiter → snap ∈ recent)
    (hcontrol : s'.control = s.control.reply snap waiter) (hanswers : s'.answers = s.answers) :
    s'.Answering id a recent := by
  rw [Answering, hcontrol, hanswers]
  rcases h with ⟨_ | held, answerable, hat, hlen, hreply⟩ | ⟨held, hat, hrest⟩ | hdone
  · refine Or.inl ⟨if id = waiter then some snap else none, answerable, by rw [hat]; rfl, hlen, ?_⟩
    intro snap' hsnap'
    split at hsnap'
    · rename_i heq
      rw [← Option.some.inj hsnap']
      exact hsnap heq
    · cases hsnap'
  · exact Or.inl ⟨some held, answerable, by rw [hat]; rfl, hlen, hreply⟩
  · exact Or.inr (Or.inl ⟨held, by rw [hat]; rfl, hrest⟩)
  · exact Or.inr (Or.inr hdone)

/-- The request gets its answer. -/
theorem answering_answer {recent : List FlowStatsSnapshot}
    {outcome : Except PullError FlowStatsSnapshot} (hlen : s.answers.length = a)
    (houtcome : ∀ snap, outcome = .ok snap → snap ∈ recent)
    (hanswers : s'.answers = s.answers ++ [outcome]) : s'.Answering id a recent := by
  refine Or.inr (Or.inr ⟨?_, fun snap hsnap => houtcome snap ?_⟩)
  · rw [hanswers, List.length_append, hlen]
    exact Nat.lt_succ_self a
  · rw [hanswers, ← hlen, List.getElem?_concat_length] at hsnap
    exact Option.some.inj hsnap

/-- A new snapshot is a recent one. -/
theorem Recent.take (h : s.Recent id a p) (poll : Poll) (pulled : Option (List ℕ)) :
    (s.take poll pulled).Recent id a p := by
  have hproduced : ∃ snap, (s.take poll pulled).produced = s.produced ++ [snap] ∧
      (s.take poll pulled).poller.place = .sending snap 0 pulled := ⟨_, rfl, rfl⟩
  obtain ⟨snap, hproduced, hplace⟩ := hproduced
  have hdrop : (s.take poll pulled).produced.drop p = s.produced.drop p ++ [snap] := by
    rw [hproduced, List.drop_append_of_le_length h.produced]
  refine ⟨?_, fun snap' hsnap' => ?_, ?_⟩
  · rw [hproduced, List.length_append]
    exact Nat.le_add_right_of_le h.produced
  · obtain rfl : snap = snap' := by
      rw [hplace] at hsnap'
      cases pulled with
      | none => cases hsnap'
      | some waiters => exact Option.some.inj (Option.ite_none_right_eq_some.mp hsnap').2
    rw [hdrop]
    exact List.mem_append_right _ List.mem_cons_self
  · rw [hdrop]
    exact h.answering.mono (List.subset_append_left _ _) rfl rfl

/-- A step of the poller keeps the answers recent. -/
theorem Recent.poller (h : s.Recent id a p) (input : PollerInput) :
    (s.pollerStep setup input).Recent id a p := by
  have hmove := s.pollerStep_move setup input
  generalize s.pollerStep setup input = s' at hmove ⊢
  -- at a place that holds no reply for `id` there is nothing to show
  have hnone : ∀ {place : PollerAt}, s'.poller.place = place → place.replyFor id = none →
      ∀ snap, s'.poller.place.replyFor id = some snap →
        s.poller.place.replyFor id = some snap := by
    rintro place hplace hnone snap hsnap
    rw [hplace, hnone] at hsnap
    cases hsnap
  cases hmove with
  | polls _ poll | pulls _ poll => exact h.take poll _
  | ends => exact h.congr rfl (hnone rfl rfl) (h.answering.forget rfl rfl)
  | wakes => exact h.congr rfl (hnone rfl rfl) (h.answering.forget rfl rfl)
  | sends hat =>
    rename_i pulled _
    refine h.congr rfl (fun snap hsnap => ?_) h.answering
    rw [hat]
    cases pulled <;> exact hsnap
  | sentPulled hat =>
    refine h.congr rfl (fun snap hsnap => ?_) h.answering
    rw [hat]
    exact hsnap
  | begins =>
    refine h.congr rfl (hnone rfl ?_) h.answering
    split <;> rfl
  | drained =>
    refine h.congr rfl (hnone rfl ?_) h.answering
    split <;> rfl
  | replies hat hblocks =>
    rename_i snap waiter waiters
    refine h.congr rfl (fun snap' hsnap' => ?_) (h.answering.reply (fun heq => ?_) rfl rfl)
    · rw [hat]
      obtain ⟨hin, hsnap'⟩ := Option.ite_none_right_eq_some.mp hsnap'
      exact Option.ite_none_right_eq_some.mpr ⟨List.mem_cons_of_mem _ hin, hsnap'⟩
    · refine h.inTransit snap ?_
      rw [hat, heq]
      exact if_pos List.mem_cons_self
  | connects | connectFails | pollFails | sent | drains | pullFails | replied | rests | sleeps =>
    exact h.congr rfl (hnone rfl rfl) h.answering
  | replyWaits | gone => exact h

/-- One more answer leaves those before it. -/
theorem getElem?_answers {l : List (Except PullError FlowStatsSnapshot)}
    (h : a < l.length) (x : Except PullError FlowStatsSnapshot) : (l ++ [x])[a]? = l[a]? :=
  List.getElem?_append_left h

/-- A step of the control server keeps the answers recent. -/
theorem Recent.control (h : s.Recent id a p) (input : ControlInput) :
    (s.controlStep input).Recent id a p := by
  obtain ⟨-, -, -, -, hpoller, hproduced, -⟩ := s.controlStep_frame input
  refine h.congr hproduced (fun snap hsnap => by rwa [hpoller] at hsnap) ?_
  have hkeeps := h.answering
  generalize s.produced.drop p = recent at hkeeps ⊢
  rcases hkeeps with ⟨reply, answerable, hat, hlen, hreply⟩ | ⟨snap, hat, hlen, hsnap⟩ | ⟨hlt, hanswer⟩
  · rw [controlStep, hat]
    cases reply with
    | some snap => exact Or.inr (Or.inl ⟨snap, rfl, hlen, hreply snap rfl⟩)
    | none =>
      dsimp only
      split
      · exact answering_answer hlen (fun _ heq => by cases heq) rfl
      · exact Or.inl ⟨none, answerable, hat, hlen, hreply⟩
  · rw [controlStep, hat]
    refine answering_answer hlen (fun snap' heq => ?_) rfl
    cases heq
    exact hsnap
  · -- what follows are the answers to later requests
    refine Or.inr (Or.inr ?_)
    have hmore : ∀ outcome, a < (s.answers ++ [outcome]).length ∧
        ∀ snap, (s.answers ++ [outcome])[a]? = some (.ok snap) → snap ∈ recent := by
      intro outcome
      refine ⟨?_, fun snap hsnap => hanswer snap ?_⟩
      · rw [List.length_append]
        exact Nat.lt_add_right 1 hlt
      · rwa [getElem?_answers hlt] at hsnap
    unfold controlStep
    split
    · split
      · exact ⟨hlt, hanswer⟩
      · split <;> exact ⟨hlt, hanswer⟩
    · split
      · split
        · exact hmore _
        · split
          · exact ⟨hlt, hanswer⟩
          · exact hmore _
      · exact ⟨hlt, hanswer⟩
    · split
      · exact ⟨hlt, hanswer⟩
      · split
        · exact hmore _
        · exact ⟨hlt, hanswer⟩
    · exact hmore _
    · exact ⟨hlt, hanswer⟩

variable (setup s) in
/-- The other threads make no snapshot and no answer. -/
theorem answers_step {event : Event n} (hpoller : ∀ input, event ≠ .poller input)
    (hcontrol : ∀ input, event ≠ .control input) :
    (s.step setup event).produced = s.produced ∧ (s.step setup event).poller = s.poller ∧
      (s.step setup event).control = s.control ∧ (s.step setup event).answers = s.answers := by
  cases event with
  | main =>
    obtain ⟨hpoller, hproduced, -, -, hcontrol, -⟩ := s.mainStep_frame setup
    refine ⟨hproduced, hpoller, hcontrol, ?_⟩
    rw [step]
    rcases s.mainStep_cases setup with hnext | ⟨-, -, hnext⟩ | ⟨task, rest, -, -, hnext⟩
    · rw [hnext]
    · rw [hnext]
    · rw [hnext]
      cases task <;> rfl
  | poller input => exact absurd rfl (hpoller input)
  | control input => exact absurd rfl (hcontrol input)
  | forwarder =>
    rw [step, forwarderStep_frame]
    exact ⟨rfl, rfl, rfl, rfl⟩
  | abandon =>
    rw [step]
    split <;> exact ⟨rfl, rfl, rfl, rfl⟩
  | exporter | signal | connect | unlink => exact ⟨rfl, rfl, rfl, rfl⟩

/-- A step of another thread keeps the answers recent. -/
theorem Recent.other (h : s.Recent id a p) {event : Event n}
    (hpoller : ∀ input, event ≠ .poller input) (hcontrol : ∀ input, event ≠ .control input) :
    (s.step setup event).Recent id a p := by
  obtain ⟨hproduced, hpoller, hcontrol, hanswers⟩ := answers_step setup s hpoller hcontrol
  refine h.congr hproduced (fun snap hsnap => by rwa [hpoller] at hsnap) ?_
  exact h.answering.mono (List.Subset.refl _) hcontrol hanswers

/-- Every event keeps the answers recent. -/
theorem Recent.step (h : s.Recent id a p) (event : Event n) :
    (s.step setup event).Recent id a p := by
  cases event with
  | poller input => exact h.poller input
  | control input => exact h.control input
  | main | forwarder | exporter | signal | abandon | connect | unlink =>
    exact h.other (fun _ heq => by cases heq) fun _ heq => by cases heq

/-- A request that was just made gets nothing that is on its way. -/
theorem recent_of_serving (h : s.PullsSound) (hat : s.control = .serving) (timesOut : Bool) :
    (s.controlStep ⟨true, timesOut⟩).Recent s.pullCount s.answers.length s.produced.length := by
  obtain ⟨-, -, -, -, hpoller, hproduced, -⟩ := s.controlStep_frame ⟨true, timesOut⟩
  have hfresh : s.pullCount ∉ s.poller.place.waiters := fun hin =>
    Nat.lt_irrefl _ (h.fresh _ (List.mem_append_left _ hin))
  refine ⟨Nat.le_of_eq (congrArg List.length hproduced.symm), fun snap hsnap => ?_, ?_⟩
  · rw [hpoller] at hsnap
    refine absurd ?_ hfresh
    cases hplace : s.poller.place with
    | sending snap next pulled =>
      rw [hplace] at hsnap
      cases pulled with
      | none => cases hsnap
      | some waiters => exact (Option.ite_none_right_eq_some.mp hsnap).1
    | replying snap waiters =>
      rw [hplace] at hsnap
      exact (Option.ite_none_right_eq_some.mp hsnap).1
    | _ =>
      rw [hplace] at hsnap
      cases hsnap
  · generalize (s.controlStep ⟨true, timesOut⟩).produced.drop s.produced.length = recent
    rw [controlStep, hat]
    dsimp only
    rw [if_pos rfl]
    split
    · exact answering_answer rfl (fun _ heq => by cases heq) rfl
    · split
      · exact Or.inl ⟨none, true, rfl, rfl, fun snap hsnap => by cases hsnap⟩
      · exact answering_answer rfl (fun _ heq => by cases heq) rfl

end Process

open Process

/-- The answer to a pull request, if it is a snapshot at all, is one that the poller has taken after the
request was made, in whatever way the threads take their turns. -/
theorem pull_answer_is_recent {n : ℕ} (setup : Setup n) (before after : List (Event n))
    (timesOut : Bool)
    (hserving : (Runs.run (Process.step setup) (Process.start setup) before).control = .serving)
    (snap : FlowStatsSnapshot) :
    let s₀ := Runs.run (Process.step setup) (Process.start setup) before
    let s := Runs.run (Process.step setup) (Process.start setup)
      (before ++ .control ⟨true, timesOut⟩ :: after)
    s.answers[s₀.answers.length]? = some (.ok snap) → snap ∈ s.produced.drop s₀.produced.length := by
  intro s₀ s hanswer
  have hsound : s₀.PullsSound :=
    Runs.always pullsSound_start (fun _ event h => h.step event) before
  have hrun : s = Runs.run (Process.step setup) (s₀.controlStep ⟨true, timesOut⟩) after :=
    Runs.run_append before _
  have h : s.Recent s₀.pullCount s₀.answers.length s₀.produced.length := by
    rw [hrun]
    exact Runs.always (recent_of_serving hsound hserving timesOut)
      (fun _ event h => h.step event) after
  rcases h.answering with ⟨-, -, -, hlen, -⟩ | ⟨-, -, hlen, -⟩ | ⟨-, hrecent⟩
  · rw [List.getElem?_eq_none (Nat.le_of_eq hlen)] at hanswer
    cases hanswer
  · rw [List.getElem?_eq_none (Nat.le_of_eq hlen)] at hanswer
    cases hanswer
  · exact hrecent snap hanswer

/-- One exporter and a control server. -/
def withControl : Setup 1 :=
  { oneExporter with control := true, control_of_forwarding := fun _ => rfl }

/-- A client connects, and its connection is accepted. -/
def clientConnects : List (Event 1) := [.connect, .control ⟨true, false⟩]

/-- The poller makes a snapshot of a tick and one for the request, and the client gets it. -/
def pollsAndReplies : List (Event 1) :=
  List.replicate 11 (.poller emptyPoll) ++ List.replicate 2 (.control ⟨true, false⟩)

/-- A pull is answered with the second snapshot, made for it. -/
theorem pull_answer_is_recent_second :
    let s := Runs.run (Process.step withControl) (Process.start withControl)
      (clientConnects ++ .control ⟨true, false⟩ :: pollsAndReplies)
    s.produced.map FlowStatsSnapshot.tickId = [1, 2] ∧
      ∃ snap, s.answers[0]? = some (.ok snap) ∧ snap.tickId = 2 ∧ snap ∈ s.produced := by
  have hanswered : ∃ snap, (Runs.run (Process.step withControl) (Process.start withControl)
      (clientConnects ++ .control ⟨true, false⟩ :: pollsAndReplies)).answers[0]? =
        some (.ok snap) ∧ snap.tickId = 2 := ⟨_, rfl, rfl⟩
  obtain ⟨snap, hsnap, htick⟩ := hanswered
  have h := pull_answer_is_recent withControl clientConnects pollsAndReplies false rfl snap hsnap
  exact ⟨by decide +kernel, snap, hsnap, htick, List.mem_of_mem_drop h⟩

end InFMon.Daemon
