import InFMon.Daemon.Steps

/-! # The pull requests

A pull request is known to the control thread, which waits for its reply, and to the poller or to the
channel between the two. It gets one reply at most, so that the poller never waits for room in a reply
channel, and none any more when the poller has ended. -/

namespace InFMon.Daemon

open BoundedChannel Frontend Otlp

/-- The pull requests that the poller has taken and not answered. -/
def PollerAt.waiters : PollerAt → List ℕ
  | .draining waiters | .pulling waiters | .replying _ waiters | .resting waiters
  | .sleeping _ waiters => waiters
  | .sending _ _ pulled => pulled.getD []
  | .head | .connecting | .polling | .gone => []

/-- What the control thread waits for is outstanding as long as it can be answered, and not any more when
it was. -/
def ControlAt.Agrees (outstanding : List ℕ) (pullCount : ℕ) : ControlAt → Prop
  | .waiting id none answerable => id < pullCount ∧ (answerable = true → id ∈ outstanding)
  | .waiting id (some _) _ => id < pullCount ∧ id ∉ outstanding
  | _ => True

namespace Process

variable {n : ℕ} {setup : Setup n} {s s' : Process n}

/-- The pull requests without a reply. -/
def outstanding (s : Process n) : List ℕ := s.poller.place.waiters ++ s.pulls

/-- The requests are told apart, and the control thread knows which of them is its own. -/
structure PullsSound (s : Process n) : Prop where
  pulls_le : s.pulls.length ≤ StatsPaths.pullCapacity
  fresh : ∀ id ∈ s.outstanding, id < s.pullCount
  nodup : s.outstanding.Nodup
  control : s.control.Agrees s.outstanding s.pullCount
  gone : s.pollerIsGone = true → s.pulls = []

/-- At the start no pull is under way. -/
theorem pullsSound_start : (start setup).PullsSound where
  pulls_le := Nat.zero_le _
  fresh _ h := absurd h List.not_mem_nil
  nodup := List.nodup_nil
  control := by
    show ControlAt.Agrees _ _ (if setup.control then .accepting else .gone)
    split <;> exact trivial
  gone _ := rfl

/-- The pulls depend on a few parts of the process only. -/
theorem PullsSound.congr (h : s.PullsSound) (hout : s'.outstanding = s.outstanding)
    (hpulls : s'.pulls = s.pulls) (hcount : s'.pullCount = s.pullCount)
    (hcontrol : s'.control.Agrees s.outstanding s.pullCount)
    (hgone : s'.pollerIsGone = true → s.pollerIsGone = true) : s'.PullsSound where
  pulls_le := by rw [hpulls]; exact h.pulls_le
  fresh := by rw [hout, hcount]; exact h.fresh
  nodup := by rw [hout]; exact h.nodup
  control := by rw [hout, hcount]; exact hcontrol
  gone hs := by rw [hpulls]; exact h.gone (hgone hs)

/-- When the poller drops requests, the control thread cannot be answered any more if it waits for one
of them. -/
theorem agrees_forget {waiters rest : List ℕ} {count : ℕ} {place : ControlAt}
    (h : place.Agrees (waiters ++ rest) count) : (place.forget waiters).Agrees rest count := by
  rcases place with _ | _ | ⟨id, _ | snap, answerable⟩ | _ | _
  · exact trivial
  · exact trivial
  · refine ⟨h.1, fun hanswerable => ?_⟩
    obtain ⟨htrue, hnot⟩ := Bool.and_eq_true_iff.mp hanswerable
    refine (List.mem_append.mp (h.2 htrue)).resolve_left fun hin => ?_
    simp [hin] at hnot
  · exact ⟨h.1, fun hin => h.2 (List.mem_append_right _ hin)⟩
  · exact trivial
  · exact trivial

/-- A reply is for one request that is outstanding. -/
theorem agrees_reply {snap : FlowStatsSnapshot} {waiter count : ℕ} {rest : List ℕ}
    {place : ControlAt} (h : place.Agrees (waiter :: rest) count) (hnot : waiter ∉ rest) :
    (place.reply snap waiter).Agrees rest count := by
  rcases place with _ | _ | ⟨id, _ | snap, answerable⟩ | _ | _
  · exact trivial
  · exact trivial
  · rw [ControlAt.reply]
    split
    · rename_i heq
      exact ⟨h.1, heq ▸ hnot⟩
    · rename_i hne
      exact ⟨h.1, fun hanswerable => (List.mem_cons.mp (h.2 hanswerable)).resolve_left hne⟩
  · exact ⟨h.1, fun hin => h.2 (List.mem_cons_of_mem _ hin)⟩
  · exact trivial
  · exact trivial

/-- There is always room for a reply. -/
theorem PullsSound.replyBlocks (h : s.PullsSound) {snap : FlowStatsSnapshot} {waiter : ℕ}
    {waiters : List ℕ} (hat : s.poller.place = .replying snap (waiter :: waiters)) :
    s.control.replyBlocks waiter = false := by
  have hagrees := h.control
  rw [outstanding, hat] at hagrees
  cases hcontrol : s.control with
  | waiting id reply answerable =>
    cases reply with
    | none => rfl
    | some snap =>
      rw [hcontrol] at hagrees
      refine beq_false_of_ne fun heq => hagrees.2 ?_
      rw [heq]
      exact List.mem_cons_self
  | _ => rfl

/-- The requests that are left behind are the last ones. -/
theorem PullsSound.forgets (h : s.PullsSound) {waiters rest : List ℕ}
    (hout : s.outstanding = waiters ++ rest) (hcontrol : s'.control = s.control.forget waiters)
    (hout' : s'.outstanding = rest) (hcount : s'.pullCount = s.pullCount)
    (hle : s'.pulls.length ≤ StatsPaths.pullCapacity)
    (hgone : s'.pollerIsGone = true → s'.pulls = []) : s'.PullsSound where
  pulls_le := hle
  fresh id hid := by
    rw [hout'] at hid
    rw [hcount]
    exact h.fresh id (by rw [hout]; exact List.mem_append_right _ hid)
  nodup := by
    have hnodup := h.nodup
    rw [hout] at hnodup
    rw [hout']
    exact (List.nodup_append.mp hnodup).2.1
  control := by
    have hagrees := h.control
    rw [hout] at hagrees
    rw [hcontrol, hout', hcount]
    exact agrees_forget hagrees
  gone := hgone

/-- A step of the poller keeps the pulls sound. -/
theorem PullsSound.poller (h : s.PullsSound) (input : PollerInput) :
    (s.pollerStep setup input).PullsSound := by
  have hmove := s.pollerStep_move setup input
  -- most moves leave the outstanding requests alone
  have hlocal : ∀ {place : PollerAt}, s.poller.place = place →
      (s.pollerStep setup input).poller.place.waiters ++ (s.pollerStep setup input).pulls =
        place.waiters ++ s.pulls →
      (s.pollerStep setup input).pulls = s.pulls →
      (s.pollerStep setup input).control = s.control →
      (s.pollerStep setup input).poller.place.isGone = false →
      (s.pollerStep setup input).PullsSound := by
    rintro place rfl hout hpulls hcontrol hgone
    refine h.congr hout hpulls hmove.frame.2.2.2.2.2.2.2 (hcontrol ▸ h.control) fun hs => ?_
    rw [pollerIsGone, hgone] at hs
    cases hs
  generalize s.pollerStep setup input = s' at hmove hlocal ⊢
  cases hmove with
  | ends hat =>
    have hout : s.outstanding = s.pulls ++ [] := by
      rw [outstanding, hat, List.append_nil]
      rfl
    exact h.forgets hout rfl rfl rfl (Nat.zero_le _) fun _ => rfl
  | begins hat =>
    refine hlocal hat ?_ rfl rfl ?_
    · show PollerAt.waiters (if _ then _ else _) ++ s.pulls = _
      split <;> rfl
    · show PollerAt.isGone (if _ then _ else _) = false
      split <;> rfl
  | drains hat hpulls =>
    have hle := h.pulls_le
    have hfresh := h.fresh
    have hnodup := h.nodup
    have hcontrol := h.control
    rename_i waiters pulls id
    have hout : s.outstanding = (waiters ++ [id]) ++ pulls := by
      rw [outstanding, hat, hpulls]
      exact (List.append_assoc waiters [id] pulls).symm
    rw [hpulls, List.length_cons] at hle
    rw [hout] at hfresh hnodup hcontrol
    refine ⟨Nat.le_of_succ_le hle, hfresh, hnodup, hcontrol, fun hgone => ?_⟩
    cases hgone
  | drained hat hpulls =>
    rename_i waiters
    refine hlocal hat ?_ rfl rfl ?_
    · show PollerAt.waiters (if waiters = [] then .resting [] else .pulling waiters) ++ s.pulls =
        waiters ++ s.pulls
      split
      · rename_i hnil
        rw [hnil]
        rfl
      · rfl
    · show PollerAt.isGone (if waiters = [] then .resting [] else .pulling waiters) = false
      split <;> rfl
  | replies hat hblocks =>
    rename_i snap waiter waiters
    have hout : s.outstanding = waiter :: (waiters ++ s.pulls) := by
      rw [outstanding, hat]
      rfl
    have hfresh := h.fresh
    have hnodup := h.nodup
    have hcontrol := h.control
    rw [hout] at hfresh hnodup hcontrol
    obtain ⟨hnot, hnodup⟩ := List.nodup_cons.mp hnodup
    refine ⟨h.pulls_le, fun id hid => hfresh id (List.mem_cons_of_mem _ hid), hnodup,
      agrees_reply hcontrol hnot, fun hgone => ?_⟩
    cases hgone
  | wakes hat =>
    rename_i remaining waiters
    have hout : s.outstanding = waiters ++ s.pulls := by
      rw [outstanding, hat]
      rfl
    refine h.forgets hout rfl rfl rfl h.pulls_le fun hgone => ?_
    cases hgone
  | connects hat | connectFails hat | pollFails hat | polls hat | sends hat | sent hat
  | sentPulled hat | pullFails hat | pulls hat | replied hat | rests hat | sleeps hat =>
    exact hlocal hat rfl rfl rfl rfl
  | replyWaits | gone => exact h

/-- A step of the control server keeps the pulls sound. -/
theorem PullsSound.controlStep (h : s.PullsSound) (input : ControlInput) :
    (s.controlStep input).PullsSound := by
  have hagrees := h.control
  unfold Process.controlStep
  split
  · split
    · exact h
    · split <;> exact h.congr rfl rfl rfl trivial id
  · split
    · split
      · exact h.congr rfl rfl rfl trivial id
      · rename_i hgone
        split
        -- the request takes the next number, so it differs from all that are outstanding
        · rename_i hlt
          have hout : s.poller.place.waiters ++ (s.pulls ++ [s.pullCount]) =
              s.outstanding ++ [s.pullCount] := (List.append_assoc _ _ _).symm
          refine ⟨?_, fun id hid => ?_, ?_, ⟨Nat.lt_succ_self _, fun _ => ?_⟩,
            fun hgone' => absurd hgone' hgone⟩
          · rw [List.length_append]
            exact hlt
          · change id ∈ s.poller.place.waiters ++ (s.pulls ++ [s.pullCount]) at hid
            rw [hout] at hid
            rcases List.mem_append.mp hid with hid | hid
            · exact Nat.lt_succ_of_lt (h.fresh id hid)
            · rw [List.mem_singleton.mp hid]
              exact Nat.lt_succ_self _
          · show (s.poller.place.waiters ++ (s.pulls ++ [s.pullCount])).Nodup
            rw [hout, List.nodup_append]
            refine ⟨h.nodup, List.nodup_singleton _, fun id hid count hcount heq => ?_⟩
            rw [heq, List.mem_singleton.mp hcount] at hid
            exact Nat.lt_irrefl _ (h.fresh _ hid)
          · show s.pullCount ∈ s.poller.place.waiters ++ (s.pulls ++ [s.pullCount])
            rw [hout]
            exact List.mem_append_right _ List.mem_cons_self
        · exact h.congr rfl rfl rfl trivial id
    · exact h.congr rfl rfl rfl trivial id
  · split
    · exact h.congr rfl rfl rfl trivial id
    · split
      · exact h.congr rfl rfl rfl trivial id
      · exact h
  · exact h.congr rfl rfl rfl trivial id
  · exact h

/-- Every event keeps the pulls sound. -/
theorem PullsSound.step (h : s.PullsSound) (event : Event n) :
    (s.step setup event).PullsSound := by
  cases event with
  | main =>
    obtain ⟨hpoller, -, -, -, hcontrol, hpulls, hcount, -⟩ := s.mainStep_frame setup
    refine h.congr ?_ hpulls hcount (hcontrol ▸ h.control) fun hs => ?_
    · exact congrArg₂ (fun poller pulls => poller.place.waiters ++ pulls) hpoller hpulls
    · exact (congrArg (fun poller => poller.place.isGone) hpoller).symm.trans hs
  | poller input => exact h.poller input
  | forwarder =>
    rw [Process.step, forwarderStep_frame]
    exact h.congr rfl rfl rfl h.control id
  | control input => exact h.controlStep input
  | abandon =>
    rw [Process.step]
    split
    · exact h.congr rfl rfl rfl h.control id
    · exact h
  | exporter | signal | connect | unlink => exact h.congr rfl rfl rfl h.control id

end Process

end InFMon.Daemon
