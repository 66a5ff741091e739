import Mathlib.Data.List.Basic
import Mathlib.Tactic.Common

/-! # Bounded channels

Channels of a bounded capacity with several senders and one receiver. A value is offered without
waiting, and the receiver takes the oldest one, waits, or learns that no sender is left. What was offered
is recorded with what came of it. -/

namespace BoundedChannel

variable {α : Type}

/-- What an offer comes to. -/
inductive Offer where
  | accepted
  | full
  | disconnected
  deriving DecidableEq, Repr

/-- A channel, with its history. -/
structure Channel (α : Type) where
  capacity : ℕ
  queue : List α
  senders : ℕ
  receiver : Bool
  offers : List (α × Offer)
  received : List α
  /-- What was in the queue when the receiver went away. -/
  abandoned : List α

/-- What the receiver meets. -/
inductive Receipt (α : Type) where
  | value (x : α)
  | closed
  | waits

namespace Channel

/-- A new channel. -/
def create (α : Type) (capacity senders : ℕ) : Channel α where
  capacity := capacity
  queue := []
  senders := senders
  receiver := true
  offers := []
  received := []
  abandoned := []

/-- What an offer comes to now. -/
def offer (c : Channel α) : Offer :=
  if c.receiver = false then .disconnected
  else if c.queue.length < c.capacity then .accepted
  else .full

/-- A value is offered. -/
def trySend (c : Channel α) (x : α) : Channel α :=
  { c with
    queue := if c.offer = .accepted then c.queue ++ [x] else c.queue
    offers := c.offers ++ [(x, c.offer)] }

/-- What the receiver meets now. -/
def receipt (c : Channel α) : Receipt α :=
  match c.queue with
  | x :: _ => .value x
  | [] => if c.senders = 0 then .closed else .waits

/-- The oldest value is taken out. -/
def take (c : Channel α) : Channel α :=
  match c.queue with
  | x :: rest => { c with queue := rest, received := c.received ++ [x] }
  | [] => c

/-- A sender goes away. -/
def dropSender (c : Channel α) : Channel α := { c with senders := c.senders - 1 }

/-- The receiver goes away, and what is queued with it. -/
def dropReceiver (c : Channel α) : Channel α :=
  { c with receiver := false, queue := [], abandoned := c.abandoned ++ c.queue }

/-- The values that were offered. -/
def offered (c : Channel α) : List α := c.offers.map Prod.fst

/-- The values that were let in. -/
def accepted (c : Channel α) : List α :=
  (c.offers.filter fun offer => offer.2 = .accepted).map Prod.fst

section Fields

variable (c : Channel α) (x : α)

/-- A new channel has been offered nothing. -/
@[simp] theorem offered_create (capacity senders : ℕ) :
    (create α capacity senders).offered = [] := rfl

/-- An offer leaves the receiver. -/
@[simp] theorem receiver_trySend : (c.trySend x).receiver = c.receiver := rfl

/-- An offer leaves the senders. -/
@[simp] theorem senders_trySend : (c.trySend x).senders = c.senders := rfl

/-- An offer leaves what has been received. -/
@[simp] theorem received_trySend : (c.trySend x).received = c.received := rfl

/-- Every offer is recorded, accepted or not. -/
@[simp] theorem offered_trySend : (c.trySend x).offered = c.offered ++ [x] := by
  rw [offered, trySend, List.map_append, List.map_singleton]
  rfl

/-- What is accepted is recorded behind what was accepted before. -/
theorem accepted_trySend : (c.trySend x).accepted =
    if c.offer = .accepted then c.accepted ++ [x] else c.accepted := by
  rw [accepted, trySend, List.filter_append, List.map_append, List.filter_singleton]
  by_cases h : c.offer = .accepted
  · simp [h, accepted]
  · simp [h, accepted]

/-- Taking leaves the receiver. -/
@[simp] theorem receiver_take : c.take.receiver = c.receiver := by
  unfold take
  split <;> rfl

/-- Taking leaves the senders. -/
@[simp] theorem senders_take : c.take.senders = c.senders := by
  unfold take
  split <;> rfl

/-- Taking leaves the capacity. -/
@[simp] theorem capacity_take : c.take.capacity = c.capacity := by
  unfold take
  split <;> rfl

/-- Taking leaves the offers and their results. -/
@[simp] theorem offers_take : c.take.offers = c.offers := by
  unfold take
  split <;> rfl

/-- Taking leaves what has been offered. -/
@[simp] theorem offered_take : c.take.offered = c.offered := by
  rw [offered, offered, offers_take]

/-- Taking leaves what has been accepted. -/
@[simp] theorem accepted_take : c.take.accepted = c.accepted := by
  rw [accepted, accepted, offers_take]

/-- The receiver stays when a sender goes. -/
@[simp] theorem receiver_dropSender : c.dropSender.receiver = c.receiver := rfl

/-- One sender less. -/
@[simp] theorem senders_dropSender : c.dropSender.senders = c.senders - 1 := rfl

/-- What is queued stays when a sender goes. -/
@[simp] theorem queue_dropSender : c.dropSender.queue = c.queue := rfl

/-- What was offered stays on record when a sender goes. -/
@[simp] theorem offered_dropSender : c.dropSender.offered = c.offered := rfl

/-- What was received stays on record when a sender goes. -/
@[simp] theorem received_dropSender : c.dropSender.received = c.received := rfl

/-- There is no receiver any more. -/
@[simp] theorem receiver_dropReceiver : c.dropReceiver.receiver = false := rfl

/-- The senders stay when the receiver goes. -/
@[simp] theorem senders_dropReceiver : c.dropReceiver.senders = c.senders := rfl

/-- What is queued goes with the receiver. -/
@[simp] theorem queue_dropReceiver : c.dropReceiver.queue = [] := rfl

/-- What was offered stays on record when the receiver goes. -/
@[simp] theorem offered_dropReceiver : c.dropReceiver.offered = c.offered := rfl

/-- What was received stays on record when the receiver goes. -/
@[simp] theorem received_dropReceiver : c.dropReceiver.received = c.received := rfl

end Fields

/-! ### What becomes of the values -/

/-- The queue is within the capacity, and every value that was let in is received, queued or abandoned,
in the order of the offers. Nothing is queued without a receiver or abandoned with one. -/
structure Sound (c : Channel α) : Prop where
  queue_le : c.queue.length ≤ c.capacity
  accepted_eq : c.accepted = c.received ++ c.queue ++ c.abandoned
  abandoned_eq : c.receiver = true → c.abandoned = []
  queue_eq : c.receiver = false → c.queue = []

variable {c : Channel α}

/-- A new channel is sound. -/
theorem sound_create (capacity senders : ℕ) : (create α capacity senders).Sound where
  queue_le := Nat.zero_le _
  accepted_eq := rfl
  abandoned_eq _ := rfl
  queue_eq _ := rfl

/-- A message is accepted when there is a receiver and a free place. -/
theorem offer_eq_accepted_iff :
    c.offer = .accepted ↔ c.receiver = true ∧ c.queue.length < c.capacity := by
  unfold offer
  cases c.receiver with
  | false => simp
  | true => by_cases h : c.queue.length < c.capacity <;> simp [h]

/-- Whatever becomes of an offer, the channel stays sound. -/
theorem Sound.trySend (h : c.Sound) (x : α) : (c.trySend x).Sound := by
  by_cases hoffer : c.offer = .accepted
  · obtain ⟨hreceiver, hlt⟩ := offer_eq_accepted_iff.mp hoffer
    have hqueue : (c.trySend x).queue = c.queue ++ [x] := if_pos hoffer
    refine ⟨?_, ?_, h.abandoned_eq, fun hnone => ?_⟩
    · rw [hqueue, List.length_append, List.length_singleton]
      exact hlt
    · rw [accepted_trySend, if_pos hoffer, hqueue, h.accepted_eq]
      show _ = c.received ++ (c.queue ++ [x]) ++ c.abandoned
      rw [h.abandoned_eq hreceiver]
      simp only [List.append_nil, List.append_assoc]
    · rw [receiver_trySend, hreceiver] at hnone
      cases hnone
  · have hqueue : (c.trySend x).queue = c.queue := if_neg hoffer
    refine ⟨?_, ?_, h.abandoned_eq, fun hnone => ?_⟩
    · rw [hqueue]
      exact h.queue_le
    · rw [accepted_trySend, if_neg hoffer, hqueue]
      exact h.accepted_eq
    · rw [hqueue]
      exact h.queue_eq hnone

/-- Taking a message keeps the channel sound. -/
theorem Sound.take (h : c.Sound) : c.take.Sound := by
  cases hqueue : c.queue with
  | nil =>
    have htake : c.take = c := by rw [Channel.take, hqueue]
    rwa [htake]
  | cons x rest =>
    have htake : c.take = { c with queue := rest, received := c.received ++ [x] } := by
      rw [Channel.take, hqueue]
    have haccepted := h.accepted_eq
    rw [hqueue] at haccepted
    rw [htake]
    refine ⟨?_, ?_, h.abandoned_eq, fun hnone => ?_⟩
    · have hle := h.queue_le
      rw [hqueue, List.length_cons] at hle
      exact Nat.le_of_succ_le hle
    · show c.accepted = c.received ++ [x] ++ rest ++ c.abandoned
      rw [haccepted]
      simp only [List.append_assoc, List.singleton_append]
    · have hnil := h.queue_eq hnone
      rw [hqueue] at hnil
      cases hnil

/-- A channel stays sound without one of its senders. -/
theorem Sound.dropSender (h : c.Sound) : c.dropSender.Sound :=
  ⟨h.queue_le, h.accepted_eq, h.abandoned_eq, h.queue_eq⟩

/-- A channel stays sound without its receiver. -/
theorem Sound.dropReceiver (h : c.Sound) : c.dropReceiver.Sound := by
  refine ⟨Nat.zero_le _, ?_, (fun htrue => by cases htrue), fun _ => rfl⟩
  show c.accepted = c.received ++ [] ++ (c.abandoned ++ c.queue)
  rw [h.accepted_eq, List.append_nil, List.append_assoc]
  cases hreceiver : c.receiver with
  | true => rw [h.abandoned_eq hreceiver, List.nil_append, List.append_nil]
  | false => rw [h.queue_eq hreceiver, List.nil_append, List.append_nil]

/-- The receiver is told that the channel is closed when nothing is queued and no sender is left. -/
theorem receipt_eq_closed_iff : c.receipt = .closed ↔ c.queue = [] ∧ c.senders = 0 := by
  unfold receipt
  split
  · rename_i x rest hqueue
    rw [hqueue]
    simp
  · rename_i hqueue
    by_cases h : c.senders = 0 <;> simp [h, hqueue]

/-- The receiver waits only for a sender. -/
theorem senders_ne_zero_of_waits (h : c.receipt = .waits) : c.senders ≠ 0 := by
  unfold receipt at h
  split at h
  · cases h
  · intro hzero
    rw [if_pos hzero] at h
    cases h

/-- The receiver gets the value that it takes out. -/
theorem take_of_value {x : α} (h : c.receipt = .value x) :
    c.queue = x :: c.take.queue ∧ c.take.received = c.received ++ [x] := by
  unfold receipt at h
  split at h
  · rename_i y rest hqueue
    obtain rfl : y = x := by simpa using h
    rw [take, hqueue]
    exact ⟨rfl, rfl⟩
  · split at h <;> cases h

end Channel

end BoundedChannel
