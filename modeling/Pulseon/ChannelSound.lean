import Pulseon.EventChannel

/-!
# No event and no wake-up is lost

The waker in the state says that there is nothing to take, so once there is, the
waker of a suspended receiver has been taken by the sender, which is about to call
it or has called it.
-/

namespace Pulseon

namespace EventChannel
variable {Event : Type}

structure Sound (c : EventChannel Event) : Prop where
  fifo : c.accepted = c.delivered ++ c.state.queue
  taken : c.state.receiverAlive = true → c.accepted = c.sent
  closed : c.state.senderClosed = true ↔ (∃ waker, c.sender = .closing waker) ∨ c.sender = .dropped
  ended : c.ended = true → c.state.senderClosed = true ∧ c.state.queue = [] ∧ c.delivered = c.sent
  nothing : ∀ n, c.state.waker = some n → c.state.queue = [] ∧ c.state.senderClosed = false
  numbered : ∀ n, c.state.waker = some n ∨ c.sender.waker = some n ∨ n ∈ c.woken → n < c.fresh
  reached : ∀ n, c.suspended = some n → c.state.waker = some n ∨ c.sender.waker = some n ∨ n ∈ c.woken

theorem sound_initial : (initial : EventChannel Event).Sound where
  fifo := rfl
  taken _ := rfl
  closed := by simp [initial]
  ended := nofun
  nothing := nofun
  numbered := by simp [initial, SenderState.waker]
  reached := nofun

section
variable {c c' : EventChannel Event} (hs : c.Sound)
include hs

theorem Sound.send (hidle : c.sender = .idle) (event : Event) : (c.send event).Sound := by
  have hopen : c.state.senderClosed = false := by
    rw [← Bool.not_eq_true, hs.closed, hidle]
    simp
  have hgoing : c.ended = false := by
    rw [← Bool.not_eq_true]
    intro h
    rw [(hs.ended h).1] at hopen
    cases hopen
  have hwaker : c.sender.waker = none := by rw [hidle]; rfl
  by_cases halive : c.state.receiverAlive = true
  · have hsend : c.send event = { c with
        state := { c.state with queue := c.state.queue ++ [event], waker := none }
        sender := .sending c.state.waker
        sent := c.sent ++ [event]
        accepted := c.accepted ++ [event] } := by
      simp [EventChannel.send, ReadEventState.send, halive]
    rw [hsend]
    refine ⟨?_, fun _ => ?_, ?_, fun h => ?_, nofun, fun n h => ?_, fun n h => ?_⟩
    · rw [hs.fifo, List.append_assoc]
    · rw [hs.taken halive]
    · simp [hopen]
    · rw [hgoing] at h; cases h
    · refine hs.numbered n ?_
      rcases h with h | h | h
      · cases h
      · exact Or.inl h
      · exact Or.inr (Or.inr h)
    · rcases hs.reached n h with h | h | h
      · exact Or.inr (Or.inl h)
      · rw [hwaker] at h; cases h
      · exact Or.inr (Or.inr h)
  · have hsend : c.send event = { c with sender := .idle, sent := c.sent ++ [event] } := by
      simp [EventChannel.send, ReadEventState.send, halive]
    rw [hsend, ← hidle]
    refine ⟨hs.fifo, fun h => absurd h halive, hs.closed, fun h => ?_, hs.nothing, hs.numbered, hs.reached⟩
    rw [hgoing] at h; cases h

theorem Sound.dropSender (hidle : c.sender = .idle) : c.dropSender.Sound := by
  have hwaker : c.sender.waker = none := by rw [hidle]; rfl
  refine ⟨hs.fifo, hs.taken, ?_, fun h => ⟨rfl, (hs.ended h).2⟩, nofun, fun n h => ?_, fun n h => ?_⟩
  · simp [EventChannel.dropSender, ReadEventState.dropSender]
  · refine hs.numbered n ?_
    rcases h with h | h | h
    · cases h
    · exact Or.inl h
    · exact Or.inr (Or.inr h)
  · rcases hs.reached n h with h | h | h
    · exact Or.inr (Or.inl h)
    · rw [hwaker] at h; cases h
    · exact Or.inr (Or.inr h)

theorem Sound.wake {next : SenderState} (hnext : next.waker = none)
    (hclosed : c.state.senderClosed = true ↔ (∃ waker, next = .closing waker) ∨ next = .dropped) :
      (c.wake next).Sound := by
  refine ⟨hs.fifo, hs.taken, hclosed, hs.ended, hs.nothing, fun n h => ?_, fun n h => ?_⟩
  · refine hs.numbered n ?_
    simp only [EventChannel.wake, hnext, List.mem_append, Option.mem_toList, reduceCtorEq, false_or] at h
    tauto
  · simp only [EventChannel.wake, hnext, List.mem_append, Option.mem_toList, reduceCtorEq, false_or]
    have := hs.reached n h
    tauto

/-- What taking the first event leaves. -/
theorem Sound.take {event : Event} {queue : List Event} (hqueue : c.state.queue = event :: queue)
    {suspended : Option Nat} (hsuspended : ∀ n, suspended = some n → c.suspended = some n) :
    Sound { c with
      state := { c.state with queue := queue }, suspended := suspended, delivered := c.delivered ++ [event] } := by
  have hfull : c.state.queue ≠ [] := by rw [hqueue]; exact List.cons_ne_nil _ _
  refine ⟨?_, hs.taken, hs.closed, fun h => absurd (hs.ended h).2.1 hfull, fun n h =>
    absurd (hs.nothing n h).1 hfull,
    hs.numbered, fun n h => hs.reached n (hsuspended n h)⟩
  rw [hs.fifo, hqueue, List.append_assoc, List.singleton_append]

theorem Sound.recv (halive : c.state.receiverAlive = true) : c.recv.Sound := by
  cases hqueue : c.state.queue with
  | cons event queue =>
    have hrecv : c.recv = { c with
        state := { c.state with queue := queue }, suspended := none, delivered := c.delivered ++ [event] } := by
      simp [EventChannel.recv, ReadEventState.recv, hqueue]
    rw [hrecv]
    exact hs.take hqueue nofun
  | nil =>
    by_cases hclosed : c.state.senderClosed = true
    · have hrecv : c.recv = { c with suspended := none, ended := true } := by
        simp [EventChannel.recv, ReadEventState.recv, hqueue, hclosed]
      have hall : c.delivered = c.sent := by rw [← hs.taken halive, hs.fifo, hqueue, List.append_nil]
      rw [hrecv]
      exact ⟨hs.fifo, hs.taken, hs.closed, fun _ => ⟨hclosed, hqueue, hall⟩, hs.nothing, hs.numbered, nofun⟩
    · have hrecv : c.recv = { c with
          state := { c.state with waker := some c.fresh }, suspended := some c.fresh, fresh := c.fresh + 1 } := by
        simp [EventChannel.recv, ReadEventState.recv, hqueue, hclosed]
      rw [hrecv]
      refine ⟨hs.fifo, hs.taken, hs.closed, hs.ended, fun n _ => ⟨hqueue, by simpa using hclosed⟩, fun n h => ?_,
        fun n h => Or.inl h⟩
      rcases h with h | h
      · cases h
        exact Nat.lt_succ_self _
      · exact Nat.lt_succ_of_lt (hs.numbered n (Or.inr h))

theorem Sound.tryEvent : c.tryEvent.Sound := by
  cases hqueue : c.state.queue with
  | cons event queue =>
    have htry : c.tryEvent = { c with
        state := { c.state with queue := queue }, suspended := c.suspended,
        delivered := c.delivered ++ [event] } := by
      simp [EventChannel.tryEvent, ReadEventState.tryEvent, hqueue]
    rw [htry]
    exact hs.take hqueue fun _ h => h
  | nil =>
    have htry : c.tryEvent = c := by
      simp [EventChannel.tryEvent, ReadEventState.tryEvent, hqueue]
    rw [htry]
    exact hs

theorem Sound.dropReceiver : Sound { c with state := c.state.dropReceiver, suspended := none } := by
  refine ⟨hs.fifo, nofun, hs.closed, hs.ended, nofun, fun n h => hs.numbered n ?_, nofun⟩
  exact Or.inr (h.resolve_left nofun)

theorem Sound.step {op : ChannelOp Event} (h : c.step op = some c') : c'.Sound := by
  cases op with
  | send event =>
    obtain ⟨hidle, he⟩ := Option.ite_none_right_eq_some.mp h
    cases he
    exact hs.send hidle event
  | dropSender =>
    obtain ⟨hidle, he⟩ := Option.ite_none_right_eq_some.mp h
    cases he
    exact hs.dropSender hidle
  | wake =>
    unfold EventChannel.step at h
    dsimp only at h
    split at h
    · rename_i hsender
      cases h
      refine hs.wake rfl ?_
      rw [hs.closed, hsender]
      simp
    · rename_i hsender
      cases h
      refine hs.wake rfl ?_
      rw [hs.closed, hsender]
      simp
    · cases h
    · cases h
  | recv =>
    obtain ⟨halive, he⟩ := Option.ite_none_right_eq_some.mp h
    cases he
    exact hs.recv halive
  | tryEvent =>
    obtain ⟨-, he⟩ := Option.ite_none_right_eq_some.mp h
    cases he
    exact hs.tryEvent
  | dropReceiver =>
    obtain ⟨-, he⟩ := Option.ite_none_right_eq_some.mp h
    cases he
    exact hs.dropReceiver

omit hs in
/-- A taken waker is called by the sender's next step. -/
theorem wake_taken {n : Nat} (h : c.sender.waker = some n) : ∃ c', c.step .wake = some c' ∧ n ∈ c'.woken := by
  cases hsender : c.sender with
  | idle => rw [hsender] at h; cases h
  | dropped => rw [hsender] at h; cases h
  | sending waker =>
    refine ⟨c.wake .idle, by simp [EventChannel.step, hsender], ?_⟩
    simp [EventChannel.wake, h]
  | closing waker =>
    refine ⟨c.wake .dropped, by simp [EventChannel.step, hsender], ?_⟩
    simp [EventChannel.wake, h]

end

/-- In every state of every interleaving the events accepted are those delivered, in
order, and then those in the queue; `recv` ends only when the sender is closed and all it
sent is delivered; and a receiver suspended while there is something to take has been
woken since it registered, or the sender has its waker and calls it next. -/
theorem event_channel_loses_nothing {ops : List (ChannelOp Event)} {c : EventChannel Event}
    (h : exec EventChannel.step initial ops = some c) :
    c.accepted = c.delivered ++ c.state.queue ∧ (c.state.receiverAlive = true → c.accepted = c.sent) ∧
    (c.state.receiverAlive = true → (c.state.recv c.fresh).1 = .ready none →
      c.state.senderClosed = true ∧ c.delivered = c.sent) ∧
    (c.ended = true → c.state.senderClosed = true ∧ c.delivered = c.sent) ∧
    c.fresh ∉ c.woken ∧
    ∀ n, c.suspended = some n → (c.state.queue ≠ [] ∨ c.state.senderClosed = true) →
      n ∈ c.woken ∨ c.sender.waker = some n ∧ ∃ c', c.step .wake = some c' ∧ n ∈ c'.woken := by
  have hs : c.Sound := exec_inv_all EventChannel.step (fun _ _ _ ha hs => hs.step ha) h sound_initial
  refine ⟨hs.fifo, hs.taken, fun halive hnone => ?_, fun hended => ⟨(hs.ended hended).1, (hs.ended hended).2.2⟩,
    fun hwoken => absurd (hs.numbered _ (Or.inr (Or.inr hwoken))) (Nat.lt_irrefl _), fun n hsuspended hready => ?_⟩
  · cases hqueue : c.state.queue with
    | cons event queue => simp [ReadEventState.recv, hqueue] at hnone
    | nil =>
      by_cases hclosed : c.state.senderClosed = true
      · refine ⟨hclosed, ?_⟩
        rw [← hs.taken halive, hs.fifo, hqueue, List.append_nil]
      · simp [ReadEventState.recv, hqueue, hclosed] at hnone
  · rcases hs.reached n hsuspended with hn | hn | hn
    · -- the waker is still registered, so nothing has come since
      obtain ⟨hempty, hopen⟩ := hs.nothing n hn
      rcases hready with hfull | hclosed
      · exact absurd hempty hfull
      · rw [hopen] at hclosed; cases hclosed
    · exact Or.inr ⟨hn, wake_taken hn⟩
    · exact Or.inl hn

/-- A poll suspends, an event is sent and the sender dropped before the next poll. -/
def suspendedRun : List (ChannelOp Nat) := [.recv, .send 7, .wake, .dropSender, .recv, .wake, .recv]

theorem event_channel_loses_nothing_suspended :
    ∃ c : EventChannel Nat, exec EventChannel.step initial suspendedRun = some c ∧
    c.accepted = c.delivered ++ c.state.queue ∧ c.delivered = [7] ∧ c.ended = true := by
  have hrun : exec EventChannel.step (initial : EventChannel Nat) suspendedRun = some
      ⟨⟨[], none, true, true⟩, .dropped, none, 1, [7], [7], [7], true, [0]⟩ := rfl
  exact ⟨_, hrun, (event_channel_loses_nothing hrun).1, rfl, rfl⟩

end EventChannel

end Pulseon
