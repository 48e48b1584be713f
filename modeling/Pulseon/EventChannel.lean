import Pulseon.Steps

/-!
# The read event channel

The worker's sender and the viewer's receiver share a queue under a lock. Each
locked section is a step and each call of a waker is one, so that the other side
can come in between. A poll that suspends registers the waker under a new number.
-/

namespace Pulseon

structure ReadEventState (Event : Type) where
  queue : List Event
  waker : Option Nat
  senderClosed : Bool
  receiverAlive : Bool

inductive Poll (Event : Type)
  | ready (event : Option Event)
  | pending

namespace ReadEventState
variable {Event : Type} (s : ReadEventState Event)

/-- What `send` does under the lock: whether the event is taken, and the waker to call. -/
def send (event : Event) : (Bool × Option Nat) × ReadEventState Event :=
  if s.receiverAlive then ((true, s.waker), { s with queue := s.queue ++ [event], waker := none })
  else ((false, none), s)

/-- What dropping the sender does under the lock. -/
def dropSender : Option Nat × ReadEventState Event := (s.waker, { s with senderClosed := true, waker := none })

/-- A poll of `recv`. -/
def recv (waker : Nat) : Poll Event × ReadEventState Event :=
  match s.queue with
  | event :: queue => (.ready (some event), { s with queue := queue })
  | [] => if s.senderClosed then (.ready none, s) else (.pending, { s with waker := some waker })

def tryEvent : Option Event × ReadEventState Event :=
  match s.queue with
  | event :: queue => (some event, { s with queue := queue })
  | [] => (none, s)

def dropReceiver : ReadEventState Event := { s with receiverAlive := false, waker := none }

end ReadEventState

/-- Where the sender is: after a locked section it has the waker that it took. -/
inductive SenderState
  | idle
  | sending (waker : Option Nat)
  | closing (waker : Option Nat)
  | dropped
deriving DecidableEq

def SenderState.waker : SenderState → Option Nat
  | .sending waker | .closing waker => waker
  | .idle | .dropped => none

/-- The channel with its two ends, and what has happened so far. -/
structure EventChannel (Event : Type) where
  state : ReadEventState Event
  sender : SenderState
  -- the registration with which `recv` is suspended, and the next number
  suspended : Option Nat
  fresh : Nat
  sent : List Event
  accepted : List Event
  delivered : List Event
  ended : Bool
  woken : List Nat

inductive ChannelOp (Event : Type)
  | send (event : Event)
  | dropSender
  | wake
  | recv
  | tryEvent
  | dropReceiver

namespace EventChannel
variable {Event : Type} (c : EventChannel Event)

/-- `read_event_channel` -/
def initial : EventChannel Event where
  state := ⟨[], none, false, true⟩
  sender := .idle
  suspended := none
  fresh := 0
  sent := []
  accepted := []
  delivered := []
  ended := false
  woken := []

def send (event : Event) : EventChannel Event :=
  let ((taken, waker), state) := c.state.send event
  { c with
    state := state
    sender := if taken then .sending waker else .idle
    sent := c.sent ++ [event]
    accepted := if taken then c.accepted ++ [event] else c.accepted }

def dropSender : EventChannel Event :=
  let (waker, state) := c.state.dropSender
  { c with state := state, sender := .closing waker }

def recv : EventChannel Event :=
  match c.state.recv c.fresh with
  | (.ready event, state) =>
    { c with
      state := state, suspended := none, delivered := c.delivered ++ event.toList,
      ended := c.ended || event.isNone }
  | (.pending, state) => { c with state := state, suspended := some c.fresh, fresh := c.fresh + 1 }

def tryEvent : EventChannel Event :=
  let (event, state) := c.state.tryEvent
  { c with state := state, delivered := c.delivered ++ event.toList }

/-- The sender calls the waker that it has taken. -/
def wake (next : SenderState) : EventChannel Event :=
  { c with sender := next, woken := c.woken ++ c.sender.waker.toList }

def step (c : EventChannel Event) : ChannelOp Event → Option (EventChannel Event)
  | .send event => if c.sender = .idle then some (c.send event) else none
  | .dropSender => if c.sender = .idle then some c.dropSender else none
  | .wake =>
    match c.sender with
    | .sending _ => some (c.wake .idle)
    | .closing _ => some (c.wake .dropped)
    | .idle | .dropped => none
  | .recv => if c.state.receiverAlive then some c.recv else none
  | .tryEvent => if c.state.receiverAlive then some c.tryEvent else none
  | .dropReceiver =>
    if c.state.receiverAlive then some { c with state := c.state.dropReceiver, suspended := none } else none

end EventChannel

end Pulseon
