import Pulseon.Model
import Pulseon.Steps
import Pulseon.Durations
import Mathlib.Logic.Function.Basic

/-!
# Interrupting a flush

One connection, the operations that lock it and execute statements on it, and
the `flush_run_data` calls. A call with a timeout spawns a thread that sleeps,
loads the call's `completed`, stores `timed_out` and interrupts the connection,
all without its lock. A step is one access: a flag, a lock, an unlock, the start
or the end of a statement, an interrupt.
-/

namespace Pulseon

/-- Where a `flush_run_data` call stands. `fails` is what `flush_metric_points` returned. -/
inductive FlushStage
  | ensureWriteable
  | lockRun
  | startRun
  | endRun
  | unlockRun (found : Except EngineError RunStatus)
  | setDeadline
  | tryLock (deadline : Option Instant)
  | retry (deadline : Instant)
  | checkDeadline (deadline : Option Instant)
  | connection (deadline : Option Instant)
  | install (deadline : Option Instant)
  | start (deadline : Option Instant)
  | flushing (deadline : Option Instant)
  | markCompleted (deadline : Instant) (fails : Bool)
  | unlock (deadline : Option Instant) (fails : Bool)
  | compareDeadline (deadline : Option Instant) (fails : Bool)
  | loadTimedOut (deadline : Option Instant) (fails : Bool)
  | unlockFlush (result : Except EngineError Unit)
  | returned (result : Except EngineError Unit)
  | panicked

def FlushStage.startsStatement : FlushStage → Bool
  | .startRun => true
  | .start _ => true
  | _ => false

structure FlushCall where
  runId : RunId
  timeout : Option Duration
  stage : FlushStage := .ensureWriteable

/-- Where the thread of `install_flush_interrupt` stands. -/
inductive TimerStage
  | absent
  | sleeping (since : Instant) (remaining : Duration)
  | loadCompleted
  | storeTimedOut
  | interrupt
  | exited
deriving DecidableEq

/-- The flags that a call shares with its timer. -/
structure FlushInterrupt where
  completed : Bool := false
  timedOut : Bool := false
  timer : TimerStage := .absent

/-- The locks, with their holders, and the connection's statement, with whose it is.
A number that is not of a `flush_run_data` call is of another thread. -/
structure Flushing where
  now : Instant
  connection : Option Nat := none
  executing : Option Nat := none
  flushLock : Option Nat := none
  calls : Nat → Option FlushCall := fun _ => none
  interrupts : Nat → FlushInterrupt := fun _ => {}

/-- What another operation does with the connection. -/
inductive OperationStep
  | lock
  | startStatement
  | endStatement
  | unlock

/-- What a step of a call finds: the flag of the client, the stored run, and
whether the flush fails. -/
structure FlushEnv where
  isShutdown : Bool := false
  found : Except EngineError RunStatus := .ok .finished
  fails : Bool := false

inductive FlushingAct
  | tick (now : Instant)
  | operate (i : Nat) (step : OperationStep)
  | call (i : Nat) (runId : RunId) (timeout : Option Duration)
  | go (i : Nat) (env : FlushEnv)
  | timer (i : Nat)

namespace Flushing
variable (s : Flushing)

def init (now : Instant) : Flushing := { now := now }

def setCall (i : Nat) (c : FlushCall) : Flushing := { s with calls := Function.update s.calls i (some c) }

def setInterrupt (i : Nat) (x : FlushInterrupt) : Flushing :=
  { s with interrupts := Function.update s.interrupts i x }

def setConnection (holder : Option Nat) : Flushing := { s with connection := holder }

def setExecuting (statement : Option Nat) : Flushing := { s with executing := statement }

def setFlushLock (holder : Option Nat) : Flushing := { s with flushLock := holder }

def operateStep (i : Nat) : OperationStep → Option Flushing
  | .lock => if s.connection.isSome then none else some (s.setConnection (some i))
  | .startStatement =>
    if s.connection = some i ∧ s.executing = none then some (s.setExecuting (some i)) else none
  | .endStatement => if s.executing = some i then some (s.setExecuting none) else none
  | .unlock => if s.connection = some i ∧ s.executing = none then some (s.setConnection none) else none

/-- `deadline.is_some_and(|deadline| Instant::now() >= deadline)` -/
def expired (deadline : Option Instant) : Bool := deadline.any fun deadline => decide (deadline ≤ s.now)

/-- `install_flush_interrupt` -/
def installed (i : Nat) : Option Instant → Flushing
  | none => s
  | some deadline => s.setInterrupt i { timer := .sleeping s.now (deadline.saturatingDurationSince s.now) }

def flushStep (i : Nat) (c : FlushCall) (env : FlushEnv) : Option Flushing :=
  let next (stage : FlushStage) : FlushCall := { c with stage := stage }
  match c.stage with
  | .ensureWriteable =>
    some (s.setCall i (next (if env.isShutdown then .returned (.error .clientClosed) else .lockRun)))
  | .lockRun => if s.connection.isSome then none else some ((s.setConnection (some i)).setCall i (next .startRun))
  | .startRun => some ((s.setExecuting (some i)).setCall i (next .endRun))
  | .endRun => some ((s.setExecuting none).setCall i (next (.unlockRun env.found)))
  | .unlockRun found =>
    some ((s.setConnection none).setCall i (next (match found with
      | .error e => .returned (.error e)
      | .ok status =>
        if status = .running then
          .returned (.error (.invalidRunTransition c.runId (runStatusValue status) "flushed"))
        else .setDeadline)))
  | .setDeadline =>
    some (s.setCall i (next (match c.timeout with
      | none => .tryLock none
      | some timeout =>
        match s.now.add timeout with
        | none => .panicked
        | some deadline => .tryLock (some deadline))))
  | .tryLock deadline =>
    match s.flushLock, deadline with
    | none, _ => some ((s.setFlushLock (some i)).setCall i (next (.checkDeadline deadline)))
    | some _, none => none
    | some _, some deadline => some (s.setCall i (next (.retry deadline)))
  | .retry deadline =>
    some (s.setCall i (next (if deadline ≤ s.now then .returned (.error .metricFlushTimeout)
      else .tryLock (some deadline))))
  | .checkDeadline deadline =>
    some (s.setCall i (next (if s.expired deadline then .unlockFlush (.error .metricFlushTimeout)
      else .connection deadline)))
  | .connection deadline =>
    if s.connection.isSome then none else some ((s.setConnection (some i)).setCall i (next (.install deadline)))
  | .install deadline => some ((s.installed i deadline).setCall i (next (.start deadline)))
  | .start deadline => some ((s.setExecuting (some i)).setCall i (next (.flushing deadline)))
  | .flushing deadline =>
    some ((s.setExecuting none).setCall i (next (match deadline with
      | none => .unlock none env.fails
      | some deadline => .markCompleted deadline env.fails)))
  | .markCompleted deadline fails =>
    some ((s.setInterrupt i { s.interrupts i with completed := true }).setCall i
      (next (.unlock (some deadline) fails)))
  | .unlock deadline fails => some ((s.setConnection none).setCall i (next (.compareDeadline deadline fails)))
  | .compareDeadline deadline fails =>
    some (s.setCall i (next (if s.expired deadline then .unlockFlush (.error .metricFlushTimeout)
      else .loadTimedOut deadline fails)))
  | .loadTimedOut deadline fails =>
    some (s.setCall i (next (.unlockFlush
      (if deadline.isSome && (s.interrupts i).timedOut then .error .metricFlushTimeout
      else if fails then .error (.metricFlush "flush metric_points failed")
      else .ok ()))))
  | .unlockFlush result => some ((s.setFlushLock none).setCall i (next (.returned result)))
  | .returned _ => none
  | .panicked => none

def timerStep (i : Nat) : Option Flushing :=
  let x := s.interrupts i
  match x.timer with
  | .absent => none
  | .sleeping since remaining =>
    if since.sinceOrigin + remaining.asNanos ≤ s.now.sinceOrigin then
      some (s.setInterrupt i { x with timer := .loadCompleted })
    else none
  | .loadCompleted => some (s.setInterrupt i { x with timer := if x.completed then .exited else .storeTimedOut })
  | .storeTimedOut => some (s.setInterrupt i { x with timedOut := true, timer := .interrupt })
  | .interrupt => some (s.setInterrupt i { x with timer := .exited })
  | .exited => none

def step : FlushingAct → Option Flushing
  | .tick now => if s.now ≤ now then some { s with now := now } else none
  | .operate i operation => if (s.calls i).isSome then none else s.operateStep i operation
  | .call i runId timeout =>
    if (s.calls i).isSome || s.connection == some i then none
    else some (s.setCall i { runId := runId, timeout := timeout })
  | .go i env => (s.calls i).bind fun c => s.flushStep i c env
  | .timer i => s.timerStep i

/-- The statement of the call's `flush_metric_points` is executing. -/
def flushes (i : Nat) : Prop :=
  s.executing = some i ∧ ∃ c deadline, s.calls i = some c ∧ c.stage = .flushing deadline

/-- No interrupt is delivered while a statement other than the call's flush is executing. -/
def OwnFlush : FlushingAct → Prop
  | .timer i => (s.interrupts i).timer = .interrupt → s.executing = none ∨ s.flushes i
  | _ => True

/-- The timer has found the call not completed and has not yet interrupted. -/
def armed (i : Nat) : Prop := (s.interrupts i).timer = .storeTimedOut ∨ (s.interrupts i).timer = .interrupt

instance (i : Nat) : Decidable (s.armed i) := inferInstanceAs (Decidable (_ ∨ _))

/-- Whose statement the step starts. -/
def starts : FlushingAct → Option Nat
  | .operate i .startStatement =>
    if (s.calls i).isNone ∧ s.connection = some i ∧ s.executing = none then some i else none
  | .go i _ => (s.calls i).bind fun c => if c.stage.startsStatement then some i else none
  | _ => none

/-- While a timer is between its check and its interrupt, no statement is started
but that of its own call. -/
def StartsApart (act : FlushingAct) : Prop := ∀ i, s.armed i → ∀ j, s.starts act = some j → j = i

end Flushing

end Pulseon
