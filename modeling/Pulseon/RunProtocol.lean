import Pulseon.World

/-!
# The protocol of run writers

What the clients' calls do to the active runs, their locks and the stored runs,
without the statements and the reporters around it. A thread is a call reduced
to the active run it holds and the step it has reached.
-/

namespace Pulseon

inductive Thread
  | idle
  -- create_run: past its status read, then with an active run in hand
  | creating (client : Nat) (runId : RunId)
  | checking (client : Nat) (runId : RunId) (a : Nat)
  | inserting (client : Nat) (runId : RunId) (a : Nat)
  | undoing (client : Nat) (runId : RunId) (a : Nat)
  | undone (client : Nat) (runId : RunId) (a : Nat)
  -- finish_run and fail_run: before `acquire_run_writer`, and then up to, at
  -- and past `mark_terminal`
  | finalizing (client : Nat) (runId : RunId)
  | using (client : Nat) (runId : RunId) (a : Nat)
  | marked (client : Nat) (runId : RunId) (a : Nat)
  | closing (client : Nat) (runId : RunId) (a : Nat)
  | released (client : Nat) (runId : RunId) (a : Nat)
  -- a report under an admission gate, and a shutdown past the drop of the sender
  | logging (run : NativeRun)
  | tearing (client : Nat)
deriving DecidableEq, Repr

/-- The active run the finalizer of a thread holds, up to its `mark_terminal`. -/
def Thread.holds : Thread → Option (Nat × RunId × Nat)
  | .using c r a | .marked c r a => some (c, r, a)
  | _ => none

/-- The active run a thread has marked terminal. -/
def Thread.ends : Thread → Option (Nat × RunId × Nat)
  | .closing c r a | .released c r a => some (c, r, a)
  | _ => none

def Thread.cell : Thread → Option (Nat × RunId × Nat)
  | .checking c r a | .inserting c r a | .undoing c r a | .undone c r a => some (c, r, a)
  | .using c r a | .marked c r a | .closing c r a | .released c r a => some (c, r, a)
  | _ => none

/-- The client and run a thread finishes. -/
def Thread.finalizes : Thread → Option (Nat × RunId)
  | .finalizing c r | .using c r _ | .marked c r _ | .closing c r _ | .released c r _ => some (c, r)
  | _ => none

def Thread.creates : Thread → Option (Nat × RunId × Nat)
  | .checking c r a | .inserting c r a | .undoing c r a => some (c, r, a)
  | _ => none

def Thread.client : Thread → Option Nat
  | .idle => none
  | .creating c _ | .checking c _ _ | .inserting c _ _ | .undoing c _ _ | .undone c _ _ => some c
  | .finalizing c _ | .using c _ _ | .marked c _ _ | .closing c _ _ | .released c _ _ => some c
  | .logging run => some run.client
  | .tearing c => some c

structure Protocol where
  registry : Registry
  runs : List Run
  -- the clients whose sender is gone
  torn : Nat → Bool
  threads : Nat → Thread

/-- How `acquire_run_writer` with the result `a` takes a thread on. -/
inductive Thread.Acquires (c : Nat) (r : RunId) (a : Nat) : Thread → Thread → Prop
  | create : Acquires c r a (.creating c r) (.checking c r a)
  | finalize : Acquires c r a (.finalizing c r) (.using c r a)
  | resume : Acquires c r a .idle .idle

/-- A call that returns here leaves the registry as it is. -/
def Thread.mayReturn : Thread → Bool
  | .creating _ _ | .finalizing _ _ | .using _ _ _ | .tearing _ => true
  | _ => false

inductive ProtocolAct
  | stay
  | return
  | begin (client : Nat) (runId : RunId)
  | absent (client : Nat) (runId : RunId)
  | share (client : Nat) (runId : RunId)
  | register (client : Nat) (runId : RunId)
  | check (client : Nat) (runId : RunId)
  | insert (client : Nat) (runId : RunId)
  | undo (client : Nat) (runId : RunId)
  | undoWriter (client : Nat) (runId : RunId)
  | undoLock (client : Nat) (runId : RunId)
  | close (client : Nat) (runId : RunId)
  | mark (client : Nat) (runId : RunId)
  | markTerminal (client : Nat) (runId : RunId)
  | releaseLock (client : Nat) (runId : RunId)
  | releaseWriter (client : Nat) (runId : RunId)
  | reopen (client : Nat) (runId : RunId)
  | enter (run : NativeRun)
  | leave (run : NativeRun)
  | tear (client : Nat)
  | releaseAll (client : Nat)
  | handle (client : Nat) (runId : RunId)
deriving DecidableEq, Repr

def ProtocolAct.client : ProtocolAct → Option Nat
  | .stay | .return => none
  | .enter run | .leave run => some run.client
  | .begin c _ | .absent c _ | .share c _ | .register c _ | .check c _ | .insert c _ => some c
  | .undo c _ | .undoWriter c _ | .undoLock c _ | .close c _ | .mark c _ | .markTerminal c _ => some c
  | .releaseLock c _ | .releaseWriter c _ | .reopen c _ | .tear c | .releaseAll c | .handle c _ => some c

def statusIn (runs : List Run) (r : RunId) : Option RunStatus :=
  (runs.find? fun run => run.runId == r).map Run.status

namespace Protocol

def setThread (p : Protocol) (i : Nat) (th : Thread) : Protocol :=
  { p with threads := Function.update p.threads i th }

def setRegistry (p : Protocol) (g : Registry) : Protocol := { p with registry := g }

def status (p : Protocol) (r : RunId) : Option RunStatus := statusIn p.runs r

end Protocol

/-- One step of thread `i`. -/
inductive ProtocolMove (p : Protocol) (i : Nat) : ProtocolAct → Protocol → Prop
  | stay : ProtocolMove p i .stay p
  | returns : (p.threads i).mayReturn = true → ProtocolMove p i .return (p.setThread i .idle)
  | begin {c r} : p.threads i = .idle → ProtocolMove p i (.begin c r) (p.setThread i (.finalizing c r))
  | absent {c r} : p.threads i = .idle → p.status r = none →
      ProtocolMove p i (.absent c r) (p.setThread i (.creating c r))
  | share {c r a th} : p.registry.activeRuns c r = some a → (p.threads i).Acquires c r a th →
      ProtocolMove p i (.share c r) (p.setThread i th)
  | register {c r th} : p.registry.activeRuns c r = none → p.registry.locks (lockFile r) = none →
      (p.threads i).Acquires c r p.registry.fresh th →
      ProtocolMove p i (.register c r) ((p.setRegistry (p.registry.register c r)).setThread i th)
  | check {c r a} : p.threads i = .checking c r a → p.status r = none →
      ProtocolMove p i (.check c r) (p.setThread i (.inserting c r a))
  | insert {c r a run} : p.threads i = .inserting c r a → run.runId = r → run.status = .running →
      ProtocolMove p i (.insert c r) ({ p with runs := p.runs ++ [run] }.setThread i .idle)
  | undo {c r a} : p.threads i = .checking c r a ∨ p.threads i = .inserting c r a →
      ProtocolMove p i (.undo c r) (p.setThread i (.undoing c r a))
  | undoWriter {c r a} : p.threads i = .undoing c r a →
      ProtocolMove p i (.undoWriter c r)
        ((p.setRegistry (p.registry.releaseRunWriter c r)).setThread i (.undone c r a))
  | undoLock {c r a} : p.threads i = .undone c r a →
      ProtocolMove p i (.undoLock c r) ((p.setRegistry (p.registry.releaseLock a)).setThread i .idle)
  | close {c r a} : p.threads i = .using c r a → (p.registry.active a).gate = none →
      ProtocolMove p i (.close c r) (p.setRegistry (p.registry.setAdmission a .closing))
  | mark {c r a target t} : p.threads i = .using c r a →
      (∃ run ∈ p.runs, run.runId = r ∧ run.status = .running) →
      ProtocolMove p i (.mark c r) ({ p with runs := p.runs.map (markRun r target t) }.setThread i (.marked c r a))
  | markTerminal {c r a} : p.threads i = .marked c r a → (p.registry.active a).gate = none →
      ProtocolMove p i (.markTerminal c r)
        ((p.setRegistry (p.registry.markTerminal c r a)).setThread i (.closing c r a))
  | releaseLock {c r a} : p.threads i = .closing c r a →
      ProtocolMove p i (.releaseLock c r) ((p.setRegistry (p.registry.releaseLock a)).setThread i (.released c r a))
  | releaseWriter {c r a} : p.threads i = .released c r a →
      ProtocolMove p i (.releaseWriter c r)
        ((p.setRegistry (p.registry.releaseRunWriter c r)).setThread i .idle)
  | reopen {c r a} : p.threads i = .using c r a → (p.registry.active a).gate = none →
      ProtocolMove p i (.reopen c r) ((p.setRegistry (p.registry.setAdmission a .opened)).setThread i .idle)
  | enter {run} : p.threads i = .idle → run ∈ p.registry.handles →
      (p.registry.active run.activeRun).gate = none →
      (p.registry.active run.activeRun).admission = .opened →
      ProtocolMove p i (.enter run)
        ((p.setRegistry (p.registry.setGate run.activeRun (some i))).setThread i (.logging run))
  | leave {run} : p.threads i = .logging run →
      ProtocolMove p i (.leave run) ((p.setRegistry (p.registry.setGate run.activeRun none)).setThread i .idle)
  | tear {c} : p.threads i = .idle →
      ProtocolMove p i (.tear c) ({ p with torn := Function.update p.torn c true }.setThread i (.tearing c))
  | releaseAll {c} : p.threads i = .tearing c →
      ProtocolMove p i (.releaseAll c) ((p.setRegistry (p.registry.releaseAllRunWriters c)).setThread i .idle)
  | handle {c r} : ProtocolMove p i (.handle c r) (p.setRegistry (p.registry.runHandle c r))

end Pulseon
