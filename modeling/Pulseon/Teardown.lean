import Pulseon.World

/-!
# Dropping a client and its handles

A `NativeClient` has a reference to the reporter and references to the active
runs in its map, a `NativeRun` one of each. The values are dropped in any order
and by any threads, in each the reporter before the active runs. The last
reference to the reporter takes the sender and joins the worker; the last one to
an active run drops its guard, which unlocks the lock file.
-/

namespace Pulseon

/-- Where the drop of a value's reporter stands; the steps past `held` but for
`dropped` are those of the last reference. -/
inductive ReporterField
  | held | takeSender | takeWorker | join | dropped
deriving DecidableEq, Repr

/-- The client or a handle. -/
structure Owner where
  reporter : ReporterField
  activeRuns : List Nat
deriving DecidableEq, Repr

/-- The client is the first owner; `caller` is the handle whose call is under way. -/
structure Teardown where
  reporter : Reporter
  active : Nat → ActiveRun
  owners : List Owner
  caller : Option Nat := none

inductive TeardownAct
  | log (i a : Nat) (metricKey : MetricKey) (step : Int) (valueF64 : F64)
  | call (now : Int)
  | work (act : WorkerAct)
  | dropReporter (i : Nat)
  | dropActiveRun (i a : Nat)
deriving DecidableEq, Repr

namespace Teardown

/-- A client with these active runs in its map, and handles on these. -/
def init (capacity : Nat) (active : Nat → ActiveRun) (runs handles : List Nat) : Teardown where
  reporter := { capacity := capacity }
  active := active
  owners := ⟨.held, runs⟩ :: handles.map fun a => ⟨.held, [a]⟩

variable (s : Teardown)

def setOwner (i : Nat) (o : Owner) : Teardown := { s with owners := s.owners.set i o }

def shared : Bool := s.owners.any fun o => o.reporter == .held

def refers (a : Nat) : Bool := s.owners.any fun o => o.activeRuns.contains a

def dropGuard (a : Nat) : Teardown :=
  { s with active := Function.update s.active a { s.active a with writerGuard := false } }

def dropReporter (i : Nat) (o : Owner) : Option Teardown :=
  match o.reporter with
  | .held =>
    let s' := s.setOwner i { o with reporter := .takeSender }
    some (if s'.shared then s.setOwner i { o with reporter := .dropped } else s')
  | .takeSender => (s.reporter.step .takeSender).map fun r =>
      { s.setOwner i { o with reporter := .takeWorker } with reporter := r }
  | .takeWorker =>
    if s.reporter.joinHandle then (s.reporter.step .takeWorker).map fun r =>
      { s.setOwner i { o with reporter := .join } with reporter := r }
    else some (s.setOwner i { o with reporter := .dropped })
  | .join =>
    if s.reporter.worker.hasExited then some (s.setOwner i { o with reporter := .dropped }) else none
  | .dropped => none

def dropActiveRun (i : Nat) (o : Owner) (a : Nat) : Option Teardown :=
  if o.reporter = .dropped ∧ a ∈ o.activeRuns then
    let s' := s.setOwner i { o with activeRuns := o.activeRuns.erase a }
    some (if s'.refers a then s' else s'.dropGuard a)
  else none

/-- A handle logs while it is there and its run's admission is open. -/
def log (i a : Nat) (o : Owner) (metricKey : MetricKey) (step : Int) (valueF64 : F64) : Option Teardown :=
  if i ≠ 0 ∧ o.reporter = .held ∧ a ∈ o.activeRuns ∧ (s.active a).admission = .opened then
    (s.reporter.step (.report (s.active a).runId metricKey step valueF64)).map fun r =>
      { s with reporter := r, caller := if r.call.isSome then some i else none }
  else none

def step : TeardownAct → Option Teardown
  | .log i a metricKey step valueF64 => s.owners[i]?.bind fun o => s.log i a o metricKey step valueF64
  | .call now => (s.reporter.step (.call now)).map fun r =>
      { s with reporter := r, caller := if r.call.isSome then s.caller else none }
  | .work act => (s.reporter.step (.work act)).map fun r => { s with reporter := r }
  | .dropReporter i =>
    -- a handle is not dropped while a call borrows it
    if s.caller = some i then none else s.owners[i]?.bind fun o => s.dropReporter i o
  | .dropActiveRun i a => s.owners[i]?.bind fun o => s.dropActiveRun i o a

/-- The active run whose lock the step releases. -/
def unlocks : TeardownAct → Option Nat
  | .dropActiveRun i a =>
    if (s.active a).writerGuard && (s.step (.dropActiveRun i a)).any fun t => !(t.active a).writerGuard then some a
    else none
  | _ => none

end Teardown

end Pulseon
