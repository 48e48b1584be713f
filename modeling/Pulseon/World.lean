import Pulseon.Reporter
import Pulseon.Aggregates
import Mathlib.Logic.Function.Basic

/-!
# Clients on one store

Any number of `NativeClient`s with any number of threads. A call takes one
step for each access to shared state: a statement, an access to the map of
active runs or to an admission gate, a lock file operation, an access to the
reporter. A `log_metric_at_step` call keeps the gate's mutex while it reports,
and the statements of `create_run` and of the aggregate rebuild keep the
connection's mutex between them. `terminated` is history.
-/

namespace Pulseon

inductive RunAdmission
  | opened | closing | terminal
deriving DecidableEq, Repr

/-- An `ActiveRun`, with the client and run it was created for. `gate` is the
log call that holds the admission mutex. -/
structure ActiveRun where
  client : Nat
  runId : RunId
  writerGuard : Bool
  admission : RunAdmission
  gate : Option Nat := none
deriving DecidableEq, Repr

/-- A `NativeRun`; `activeRun` is the index of its `ActiveRun`. -/
structure NativeRun where
  client : Nat
  runId : RunId
  activeRun : Nat
deriving DecidableEq, Repr

/-- The lock files, every `ActiveRun` made so far (the next one gets the index
`fresh`), the `active_runs` map of each client and the run handles. -/
structure Registry where
  locks : String → Option Nat := fun _ => none
  active : Nat → ActiveRun := fun _ => ⟨0, "", false, .terminal, none⟩
  fresh : Nat := 0
  activeRuns : Nat → RunId → Option Nat := fun _ _ => none
  handles : List NativeRun := []
  -- the runs that a client has marked terminal in memory
  terminated : List (Nat × RunId) := []

/-- The file `RunWriterGuard` locks, in the lock directory of the store. -/
def lockFile (runId : RunId) : String := percentEncodeMetricKey runId ++ ".lock"

namespace Registry
variable (g : Registry)

def setAdmission (a : Nat) (admission : RunAdmission) : Registry :=
  { g with active := Function.update g.active a { g.active a with admission := admission } }

def setGate (a : Nat) (gate : Option Nat) : Registry :=
  { g with active := Function.update g.active a { g.active a with gate := gate } }

def setActiveRun (c : Nat) (runId : RunId) (a : Option Nat) : Registry :=
  { g with activeRuns := Function.update g.activeRuns c (Function.update (g.activeRuns c) runId a) }

def addActive (run : ActiveRun) : Registry :=
  { g with active := Function.update g.active g.fresh run, fresh := g.fresh + 1 }

def setLock (runId : RunId) (a : Option Nat) : Registry :=
  { g with locks := Function.update g.locks (lockFile runId) a }

/-- `ActiveRun::release_lock`: the guard, if still there, is dropped and unlocks the file. -/
def releaseLock (a : Nat) : Registry :=
  if (g.active a).writerGuard then
    { g.setLock (g.active a).runId none with
      active := Function.update g.active a { g.active a with writerGuard := false } }
  else g

/-- A new active run with its lock, in the map of the client. -/
def register (c : Nat) (runId : RunId) : Registry :=
  ((g.setLock runId (some g.fresh)).addActive ⟨c, runId, true, .opened, none⟩).setActiveRun c runId
    (some g.fresh)

def acquireRunWriter (c : Nat) (runId : RunId) (fails : Bool) : Except EngineError (Registry × Nat) :=
  match g.activeRuns c runId with
  | some a => .ok (g, a)
  | none =>
    if fails then .error (.storageFailure "locking run lock file")
    else match g.locks (lockFile runId) with
      | some _ => .error (.runAlreadyActive runId)
      | none => .ok (g.register c runId, g.fresh)

def releaseRunWriter (c : Nat) (runId : RunId) : Registry :=
  match g.activeRuns c runId with
  | some a => (g.setActiveRun c runId none).releaseLock a
  | none => g

def registered (c a : Nat) : Bool :=
  (g.active a).client == c && g.activeRuns c (g.active a).runId == some a

/-- `release_all_run_writers`: the map is emptied and every active run in it loses its guard. -/
def releaseAllRunWriters (c : Nat) : Registry :=
  { g with
    locks := fun file => (g.locks file).filter fun a => !g.registered c a
    active := fun a => if g.registered c a then { g.active a with writerGuard := false } else g.active a
    activeRuns := Function.update g.activeRuns c fun _ => none }

def markTerminal (c : Nat) (runId : RunId) (a : Nat) : Registry :=
  { g.setAdmission a .terminal with terminated := (c, runId) :: g.terminated }

/-- `run_handle`: the active run of the map, or a closed one. -/
def runHandle (c : Nat) (runId : RunId) : Registry :=
  match g.activeRuns c runId with
  | some a => { g with handles := g.handles ++ [⟨c, runId, a⟩] }
  | none => { g.addActive ⟨c, runId, false, .terminal, none⟩ with
      handles := g.handles ++ [⟨c, runId, g.fresh⟩] }

end Registry

/-- The other fields of a `NativeClient`. `caller` is the log call inside
`report_metric`, which keeps the sender mutex, and `connection` the call that
keeps the connection mutex between two statements. -/
structure Client where
  reporter : Reporter
  caller : Option Nat := none
  connection : Option Nat := none
  isShutdown : Bool := false

/-! ## Calls -/

inductive CreateProjectPc
  | ensureWriteable
  | projectExists
  | readClock
  | insertProject (createdAt : Int)

inductive CreatePc
  | ensureWriteable
  | projectExists
  | getRun
  | acquire
  | runExists (a : Nat)
  | insertRun (a : Nat)
  | releaseWriter (a : Nat) (error : EngineError)
  | releaseLock (a : Nat) (error : EngineError)

inductive ResumePc
  | ensureWriteable
  | getRun
  | acquire (run : Run)

inductive FinalizePc
  | ensureWriteable
  | getRun
  | acquire
  | closeAdmission (a : Nat)
  | drain (a : Nat) (d : Drain)
  | deleteAggregates (a : Nat)
  | insertAggregates (a : Nat)
  | readClock (a : Nat)
  | markRun (a : Nat) (finishedAt : Int)
  | markTerminal (a : Nat)
  | releaseLock (a : Nat)
  | releaseWriter (a : Nat)
  | flushEnsureWriteable
  | flushGetRun
  | flush
  | getFinished
  | getRunAgain (a : Nat)
  | openAdmission (a : Nat) (error : EngineError)

inductive FlushPc
  | ensureWriteable
  | getRun
  | flush

inductive LogPc
  | enter
  | report

inductive ShutdownPc
  | reporter (d : Shutdown)
  | releaseAll (result : Except EngineError Unit)
  | store

abbrev TerminalStatus := { status : RunStatus // status ≠ .running }

/-- A call in one of its steps; `Ok` carries the run where the call returns one. -/
inductive Call
  | idle
  | createProject (client : Nat) (projectId : ProjectId) (name : String) (pc : CreateProjectPc)
  | createRun (client : Nat) (projectId : ProjectId) (name : String) (runId : RunId) (pc : CreatePc)
  | resumeRun (client : Nat) (runId : RunId) (pc : ResumePc)
  | finalizeRun (client : Nat) (runId : RunId) (target : TerminalStatus) (pc : FinalizePc)
  | flushRunData (client : Nat) (runId : RunId) (pc : FlushPc)
  | logMetricAtStep (run : NativeRun) (metricKey : MetricKey) (step : Int) (valueF64 : F64) (pc : LogPc)
  | shutdown (client : Nat) (pc : ShutdownPc)
  | returned (result : Except EngineError (Option Run))

structure World where
  projects : List Project := []
  runs : List Run := []
  points : List MetricPointRow := []
  aggregates : List MetricAggregate := []
  registry : Registry := {}
  clients : Nat → Client
  calls : Nat → Call := fun _ => .idle

/-- Clients opened on a store, before any call. -/
def World.init (projects : List Project) (runs : List Run) (capacity : Nat → Nat) : World where
  projects := projects
  runs := runs
  clients c := { reporter := { capacity := capacity c } }

/-- What a step meets: whether its statement or file operation fails, whether a
deadline has passed, the clock, and what the statement's plan chooses among
equal values. -/
structure Env where
  fails : Bool := false
  expired : Bool := false
  now : Int := 0
  ties : Ties := {}

/-- `SET status = ?, finished_at = ?` on a row of the run that is running. -/
def markRun (runId : RunId) (target : TerminalStatus) (finishedAt : Int) (run : Run) : Run :=
  if run.runId == runId && run.status == .running then
    { run with status := target.val, finishedAt := some finishedAt }
  else run

namespace World
variable (s : World)

def setCall (i : Nat) (call : Call) : World := { s with calls := Function.update s.calls i call }

def setRegistry (g : Registry) : World := { s with registry := g }

def setClient (c : Nat) (client : Client) : World :=
  { s with clients := Function.update s.clients c client }

def setReporter (c : Nat) (r : Reporter) : World := s.setClient c { s.clients c with reporter := r }

def setConnection (c : Nat) (holder : Option Nat) : World :=
  s.setClient c { s.clients c with connection := holder }

/-! ## Runs -/

def getRun (runId : RunId) (fails : Bool) : Except EngineError Run :=
  if fails then .error (.storageFailure "reading run")
  else match s.runs.find? fun run => run.runId == runId with
    | some run => .ok run
    | none => .error (.runNotFound runId)

/-- `UPDATE pulseon_runs .. WHERE run_id = ? AND status = 'running'`. -/
def markRunTerminal (runId : RunId) (target : TerminalStatus) (finishedAt : Int) : World :=
  { s with runs := s.runs.map (markRun runId target finishedAt) }

def runsRunning (runId : RunId) : Bool :=
  s.runs.any fun run => run.runId == runId && run.status == .running

/-! ## create_project -/

def returns (i : Nat) (result : Except EngineError (Option Run)) : World := s.setCall i (.returned result)

def projectExists (projectId : ProjectId) : Bool :=
  s.projects.any fun project => project.projectId == projectId

def createProjectStep (i c : Nat) (projectId : ProjectId) (name : String) (env : Env) :
    CreateProjectPc → Option World
  | .ensureWriteable =>
    if (s.clients c).isShutdown then some (s.returns i (.error .clientClosed))
    else some (s.setCall i (.createProject c projectId name .projectExists))
  | .projectExists =>
    if (s.clients c).connection.isSome then none
    else if env.fails then some (s.returns i (.error (.storageFailure "reading project")))
    else if s.projectExists projectId then some (s.returns i (.error (.projectAlreadyExists projectId)))
    else some (s.setCall i (.createProject c projectId name .readClock))
  | .readClock =>
    if env.fails then some (s.returns i (.error (.invalidTimestamp "created_at" env.now)))
    else some (s.setCall i (.createProject c projectId name (.insertProject env.now)))
  | .insertProject createdAt =>
    if (s.clients c).connection.isSome then none
    else if env.fails then some (s.returns i (.error (.storageFailure "inserting project")))
    else
      let project : Project := ⟨projectId, name, createdAt⟩
      some ({ s with projects := s.projects ++ [project] }.returns i (.ok none))

/-! ## create_run -/

def createRunStep (i c : Nat) (projectId : ProjectId) (name : String) (runId : RunId) (env : Env) :
    CreatePc → Option World
  | .ensureWriteable =>
    if (s.clients c).isShutdown then some (s.returns i (.error .clientClosed))
    else some (s.setCall i (.createRun c projectId name runId .projectExists))
  | .projectExists =>
    if (s.clients c).connection.isSome then none
    else if env.fails then some (s.returns i (.error (.storageFailure "reading project")))
    else if s.projectExists projectId then
      some (s.setCall i (.createRun c projectId name runId .getRun))
    else some (s.returns i (.error (.projectNotFound projectId)))
  | .getRun =>
    if (s.clients c).connection.isSome then none
    else match s.getRun runId env.fails with
      | .ok _ => some (s.returns i (.error (.runAlreadyExists runId)))
      | .error (.runNotFound _) => some (s.setCall i (.createRun c projectId name runId .acquire))
      | .error e => some (s.returns i (.error e))
  | .acquire =>
    match s.registry.acquireRunWriter c runId env.fails with
    | .ok (g, a) => some ((s.setRegistry g).setCall i (.createRun c projectId name runId (.runExists a)))
    | .error e => some (s.returns i (.error e))
  | .runExists a =>
    if (s.clients c).connection.isSome then none
    else if env.fails then
      some (s.setCall i (.createRun c projectId name runId (.releaseWriter a (.storageFailure "reading run"))))
    else if s.runs.any fun run => run.runId == runId then
      some (s.setCall i (.createRun c projectId name runId (.releaseWriter a (.runAlreadyExists runId))))
    else some ((s.setConnection c (some i)).setCall i (.createRun c projectId name runId (.insertRun a)))
  | .insertRun a =>
    let s' := s.setConnection c none
    if env.fails then
      some (s'.setCall i (.createRun c projectId name runId (.releaseWriter a (.storageFailure "inserting run"))))
    else
      let run : Run := ⟨runId, projectId, name, .running, env.now, env.now, none⟩
      some ({ s' with runs := s.runs ++ [run] }.returns i (.ok (some run)))
  | .releaseWriter a error =>
    some
      ((s.setRegistry (s.registry.releaseRunWriter c runId)).setCall i
        (.createRun c projectId name runId (.releaseLock a error)))
  | .releaseLock a error => some ((s.setRegistry (s.registry.releaseLock a)).returns i (.error error))

/-! ## resume_run -/

def resumeRunStep (i c : Nat) (runId : RunId) (env : Env) : ResumePc → Option World
  | .ensureWriteable =>
    if (s.clients c).isShutdown then some (s.returns i (.error .clientClosed))
    else some (s.setCall i (.resumeRun c runId .getRun))
  | .getRun =>
    if (s.clients c).connection.isSome then none
    else match s.getRun runId env.fails with
      | .ok run =>
        if run.status = .running then some (s.setCall i (.resumeRun c runId (.acquire run)))
        else some (s.returns i (.error (.invalidRunTransition runId (runStatusValue run.status)
          (runStatusValue .running))))
      | .error e => some (s.returns i (.error e))
  | .acquire run =>
    match s.registry.acquireRunWriter c runId env.fails with
    | .ok (g, _) => some ((s.setRegistry g).returns i (.ok (some run)))
    | .error e => some (s.returns i (.error e))

/-! ## finish_run and fail_run -/

def finalizeRunStep (i c : Nat) (runId : RunId) (target : TerminalStatus) (env : Env) :
    FinalizePc → Option World
  | .ensureWriteable =>
    if (s.clients c).isShutdown then some (s.returns i (.error .clientClosed))
    else some (s.setCall i (.finalizeRun c runId target .getRun))
  | .getRun =>
    if (s.clients c).connection.isSome then none
    else match s.getRun runId env.fails with
      | .ok run =>
        if run.status = .running then some (s.setCall i (.finalizeRun c runId target .acquire))
        else some (s.returns i (.error (.invalidRunTransition runId (runStatusValue run.status)
          (runStatusValue target.val))))
      | .error e => some (s.returns i (.error e))
  | .acquire =>
    match s.registry.acquireRunWriter c runId env.fails with
    | .ok (g, a) => some ((s.setRegistry g).setCall i (.finalizeRun c runId target (.closeAdmission a)))
    | .error e => some (s.returns i (.error e))
  | .closeAdmission a =>
    if (s.registry.active a).gate.isSome then none
    else some ((s.setRegistry (s.registry.setAdmission a .closing)).setCall i
      (.finalizeRun c runId target (.drain a .idle)))
  | .drain a d =>
    match d with
    | .done _ _ (.ok ()) => some (s.setCall i (.finalizeRun c runId target (.deleteAggregates a)))
    | .done _ _ (.error e) => some (s.setCall i (.finalizeRun c runId target (.openAdmission a e)))
    | d => (d.step (s.clients c).reporter env.expired).map fun d' =>
        s.setCall i (.finalizeRun c runId target (.drain a d'))
  | .deleteAggregates a =>
    if (s.clients c).connection.isSome then none
    else if env.fails then
      some (s.setCall i (.finalizeRun c runId target
        (.openAdmission a (.storageFailure "deleting aggregates"))))
    else some (({ s with aggregates := s.aggregates.filter fun row => row.runId != runId }.setConnection c
      (some i)).setCall i (.finalizeRun c runId target (.insertAggregates a)))
  | .insertAggregates a =>
    let s' := s.setConnection c none
    if env.fails then
      some (s'.setCall i (.finalizeRun c runId target
        (.openAdmission a (.storageFailure "inserting aggregates"))))
    else
      some ({ s' with aggregates := s.aggregates ++ rebuiltAggregates env.ties s.points runId }.setCall i
        (.finalizeRun c runId target (.readClock a)))
  | .readClock a =>
    if env.fails then some (s.returns i (.error (.invalidTimestamp "finished_at" env.now)))
    else some (s.setCall i (.finalizeRun c runId target (.markRun a env.now)))
  | .markRun a finishedAt =>
    if (s.clients c).connection.isSome then none
    else if env.fails then some (s.returns i (.error (.storageFailure "updating run")))
    else if s.runsRunning runId then
      some ((s.markRunTerminal runId target finishedAt).setCall i
        (.finalizeRun c runId target (.markTerminal a)))
    else some (s.setCall i (.finalizeRun c runId target (.getRunAgain a)))
  | .markTerminal a =>
    if (s.registry.active a).gate.isSome then none
    else some ((s.setRegistry (s.registry.markTerminal c runId a)).setCall i
      (.finalizeRun c runId target (.releaseLock a)))
  | .releaseLock a =>
    some ((s.setRegistry (s.registry.releaseLock a)).setCall i (.finalizeRun c runId target (.releaseWriter a)))
  | .releaseWriter _ =>
    some ((s.setRegistry (s.registry.releaseRunWriter c runId)).setCall i
      (.finalizeRun c runId target .flushEnsureWriteable))
  | .flushEnsureWriteable =>
    if (s.clients c).isShutdown then some (s.returns i (.error .clientClosed))
    else some (s.setCall i (.finalizeRun c runId target .flushGetRun))
  | .flushGetRun =>
    if (s.clients c).connection.isSome then none
    else match s.getRun runId env.fails with
      | .ok run =>
        if run.status = .running then
          some (s.returns i (.error (.invalidRunTransition runId (runStatusValue run.status) "flushed")))
        else some (s.setCall i (.finalizeRun c runId target .flush))
      | .error e => some (s.returns i (.error e))
  | .flush =>
    if (s.clients c).connection.isSome then none
    else if env.fails then some (s.returns i (.error (.metricFlush "flush metric_points failed")))
    else some (s.setCall i (.finalizeRun c runId target .getFinished))
  | .getFinished =>
    if (s.clients c).connection.isSome then none
    else some (s.returns i ((s.getRun runId env.fails).map some))
  | .getRunAgain a =>
    if (s.clients c).connection.isSome then none
    else match s.getRun runId env.fails with
      | .ok run => some (s.setCall i (.finalizeRun c runId target (.openAdmission a
          (.invalidRunTransition runId (runStatusValue run.status) (runStatusValue target.val)))))
      | .error e => some (s.returns i (.error e))
  | .openAdmission a error =>
    if (s.registry.active a).gate.isSome then none
    else some ((s.setRegistry (s.registry.setAdmission a .opened)).returns i (.error error))

/-! ## flush_run_data -/

def flushRunDataStep (i c : Nat) (runId : RunId) (env : Env) : FlushPc → Option World
  | .ensureWriteable =>
    if (s.clients c).isShutdown then some (s.returns i (.error .clientClosed))
    else some (s.setCall i (.flushRunData c runId .getRun))
  | .getRun =>
    if (s.clients c).connection.isSome then none
    else match s.getRun runId env.fails with
      | .ok run =>
        if run.status = .running then
          some (s.returns i (.error (.invalidRunTransition runId (runStatusValue run.status) "flushed")))
        else some (s.setCall i (.flushRunData c runId .flush))
      | .error e => some (s.returns i (.error e))
  | .flush =>
    if (s.clients c).connection.isSome then none
    else if env.expired then some (s.returns i (.error .metricFlushTimeout))
    else if env.fails then some (s.returns i (.error (.metricFlush "flush metric_points failed")))
    else some (s.returns i (.ok none))

/-! ## log_metric_at_step -/

/-- The report has returned: the mutexes of the sender and of the gate are free again. -/
def leaveGate (i : Nat) (run : NativeRun) (outcome : Option (Except EngineError Unit)) : World :=
  (s.setRegistry (s.registry.setGate run.activeRun none)).returns i
    (match outcome with
    | some (.error e) => .error e
    | _ => .ok none)

def logMetricAtStepStep (i : Nat) (run : NativeRun) (metricKey : MetricKey) (step : Int) (valueF64 : F64)
    (env : Env) : LogPc → Option World
  | .enter =>
    -- a call is made through a handle there is
    if run ∉ s.registry.handles || (s.registry.active run.activeRun).gate.isSome then none
    else match (s.registry.active run.activeRun).admission with
      | .opened => some ((s.setRegistry (s.registry.setGate run.activeRun (some i))).setCall i
          (.logMetricAtStep run metricKey step valueF64 .report))
      | _ => some (s.returns i (.error (.runClosed run.runId)))
  | .report =>
    let client := s.clients run.client
    match client.caller with
    | none =>
      (client.reporter.step (.report run.runId metricKey step valueF64)).map fun r =>
        if r.call.isSome then s.setClient run.client { client with reporter := r, caller := some i }
        else (s.setReporter run.client r).leaveGate i run r.outcome
    | some j =>
      if j = i then
        (client.reporter.step (.call env.now)).map fun r =>
          if r.call.isSome then s.setReporter run.client r
          else (s.setClient run.client { client with reporter := r, caller := none }).leaveGate i run r.outcome
      else none

/-! ## shutdown -/

def shutdownStep (i c : Nat) (env : Env) : ShutdownPc → Option World
  | .reporter (.done (.error .metricDrainTimeout)) => some (s.returns i (.error .metricDrainTimeout))
  | .reporter (.done result) => some (s.setCall i (.shutdown c (.releaseAll result)))
  | .reporter d =>
    (d.step (s.clients c).reporter env.expired).map fun x =>
      (s.setReporter c x.1).setCall i (.shutdown c (.reporter x.2))
  | .releaseAll result =>
    let s' := s.setRegistry (s.registry.releaseAllRunWriters c)
    match result with
    | .ok () => some (s'.setCall i (.shutdown c .store))
    | .error e => some (s'.returns i (.error e))
  | .store => some ((s.setClient c { s.clients c with isShutdown := true }).returns i (.ok none))

end World

/-! ## The worker -/

/-- The step is an attempt to write, for which the worker takes the connection. -/
def WorkerAct.attempts : WorkerAct → Bool
  | .write _ | .writeFail _ _ _ => true
  | _ => false

def World.workStep (s : World) (c : Nat) (act : WorkerAct) : Option World :=
  if act.attempts && (s.clients c).connection.isSome then none
  else ((s.clients c).reporter.step (.work act)).map fun r =>
    { s.setReporter c r with points := s.points ++ r.written.drop (s.clients c).reporter.written.length }

/-! ## Steps of the world -/

inductive Request
  | createProject (client : Nat) (projectId : ProjectId) (name : String)
  | createRun (client : Nat) (projectId : ProjectId) (name : String) (runId : RunId)
  | resumeRun (client : Nat) (runId : RunId)
  | finishRun (client : Nat) (runId : RunId)
  | failRun (client : Nat) (runId : RunId)
  | flushRunData (client : Nat) (runId : RunId)
  | logMetricAtStep (run : NativeRun) (metricKey : MetricKey) (step : Int) (valueF64 : F64)
  | shutdown (client : Nat)
deriving DecidableEq, Repr

def Request.call : Request → Call
  | .createProject client projectId name => .createProject client projectId name .ensureWriteable
  | .createRun client projectId name runId => .createRun client projectId name runId .ensureWriteable
  | .resumeRun client runId => .resumeRun client runId .ensureWriteable
  | .finishRun client runId => .finalizeRun client runId ⟨.finished, by decide⟩ .ensureWriteable
  | .failRun client runId => .finalizeRun client runId ⟨.failed, by decide⟩ .ensureWriteable
  | .flushRunData client runId => .flushRunData client runId .ensureWriteable
  | .logMetricAtStep run metricKey step valueF64 => .logMetricAtStep run metricKey step valueF64 .enter
  | .shutdown client => .shutdown client (.reporter (.drain .idle))

inductive WorldAct
  | start (i : Nat) (request : Request)
  | go (i : Nat) (env : Env)
  | runHandle (client : Nat) (runId : RunId)
  | work (client : Nat) (act : WorkerAct)

def Call.busy : Call → Bool
  | .idle => false
  | .returned _ => false
  | _ => true

namespace World

def callStep (s : World) (i : Nat) (env : Env) : Call → Option World
  | .createProject c projectId name pc => s.createProjectStep i c projectId name env pc
  | .createRun c projectId name runId pc => s.createRunStep i c projectId name runId env pc
  | .resumeRun c runId pc => s.resumeRunStep i c runId env pc
  | .finalizeRun c runId target pc => s.finalizeRunStep i c runId target env pc
  | .flushRunData c runId pc => s.flushRunDataStep i c runId env pc
  | .logMetricAtStep run metricKey step valueF64 pc =>
    s.logMetricAtStepStep i run metricKey step valueF64 env pc
  | .shutdown c pc => s.shutdownStep i c env pc
  | _ => none

def step (s : World) : WorldAct → Option World
  | .start i request =>
    if (s.calls i).busy then none else some (s.setCall i request.call)
  | .go i env => s.callStep i env (s.calls i)
  | .runHandle c runId => some (s.setRegistry (s.registry.runHandle c runId))
  | .work c act => s.workStep c act

end World

end Pulseon
