import Pulseon.Points
import Pulseon.Steps

/-!
# The asynchronous metric reporter

`report_metric`, the worker thread and `drain`, one access to shared state at a
time. `report_metric` keeps the sender mutex from its first line to its last, so
at most one call is under way and it is a field of the reporter; `drain` and
`shutdown` take that mutex only while no call is.

The fields of `Reporter` from `written` on are history. They are not in the
source: they record what the properties speak about and no step looks at them.
-/

namespace Pulseon

def metricBatchMaxReports : Nat := 8192

def writerMaxRetries : Nat := 5

structure MetricReport where
  runId : RunId
  metricKey : MetricKey
  step : Int
  valueF64 : F64
  timestampMillis : Int
  enqueueSequence : Nat
deriving DecidableEq, Repr

/-! ## Diagnostics -/

inductive WriterState
  | running | retrying | failed | closed
deriving DecidableEq, Repr

/-- `MetricReporterDiagnosticsInner`, without the flush fields. The pending
count is exact; that it never wraps below zero is a theorem. -/
structure Diagnostics where
  pendingReports : Int := 0
  queueFullErrors : Nat := 0
  persistedReports : Nat := 0
  writerState : WriterState := .running
  lastWriteError : Option String := none
  persistedThroughSequence : Nat := 0
deriving DecidableEq, Repr

namespace Diagnostics
variable (d : Diagnostics)

@[simp] def incrementAccepted : Diagnostics := { d with writerState := .running }

@[simp] def incrementQueueFull : Diagnostics := { d with queueFullErrors := d.queueFullErrors + 1 }

@[simp] def incrementPersistedBy (count : Nat) : Diagnostics :=
  { d with persistedReports := d.persistedReports + count }

@[simp] def setPersistedThroughSequence (sequence : Nat) : Diagnostics :=
  { d with persistedThroughSequence := max d.persistedThroughSequence sequence }

@[simp] def setWriterRunning : Diagnostics := { d with writerState := .running }

@[simp] def setWriterRetrying : Diagnostics := { d with writerState := .retrying }

@[simp] def setWriterFailed : Diagnostics := { d with writerState := .failed }

@[simp] def setWriterClosed : Diagnostics := { d with writerState := .closed }

@[simp] def setLastWriteError (message : String) : Diagnostics := { d with lastWriteError := some message }

@[simp] def incrementPending : Diagnostics := { d with pendingReports := d.pendingReports + 1 }

@[simp] def decrementPending : Diagnostics := { d with pendingReports := d.pendingReports - 1 }

@[simp] def decrementPendingBy (count : Nat) : Diagnostics :=
  { d with pendingReports := d.pendingReports - count }

def isWriterFailed : Bool := d.writerState == .failed

def writerFailedError : EngineError :=
  .metricWriterFailed (d.lastWriteError.getD "metric writer failed")

end Diagnostics

/-! ## The calls and the worker -/

/-- Where a `report_metric` call stands, from its failure check on. -/
inductive ReportPc
  | check
  | build
  | send (report : MetricReport)
  | advance (report : MetricReport)
  | accept (report : MetricReport)
  | undoFull
  | countFull
  | undoClosed
deriving DecidableEq, Repr

structure ReportCall where
  runId : RunId
  metricKey : MetricKey
  step : Int
  valueF64 : F64
  pc : ReportPc
deriving DecidableEq, Repr

/-- Where the worker thread stands. `next` is `next_ingested_at_millis`. -/
inductive Worker
  | start
  | recv (next : Int)
  | poll (next : Int) (batch : List MetricReport)
  | wait (next : Int) (batch : List MetricReport)
  | write (next : Int) (batch : List MetricReport) (retryCount : Nat)
  | noteError (next : Int) (batch : List MetricReport) (retryCount : Nat) (message : String)
  | setRetrying (next : Int) (batch : List MetricReport) (retryCount : Nat)
  | setRunning (next : Int) (batch : List MetricReport)
  | countPersisted (next : Int) (batch : List MetricReport)
  | setThrough (next : Int) (batch : List MetricReport)
  | settle (next : Int) (batch : List MetricReport)
  | giveUp (batch : List MetricReport) (message : String)
  | setFailed (batch : List MetricReport)
  | unwind (batch : List MetricReport)
  | latch
  | exited (failed : Bool)
deriving DecidableEq, Repr

/-- The worker is blocked in `recv` or `recv_timeout`. -/
def Worker.receiving : Worker → Bool
  | .recv _ => true
  | .wait _ _ => true
  | _ => false

structure Reporter where
  capacity : Nat
  sender : Bool := true
  receiver : Bool := true
  joinHandle : Bool := true
  call : Option ReportCall := none
  nextEnqueueSequence : Nat := 1
  channel : List MetricReport := []
  worker : Worker := .start
  diagnostics : Diagnostics := {}
  -- the rows this reporter's write attempts left in the table
  written : List MetricPointRow := []
  -- the reports that entered the channel, and those whose call returned `Ok`
  accepted : List MetricReport := []
  returned : List MetricReport := []
  -- the reports of acknowledged batches, and those a failed worker dropped
  acknowledged : List MetricReport := []
  lost : List MetricReport := []
  -- what the last `report_metric` call returned
  outcome : Option (Except EngineError Unit) := none

namespace Reporter
variable (s : Reporter)

/-- `try_send` finds room; a channel of capacity zero hands over to a worker
that is waiting for a report. -/
def hasRoom : Bool :=
  decide (s.channel.length < s.capacity) ||
    (s.capacity == 0 && s.channel.isEmpty && s.worker.receiving)

/-! ## report_metric -/

def setPc (c : ReportCall) (pc : ReportPc) : Reporter := { s with call := some { c with pc := pc } }

def returns (result : Except EngineError Unit) : Reporter :=
  { s with call := none, outcome := some result }

def buildReport (c : ReportCall) (now : Int) : MetricReport where
  runId := c.runId
  metricKey := c.metricKey
  step := c.step
  valueF64 := c.valueF64
  timestampMillis := now
  enqueueSequence := s.nextEnqueueSequence

def reportMetric (runId : RunId) (metricKey : MetricKey) (step : Int) (valueF64 : F64) :
    Option Reporter :=
  if s.call.isSome then none
  else if s.sender then some { s with call := some ⟨runId, metricKey, step, valueF64, .check⟩ }
  else some (s.returns (.error .clientClosed))

/-- The next access of the call under way; `now` is the clock it would read. -/
def callStep (c : ReportCall) (now : Int) : Reporter :=
  match c.pc with
  | .check =>
    if s.diagnostics.isWriterFailed then s.returns (.error s.diagnostics.writerFailedError)
    else s.setPc c .build
  | .build =>
    { s with diagnostics := s.diagnostics.incrementPending }.setPc c (.send (s.buildReport c now))
  | .send report =>
    if !s.receiver then s.setPc c .undoClosed
    else if s.hasRoom then
      { s with channel := s.channel ++ [report], accepted := s.accepted ++ [report] }.setPc c
        (.advance report)
    else s.setPc c .undoFull
  | .advance report =>
    { s with nextEnqueueSequence := s.nextEnqueueSequence + 1 }.setPc c (.accept report)
  | .accept report =>
    { s with
      diagnostics := s.diagnostics.incrementAccepted
      returned := s.returned ++ [report] }.returns (.ok ())
  | .undoFull => { s with diagnostics := s.diagnostics.decrementPending }.setPc c .countFull
  | .countFull =>
    { s with diagnostics := s.diagnostics.incrementQueueFull }.returns (.error .metricQueueFull)
  | .undoClosed =>
    { s with diagnostics := s.diagnostics.decrementPending }.returns (.error .clientClosed)

/-! ## The metric worker -/

end Reporter

/-- The rows of a batch, stamped one millisecond apart from `t` on, and the
next free stamp. -/
def stampBatch : List MetricReport → Int → List MetricWrite × Int
  | [], t => ([], t)
  | r :: rs, t =>
    let rest := stampBatch rs (t + 1)
    (⟨r.runId, r.metricKey, r.step, r.timestampMillis, r.valueF64, t⟩ :: rest.1, rest.2)

/-- The rows `write_metric_batch` hands to `append_metric_batch`, and its `Ok` value. -/
def writeMetricBatch (batch : List MetricReport) (next now : Int) : List MetricPointRow × Int :=
  let stamped := stampBatch batch (max next now)
  (stamped.1.map MetricWrite.row, stamped.2)

/-- What the next step of the worker meets: a clock reading, a timeout of
`recv_timeout`, an append that succeeds, or one that fails with a sanitised
message after `kept` rows of the batch reached the table. -/
inductive WorkerAct
  | go
  | timeout
  | readClock (now : Int)
  | write (now : Int)
  | writeFail (now : Int) (kept : Nat) (message : String)
deriving DecidableEq, Repr

namespace Reporter
variable (s : Reporter)

/-- `collect_metric_batch` takes one more report or ends the batch. -/
def collect (next : Int) (batch : List MetricReport) (onEmpty : Option Worker) : Option Reporter :=
  match s.channel with
  | report :: rest => some { s with channel := rest, worker := .poll next (batch ++ [report]) }
  | [] =>
    if s.sender then onEmpty.map fun w => { s with worker := w }
    else some { s with worker := .write next batch 0 }

def workerStep : WorkerAct → Option Reporter
  | .readClock now =>
    match s.worker with
    | .start => some { s with worker := .recv now }
    | _ => none
  | .timeout =>
    match s.worker with
    | .wait next batch => some { s with worker := .write next batch 0 }
    | _ => none
  | .write now =>
    match s.worker with
    | .write next batch _ =>
      let result := writeMetricBatch batch next now
      some { s with
        worker := .setRunning result.2 batch
        written := s.written ++ result.1
        acknowledged := s.acknowledged ++ batch }
    | _ => none
  | .writeFail now kept message =>
    match s.worker with
    | .write next batch retryCount =>
      some { s with
        worker := if retryCount < writerMaxRetries then .noteError next batch retryCount message
          else .giveUp batch message
        written := s.written ++ (writeMetricBatch batch next now).1.take kept }
    | _ => none
  | .go =>
    match s.worker with
    | .recv next =>
      match s.channel with
      | report :: rest => some { s with channel := rest, worker := .poll next [report] }
      | [] => if s.sender then none else some { s with worker := .exited false, receiver := false }
    | .poll next batch =>
      if batch.length < metricBatchMaxReports then s.collect next batch (some (.wait next batch))
      else some { s with worker := .write next batch 0 }
    | .wait next batch => s.collect next batch none
    | .noteError next batch retryCount message =>
      some { s with
        diagnostics := s.diagnostics.setLastWriteError message
        worker := .setRetrying next batch retryCount }
    | .setRetrying next batch retryCount =>
      some { s with
        diagnostics := s.diagnostics.setWriterRetrying
        worker := .write next batch (retryCount + 1) }
    | .setRunning next batch =>
      some { s with
        diagnostics := s.diagnostics.setWriterRunning
        worker := .countPersisted next batch }
    | .countPersisted next batch =>
      some { s with
        diagnostics := s.diagnostics.incrementPersistedBy batch.length
        worker := .setThrough next batch }
    | .setThrough next batch =>
      some { s with
        diagnostics := match batch.getLast? with
          | some report => s.diagnostics.setPersistedThroughSequence report.enqueueSequence
          | none => s.diagnostics
        worker := .settle next batch }
    | .settle next batch =>
      some { s with
        diagnostics := s.diagnostics.decrementPendingBy batch.length
        worker := .recv next }
    | .giveUp batch message =>
      some { s with
        diagnostics := s.diagnostics.setLastWriteError message
        worker := .setFailed batch }
    | .setFailed batch =>
      some { s with diagnostics := s.diagnostics.setWriterFailed, worker := .unwind batch }
    | .unwind batch =>
      -- returning the error drops the batch and the receiver with its reports
      some { s with worker := .latch, receiver := false, channel := [], lost := batch ++ s.channel }
    | .latch =>
      some { s with diagnostics := s.diagnostics.setWriterFailed, worker := .exited true }
    | _ => none

/-! ## Steps of the reporter -/

end Reporter

inductive ReporterAct
  | report (runId : RunId) (metricKey : MetricKey) (step : Int) (valueF64 : F64)
  | call (now : Int)
  | work (act : WorkerAct)
  | takeSender
  | takeWorker
  | setWriterClosed
deriving DecidableEq, Repr

namespace Reporter

def step (s : Reporter) : ReporterAct → Option Reporter
  | .report runId metricKey step valueF64 => s.reportMetric runId metricKey step valueF64
  | .call now => s.call.map fun c => s.callStep c now
  | .work act => s.workerStep act
  | .takeSender => if s.call.isSome then none else some { s with sender := false }
  | .takeWorker => some { s with joinHandle := false }
  | .setWriterClosed => some { s with diagnostics := s.diagnostics.setWriterClosed }

end Reporter

/-! ## drain -/

/-- Where a `drain` call stands. `seen` is history: what had returned `Ok` when
the call read its barrier. -/
inductive Drain
  | idle
  | load (barrier : Nat) (seen : List MetricReport)
  | check (barrier : Nat) (seen : List MetricReport)
  | deadline (barrier : Nat) (seen : List MetricReport)
  | final (barrier : Nat) (seen : List MetricReport)
  | done (barrier : Nat) (seen : List MetricReport) (result : Except EngineError Unit)

/-- The next access of a `drain` call; `expired` is what a deadline test finds. -/
def Drain.step (r : Reporter) (expired : Bool) : Drain → Option Drain
  | .idle => if r.call.isSome then none else some (.load (r.nextEnqueueSequence - 1) r.returned)
  | .load barrier seen =>
    if r.diagnostics.persistedThroughSequence < barrier then some (.check barrier seen)
    else some (.final barrier seen)
  | .check barrier seen =>
    if r.diagnostics.isWriterFailed then
      some (.done barrier seen (.error r.diagnostics.writerFailedError))
    else some (.deadline barrier seen)
  | .deadline barrier seen =>
    if expired then some (.done barrier seen (.error .metricDrainTimeout))
    else some (.load barrier seen)
  | .final barrier seen =>
    if r.diagnostics.isWriterFailed then
      some (.done barrier seen (.error r.diagnostics.writerFailedError))
    else some (.done barrier seen (.ok ()))
  | .done _ _ _ => none

/-- A reporter with any number of `drain` calls on it. -/
structure Draining where
  reporter : Reporter
  drains : Nat → Drain := fun _ => .idle

inductive DrainingAct
  | reporter (act : ReporterAct)
  | drain (i : Nat) (expired : Bool)
deriving DecidableEq, Repr

def Draining.step (s : Draining) : DrainingAct → Option Draining
  | .reporter act => (s.reporter.step act).map fun r => { s with reporter := r }
  | .drain i expired =>
    ((s.drains i).step s.reporter expired).map fun d =>
      { s with drains := fun j => if j = i then d else s.drains j }

/-! ## shutdown -/

/-- Where `MetricReporter::shutdown` stands: it drains, takes and drops the
sender, takes and joins the worker, and reports the drain's result. -/
inductive Shutdown
  | drain (d : Drain)
  | takeSender (result : Except EngineError Unit)
  | takeWorker (result : Except EngineError Unit)
  | join (result : Except EngineError Unit)
  | setClosed
  | done (result : Except EngineError Unit)

def Worker.hasExited : Worker → Bool
  | .exited _ => true
  | _ => false

/-- What follows the join. -/
def Shutdown.joined : Except EngineError Unit → Shutdown
  | .ok () => .setClosed
  | .error e => .done (.error e)

/-- The next access of the shutdown call: what it does to the reporter and
where it stands after. -/
def Shutdown.step (r : Reporter) (expired : Bool) : Shutdown → Option (Reporter × Shutdown)
  | .drain (.done _ _ (.error .metricDrainTimeout)) => some (r, .done (.error .metricDrainTimeout))
  | .drain (.done _ _ result) => some (r, .takeSender result)
  | .drain d => (d.step r expired).map fun d' => (r, .drain d')
  | .takeSender result => (r.step .takeSender).map fun r' => (r', .takeWorker result)
  | .takeWorker result =>
    if r.joinHandle then (r.step .takeWorker).map fun r' => (r', .join result)
    else some (r, Shutdown.joined result)
  | .join result => if r.worker.hasExited then some (r, Shutdown.joined result) else none
  | .setClosed => (r.step .setWriterClosed).map fun r' => (r', .done (.ok ()))
  | .done _ => none

/-- A reporter with one `shutdown` call on it. -/
structure Closing where
  reporter : Reporter
  shutdown : Shutdown := .drain .idle

inductive ClosingAct
  | report (runId : RunId) (metricKey : MetricKey) (step : Int) (valueF64 : F64)
  | call (now : Int)
  | work (act : WorkerAct)
  | shutdown (expired : Bool)
deriving DecidableEq, Repr

def Closing.step (s : Closing) : ClosingAct → Option Closing
  | .report runId metricKey step valueF64 =>
    (s.reporter.step (.report runId metricKey step valueF64)).map fun r => { s with reporter := r }
  | .call now => (s.reporter.step (.call now)).map fun r => { s with reporter := r }
  | .work act => (s.reporter.step (.work act)).map fun r => { s with reporter := r }
  | .shutdown expired =>
    (s.shutdown.step s.reporter expired).map fun x => { reporter := x.1, shutdown := x.2 }

end Pulseon
