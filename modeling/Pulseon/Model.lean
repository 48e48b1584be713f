import Mathlib.Tactic.Common
import Mathlib.Data.List.Basic
import Mathlib.Algebra.Group.Nat.Defs
import Mathlib.Algebra.Group.Int.Defs

/-!
# Model types

Identifiers, the stored records and the errors of the storage and the engine.
Timestamps are milliseconds since the epoch: `chrono` keeps them some three
orders of magnitude below the bounds of an `i64`, so they are unbounded integers
here.
-/

namespace Pulseon

abbrev RunId := String
abbrev ProjectId := String
abbrev MetricKey := String

/-- An IEEE double by its bits. -/
structure F64 where
  bits : BitVec 64
deriving DecidableEq, Repr

namespace F64

def magnitude (x : F64) : Nat := x.bits.toNat % 2 ^ 63

def isNan (x : F64) : Bool := decide (0x7ff0000000000000 < x.magnitude)

/-- DuckDB's order on doubles: by value, the two zeros equal, every NaN equal
and above all numbers. -/
def key (x : F64) : Int :=
  if x.isNan then 2 ^ 63 else if x.bits.msb then -(x.magnitude : Int) else x.magnitude

end F64

inductive RunStatus
  | running | finished | failed
deriving DecidableEq, Repr

structure Run where
  runId : RunId
  projectId : ProjectId
  name : String
  status : RunStatus
  createdAt : Int
  startedAt : Int
  finishedAt : Option Int
deriving DecidableEq, Repr

structure Project where
  projectId : ProjectId
  name : String
  createdAt : Int
deriving DecidableEq, Repr

/-- The errors the modelled reads of the storage return. -/
inductive StorageError
  | invalidIdentity
  | invalidTimestamp (field : String) (millis : Int)
  | queryMaxPointsTooLarge (maxPoints : Nat)
  | lttbExtensionUnavailable (message : String)
  | runNotFound (runId : RunId)
deriving DecidableEq, Repr

/-- The errors the modelled calls return. `storageFailure` stands for a failing
statement or file operation. -/
inductive EngineError
  | projectAlreadyExists (projectId : ProjectId)
  | projectNotFound (projectId : ProjectId)
  | runAlreadyExists (runId : RunId)
  | runAlreadyActive (runId : RunId)
  | runNotFound (runId : RunId)
  | runClosed (runId : RunId)
  | invalidRunTransition (runId : RunId) (source target : String)
  | metricQueueFull
  | metricWriterFailed (message : String)
  | metricDrainTimeout
  | metricFlush (message : String)
  | metricFlushTimeout
  | clientClosed
  | storageFailure (operation : String)
  | storageLayer (message : String)
  | invalidTimestamp (field : String) (millis : Int)
  | metricQueryMaxPointsTooLarge (maxPoints : Nat)
  | duplicateRunIdentity (runId : RunId)
deriving DecidableEq, Repr

def EngineError.ofStorage : StorageError → EngineError
  | .runNotFound runId => .runNotFound runId
  | .queryMaxPointsTooLarge maxPoints => .metricQueryMaxPointsTooLarge maxPoints
  | .lttbExtensionUnavailable message => .storageFailure ("DuckDB LTTB extension is unavailable: " ++ message)
  | .invalidTimestamp field millis => .invalidTimestamp field millis
  | .invalidIdentity => .storageLayer "run id and metric key must not be empty"

def runStatusValue : RunStatus → String
  | .running => "running"
  | .finished => "finished"
  | .failed => "failed"

end Pulseon
