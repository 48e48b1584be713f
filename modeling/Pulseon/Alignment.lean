import Pulseon.Evidence
import Pulseon.Queries

/-!
# Aligned metric queries

`query_aligned_metric` in the storage crate, its two readers and the evidence
that core builds from its result. The axis reasons come from the whole series,
the points from a closed viewport and its nearest neighbours. A result without
points still has one row, with the counts.
-/

namespace Pulseon

inductive AlignmentAxis
  | step | elapsedTime
deriving DecidableEq, Repr

structure AlignmentViewport where
  start : Int
  stop : Int
  ordered : start ≤ stop

structure AlignmentScreenBudget where
  pixelWidth : UInt32
  pointsPerPixel : UInt16
  positive : 0 < pixelWidth ∧ 0 < pointsPerPixel

inductive AlignmentReduction
  | full
  | screenBudget (budget : AlignmentScreenBudget)

def AlignmentReduction.maxPoints : AlignmentReduction → Option Nat
  | .full => none
  | .screenBudget budget => some (screenPoints budget.pixelWidth budget.pointsPerPixel)

structure AlignmentQuery where
  runId : RunId
  metricKey : MetricKey
  axis : AlignmentAxis
  viewport : AlignmentViewport
  reduction : AlignmentReduction

structure AlignedMetricPoint where
  point : MetricPoint
  axisValue : Int
deriving DecidableEq, Repr

inductive AlignmentReason
  | missingRunStart | negativeAxis | decreasingAxis
deriving DecidableEq, Repr

structure AlignmentQueryResult where
  points : List AlignedMetricPoint
  sourceRowCount : Nat
  reasons : List AlignmentReason
deriving DecidableEq, Repr

def AlignmentQueryResult.downsampled (r : AlignmentQueryResult) : Bool :=
  decide (r.points.length < r.sourceRowCount)

/-! ## Statements -/

/-- `axis_expression`, with the run start that it is given. -/
inductive AxisExpression
  | step
  | elapsed (runStartMillis : Int)

def AxisExpression.value : AxisExpression → MetricPointRow → Int
  | .step, row => row.step
  | .elapsed runStartMillis, row => row.timestamp - runStartMillis

structure AlignedRow where
  row : MetricPointRow
  axisValue : Int
  previousAxisValue : Option Int

/-- `lag(axis_value)` over rows in step order. -/
def lagged (axis : AxisExpression) : Option Int → List MetricPointRow → List AlignedRow
  | _, [] => []
  | previous, row :: rows => ⟨row, axis.value row, previous⟩ :: lagged axis (some (axis.value row)) rows

def orderedRows (source : MetricSource) (axis : AxisExpression) (query : AlignmentQuery) : List AlignedRow :=
  lagged axis none (orderBy (fun row => row.step)
    (source.effective (effectiveClause query.runId query.metricKey none none)))

def AlignmentViewport.contains (v : AlignmentViewport) (r : AlignedRow) : Bool :=
  decide (v.start ≤ r.axisValue) && decide (r.axisValue ≤ v.stop)

def insideRows (v : AlignmentViewport) (rows : List AlignedRow) : List AlignedRow := rows.filter v.contains

/-- `QUALIFY row_number() OVER (ORDER BY axis_value DESC, step DESC) = 1` -/
def leftNeighbor (v : AlignmentViewport) (rows : List AlignedRow) : List AlignedRow :=
  firstRanked (fun _ => ()) (ordered fun r : AlignedRow => toLex (-r.axisValue, -r.row.step))
    (rows.filter fun r => decide (r.axisValue < v.start))

/-- `QUALIFY row_number() OVER (ORDER BY axis_value, step) = 1` -/
def rightNeighbor (v : AlignmentViewport) (rows : List AlignedRow) : List AlignedRow :=
  firstRanked (fun _ => ()) (ordered fun r : AlignedRow => toLex (r.axisValue, r.row.step))
    (rows.filter fun r => decide (v.stop < r.axisValue))

def visibleSource (v : AlignmentViewport) (rows : List AlignedRow) : List AlignedRow :=
  insideRows v rows ++ leftNeighbor v rows ++ rightNeighbor v rows

/-- The orders of `first_rank`, `last_rank`, `min_rank` and `max_rank`. -/
def insideOrders : List (AlignedRow → AlignedRow → Bool) :=
  [ordered fun r => toLex (r.axisValue, r.row.step), ordered fun r => toLex (-r.axisValue, -r.row.step),
    ordered fun r => toLex (r.row.valueF64.key, toLex (r.axisValue, r.row.step)),
    ordered fun r => toLex (-r.row.valueF64.key, toLex (r.axisValue, r.row.step))]

/-- The inside rows that are kept. All of them pass the windows, also when none is dropped. -/
def insideSelected (bucketCount maxPoints : Nat) (inside : List AlignedRow) : List AlignedRow :=
  inside.filter fun r => decide (inside.length ≤ maxPoints) ||
    insideOrders.any fun before => rowNumber (bucket (fun r => r.row.step) bucketCount inside) before inside r == 1

def AlignedRow.fromSortKey (r : AlignedRow) : AlignedRow := { r with row := r.row.fromSortKey }

/-- `selected`, given `bucket_count` and `max_points` when it is screen-reduced. -/
def selectedRows (v : AlignmentViewport) (screenLimits : Option (Nat × Nat)) (rows : List AlignedRow) :
    List AlignedRow :=
  match screenLimits with
  | none => visibleSource v rows
  | some (bucketCount, maxPoints) =>
    (insideSelected bucketCount maxPoints (insideRows v rows)).map AlignedRow.fromSortKey ++ leftNeighbor v rows ++
      rightNeighbor v rows

def hasNegativeAxis (rows : List AlignedRow) : Bool := rows.any fun r => decide (r.axisValue < 0)

def hasDecreasingAxis (rows : List AlignedRow) : Bool :=
  rows.any fun r => r.previousAxisValue.any fun previous => decide (r.axisValue < previous)

structure StoredAlignmentRow where
  point : Option AlignedRow
  sourceRowCount : Nat
  hasNegativeAxis : Bool
  hasDecreasingAxis : Bool

/-- `source_stats CROSS JOIN axis_stats LEFT JOIN selected ON true ORDER BY step` -/
def alignedPointsRows (v : AlignmentViewport) (screenLimits : Option (Nat × Nat)) (rows : List AlignedRow) :
    List StoredAlignmentRow :=
  let stored := fun point => StoredAlignmentRow.mk point (visibleSource v rows).length (hasNegativeAxis rows)
    (hasDecreasingAxis rows)
  match orderBy (fun r : AlignedRow => r.row.step) (selectedRows v screenLimits rows) with
  | [] => [stored none]
  | r :: rest => stored (some r) :: rest.map fun r => stored (some r)

/-! ## query_aligned_metric -/

section
variable (accepts : Int → Bool)

def intoAlignedMetricPoint (r : AlignedRow) : Except StorageError AlignedMetricPoint := do
  let timestamp ← timestampFromMillis accepts "timestamp" r.row.timestamp
  let ingestedAt ← timestampFromMillis accepts "ingested_at" r.row.ingestedAt
  return ⟨⟨r.row.runId, r.row.metricKey, r.row.step, timestamp, r.row.valueF64, ingestedAt⟩, r.axisValue⟩

structure AlignmentReading where
  points : List AlignedMetricPoint
  sourceRowCount : Nat
  hasNegativeAxis : Bool
  hasDecreasingAxis : Bool

def readAlignmentRows : List StoredAlignmentRow → AlignmentReading → Except StorageError AlignmentReading
  | [], reading => .ok reading
  | r :: rest, reading => do
    let points ← match r.point with
      | some point => do
        let point ← intoAlignedMetricPoint accepts point
        pure (reading.points ++ [point])
      | none => pure reading.points
    readAlignmentRows rest ⟨points, r.sourceRowCount, r.hasNegativeAxis, r.hasDecreasingAxis⟩

def AlignmentQuery.screenLimits (query : AlignmentQuery) : Option (Nat × Nat) :=
  query.reduction.maxPoints.map fun maxPoints => (max (maxPoints / extremaPerBucket) 1, maxPoints)

/-- The checks of `query_values` on what it binds. -/
def checkScreenLimits : Option (Nat × Nat) → Except StorageError Unit
  | none => .ok ()
  | some (bucketCount, maxPoints) =>
    if bucketCount < 2 ^ 63 then
      if maxPoints < 2 ^ 63 then .ok () else .error (.queryMaxPointsTooLarge maxPoints)
    else .error (.queryMaxPointsTooLarge (bucketCount * extremaPerBucket))

def validateAlignmentIdentity (query : AlignmentQuery) : Except StorageError Unit :=
  if blank query.runId || blank query.metricKey then .error .invalidIdentity else .ok ()

def axisReasons (reading : AlignmentReading) : List AlignmentReason :=
  (if reading.hasNegativeAxis then [.negativeAxis] else []) ++
    if reading.hasDecreasingAxis then [.decreasingAxis] else []

def queryAlignedMetric (source : MetricSource) (query : AlignmentQuery) (axis : AxisExpression) :
    Except StorageError AlignmentQueryResult := do
  validateAlignmentIdentity query
  checkScreenLimits query.screenLimits
  let rows := alignedPointsRows query.viewport query.screenLimits (orderedRows source axis query)
  let reading ← readAlignmentRows accepts rows ⟨[], 0, false, false⟩
  return ⟨reading.points, reading.sourceRowCount, axisReasons reading⟩

/-! ## Readers -/

/-- A reader's store: the project relation with its runs, or standalone files. -/
inductive MetricReader
  | project (runs : List Run) (points : List MetricPointRow)
  | parquet (files : ParquetFiles)

def MetricReader.source : MetricReader → MetricSource
  | .project _ points => .project points
  | .parquet files => .parquet files

/-- `run_start_millis` -/
def runStartMillis (runs : List Run) (runId : RunId) : Except StorageError Int :=
  match runs.find? fun run => run.runId == runId with
  | some run => .ok run.startedAt
  | none => .error (.runNotFound runId)

def MetricReader.queryAlignedMetric (reader : MetricReader) (query : AlignmentQuery) :
    Except StorageError AlignmentQueryResult := do
  validateAlignmentIdentity query
  match query.axis, reader with
  | .step, _ => Pulseon.queryAlignedMetric accepts reader.source query .step
  | .elapsedTime, .project runs _ => do
    let start ← runStartMillis runs query.runId
    Pulseon.queryAlignedMetric accepts reader.source query (.elapsed start)
  | .elapsedTime, .parquet _ => return ⟨[], 0, [.missingRunStart]⟩

end

/-! ## Evidence -/

structure AlignedMetricResult where
  points : List AlignedMetricPoint
  sourceRowCount : Nat
  completeness : EvidenceCompleteness
  reasons : List EvidenceReason
deriving DecidableEq, Repr

def AlignmentReason.evidence : AlignmentReason → EvidenceReason
  | .missingRunStart => .missingRunStart
  | .negativeAxis => .negativeAxis
  | .decreasingAxis => .decreasingAxis

def EvidenceReason.invalidates : EvidenceReason → Bool
  | .negativeAxis | .decreasingAxis | .nonFiniteValue => true
  | _ => false

def alignedMetricResult (result : AlignmentQueryResult) (runStatus : RunStatus) : AlignedMetricResult :=
  let hasNonFiniteValue := result.points.any fun p => !p.point.valueF64.isFinite
  let reasons := result.reasons.map AlignmentReason.evidence ++ if hasNonFiniteValue then [.nonFiniteValue] else []
  let (completeness, reasons) :=
    if reasons.any EvidenceReason.invalidates then (EvidenceCompleteness.invalid, reasons)
    else if reasons.contains .missingRunStart || result.points.isEmpty then
      (.unavailable, if reasons.isEmpty then [.missingMetric] else reasons)
    else (.complete, reasons)
  let (completeness, reasons) := qualifyLifecycle runStatus completeness reasons
  ⟨result.points, result.sourceRowCount, completeness, reasons⟩

/-- `NativeQueryStore::query_aligned_metric` -/
def alignedEvidence (accepts : Int → Bool) (reader : MetricReader) (query : AlignmentQuery)
    (runStatus : RunStatus) :
    Except EngineError AlignedMetricResult := do
  let result ← (reader.queryAlignedMetric accepts query).mapError .ofStorage
  return alignedMetricResult result runStatus

end Pulseon
