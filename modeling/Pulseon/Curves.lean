import Pulseon.Alignment
import Pulseon.Brush
import Pulseon.Ranking

/-!
# Curves

The series of the chart core and `query_curves` of the viewer, which reads the
selected runs' aligned evidence, builds a series where it is drawable and takes
the range of its points. `accepts` is as in the metric queries.
-/

namespace Pulseon

/-! ## Series -/

structure SeriesId where
  value : String
  named : blank value = false
deriving DecidableEq

def SeriesId.new (value : String) : Except ChartError SeriesId :=
  if named : blank value = false then .ok ⟨value, named⟩ else .error .emptySeriesId

structure DataPoint (K : Type) where
  x : K
  y : K
deriving DecidableEq, Repr

section
variable {K : Type} [Coordinate K]

open Coordinate

/-- The loop of `Series::new` from an index on, with the point before it. -/
def checkPoints (index : Nat) (previous : Option (DataPoint K)) : List (DataPoint K) → Except ChartError Unit
  | [] => .ok ()
  | point :: rest =>
    if !isFinite point.x || !isFinite point.y then .error (.invalidPoint index)
    else if previous.any fun p => lt point.x p.x then .error (.unsortedSeries index)
    else checkPoints (index + 1) (some point) rest

structure Series (K : Type) [Coordinate K] where
  id : SeriesId
  points : List (DataPoint K)
  accepted : checkPoints 0 none points = .ok ()

def Series.new (id : SeriesId) (points : List (DataPoint K)) : Except ChartError (Series K) :=
  match accepted : checkPoints 0 none points with
  | .ok () => .ok ⟨id, points, accepted⟩
  | .error error => .error error

end

/-! ## Requests -/

inductive AlignmentQueryError
  | invalidViewport | invalidScreenBudget
deriving DecidableEq, Repr

def AlignmentViewport.new (start stop : Int) : Except AlignmentQueryError AlignmentViewport :=
  if ordered : start ≤ stop then .ok ⟨start, stop, ordered⟩ else .error .invalidViewport

def AlignmentReduction.newScreenBudget (pixelWidth : UInt32) (pointsPerPixel : UInt16) :
    Except AlignmentQueryError AlignmentReduction :=
  if positive : 0 < pixelWidth ∧ 0 < pointsPerPixel then .ok (.screenBudget ⟨pixelWidth, pointsPerPixel, positive⟩)
  else .error .invalidScreenBudget

structure CurveSelection where
  runIds : List RunId
  metricKey : MetricKey
  axis : AlignmentAxis
deriving DecidableEq, Repr

structure OverviewRequest where
  selection : CurveSelection
  physicalWidth : UInt32

structure DetailRequest where
  selection : CurveSelection
  viewport : AlignmentViewport
  physicalWidth : UInt32

structure CurveSeriesSnapshot where
  run : Run
  evidence : AlignedMetricResult
  chartSeries : Option (Series F64)

structure CurveSnapshot where
  viewport : AlignmentViewport
  pointBudget : UInt32
  realRange : Option AlignmentViewport
  series : List CurveSeriesSnapshot

inductive QueryError
  | alignment (error : AlignmentQueryError)
  | chart (error : ChartError)
  | core (error : EngineError)
  | storage (error : StorageError)
deriving DecidableEq, Repr

def overviewBudget (physicalWidth : UInt32) : UInt32 := max 500 (min physicalWidth 2000)

/-- `saturating_mul(2)`, in the range from 2000 to 10000. -/
def detailBudget (physicalWidth : UInt32) : UInt32 :=
  if physicalWidth.toNat * 2 < 10000 then max 2000 (physicalWidth * 2) else 10000

/-! ## brushable_range -/

def i64Max : Int := 0x7fffffffffffffff

/-- The bounds that `brushable_range` hands to `AlignmentViewport::new`. -/
def widenedBounds (start stop : Int) : Int × Int :=
  let renderedStart := F64.ofInt start
  if ((F64.ofInt stop).sub renderedStart).lt F64.one then
    if stop < i64Max ∧ F64.one.le ((F64.ofInt (stop + 1)).sub renderedStart) = true then (start, stop + 1)
    else
      let next := renderedStart.nextUp.toI64
      if stop < next then (start, next) else ((F64.ofInt stop).nextDown.toI64, stop)
  else (start, stop)

def brushableRange (bounds : Int × Int) : Except AlignmentQueryError AlignmentViewport :=
  let widened := widenedBounds bounds.1 bounds.2
  AlignmentViewport.new widened.1 widened.2

/-! ## query_curves -/

def EvidenceCompleteness.drawable : EvidenceCompleteness → Bool
  | .complete | .qualified => true
  | .unavailable | .invalid => false

def chartPoint (point : AlignedMetricPoint) : DataPoint F64 := ⟨F64.ofInt point.axisValue, point.point.valueF64⟩

def chartSeries (run : Run) (evidence : AlignedMetricResult) : Except ChartError (Series F64) := do
  let id ← SeriesId.new run.runId
  Series.new id (evidence.points.map chartPoint)

def extendBounds (bounds : Option (Int × Int)) (axisValue : Int) : Option (Int × Int) :=
  match bounds with
  | some (start, stop) => some (min start axisValue, max stop axisValue)
  | none => some (axisValue, axisValue)

def AlignmentViewport.holds (v : AlignmentViewport) (axisValue : Int) : Bool :=
  decide (v.start ≤ axisValue) && decide (axisValue ≤ v.stop)

/-- The bounds after a run's points. -/
def evidenceBounds (viewport : AlignmentViewport) (bounds : Option (Int × Int)) (evidence : AlignedMetricResult) :
    Option (Int × Int) :=
  if evidence.completeness.drawable then
    ((evidence.points.map AlignedMetricPoint.axisValue).filter viewport.holds).foldl extendBounds bounds
  else bounds

def attempt {ε α : Type} (wrap : ε → QueryError) (result : Except ε α) : Except QueryError α := result.mapError wrap

section
variable (accepts : Int → Bool) (store : Store)

def curveQuery (selection : CurveSelection) (viewport : AlignmentViewport) (reduction : AlignmentReduction)
    (run : Run) : AlignmentQuery :=
  ⟨run.runId, selection.metricKey, selection.axis, viewport, reduction⟩

def runEvidence (selection : CurveSelection) (viewport : AlignmentViewport) (reduction : AlignmentReduction)
    (run : Run) : Except EngineError AlignedMetricResult :=
  alignedEvidence accepts (.project store.runs store.points)
    (curveQuery selection viewport reduction run) run.status

def curveSeries (selection : CurveSelection) (viewport : AlignmentViewport) (reduction : AlignmentReduction)
    (run : Run) : Except QueryError CurveSeriesSnapshot := do
  let evidence ← attempt .core (runEvidence accepts store selection viewport reduction run)
  let chartSeries ← if evidence.completeness.drawable then (attempt .chart (chartSeries run evidence)).map some
    else .ok none
  return ⟨run, evidence, chartSeries⟩

/-- The loop over the runs, with the bounds and the series so far. -/
def curvesOf (selection : CurveSelection) (viewport : AlignmentViewport) (reduction : AlignmentReduction) :
    List Run → Option (Int × Int) → List CurveSeriesSnapshot →
      Except QueryError (Option (Int × Int) × List CurveSeriesSnapshot)
  | [], bounds, series => .ok (bounds, series)
  | run :: rest, bounds, series => do
    let snapshot ← curveSeries accepts store selection viewport reduction run
    curvesOf selection viewport reduction rest (evidenceBounds viewport bounds snapshot.evidence)
      (series ++ [snapshot])

def realRangeOf : Option (Int × Int) → Except QueryError (Option AlignmentViewport)
  | none => .ok none
  | some bounds => (attempt .alignment (brushableRange bounds)).map some

def queryCurves (selection : CurveSelection) (viewport : AlignmentViewport) (pointBudget : UInt32) :
    Except QueryError CurveSnapshot := do
  let runs ← attempt .storage (store.getRuns selection.runIds)
  let reduction ← attempt .alignment (AlignmentReduction.newScreenBudget pointBudget 1)
  let (realBounds, series) ← curvesOf accepts store selection viewport reduction runs none []
  let realRange ← realRangeOf realBounds
  return ⟨viewport, pointBudget, realRange, series⟩

def queryOverview (request : OverviewRequest) : Except QueryError CurveSnapshot := do
  let viewport ← attempt .alignment (AlignmentViewport.new 0 i64Max)
  queryCurves accepts store request.selection viewport (overviewBudget request.physicalWidth)

def queryDetail (request : DetailRequest) : Except QueryError CurveSnapshot :=
  queryCurves accepts store request.selection request.viewport (detailBudget request.physicalWidth)

end

end Pulseon
