import Pulseon.Curves
import Pulseon.Searching

/-!
# Charts

The chart core over a series: the points that a viewport shows, their path on a
canvas, the cache of paths and the test which point is under the cursor, with the
renderer's hover that reads the evidence at the point found. `hypot` of the
standard library is a parameter, as its rounding is not specified.
-/

namespace Pulseon

structure ScreenPoint (K : Type) where
  x : K
  y : K
deriving DecidableEq, Repr

section
variable {K : Type} [Scalar K]

open Coordinate Scalar

structure Viewport (K : Type) [Coordinate K] where
  x : AxisRange K
  y : AxisRange K

/-- The check of `CanvasSize::new`. -/
def sizeAccepted (width height : K) : Bool := isFinite width && isFinite height && !le width zero && !le height zero

structure CanvasSize (K : Type) [Scalar K] where
  width : K
  height : K
  accepted : sizeAccepted width height = true

def CanvasSize.new (width height : K) : Except ChartError (CanvasSize K) :=
  if accepted : sizeAccepted width height = true then .ok ⟨width, height, accepted⟩ else .error .invalidCanvasSize

/-! ## Scales -/

/-- The check of `LinearScale::new`. -/
def outputAccepted (outputStart outputEnd : K) : Bool :=
  isFinite outputStart && isFinite outputEnd && !same outputStart outputEnd && isFinite (sub outputEnd outputStart)

structure LinearScale (K : Type) [Scalar K] where
  domain : AxisRange K
  outputStart : K
  outputEnd : K
  accepted : outputAccepted outputStart outputEnd = true

def LinearScale.new (domain : AxisRange K) (outputStart outputEnd : K) : Except ChartError (LinearScale K) :=
  if accepted : outputAccepted outputStart outputEnd = true then .ok ⟨domain, outputStart, outputEnd, accepted⟩
  else .error .invalidOutputRange

def LinearScale.map (s : LinearScale K) (value : K) : K :=
  let ratio := div (sub value s.domain.start) s.domain.span
  add s.outputStart (mul ratio (sub s.outputEnd s.outputStart))

/-! ## Paths -/

def Series.visiblePoints (series : Series K) (xRange : AxisRange K) : List (DataPoint K) :=
  let first := partitionPoint (fun point => lt point.x xRange.start) series.points
  let after := partitionPoint (fun point => le point.x xRange.stop) series.points
  if first = series.points.length ∨ after = 0 then []
  else slice series.points (first - 1) (min (after + 1) series.points.length)

def project (xScale yScale : LinearScale K) (point : DataPoint K) : ScreenPoint K :=
  ⟨xScale.map point.x, yScale.map point.y⟩

def buildPath (series : Series K) (viewport : Viewport K) (canvas : CanvasSize K) :
    Except ChartError (List (ScreenPoint K)) := do
  let visible := series.visiblePoints viewport.x
  let xScale ← LinearScale.new viewport.x zero canvas.width
  let yScale ← LinearScale.new viewport.y canvas.height zero
  return visible.map (project xScale yScale)

end

/-! ## The path cache -/

structure PathCacheKey where
  revision : UInt64
  viewportBits : (BitVec 64 × BitVec 64) × BitVec 64 × BitVec 64
  canvasBits : BitVec 64 × BitVec 64
deriving DecidableEq

def pathCacheKey (revision : UInt64) (viewport : Viewport F64) (canvas : CanvasSize F64) : PathCacheKey where
  revision := revision
  viewportBits := ((viewport.x.start.bits, viewport.x.stop.bits), viewport.y.start.bits, viewport.y.stop.bits)
  canvasBits := (canvas.width.bits, canvas.height.bits)

structure PathCache where
  entries : SeriesId → Option (PathCacheKey × List (ScreenPoint F64))

namespace PathCache

def empty : PathCache := ⟨fun _ => none⟩

def pathFor (cache : PathCache) (series : Series F64) (revision : UInt64) (viewport : Viewport F64)
    (canvas : CanvasSize F64) : Except ChartError (List (ScreenPoint F64)) × PathCache :=
  let key := pathCacheKey revision viewport canvas
  match (cache.entries series.id).filter fun entry => entry.1 = key with
  | some (_, path) => (.ok path, cache)
  | none =>
    match buildPath series viewport canvas with
    | .ok path => (.ok path, ⟨Function.update cache.entries series.id (some (key, path))⟩)
    | .error e => (.error e, cache)

def invalidateSeries (cache : PathCache) (seriesId : SeriesId) : PathCache :=
  ⟨Function.update cache.entries seriesId none⟩

def clear (_ : PathCache) : PathCache := empty

end PathCache

inductive CacheOp
  | pathFor (series : Series F64) (revision : UInt64) (viewport : Viewport F64) (canvas : CanvasSize F64)
  | invalidateSeries (seriesId : SeriesId)
  | clear

def PathCache.step (cache : PathCache) : CacheOp → Option PathCache
  | .pathFor series revision viewport canvas => some (cache.pathFor series revision viewport canvas).2
  | .invalidateSeries seriesId => some (cache.invalidateSeries seriesId)
  | .clear => some cache.clear

/-! ## Hit testing -/

section
variable (hypot : F64 → F64 → F64)

def distance (left right : ScreenPoint F64) : F64 := hypot (left.x.sub right.x) (left.y.sub right.y)

structure PointHit where
  pointIndex : Nat
  position : ScreenPoint F64
  distance : F64
deriving DecidableEq, Repr

def pointHit (xScale yScale : LinearScale F64) (cursor : ScreenPoint F64) (index : Nat)
    (point : DataPoint F64) : PointHit :=
  let position := project xScale yScale point
  ⟨index, position, distance hypot position cursor⟩

def compareHits (left right : PointHit) : Ordering :=
  (left.distance.totalCmp right.distance).then (compare left.pointIndex right.pointIndex)

def hitTestPoint (series : Series F64) (viewport : Viewport F64) (canvas : CanvasSize F64)
    (cursor : ScreenPoint F64) (radius : F64) : Except ChartError (Option PointHit) :=
  if !cursor.x.isFinite || !cursor.y.isFinite || !radius.isFinite || radius.lt Scalar.zero then .ok none
  else do
    let first := partitionPoint (fun point => point.x.lt viewport.x.start) series.points
    let after := partitionPoint (fun point => point.x.le viewport.x.stop) series.points
    let xScale ← LinearScale.new viewport.x Scalar.zero canvas.width
    let yScale ← LinearScale.new viewport.y canvas.height Scalar.zero
    let hits := (slice series.points first after).mapIdx fun offset point =>
      pointHit hypot xScale yScale cursor (first + offset) point
    return minBy compareHits (hits.filter fun hit => hit.distance.le radius)

/-! ## The renderer's hover -/

structure HoverPoint where
  runName : String
  metricKey : MetricKey
  axisValue : Int
  step : Int
  value : F64
deriving DecidableEq, Repr

def hoverPoint (run : Run) (aligned : AlignedMetricPoint) : HoverPoint :=
  ⟨run.name, aligned.point.metricKey, aligned.axisValue, aligned.point.step, aligned.point.valueF64⟩

/-- Eight pixels. -/
def hoverRadius : F64 := ⟨0x4020000000000000⟩

/-- The loop over the curves, with the nearest point so far; `none` leaves the function. -/
def nearestCurve (viewport : Viewport F64) (canvas : CanvasSize F64) (cursor : ScreenPoint F64) :
    List CurveSeriesSnapshot → Option (F64 × HoverPoint) → Option (Option (F64 × HoverPoint))
  | [], nearest => some nearest
  | curve :: rest, nearest =>
    match curve.chartSeries with
    | none => nearestCurve viewport canvas cursor rest nearest
    | some series =>
      match hitTestPoint hypot series viewport canvas cursor hoverRadius with
      | .error _ => none
      | .ok none => nearestCurve viewport canvas cursor rest nearest
      | .ok (some hit) =>
        if nearest.any fun n => n.1.le hit.distance then nearestCurve viewport canvas cursor rest nearest
        else do
          let aligned ← curve.evidence.points[hit.pointIndex]?
          nearestCurve viewport canvas cursor rest (some (hit.distance, hoverPoint curve.run aligned))

/-- `hit_test` in bounds of the width and height. -/
def hitTest (snapshot : CurveSnapshot) (viewport : Viewport F64) (width height : F64) (cursor : ScreenPoint F64) :
    Option HoverPoint := do
  let canvas ← (CanvasSize.new width height).toOption
  let nearest ← nearestCurve hypot viewport canvas cursor snapshot.series none
  return (← nearest).2

end

end Pulseon
