import Pulseon.Charting

/-!
# Scales and visible ranges

The inverse of a scale and the padded range of the values that are visible.
-/

namespace Pulseon

section
variable {K : Type} [Scalar K]

open Coordinate Scalar

def LinearScale.invert (s : LinearScale K) (value : K) : K :=
  let ratio := div (sub value s.outputStart) (sub s.outputEnd s.outputStart)
  add s.domain.start (mul ratio s.domain.span)

/-- The points in the closed range, between the two searches. -/
def Series.pointsIn (series : Series K) (xRange : AxisRange K) : List (DataPoint K) :=
  slice series.points (partitionPoint (fun point => lt point.x xRange.start) series.points)
    (partitionPoint (fun point => le point.x xRange.stop) series.points)

end

/-! ## Visible ranges -/

def F64.abs (x : F64) : F64 := .ofMagnitude false x.magnitude

def yRangePaddingFraction : F64 := ⟨0x3fa999999999999a⟩

def minConstantYPadding : F64 := ⟨0x3e112e0be826d695⟩

def extendYBounds (bounds : Option (F64 × F64)) (point : DataPoint F64) : Option (F64 × F64) :=
  match bounds with
  | some (least, greatest) => some (minimum least point.y, maximum greatest point.y)
  | none => some (point.y, point.y)

/-- The loop over the series. -/
def visibleYBounds (series : List (Series F64)) (xRange : AxisRange F64) : Option (F64 × F64) :=
  series.foldl (fun bounds series => (series.pointsIn xRange).foldl extendYBounds bounds) none

def yPadding (least greatest : F64) : F64 :=
  if least.eq greatest then maximum (least.abs.mul yRangePaddingFraction) minConstantYPadding
  else (greatest.sub least).mul yRangePaddingFraction

def paddedRange (least greatest : F64) : Except ChartError (AxisRange F64) :=
  let padding := yPadding least greatest
  let paddedLeast := least.sub padding
  let paddedGreatest := greatest.add padding
  AxisRange.new (if paddedLeast.lt least then paddedLeast else least.nextDown)
    (if greatest.lt paddedGreatest then paddedGreatest else greatest.nextUp)

def visibleYRangeFor (series : List (Series F64)) (xRange : AxisRange F64) :
    Except ChartError (Option (AxisRange F64)) :=
  match visibleYBounds series xRange with
  | none => .ok none
  | some bounds => (paddedRange bounds.1 bounds.2).map some

end Pulseon
