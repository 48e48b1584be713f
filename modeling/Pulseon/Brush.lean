import Pulseon.DoubleArith

/-!
# Axis ranges and the brush

`AxisRange` and `BrushState` of the chart core, over any coordinates that have
the operations of `f64` they use. `clamp` panics when its bounds are out of
order; a panic is `none`.
-/

namespace Pulseon

inductive ChartError
  | emptySeriesId
  | invalidPoint (index : Nat)
  | unsortedSeries (index : Nat)
  | invalidRange
  | invalidOutputRange
  | invalidCanvasSize
  | invalidBrushRange
  | invalidTransform
deriving DecidableEq, Repr

class Coordinate (K : Type) where
  isFinite : K → Bool
  lt : K → K → Bool
  le : K → K → Bool
  one : K
  add : K → K → K
  sub : K → K → K
  nextUp : K → K
  nextDown : K → K

instance : Coordinate F64 where
  isFinite := F64.isFinite
  lt := F64.lt
  le := F64.le
  one := F64.one
  add := F64.add
  sub := F64.sub
  nextUp := F64.nextUp
  nextDown := F64.nextDown

/-- The operations that scales, pans and zooms use besides. -/
class Scalar (K : Type) extends Coordinate K where
  zero : K
  mul : K → K → K
  div : K → K → K
  isSignNegative : K → Bool

instance : Scalar F64 where
  zero := F64.ofMagnitude false 0
  mul := F64.mul
  div := F64.div
  isSignNegative x := x.bits.msb

variable {K : Type} [Coordinate K]

open Coordinate Scalar

/-- `==` -/
def same (x y : K) : Bool := le x y && le y x

/-- `min`: the other argument, when one is not a number. -/
def minimum (x y : K) : K := if !le x x then y else if lt y x then y else x

def maximum (x y : K) : K := if !le x x then y else if lt x y then y else x

def clamp (x lower upper : K) : Option K :=
  if le lower upper then some (if lt x lower then lower else if lt upper x then upper else x) else none

/-! ## AxisRange -/

/-- The check of `AxisRange::new`. -/
def rangeAccepted (start stop : K) : Bool :=
  isFinite start && isFinite stop && !le stop start && isFinite (sub stop start)

structure AxisRange (K : Type) [Coordinate K] where
  start : K
  stop : K
  accepted : rangeAccepted start stop = true

def AxisRange.new (start stop : K) : Except ChartError (AxisRange K) :=
  if accepted : rangeAccepted start stop = true then .ok ⟨start, stop, accepted⟩ else .error .invalidRange

def AxisRange.span (r : AxisRange K) : K := sub r.stop r.start

/-! ## BrushState -/

def minBrushSpan : K := one

def maximumStartForMinimumSpan (stop : K) : K :=
  let start := sub stop minBrushSpan
  if le minBrushSpan (sub stop start) then start else nextDown stop

def minimumEndForMinimumSpan (start : K) : K :=
  let stop := add start minBrushSpan
  if le minBrushSpan (sub stop start) then stop else nextUp start

structure BrushState (K : Type) [Coordinate K] where
  home : AxisRange K
  selected : AxisRange K

namespace BrushState

def new (home : AxisRange K) : Except ChartError (BrushState K) :=
  if lt home.span minBrushSpan then .error .invalidBrushRange else .ok ⟨home, home⟩

def resizeStart (b : BrushState K) (position : K) : Option (Except ChartError (BrushState K)) :=
  if !isFinite position then some (.error .invalidTransform)
  else (clamp position b.home.start (maximumStartForMinimumSpan b.selected.stop)).map fun start =>
    (AxisRange.new start b.selected.stop).map fun selected => { b with selected }

def resizeEnd (b : BrushState K) (position : K) : Option (Except ChartError (BrushState K)) :=
  if !isFinite position then some (.error .invalidTransform)
  else (clamp position (minimumEndForMinimumSpan b.selected.start) b.home.stop).map fun stop =>
    (AxisRange.new b.selected.start stop).map fun selected => { b with selected }

def reset (b : BrushState K) : BrushState K := { b with selected := b.home }

section
variable {K : Type} [Scalar K]

/-- The ends after a pan, with the least span kept on the side the brush comes from. -/
def pannedEnds (b : BrushState K) (delta : K) : K × K :=
  let start := add b.selected.start delta
  let stop := add b.selected.stop delta
  if lt (sub stop start) minBrushSpan then
    if isSignNegative delta then (start, minimum (minimumEndForMinimumSpan start) b.home.stop)
    else (maximum (maximumStartForMinimumSpan stop) b.home.start, stop)
  else (start, stop)

def panBy (b : BrushState K) (delta : K) : Option (Except ChartError (BrushState K)) :=
  if !isFinite delta then some (.error .invalidTransform)
  else (clamp delta (sub b.home.start b.selected.start) (sub b.home.stop b.selected.stop)).map fun delta =>
    (AxisRange.new (b.pannedEnds delta).1 (b.pannedEnds delta).2).map fun selected => { b with selected }

def zoomAt (b : BrushState K) (anchor factor : K) : Option (Except ChartError (BrushState K)) :=
  if !isFinite anchor || !isFinite factor || le factor zero || lt anchor b.selected.start ||
      lt b.selected.stop anchor then some (.error .invalidTransform)
  else if same factor one then some (.ok b)
  else (clamp (div b.selected.span factor) minBrushSpan b.home.span).bind fun span =>
    if same span b.home.span then some (.ok { b with selected := b.home })
    else
      let anchorRatio := div (sub anchor b.selected.start) b.selected.span
      let latestStart := minimum (sub b.home.stop span) (maximumStartForMinimumSpan b.home.stop)
      (clamp (sub anchor (mul anchorRatio span)) b.home.start latestStart).map fun start =>
        let stop := minimum (maximum (add start span) (minimumEndForMinimumSpan start)) b.home.stop
        (AxisRange.new start stop).map fun selected => { b with selected }

end

end BrushState

/-! ## Gestures -/

inductive Gesture (K : Type)
  | resizeStart (position : K)
  | resizeEnd (position : K)
  | panBy (delta : K)
  | zoomAt (anchor factor : K)
  | reset

/-- A gesture's result and the brush after it; a call that returns an error has not assigned `selected`. -/
def BrushState.gesture {K : Type} [Scalar K] (b : BrushState K) (g : Gesture K) :
    Option (Except ChartError Unit × BrushState K) :=
  let outcome := match g with
    | .resizeStart position => b.resizeStart position
    | .resizeEnd position => b.resizeEnd position
    | .panBy delta => b.panBy delta
    | .zoomAt anchor factor => b.zoomAt anchor factor
    | .reset => some (.ok b.reset)
  outcome.map fun
    | .ok b' => (.ok (), b')
    | .error e => (.error e, b)

end Pulseon
