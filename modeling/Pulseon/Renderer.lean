import Pulseon.Scales
import Pulseon.Singles

/-!
# The renderer

`ChartAdapter` turns a snapshot into the paths that are painted and positions of
the cursor into axis values. It keeps the projected points and the built paths
of each series until their key changes. What comes from outside, the path
builder and the rounding of library functions, is a `Platform`.
-/

namespace Pulseon

/-! ## Pixels -/

structure Position (P : Type) where
  x : P
  y : P
deriving DecidableEq, Repr

structure Bounds (P : Type) where
  originX : P
  originY : P
  width : P
  height : P
deriving DecidableEq, Repr

/-- The numbers that pixels are counted in, with the coordinates they widen to. -/
class Pixels (P : Type) (K : outParam Type) where
  add : P → P → P
  sub : P → P → P
  lt : P → P → Bool
  toCoordinate : P → K

instance : Pixels F32 F64 where
  add := F32.add
  sub := F32.sub
  lt := F32.lt
  toCoordinate := F32.toF64

structure Platform (Path : Type) where
  /-- A stroke through the positions, dashed for partial evidence; `none` is a failing build. -/
  buildStroke : Bool → List (Position F32) → Option Path
  hypot : F64 → F64 → F64
  exp : F32 → F32
  toLowercase : String → String

section
variable {P K : Type} [Scalar K] [Pixels P K]

open Coordinate Pixels

def Bounds.right (bounds : Bounds P) : P := add bounds.originX bounds.width

/-- The scale from a range to the horizontal extent of the bounds. -/
def Bounds.scale (bounds : Bounds P) (range : AxisRange K) : Option (LinearScale K) :=
  (LinearScale.new range (toCoordinate bounds.originX) (toCoordinate bounds.right)).toOption

def axisAt (bounds : Bounds P) (range : AxisRange K) (cursor : Position P) : Option K :=
  if lt cursor.x bounds.originX || lt bounds.right cursor.x then none
  else (bounds.scale range).map fun scale => scale.invert (toCoordinate cursor.x)

def panDelta (bounds : Bounds P) (range : AxisRange K) (previousX : K) (cursor : Position P) : Option K := do
  let current ← axisAt bounds range cursor
  let scale ← bounds.scale range
  return Coordinate.sub (scale.invert previousX) current

end

inductive BrushDragTarget
  | start | stop | window
deriving DecidableEq, Repr

/-- Eight pixels. -/
def handleRadius : F64 := ⟨0x4020000000000000⟩

def brushTargetAt (bounds : Bounds F32) (brush : BrushState F64) (cursor : Position F32) :
    Option BrushDragTarget := do
  let scale ← bounds.scale brush.home
  let x := cursor.x.toF64
  let start := scale.map brush.selected.start
  let stop := scale.map brush.selected.stop
  let startDistance := (x.sub start).abs
  let stopDistance := (x.sub stop).abs
  if startDistance.le handleRadius || stopDistance.le handleRadius then
    if startDistance.le stopDistance then some .start else some .stop
  else if start.lt x && x.lt stop then some .window
  else none

def physicalWidth (bounds : Option (Bounds F32)) (scaleFactor : F32) : Option UInt32 := do
  let width := (← bounds).width.mul scaleFactor
  if width.isFinite && F32.one.le width then some width.roundU32 else none

/-! ## Viewports -/

def CurveSnapshot.drawn (snapshot : CurveSnapshot) : List (Series F64) :=
  snapshot.series.filterMap CurveSeriesSnapshot.chartSeries

/-- A range that cannot be padded is not drawn. -/
def CurveSnapshot.drawnYRange (snapshot : CurveSnapshot) (range : AxisRange F64) : Option (AxisRange F64) :=
  (visibleYRangeFor snapshot.drawn range).toOption.join

def sameRange (left right : AxisRange F64) : Bool := left.start.eq right.start && left.stop.eq right.stop

def CurveSnapshot.detailViewport (snapshot : CurveSnapshot) (selected : Option (AxisRange F64)) : Option
    (Viewport F64) := do
  let snapshotX ← (AxisRange.new (F64.ofInt snapshot.viewport.start) (F64.ofInt snapshot.viewport.stop)).toOption
  let x := (selected.filter fun selected =>
    snapshotX.start.le selected.start && selected.stop.le snapshotX.stop).getD snapshotX
  let y ← (snapshot.drawnYRange x).or (if sameRange x snapshotX then none else snapshot.drawnYRange snapshotX)
  return ⟨x, y⟩

def CurveSnapshot.selectionCovered (snapshot : CurveSnapshot) (selected : AxisRange F64) : Bool :=
  (F64.ofInt snapshot.viewport.start).le selected.start && selected.stop.le (F64.ofInt snapshot.viewport.stop)

def CurveSnapshot.overviewViewport (snapshot : CurveSnapshot) (brush : BrushState F64) : Option (Viewport F64) :=
  (snapshot.drawnYRange brush.home).map fun y => ⟨brush.home, y⟩

/-! ## Painted paths -/

structure GpuiPathKey where
  revision : UInt64
  viewport : (BitVec 64 × BitVec 64) × BitVec 64 × BitVec 64
  bounds : (BitVec 32 × BitVec 32) × BitVec 32 × BitVec 32
  dark : Bool
  dashed : Bool
deriving DecidableEq

def gpuiPathKey (revision : UInt64) (viewport : Viewport F64) (bounds : Bounds F32) (dark dashed : Bool) :
    GpuiPathKey where
  revision := revision
  viewport := ((viewport.x.start.bits, viewport.x.stop.bits), viewport.y.start.bits, viewport.y.stop.bits)
  bounds := ((bounds.originX.bits, bounds.originY.bits), bounds.width.bits, bounds.height.bits)
  dark := dark
  dashed := dashed

def seriesColors : List UInt32 :=
  [0x2563eb, 0xdc2626, 0x059669, 0x7c3aed, 0xea580c, 0x0891b2, 0xdb2777, 0x65a30d, 0x4f46e5, 0x9333ea]

def seriesColor (index : Nat) : UInt32 := seriesColors.getD (index % seriesColors.length) 0

def placed (bounds : Bounds F32) (projected : ScreenPoint F64) : Position F32 :=
  ⟨bounds.originX.add (F32.ofF64 projected.x), bounds.originY.add (F32.ofF64 projected.y)⟩

/-- `Partial` evidence is dashed. -/
def CurveSeriesSnapshot.dashed (curve : CurveSeriesSnapshot) : Bool := curve.evidence.completeness == .qualified

/-- What one call of `prepare` paints with. -/
structure Frame where
  revision : UInt64
  viewport : Viewport F64
  bounds : Bounds F32
  canvas : CanvasSize F64
  dark : Bool

/-- The caches and the last bounds of one of the two charts. -/
structure ChartLayer (Path : Type) where
  projectionCache : PathCache := .empty
  gpuiPaths : String → Option (GpuiPathKey × Path) := fun _ => none
  bounds : Option (Bounds F32) := none

section
variable {Path : Type} (platform : Platform Path)

namespace ChartLayer
variable (layer : ChartLayer Path) (frame : Frame)

/-- The path of one series, `none` when it cannot be projected or built. -/
def pathOf (series : Series F64) (dashed : Bool) : Option Path × ChartLayer Path :=
  let key := gpuiPathKey frame.revision frame.viewport frame.bounds frame.dark dashed
  match (layer.gpuiPaths series.id.value).filter fun entry => entry.1 = key with
  | some (_, path) => (some path, layer)
  | none =>
    let projected := layer.projectionCache.pathFor series frame.revision frame.viewport frame.canvas
    let layer := { layer with projectionCache := projected.2 }
    match projected.1 with
    | .error _ => (none, layer)
    | .ok points =>
      match platform.buildStroke dashed (points.map (placed frame.bounds)) with
      | none => (none, layer)
      | some path =>
        (some path, { layer with gpuiPaths := Function.update layer.gpuiPaths series.id.value (some (key, path)) })

/-- The loop over the curves from an index on. -/
def pathsFrom (layer : ChartLayer Path) (index : Nat) :
    List CurveSeriesSnapshot → List (Path × UInt32) × ChartLayer Path
  | [] => ([], layer)
  | curve :: rest =>
    match curve.chartSeries with
    | none => pathsFrom layer (index + 1) rest
    | some series =>
      let painted := layer.pathOf platform frame series curve.dashed
      let others := pathsFrom painted.2 (index + 1) rest
      (painted.1.toList.map (fun path => (path, seriesColor index)) ++ others.1, others.2)

/-- `prepare` for one chart. -/
def prepare (snapshot : CurveSnapshot) (revision : UInt64) (viewport : Viewport F64) (bounds : Bounds F32)
    (dark : Bool) :
    List (Path × UInt32) × ChartLayer Path :=
  let layer := { layer with bounds := some bounds }
  match CanvasSize.new bounds.width.toF64 bounds.height.toF64 with
  | .error _ => ([], layer)
  | .ok canvas => layer.pathsFrom platform ⟨revision, viewport, bounds, canvas, dark⟩ 0 snapshot.series

end ChartLayer

/-! ## The adapter -/

structure ChartAdapter (Path : Type) where
  detail : ChartLayer Path := {}
  overview : ChartLayer Path := {}

namespace ChartAdapter
variable (adapter : ChartAdapter Path)

def clear (_ : ChartAdapter Path) : ChartAdapter Path := {}

def hitTest (snapshot : CurveSnapshot) (viewport : Viewport F64) (cursor : Position F32) : Option HoverPoint := do
  let bounds ← adapter.detail.bounds
  Pulseon.hitTest platform.hypot snapshot viewport bounds.width.toF64 bounds.height.toF64
    ⟨(cursor.x.sub bounds.originX).toF64, (cursor.y.sub bounds.originY).toF64⟩

def detailAxisAt (range : AxisRange F64) (cursor : Position F32) : Option F64 := do
  axisAt (← adapter.detail.bounds) range cursor

def detailPanDelta (range : AxisRange F64) (previousX : F64) (cursor : Position F32) : Option F64 := do
  panDelta (← adapter.detail.bounds) range previousX cursor

def overviewAxisAt (brush : BrushState F64) (cursor : Position F32) : Option F64 := do
  axisAt (← adapter.overview.bounds) brush.home cursor

def brushTarget (brush : BrushState F64) (cursor : Position F32) : Option BrushDragTarget := do
  brushTargetAt (← adapter.overview.bounds) brush cursor

def physicalWidths (scaleFactor : F32) : Option UInt32 × Option UInt32 :=
  (physicalWidth adapter.overview.bounds scaleFactor, physicalWidth adapter.detail.bounds scaleFactor)

end ChartAdapter

end

end Pulseon
