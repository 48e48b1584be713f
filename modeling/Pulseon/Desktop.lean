import Pulseon.Renderer
import Pulseon.Source

/-!
# The desktop

`ViewerApp` owns the viewer core, the read worker of the open source and the
chart adapter. Its steps are the user's actions, the timer of a zoom, an event of
the worker, a frame, and the steps of the worker's thread. What no step depends
on is left out: focus, styles and texts.
-/

namespace Pulseon

/-! ## Gestures -/

inductive DragGesture
  | brushStart
  | brushStop
  | brushWindow (lastAxis : F64)
  | detail (lastX : F64)
deriving DecidableEq, Repr

/-- The brush and the gesture after a move; `none` when the brush panics. -/
def updateBrushDrag (brush : BrushState F64) (gesture : DragGesture) (axis : F64) :
    Option (BrushState F64 × DragGesture) :=
  match gesture with
  | .brushStart =>
    if axis.lt brush.selected.stop then (brush.gesture (.resizeStart axis)).map fun r => (r.2, gesture)
    else some (brush, gesture)
  | .brushStop =>
    if brush.selected.start.lt axis then (brush.gesture (.resizeEnd axis)).map fun r => (r.2, gesture)
    else some (brush, gesture)
  | .brushWindow lastAxis =>
    (brush.gesture (.panBy (axis.sub lastAxis))).map fun r => (r.2, .brushWindow axis)
  | .detail _ => some (brush, gesture)

/-! ## The run list -/

/-- `trim` -/
def trimmed (text : String) : String :=
  String.ofList (((text.toList.dropWhile whiteSpace).reverse.dropWhile whiteSpace).reverse)

/-- `contains` of one text in another. -/
def containsText (text part : String) : Bool := decide (part.toList <:+: text.toList)

/-- `char::is_control` -/
def isControl (c : Char) : Bool := decide (c.val ≤ 0x1f) || (decide (0x7f ≤ c.val) && decide (c.val ≤ 0x9f))

section
variable (toLowercase : String → String)

def runMatchesFilter (run : Run) (query : String) : Bool :=
  let query := toLowercase (trimmed query)
  query.isEmpty || containsText (toLowercase run.name) query || containsText (toLowercase run.runId) query ||
    containsText (runStatusValue run.status) query

/-- `RunListCache::rebuild` -/
def filteredRuns (catalog : Option CatalogSnapshot) (filter : String) : List Run :=
  catalog.elim [] fun catalog => catalog.runs.filter fun run => runMatchesFilter toLowercase run filter

end

structure KeyDown where
  key : String
  keyChar : Option String
  platform : Bool
  control : Bool

/-- The filter after a key; `none` when the key is not the filter's. -/
def filterAfter (filter : String) (event : KeyDown) : Option String :=
  if event.key = "backspace" then some (filter.dropEnd 1).toString
  else if event.key = "escape" then some ""
  else if event.platform || event.control then none
  else some (filter ++ (event.keyChar.filter fun text => !text.toList.any isControl).getD "")

/-! ## The app -/

/-- The worker of the open source. -/
inductive WorkerHandle
  | absent | running | stopped
deriving DecidableEq, Repr

structure ViewerApp (Path : Type) where
  runFilter : String := ""
  runList : List Run := []
  sourcePath : Option String := none
  worker : WorkerHandle := .absent
  reader : Reader := {}
  nextGeneration : Generation := 1
  localError : Option String := none
  adapter : ChartAdapter Path := {}
  overviewRevision : Generation := 0
  detailRevision : Generation := 0
  overviewWidth : UInt32 := 1000
  detailWidth : UInt32 := 1000
  hover : Option HoverPoint := none
  drag : Option DragGesture := none
  zoomTask : Bool := false
  /-- What the mouse handlers of the last frame hold. -/
  frame : Option (CurveSnapshot × Viewport F64) := none

/-- The charts' places in a frame. -/
structure Layout where
  detail : Bounds F32
  overview : Bounds F32
  dark : Bool
  scaleFactor : F32

structure Drawing (Path : Type) where
  detail : Option (List (Path × UInt32))
  overview : Option (List (Path × UInt32))

def u64Max : Nat := 0xffffffffffffffff

namespace ViewerApp
variable {Path : Type} (platform : Platform Path) (app : ViewerApp Path)

def core : ViewerCore := app.reader.core

def setCore (core : ViewerCore) : ViewerApp Path := { app with reader := { app.reader with core := core } }

def rebuildRunList : ViewerApp Path :=
  { app with runList := filteredRuns platform.toLowercase app.core.catalog app.runFilter }

def error : Option String := app.localError.or app.core.lastError

/-! ## Requests -/

/-- The counter saturates. -/
def submit (request : ReadRequest) : ViewerApp Path :=
  match app.worker with
  | .absent => app
  | .running =>
    { app with
      nextGeneration := min (app.nextGeneration + 1) u64Max
      reader := app.reader.submit app.nextGeneration request }
  | .stopped =>
    { app with
      nextGeneration := min (app.nextGeneration + 1) u64Max
      localError := some "native read worker is closed" }

def refreshCatalog : ViewerApp Path :=
  app.submit (.discover ⟨app.core.selection.projectId, app.core.selection.runIds⟩)

def requestOverview : ViewerApp Path :=
  match app.core.curveSelection with
  | none => app
  | some selection => app.submit (.overview ⟨selection, app.overviewWidth⟩)

def requestDetail : ViewerApp Path :=
  match app.core.curveSelection with
  | none => app
  | some selection =>
    match app.core.selectedViewport with
    | none => app
    | some viewport => app.submit (.detail ⟨selection, viewport, app.detailWidth⟩)

/-! ## Sources -/

def openSource (path : String) (spawned : Except String Unit) : ViewerApp Path :=
  let closed := { app with
    worker := .absent, reader := {}, runList := [], adapter := app.adapter.clear, hover := none, drag := none,
    zoomTask := false, localError := none, sourcePath := some path }
  match spawned with
  | .ok () => refreshCatalog { closed with worker := .running }
  | .error error => { closed with localError := some error }

/-! ## Events -/

/-- What follows a snapshot that was applied. -/
def afterSnapshot (kind : ReadKind) (generation : Generation) : ViewerApp Path :=
  match kind with
  | .catalog =>
    let app := app.rebuildRunList platform
    if app.core.curveSelection.isSome then app.requestOverview else app
  | .overview => requestDetail { app with overviewRevision := generation }
  | .detail => { app with detailRevision := generation }

/-- The first event of the queue; `none` when there is none, or the core panics. -/
def applyEvent : Option (ViewerApp Path) :=
  match app.reader.events with
  | [] => none
  | event :: _ =>
    (app.core.apply event).bind fun applied => (app.reader.deliver).map fun reader =>
      if applied.2 = .applied ∧ event.result.isOk then
        afterSnapshot platform { app with reader := reader } event.kind event.generation
      else { app with reader := reader }

/-! ## Actions -/

def onRefresh : ViewerApp Path := refreshCatalog { app with localError := none }

def onReset : ViewerApp Path :=
  if app.core.resetView.2 then requestDetail (app.setCore app.core.resetView.1) else app

def onAxis (axis : AlignmentAxis) : ViewerApp Path := requestOverview (app.setCore (app.core.selectAxis axis))

def selectProject (projectId : ProjectId) : ViewerApp Path :=
  refreshCatalog
    (rebuildRunList platform { app.setCore (app.core.selectProject (some projectId)) with runFilter := "" })

def toggleRun (runId : RunId) : ViewerApp Path :=
  match (app.core.toggleRun runId).2 with
  | .ok _ => refreshCatalog { app.setCore (app.core.toggleRun runId).1 with localError := none }
  | .error _ => { app with localError := some "at most 10 Runs can be selected" }

def selectMetric (metricKey : MetricKey) : ViewerApp Path :=
  requestOverview (app.setCore (app.core.selectMetric (some metricKey)))

def onFilterKey (event : KeyDown) : ViewerApp Path :=
  match filterAfter app.runFilter event with
  | none => app
  | some filter => rebuildRunList platform { app with runFilter := filter }

/-! ## Drags -/

def dragTarget (brush : BrushState F64) (cursor : Position F32) : Option DragGesture := do
  match ← app.adapter.brushTarget brush cursor with
  | .start => some .brushStart
  | .stop => some .brushStop
  | .window => (app.adapter.overviewAxisAt brush cursor).map .brushWindow

def beginBrushDrag (cursor : Position F32) : ViewerApp Path :=
  match app.core.brush with
  | none => app
  | some brush => { app with drag := app.dragTarget brush cursor, hover := none }

def moveBrushDrag (cursor : Position F32) : Option (ViewerApp Path) :=
  match app.drag with
  | none => some app
  | some gesture =>
    match app.core.brush with
    | none => some app
    | some brush =>
      match app.adapter.overviewAxisAt brush cursor with
      | none => some app
      | some axis => (updateBrushDrag brush gesture axis).map fun moved =>
        { app.setCore (app.core.moveBrush moved.1) with drag := some moved.2 }

def beginDetailDrag (cursor : Position F32) : ViewerApp Path :=
  match app.core.brush with
  | none => app
  | some brush =>
    { app with
      drag := (app.adapter.detailAxisAt brush.selected cursor).map fun _ => .detail cursor.x.toF64
      hover := none }

def moveDetailDrag (cursor : Position F32) : Option (ViewerApp Path) :=
  match app.drag with
  | some (.detail lastX) =>
    match app.core.brush with
    | none => some app
    | some brush =>
      match app.adapter.detailPanDelta brush.selected lastX cursor with
      | none => some app
      | some delta => (brush.gesture (.panBy delta)).map fun moved =>
        { app.setCore (app.core.moveBrush moved.2) with drag := some (.detail cursor.x.toF64) }
  | _ => some app

def finishDrag : ViewerApp Path :=
  if app.drag.isSome then requestDetail { app with drag := none } else app

/-! ## Zooms -/

/-- The factor of a wheel's move by so many pixels, between a half and two. -/
def zoomFactor (delta : F32) : F64 :=
  ((platform.exp ((delta.neg).div ⟨0x43700000⟩)).clamp ⟨0x3f000000⟩ ⟨0x40000000⟩).toF64

/-- The gesture restarts the timer unless the brush refuses it. -/
def zoomDetail (cursor : Position F32) (delta : F32) : Option (ViewerApp Path) :=
  match app.core.brush with
  | none => some app
  | some brush =>
    match app.adapter.detailAxisAt brush.selected cursor with
    | none => some app
    | some anchor => (brush.gesture (.zoomAt anchor (zoomFactor platform delta))).map fun zoomed =>
      if zoomed.1.isOk then { app.setCore (app.core.moveBrush zoomed.2) with zoomTask := true } else app

/-- The timer of the last zoom. -/
def onZoomTimer : Option (ViewerApp Path) :=
  if app.zoomTask then some (requestDetail { app with zoomTask := false }) else none

/-! ## Frames -/

def reconcileCanvasWidths (scaleFactor : F32) : ViewerApp Path :=
  let widths := app.adapter.physicalWidths scaleFactor
  let overviewChanged := widths.1.any fun width => width != app.overviewWidth
  let detailChanged := widths.2.any fun width => width != app.detailWidth
  let app := { app with
    overviewWidth := widths.1.getD app.overviewWidth, detailWidth := widths.2.getD app.detailWidth }
  let app := if overviewChanged then app.requestOverview else app
  if detailChanged then app.requestDetail else app

/-- The detail chart is rendered over a catalog with projects. -/
def shownDetail : Option (CurveSnapshot × Viewport F64) :=
  if app.core.catalog.any fun catalog => !catalog.projects.isEmpty then do
    let snapshot ← app.core.detail
    let viewport ← snapshot.detailViewport (app.core.brush.map BrushState.selected)
    return (snapshot, viewport)
  else none

/-- The overview is rendered below the detail chart. -/
def shownOverview : Option (CurveSnapshot × Viewport F64) := do
  let _ ← app.shownDetail
  let snapshot ← app.core.overview
  let brush ← app.core.brush
  let viewport ← snapshot.overviewViewport brush
  return (snapshot, viewport)

/-- Whether the label that the viewport is updating stands over the detail chart. -/
def updatingViewport (snapshot : CurveSnapshot) : Bool :=
  app.core.isPending .detail || app.core.brush.any fun brush => !snapshot.selectionCovered brush.selected

def drawLayer (layer : ChartLayer Path) (shown : Option (CurveSnapshot × Viewport F64)) (revision : Generation)
    (bounds : Bounds F32) (dark : Bool) : Option (List (Path × UInt32)) × ChartLayer Path :=
  match shown with
  | none => (none, layer)
  | some (snapshot, viewport) =>
    let prepared := layer.prepare platform snapshot (UInt64.ofNat revision) viewport bounds dark
    (some prepared.1, prepared.2)

/-- `render` and the painting of the frame. -/
def draw (layout : Layout) : Drawing Path × ViewerApp Path :=
  let app := app.reconcileCanvasWidths layout.scaleFactor
  let detail := drawLayer platform app.adapter.detail app.shownDetail app.detailRevision layout.detail layout.dark
  let overview :=
    drawLayer platform app.adapter.overview app.shownOverview app.overviewRevision layout.overview layout.dark
  (⟨detail.1, overview.1⟩, { app with adapter := ⟨detail.2, overview.2⟩, frame := app.shownDetail })

/-- A move of the mouse without a button. -/
def onHover (cursor : Position F32) : Option (ViewerApp Path) :=
  app.frame.map fun shown => { app with hover := app.adapter.hitTest platform shown.1 shown.2 cursor }

end ViewerApp

/-! ## Steps -/

/-- The steps of the worker's thread. -/
inductive WorkerOp
  | recv | drain | drained | take
  | execute (session : Except String ReadSession)

def WorkerOp.toReader : WorkerOp → ReaderOp
  | .recv => .recv
  | .drain => .drain
  | .drained => .drained
  | .take => .take
  | .execute session => .execute session

inductive AppOp
  | openSource (path : String) (spawned : Except String Unit)
  | pickerFailed (error : String)
  | refresh
  | reset
  | selectAxis (axis : AlignmentAxis)
  | selectProject (projectId : ProjectId)
  | toggleRun (runId : RunId)
  | selectMetric (metricKey : MetricKey)
  | filterKey (event : KeyDown)
  | beginBrushDrag (cursor : Position F32)
  | moveBrushDrag (cursor : Position F32)
  | beginDetailDrag (cursor : Position F32)
  | moveDetailDrag (cursor : Position F32)
  | finishDrag
  | zoomDetail (cursor : Position F32) (delta : F32)
  | zoomTimer
  | hover (cursor : Position F32)
  | leave
  | draw (layout : Layout)
  | event
  | work (op : WorkerOp)
  | workerStopped

def ViewerApp.step {Path : Type} (platform : Platform Path) (app : ViewerApp Path) : AppOp → Option (ViewerApp Path)
  | .openSource path spawned => some (app.openSource path spawned)
  | .pickerFailed error => some { app with localError := some error }
  | .refresh => some app.onRefresh
  | .reset => some app.onReset
  | .selectAxis axis => some (app.onAxis axis)
  | .selectProject projectId => some (app.selectProject platform projectId)
  | .toggleRun runId => some (app.toggleRun runId)
  | .selectMetric metricKey => some (app.selectMetric metricKey)
  | .filterKey event => some (app.onFilterKey platform event)
  | .beginBrushDrag cursor => some (app.beginBrushDrag cursor)
  | .moveBrushDrag cursor => app.moveBrushDrag cursor
  | .beginDetailDrag cursor => some (app.beginDetailDrag cursor)
  | .moveDetailDrag cursor => app.moveDetailDrag cursor
  | .finishDrag => some app.finishDrag
  | .zoomDetail cursor delta => app.zoomDetail platform cursor delta
  | .zoomTimer => app.onZoomTimer
  | .hover cursor => app.onHover platform cursor
  | .leave => some { app with hover := none }
  | .draw layout => some (app.draw platform layout).2
  | .event => app.applyEvent platform
  | .work op =>
    match app.worker with
    | .running => (app.reader.step op.toReader).map fun reader => { app with reader := reader }
    | _ => none
  | .workerStopped =>
    match app.worker with
    | .running => some { app with worker := .stopped }
    | _ => none

end Pulseon
