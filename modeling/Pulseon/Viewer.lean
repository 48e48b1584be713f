import Pulseon.Curves
import Pulseon.Steps

/-!
# The viewer core

`ViewerCore` reconciles the user's selection with the snapshots that the read
worker returns. `Reading` adds the requests that were begun, by generation: its
steps are the user's operations, a request built from the state, and an event of
some request, at any time and any number of times. An error is its text.
-/

namespace Pulseon

def maxSelectedRuns : Nat := 10

structure DiscoveryRequest where
  projectId : Option ProjectId
  selectedRunIds : List RunId
deriving DecidableEq, Repr

structure CatalogSnapshot where
  projects : List Project
  runs : List Run
  metricKeys : List MetricKey
deriving DecidableEq, Repr

abbrev Generation := Nat

inductive ReadKind
  | catalog | overview | detail
deriving DecidableEq, Repr

inductive ReadRequest
  | discover (request : DiscoveryRequest)
  | overview (request : OverviewRequest)
  | detail (request : DetailRequest)

def ReadRequest.kind : ReadRequest → ReadKind
  | .discover _ => .catalog
  | .overview _ => .overview
  | .detail _ => .detail

inductive ReadSnapshot
  | catalog (snapshot : CatalogSnapshot)
  | overview (snapshot : CurveSnapshot)
  | detail (snapshot : CurveSnapshot)

def ReadSnapshot.kind : ReadSnapshot → ReadKind
  | .catalog _ => .catalog
  | .overview _ => .overview
  | .detail _ => .detail

structure ReadEvent where
  generation : Generation
  kind : ReadKind
  result : Except String ReadSnapshot

structure ViewerSelection where
  projectId : Option ProjectId := none
  runIds : List RunId := []
  metricKey : Option MetricKey := none
deriving DecidableEq, Repr

inductive ApplyOutcome
  | applied | ignoredStale | ignoredMismatched
deriving DecidableEq, Repr

inductive SelectionError
  | runLimit
deriving DecidableEq, Repr

structure ViewerCore where
  selection : ViewerSelection := {}
  axis : AlignmentAxis := .step
  brush : Option (BrushState F64) := none
  catalog : Option CatalogSnapshot := none
  overview : Option CurveSnapshot := none
  detail : Option CurveSnapshot := none
  expected : ReadKind → Option Generation := fun _ => none
  lastError : Option String := none

inductive UserOp
  | selectProject (projectId : Option ProjectId)
  | toggleRun (runId : RunId)
  | selectMetric (metricKey : Option MetricKey)
  | selectAxis (axis : AlignmentAxis)
  | resetSource
  | resetView
  | moveBrush (brush : BrushState F64)

namespace ViewerCore
variable (core : ViewerCore)

def setExpected (kind : ReadKind) (generation : Option Generation) : ViewerCore :=
  { core with expected := fun k => if k = kind then generation else core.expected k }

def clearCurves : ViewerCore :=
  { (core.setExpected .overview none).setExpected .detail none with
    brush := none, overview := none, detail := none, lastError := none }

/-! ## Operations of the user -/

def resetSource (_ : ViewerCore) : ViewerCore := {}

def selectProject (projectId : Option ProjectId) : ViewerCore :=
  if core.selection.projectId = projectId then core
  else clearCurves { core with
    selection := { projectId := projectId }
    catalog := core.catalog.map fun catalog => { catalog with runs := [], metricKeys := [] } }

def toggleRun (runId : RunId) : ViewerCore × Except SelectionError Bool :=
  if runId ∈ core.selection.runIds then
    (clearCurves { core with selection := { core.selection with runIds := core.selection.runIds.erase runId } },
      .ok false)
  else if core.selection.runIds.length = maxSelectedRuns then (core, .error .runLimit)
  else
    (clearCurves { core with selection := { core.selection with runIds := core.selection.runIds ++ [runId] } },
      .ok true)

def selectMetric (metricKey : Option MetricKey) : ViewerCore :=
  if core.selection.metricKey = metricKey then core
  else clearCurves { core with selection := { core.selection with metricKey := metricKey } }

def selectAxis (axis : AlignmentAxis) : ViewerCore :=
  if core.axis = axis then core else clearCurves { core with axis := axis }

def resetView : ViewerCore × Bool := ({ core with brush := core.brush.map BrushState.reset }, core.brush.isSome)

/-- What a gesture does through `brush_mut`. -/
def moveBrush (brush : BrushState F64) : ViewerCore := { core with brush := core.brush.map fun _ => brush }

def change : UserOp → ViewerCore
  | .selectProject projectId => core.selectProject projectId
  | .toggleRun runId => (core.toggleRun runId).1
  | .selectMetric metricKey => core.selectMetric metricKey
  | .selectAxis axis => core.selectAxis axis
  | .resetSource => core.resetSource
  | .resetView => core.resetView.1
  | .moveBrush brush => core.moveBrush brush

/-! ## Requests -/

def selectedViewport : Option AlignmentViewport :=
  core.brush.bind fun brush =>
    (AlignmentViewport.new brush.selected.start.floor.toI64 brush.selected.stop.ceil.toI64).toOption

def curveSelection : Option CurveSelection :=
  if core.selection.runIds = [] then none
  else core.selection.metricKey.map fun metricKey => ⟨core.selection.runIds, metricKey, core.axis⟩

/-- The requests that the desktop builds from the state. -/
inductive Builds : ReadRequest → Prop
  | refreshCatalog : Builds (.discover ⟨core.selection.projectId, core.selection.runIds⟩)
  | requestOverview {selection} (width : UInt32) (h : core.curveSelection = some selection) :
      Builds (.overview ⟨selection, width⟩)
  | requestDetail {selection viewport} (width : UInt32) (h : core.curveSelection = some selection)
      (hv : core.selectedViewport = some viewport) : Builds (.detail ⟨selection, viewport, width⟩)

def begin (generation : Generation) (request : ReadRequest) : ViewerCore :=
  { core.setExpected request.kind (some generation) with lastError := none }

def isPending (kind : ReadKind) : Bool := (core.expected kind).isSome

/-! ## Events -/

/-- The selection that a catalog leaves. -/
def reconciled (snapshot : CatalogSnapshot) : ViewerSelection :=
  if core.selection.projectId.any fun projectId => snapshot.projects.any fun project =>
    project.projectId == projectId then
    { core.selection with
      runIds := (snapshot.runs.filter fun run => core.selection.runIds.contains run.runId).map Run.runId
      metricKey := core.selection.metricKey.filter fun metricKey => snapshot.metricKeys.contains metricKey }
  else {}

def applyCatalog (snapshot : CatalogSnapshot) : ViewerCore :=
  let selection := core.reconciled snapshot
  if selection = core.selection then { core with catalog := some snapshot }
  else { (core.setExpected .overview none).setExpected .detail none with
    selection := selection, overview := none, detail := none, catalog := some snapshot }

/-- The brush over a range, with the part of the last one that was selected. -/
def brushOver (previous : Option (BrushState F64)) (range : AlignmentViewport) : Option (Option (BrushState F64)) :=
  match AxisRange.new (F64.ofInt range.start) (F64.ofInt range.stop) with
  | .error _ => some none
  | .ok home =>
    match BrushState.new home with
    | .error _ => some none
    | .ok brush =>
      match previous with
      | none => some (some brush)
      | some old => do
        match ← brush.resizeStart old.selected.start with
        | .error _ => some none
        | .ok brush =>
          match ← brush.resizeEnd old.selected.stop with
          | .error _ => some none
          | .ok brush => some (some brush)

def overviewBrush (snapshot : CurveSnapshot) : Option (Option (BrushState F64)) :=
  match snapshot.realRange with
  | none => some none
  | some range => brushOver core.brush range

def storeOverview (snapshot : CurveSnapshot) (brush : Option (BrushState F64)) : ViewerCore :=
  if brush.isNone then
    { core.setExpected .detail none with brush := none, detail := none, overview := some snapshot }
  else { core with brush := brush, overview := some snapshot }

/-- `none` when moving the new brush's handles panics. -/
def applyOverview (snapshot : CurveSnapshot) : Option ViewerCore :=
  (core.overviewBrush snapshot).map (core.storeOverview snapshot)

def apply (event : ReadEvent) : Option (ViewerCore × ApplyOutcome) :=
  if core.expected event.kind ≠ some event.generation then some (core, .ignoredStale)
  else
    let received := core.setExpected event.kind none
    match event.result with
    | .error error => some ({ received with lastError := some error }, .applied)
    | .ok snapshot =>
      if snapshot.kind ≠ event.kind then some (core, .ignoredMismatched)
      else match snapshot with
        | .catalog snapshot => some (received.applyCatalog snapshot, .applied)
        | .overview snapshot => (received.applyOverview snapshot).map fun core => (core, .applied)
        | .detail snapshot => some ({ received with detail := some snapshot }, .applied)

/-- The stored curves of a selection are the current ones. -/
def Selects (selection : CurveSelection) : Prop :=
  selection.runIds = core.selection.runIds ∧ core.selection.metricKey = some selection.metricKey ∧
    selection.axis = core.axis

end ViewerCore

/-! ## Runs -/

inductive ReadingOp
  | change (op : UserOp)
  | begin (generation : Generation) (request : ReadRequest)
  | apply (event : ReadEvent)

/-- The core with the requests that were begun. -/
structure Reading where
  core : ViewerCore := {}
  begun : List (Generation × ReadRequest) := []

def Reading.step (r : Reading) : ReadingOp → Option Reading
  | .change op => some { r with core := r.core.change op }
  | .begin generation request => some ⟨r.core.begin generation request, (generation, request) :: r.begun⟩
  | .apply event => (r.core.apply event).map fun applied => { r with core := applied.1 }

/-- A request is built from the state under a new generation; an event is one
of a request, and carries what the request returned or an error. -/
def Reading.Legal (returns : ReadRequest → ReadSnapshot → Prop) (r : Reading) : ReadingOp → Prop
  | .begin generation request => r.core.Builds request ∧ ∀ b ∈ r.begun, b.1 ≠ generation
  | .apply event => ∃ request, (event.generation, request) ∈ r.begun ∧ event.kind = request.kind ∧
      ∀ snapshot, event.result = .ok snapshot → returns request snapshot
  | .change _ => True

end Pulseon
